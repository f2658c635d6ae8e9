import Sag.Browser
import Sag.Store.Pressure
import Sag.Store.Windows
import Sag.Store.Counting
import Sag.Email
import Sag.Mime
import Sag.Smtp
import Sag.Keys.Peers
import Sag.LocalIdentities.Documents
import Sag.LocalIdentities.RoundTrip
import Sag.RelyingParty
import Sag.Properties.Accounts
import Sag.Properties.Principals
import Sag.Properties.Acr
import Sag.Properties.Addresses
import Sag.Properties.Assertions
import Sag.Properties.Codecs
import Sag.Properties.Codes
import Sag.Properties.Cookies
import Sag.Properties.Credentials
import Sag.Properties.Der
import Sag.Properties.Documents
import Sag.Properties.Durable
import Sag.Properties.Envelope
import Sag.Properties.Replay
import Sag.Properties.Sends
import Sag.Properties.Factors
import Sag.Properties.Guessing
import Sag.Properties.Lifetime
import Sag.Properties.Mfa
import Sag.Properties.Otp
import Sag.Properties.Peers
import Sag.Properties.Permits
import Sag.Properties.Replace
import Sag.Properties.QuotedPrintable
import Sag.Properties.Sealing
import Sag.Properties.Signing
import Sag.Properties.Smtp
import Sag.Properties.Readable
import Sag.Properties.Relayed
import Sag.Properties.RekeyRuns
import Sag.Properties.Exchanges
import Sag.Properties.Clients
import Sag.Properties.Fetches
import Sag.Properties.Reauthentication
import Sag.Properties.RedirectUris
import Sag.Properties.Redirects
import Sag.Properties.Refusals
import Sag.Properties.Revocation
import Sag.Properties.Sessions
import Sag.Properties.Subjects
import Sag.Properties.Upstreams
import Sag.Properties.Usable
import Sag.Lib.ChainLock
