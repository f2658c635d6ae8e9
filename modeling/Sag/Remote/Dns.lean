import Sag.Remote.Effects

/-!
# Mail records

`upstream/dns.js`: which mail provider serves a domain, as far as its MX records say, or else its SPF
record. The records come from the platform's resolver where there is one, and otherwise from a
DNS-over-HTTPS resolver; a failure of either is an answer without records.
-/

namespace Sag

open Resumable

variable (rt : Runtime)

structure DnsConfig where
  hint : DnsHint
  /-- An adapter has supplied a resolver. -/
  resolver : Bool
  cacheTtlSeconds : Nat

/-! ## Records -/

def MAX_DNS_RESPONSE_BYTES : Nat := 64 * 1024

/-- The number of a record type. -/
def DnsType.code : DnsType → Nat
  | .a => 1
  | .aaaa => 28
  | .mx => 15
  | .txt => 16

/-- The data of the answers of one type. -/
def answersOf (type : DnsType) (doc : Json) : Except RemoteError (List JsString) :=
  if doc.same .null then .error .engine
  else
    match doc.get (js "Answer") with
    | some (.arr answers) =>
      if answers.any (Json.same .null) then .error .engine
      else
        .ok (answers.filterMap fun answer =>
          if (answer.get (js "type")).any fun t => t.same (.ofNat type.code) then
            (answer.get (js "data")).bind Json.string?
          else none)
    | _ => .ok []

/-- The records in an answer of the DNS-over-HTTPS resolver. -/
def recordsOf (type : DnsType) (res : Fetched) : Except RemoteError (List JsString) :=
  if !res.ok then .error (remoteError (js "DNS resolver returned HTTP " ++ decimal res.status))
  else (readJsonLimited rt res MAX_DNS_RESPONSE_BYTES).bind (answersOf type)

/-- Ask the DNS-over-HTTPS resolver. -/
def queryRecords (name : JsString) (type : DnsType) : R (List JsString) := do
  let res ← fetchWithTimeout (.dns name type)
  Prog.ofExcept (F := remote) (recordsOf rt type res)

/-- Ask the platform's resolver. -/
def resolveRecords (name : JsString) (type : DnsType) : R (List JsString) := do
  match ← request (.resolve name type) with
  | .error e => refuse (.thrown e)
  | .ok records => pure records

/-- The platform's resolver is asked where there is one. -/
def findRecords (dns : DnsConfig) (name : JsString) (type : DnsType) : R (List JsString) :=
  if dns.resolver then resolveRecords name type else queryRecords rt name type

/-- The records of one type for a domain, in lower case, and none on any failure. -/
def mailRecords (dns : DnsConfig) (domain : JsString) (type : DnsType) : R (List JsString) := do
  let records ← Prog.settled (findRecords rt dns domain type)
  pure ((records.toOption.getD []).map rt.cases.toLowerCase)

/-! ## Fingerprints -/

structure Fingerprint where
  provider : JsString
  mx : List JsString
  spf : List JsString

def FINGERPRINTS : List Fingerprint :=
  [ { provider := js "microsoft"
      mx := [js "mail.protection.outlook.com", js "mail.eo.outlook.com", js "olc.protection.outlook.com",
        js "outlook.com"]
      spf := [js "spf.protection.outlook.com", js "spf.messaging.microsoft.com", js "spf.protection.office365.us"] },
    { provider := js "google"
      mx := [js "aspmx.l.google.com", js "googlemail.com", js "aspmx.google.com", js "smtp.google.com"]
      spf := [js "_spf.google.com"] },
    { provider := js "yahoo", mx := [js "yahoodns.net", js "yahoo.com"], spf := [js "spf.mail.yahoo.com"] },
    { provider := js "apple", mx := [js "icloud.com", js "mail.icloud.com"], spf := [js "spf.icloud.com"] },
    { provider := js "zoho"
      mx := [js "zoho.com", js "zoho.eu", js "zohomail.com"]
      spf := [js "zoho.com", js "zoho.eu"] },
    { provider := js "proton", mx := [js "protonmail.ch", js "proton.me"], spf := [js "_spf.protonmail.ch"] },
    { provider := js "fastmail"
      mx := [js "messagingengine.com", js "fastmail.com"]
      spf := [js "spf.messagingengine.com"] } ]

/-- `10 mail.protection.outlook.com.` -> `mail.protection.outlook.com` -/
def mxHost (data : JsString) : JsString :=
  let host := (splitWhere isSpace (trim data)).getLastD []
  if host.getLast? = some dot then host.dropLast else host

def matchMx (records : List JsString) : Option JsString :=
  records.findSome? fun record =>
    (FINGERPRINTS.find? fun print =>
      print.mx.any fun suffix => mxHost record = suffix || (dot :: suffix).isSuffixOf (mxHost record)).map (·.provider)

def doubleQuote : CodeUnit := 34

/-- `text.replace(/"\s*"/g, '')`. `held` is the white space since a quotation mark that may yet
turn out to end a chunk. -/
def joinChunks : JsString → Option JsString → JsString
  | [], none => []
  | [], some held => doubleQuote :: held
  | u :: rest, none => if u = doubleQuote then joinChunks rest (some []) else u :: joinChunks rest none
  | u :: rest, some held =>
    if u = doubleQuote then joinChunks rest none
    else if isSpace u then joinChunks rest (some (held ++ [u]))
    else doubleQuote :: held ++ u :: joinChunks rest none

/-- The text of TXT records, without the quotation marks of their chunks. -/
def txtText (records : List JsString) : JsString :=
  [32].intercalate (records.map fun record => (joinChunks record none).filter (· ≠ doubleQuote))

def matchSpf (records : List JsString) : Option JsString :=
  let text := txtText records
  if !includes (js "v=spf1") text then none
  else (FINGERPRINTS.find? fun print => print.spf.any fun needle => includes needle text).map (·.provider)

/-! ## Domains -/

/-- `/^[a-z0-9-]+$/`, not too long, and with no hyphen at either end. -/
def isMailLabel (label : JsString) : Bool :=
  label ≠ [] && label.length ≤ 63 && (label.all fun u => isLower u || isDigit u || u = hyphen) &&
    label.head? ≠ some hyphen && label.getLast? ≠ some hyphen

def validMailDomain (domain : JsString) : Bool :=
  domain ≠ [] && domain.length ≤ 253 && 2 ≤ (split dot domain).length && (split dot domain).all isMailLabel

/-- The consumer mail route is useful only alongside Microsoft's consumer tenant id. -/
def microsoftConsumerMx (dns : DnsConfig) (domain : Option JsString) : R Bool :=
  match domain.filter validMailDomain with
  | none => pure false
  | some domain => do
    let records ← mailRecords rt dns domain .mx
    pure (records ≠ [] && records.all fun record => (js ".olc.protection.outlook.com").isSuffixOf (mxHost record))

def MISS_TTL_SECONDS : Nat := 300

/-- Keep an answer, and give it. -/
def rememberProvider (domain : JsString) (result : Option MailProvider) (ttlSeconds : Nat) :
    R (Option MailProvider) := do
  keepFor .mail domain result ttlSeconds
  pure result

/-- Which mail provider serves this domain, as far as DNS will say. -/
def mailProviderFor (dns : DnsConfig) (domain : JsString) : R (Option MailProvider) :=
  if domain = [] || dns.hint = .off || !validMailDomain domain then pure none
  else do
    let (_, cached) ← cachedAt .mail domain
    match cached with
    | some result => pure result
    | none =>
      match matchMx (← mailRecords rt dns domain .mx) with
      | some provider => rememberProvider domain (some ⟨provider, .mx⟩) dns.cacheTtlSeconds
      | none =>
        match matchSpf (← mailRecords rt dns domain .txt) with
        | some provider => rememberProvider domain (some ⟨provider, .spf⟩) dns.cacheTtlSeconds
        | none => rememberProvider domain none (min dns.cacheTtlSeconds MISS_TTL_SECONDS)

/-! ## What the functions find -/

/-- What there has been to know of the records of a name. -/
def RecordsFound (C : Rely remote) (dns : DnsConfig) (name : JsString) (type : DnsType)
    (records : Except RemoteError (List JsString)) : Prop :=
  if dns.resolver then ∃ answer, C.Saw (.resolve name type) answer ∧ records = answer.mapError .thrown
  else ∃ answer, C.Saw (.fetch (.dns name type)) answer ∧ records = (landed answer).bind (recordsOf rt type)

/-- The records that a domain is judged by. -/
def MailRecords (C : Rely remote) (dns : DnsConfig) (domain : JsString) (type : DnsType) (records : List JsString) :
    Prop :=
  ∃ found, RecordsFound rt C dns domain type found ∧
    records = (found.toOption.getD []).map rt.cases.toLowerCase

/-- What the records of a domain say, and how long that is good for. SPF counts where MX says nothing. -/
inductive MailAnswer (C : Rely remote) (dns : DnsConfig) (domain : JsString) : Option MailProvider → Nat → Prop where
  | mx (records : List JsString) (provider : JsString) (found : MailRecords rt C dns domain .mx records)
      (hit : matchMx records = some provider) : MailAnswer C dns domain (some ⟨provider, .mx⟩) dns.cacheTtlSeconds
  | spf (records texts : List JsString) (provider : JsString) (found : MailRecords rt C dns domain .mx records)
      (miss : matchMx records = none) (read : MailRecords rt C dns domain .txt texts)
      (hit : matchSpf texts = some provider) : MailAnswer C dns domain (some ⟨provider, .spf⟩) dns.cacheTtlSeconds
  | none (records texts : List JsString) (found : MailRecords rt C dns domain .mx records)
      (miss : matchMx records = none) (read : MailRecords rt C dns domain .txt texts)
      (unread : matchSpf texts = none) : MailAnswer C dns domain none (min dns.cacheTtlSeconds MISS_TTL_SECONDS)

variable {rt} {C : Contract remote} {dns : DnsConfig}

theorem findRecords_always (hC : Quiet C) (name : JsString) (type : DnsType) :
    (findRecords rt dns name type).Always C (fun e => RecordsFound rt C.toRely dns name type (.error e))
      fun records => RecordsFound rt C.toRely dns name type (.ok records) := by
  unfold findRecords RecordsFound
  split
  · refine Prog.Always.bind (.await fun h t _ => hC h t _ rfl) fun answer hanswer => ?_
    split
    · exact fun _ => ⟨_, hanswer, rfl⟩
    · exact fun _ => ⟨_, hanswer, rfl⟩
  · refine Prog.Always.bind (p := request (.fetch (.dns name type))) (.await fun h t _ => hC h t _ rfl) ?_
    intro answer hanswer s
    refine Prog.sat_bind.mpr (Prog.sat_ofExcept.mpr ⟨fun res hres => Prog.sat_ofExcept.mpr ⟨?_, ?_⟩, fun e he => ?_⟩)
    · exact fun records hrecords => ⟨answer, hanswer, by rw [hres]; exact hrecords.symm⟩
    · exact fun e he => ⟨answer, hanswer, by rw [hres]; exact he.symm⟩
    · exact ⟨answer, hanswer, by rw [he]; rfl⟩

theorem mailRecords_always {E : RemoteError → Prop} (hC : Quiet C) (domain : JsString) (type : DnsType) :
    (mailRecords rt dns domain type).Always C E (MailRecords rt C.toRely dns domain type) := by
  refine Prog.Always.bind (findRecords_always hC domain type).settled fun found hfound _ => ⟨found, ?_, rfl⟩
  cases found with
  | ok records => exact hfound.1 records rfl
  | error e => exact hfound.2 e rfl

theorem microsoftConsumerMx_always {E : RemoteError → Prop} (hC : Quiet C) (domain : Option JsString) :
    (microsoftConsumerMx rt dns domain).Always C E fun _ => True := by
  unfold microsoftConsumerMx
  split
  · exact fun _ => trivial
  · exact Prog.Always.bind (mailRecords_always hC _ _) fun _ _ _ => trivial

theorem rememberProvider_always {E : RemoteError → Prop} {domain : JsString} {result : Option MailProvider} {ttl : Nat}
    (hkeep : ∀ h t, C.issue h t (.remember .mail domain ⟨result, t + ttl⟩)) :
    (rememberProvider domain result ttl).Always C E fun kept => kept = result :=
  Prog.Always.bind (fun _ => keepFor_sat fun t _ => hkeep _ t) fun _ _ _ => rfl

/-- What is kept of a domain is what its records say, and what is returned was good when it was looked for, or
has just been read. -/
theorem mailProviderFor_always {E : RemoteError → Prop} (hC : Quiet C) {domain : JsString}
    (hkeep : ∀ result ttl, MailAnswer rt C.toRely dns domain result ttl → ∀ h t,
      C.issue h t (.remember .mail domain ⟨result, t + ttl⟩)) :
    (mailProviderFor rt dns domain).Always C E fun result =>
      ((domain = [] ∨ dns.hint = .off ∨ validMailDomain domain = false) ∧ result = none) ∨
        FromCache C.toRely .mail domain result ∨ ∃ ttl, MailAnswer rt C.toRely dns domain result ttl := by
  have keep : ∀ {result ttl}, MailAnswer rt C.toRely dns domain result ttl →
      (rememberProvider domain result ttl).Always C E fun result =>
        ((domain = [] ∨ dns.hint = .off ∨ validMailDomain domain = false) ∧ result = none) ∨
          FromCache C.toRely .mail domain result ∨ ∃ ttl, MailAnswer rt C.toRely dns domain result ttl := by
    intro result ttl hanswer
    refine (rememberProvider_always (hkeep result ttl hanswer)).mono fun kept hkept => ?_
    exact Or.inr (Or.inr ⟨ttl, hkept ▸ hanswer⟩)
  unfold mailProviderFor
  split
  · next hskip =>
    refine fun _ => Or.inl ⟨?_, rfl⟩
    simpa [or_assoc] using hskip
  · intro s
    refine Prog.sat_bind.mpr ((cachedAt_sat hC .mail domain).mono (fun _ _ he => he) fun s₁ r hr => ?_)
    obtain ⟨now, found⟩ := r
    obtain ⟨cached, hnow, hcached, hfound, -⟩ := hr
    cases found with
    | some result => exact Or.inr (Or.inl (fromCache hnow hcached hfound))
    | none =>
      refine Prog.Always.bind (mailRecords_always hC domain .mx) (fun records hrecords => ?_) s₁
      split
      · next provider hit => exact keep (.mx records provider hrecords hit)
      · next miss =>
        refine Prog.Always.bind (mailRecords_always hC domain .txt) fun texts htexts => ?_
        split
        · next provider hit => exact keep (.spf records texts provider hrecords miss htexts hit)
        · next unread => exact keep (.none records texts hrecords miss htexts unread)

end Sag
