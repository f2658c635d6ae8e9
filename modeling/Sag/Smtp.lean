import Sag.Mime

/-!
# One conversation with a relay

`email/smtp.js`: the lines that `deliver` gives to `session.command`, each of which is sent with
a line end behind it. A conversation goes on as long as the relay answers as it should, so what is
sent is a beginning of this list.
-/

namespace Sag

/-- What is known of the relay from `SMTP_URL`. -/
structure SmtpOptions where
  secure : Bool
  requireTls : Bool
  username : Option JsString
  password : Option JsString

/-- The method of authentication that the relay advertises. -/
inductive SmtpAuth where
  | plain
  | login
  deriving DecidableEq, Repr

/-- `b64Text`. -/
def b64Text (s : JsString) : JsString := b64 (utf8 s)

def authCommands (options : SmtpOptions) (auth : SmtpAuth) : List JsString :=
  match options.username.filter (· ≠ []) with
  | none => []
  | some username =>
    let password := options.password.getD (js "undefined")
    match auth with
    | .plain => [js "AUTH PLAIN " ++ b64Text (0 :: username ++ 0 :: password)]
    | .login => [js "AUTH LOGIN", b64Text username, b64Text password]

/-- Dot-stuffing, and the end of the message. -/
def dataOf (raw : JsString) : JsString := Lines.stuff CR LF dot raw ++ crlf ++ js "."

/-- The commands before the message. -/
def envelopeCommands (options : SmtpOptions) (auth : SmtpAuth) (sender recipient : JsString) : List JsString :=
  [js "EHLO " ++ hostnameFor sender] ++
    (if !options.secure && options.requireTls then [js "STARTTLS", js "EHLO " ++ hostnameFor sender] else []) ++
    authCommands options auth ++
    [js "MAIL FROM:<" ++ sender ++ js ">", js "RCPT TO:<" ++ recipient ++ js ">", js "DATA"]

def deliver (options : SmtpOptions) (auth : SmtpAuth) (sender recipient raw : JsString) : List JsString :=
  envelopeCommands options auth sender recipient ++ [dataOf raw, js "QUIT"]

/-- `send`: the envelope and the message of one mail. -/
def sendSmtp (options : SmtpOptions) (auth : SmtpAuth) (mail : Mail) : List JsString :=
  deliver options auth (parseAddress mail.«from»).address (parseAddress mail.«to»).address (buildMimeMessage mail)

/-- `socket.write(line + '\r\n')`. -/
def written (line : JsString) : Bytes := utf8 (line ++ crlf)

end Sag
