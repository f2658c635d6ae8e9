import Sag.Email
import Sag.Lib.Lines

/-!
# Building a raw MIME message

The rest of `email/mime.js`: encoded words, quoted-printable text and the message that they are
put together into. `quotedLoop` keeps the output and the length of its last line, as the source
does; `quotedFrom` is what it goes on to write (`quotedLoop_eq`), in which a space that a line
break follows is escaped at once.
-/

namespace Sag

def CR : CodeUnit := 13
def LF : CodeUnit := 10
def crlf : JsString := [CR, LF]

/-- The lines of a text with CRLF line ends. -/
def linesOf (s : JsString) : List JsString := Lines.cut CR LF s

/-- `/^[\x20-\x7e]*$/`. -/
def isPrintable (s : JsString) : Bool := s.all fun u => 0x20 ≤ u && u ≤ 0x7E

/-- RFC 2047 encoded-word, for a subject or display name with non-ASCII. -/
def encodeHeaderValue (s : JsString) : JsString :=
  if isPrintable s then s else js "=?UTF-8?B?" ++ b64 (utf8 s) ++ js "?="

/-! ## Quoted-printable -/

/-- `replace(/\r?\n/g, '\r\n')`. -/
def normaliseBreaks : JsString → JsString
  | [] => []
  | [u] => if u = LF then crlf else [u]
  | u :: v :: s =>
    if u = CR ∧ v = LF then CR :: LF :: normaliseBreaks s
    else if u = LF then CR :: LF :: normaliseBreaks (v :: s)
    else u :: normaliseBreaks (v :: s)

/-- What a byte is written as, when no line break follows. -/
def quotedChunk (b : UInt8) : JsString :=
  if b = 0x3D || b < 0x20 || 0x7E < b then 61 :: hexByte b else [UInt16.ofNat b.toNat]

/-- `push`: on the line, or on a new one where the line is full. -/
def pushChunk (out : JsString) (lineLength : Nat) (chunk : JsString) : JsString × Nat :=
  if 75 < lineLength + chunk.length then (out ++ js "=" ++ crlf ++ chunk, chunk.length)
  else (out ++ chunk, lineLength + chunk.length)

/-- Encode trailing whitespace before the break. -/
def encodeTrailing (out : JsString) : JsString :=
  if out.getLast? = some 32 then out.dropLast ++ js "=20"
  else if out.getLast? = some 9 then out.dropLast ++ js "=09"
  else out

def quotedLoop (out : JsString) (lineLength : Nat) : Bytes → JsString
  | [] => out
  | [b] => (pushChunk out lineLength (quotedChunk b)).1
  | b :: c :: rest =>
    if b = 13 ∧ c = 10 then quotedLoop (encodeTrailing out ++ crlf) 0 rest
    else
      let pushed := pushChunk out lineLength (quotedChunk b)
      quotedLoop pushed.1 pushed.2 (c :: rest)

/-- Quoted-printable, with soft line breaks at 76 characters. -/
def quotedPrintable (input : JsString) : JsString := quotedLoop [] 0 (utf8 (normaliseBreaks input))

/-! ## The message -/

/-- What a message is made of, with the random bytes and the date that are drawn for it. -/
structure Mail where
  «from» : Option JsString
  «to» : Option JsString
  replyTo : Option JsString
  subject : JsString
  text : JsString
  html : JsString
  /-- `toUTCString().replace('GMT', '+0000')`. -/
  date : JsString
  boundaryBytes : Bytes
  idBytes : Bytes

def formatAddress (a : MailAddress) : JsString :=
  match a.name with
  | none => a.address
  | some name => quoteMark :: (encodeHeaderValue name).filter (· ≠ quoteMark) ++ js "\" <" ++ a.address ++ js ">"

/-- `address.split('@')[1] || 'localhost'`. -/
def hostnameFor (address : JsString) : JsString :=
  match (split atSign address)[1]? with
  | some (u :: domain) => u :: domain
  | _ => js "localhost"

def messageId (idBytes : Bytes) (fromDomain : JsString) : JsString :=
  js "<" ++ toHex idBytes ++ js "@" ++ fromDomain ++ js ">"

def boundaryOf (mail : Mail) : JsString := js "sag-" ++ (b64 mail.boundaryBytes).filter isAlnum

/-- `parts.join('\r\n')`. -/
def joinLines (lines : List JsString) : JsString := Lines.joined CR LF lines

def mimeHeaders (mail : Mail) : List JsString :=
  let from_ := parseAddress mail.«from»
  [js "From: " ++ formatAddress from_,
    js "To: " ++ formatAddress (parseAddress mail.«to»),
    js "Subject: " ++ encodeHeaderValue mail.subject,
    js "Date: " ++ mail.date,
    js "Message-ID: " ++ messageId mail.idBytes (hostnameFor from_.address),
    js "MIME-Version: 1.0",
    js "Auto-Submitted: auto-generated",
    js "X-Auto-Response-Suppress: All",
    js "Content-Type: multipart/alternative; boundary=\"" ++ boundaryOf mail ++ js "\""] ++
  match mail.replyTo.filter (· ≠ []) with
  | none => []
  | some replyTo => [js "Reply-To: " ++ formatAddress (parseAddress (some replyTo))]

def mimeParts (mail : Mail) : List JsString :=
  [js "--" ++ boundaryOf mail,
    js "Content-Type: text/plain; charset=UTF-8",
    js "Content-Transfer-Encoding: quoted-printable",
    [],
    quotedPrintable mail.text,
    js "--" ++ boundaryOf mail,
    js "Content-Type: text/html; charset=UTF-8",
    js "Content-Transfer-Encoding: quoted-printable",
    [],
    quotedPrintable mail.html,
    js "--" ++ boundaryOf mail ++ js "--",
    []]

/-- A complete RFC 5322 message with CRLF line endings. -/
def buildMimeMessage (mail : Mail) : JsString :=
  joinLines (mimeHeaders mail) ++ crlf ++ crlf ++ joinLines (mimeParts mail)

/-! ## What is written -/

/-- The bytes begin with a line break. -/
def breaks : Bytes → Bool
  | b :: c :: _ => b = 13 && c = 10
  | _ => false

/-- The soft line break before a byte, where there has to be one. -/
def softBreak (n : Nat) (b : UInt8) : JsString := if 75 < n + (quotedChunk b).length then js "=" ++ crlf else []

/-- The column after a byte that comes at column `n`. -/
def columnAfter (n : Nat) (b : UInt8) : Nat :=
  if 75 < n + (quotedChunk b).length then (quotedChunk b).length else n + (quotedChunk b).length

/-- What the loop writes from column `n` on. -/
def quotedFrom (n : Nat) : Bytes → JsString
  | [] => []
  | [b] => softBreak n b ++ quotedChunk b
  | b :: c :: rest =>
    if b = 13 ∧ c = 10 then crlf ++ quotedFrom 0 rest
    else
      softBreak n b ++ (if b = 32 && breaks (c :: rest) then js "=20" else quotedChunk b) ++
        quotedFrom (columnAfter n b) (c :: rest)

theorem pushChunk_eq (out : JsString) (n : Nat) (b : UInt8) :
    pushChunk out n (quotedChunk b) = (out ++ softBreak n b ++ quotedChunk b, columnAfter n b) := by
  unfold pushChunk softBreak columnAfter
  split
  · rw [← List.append_assoc]
  · rw [List.append_nil]

/-- A byte is written as its escape, or as a printable character. -/
theorem quotedChunk_cases (b : UInt8) :
    (quotedChunk b = 61 :: hexByte b ∧ b ≠ 32) ∨
      quotedChunk b = [UInt16.ofNat b.toNat] ∧ 32 ≤ b.toNat ∧ b.toNat ≤ 126 ∧ b.toNat ≠ 61 := by
  have hall : ∀ n : Fin 256, (quotedChunk (UInt8.ofNat n) = 61 :: hexByte (UInt8.ofNat n) ∧ UInt8.ofNat n ≠ 32) ∨
      quotedChunk (UInt8.ofNat n) = [UInt16.ofNat n] ∧ 32 ≤ n.val ∧ n.val ≤ 126 ∧ n.val ≠ 61 := by decide +kernel
  have hb := hall ⟨b.toNat, b.toNat_lt⟩
  rwa [UInt8.ofNat_toNat] at hb

/-- Only a space ends in a blank. -/
theorem quotedChunk_getLast {b : UInt8} (h : b ≠ 32) :
    ∃ u, (quotedChunk b).getLast? = some u ∧ u ≠ 32 ∧ u ≠ 9 := by
  have hall : ∀ n : Fin 256, UInt8.ofNat n ≠ 32 →
      (quotedChunk (UInt8.ofNat n)).getLast?.any (fun u => u ≠ 32 && u ≠ 9) = true := by decide +kernel
  have hb := hall ⟨b.toNat, b.toNat_lt⟩
  rw [UInt8.ofNat_toNat] at hb
  obtain ⟨u, hu, hblank⟩ := (Option.any_eq_true _ _).mp (hb h)
  simp only [Bool.and_eq_true, decide_eq_true_eq] at hblank
  exact ⟨u, hu, hblank⟩

theorem encodeTrailing_of_getLast {out : JsString} (h : out.getLast? ≠ some 32 ∧ out.getLast? ≠ some 9) :
    encodeTrailing out = out := by
  rw [encodeTrailing, if_neg h.1, if_neg h.2]

theorem encodeTrailing_space (out : JsString) : encodeTrailing (out ++ [32]) = out ++ js "=20" := by
  rw [encodeTrailing, List.getLast?_concat, if_pos rfl, List.dropLast_concat]

theorem breaks_iff {bytes : Bytes} : breaks bytes = true ↔ ∃ rest, bytes = 13 :: 10 :: rest := by
  unfold breaks
  split
  · next b c rest =>
    rw [Bool.and_eq_true, decide_eq_true_eq, decide_eq_true_eq]
    constructor
    · exact fun ⟨hb, hc⟩ => ⟨rest, by rw [hb, hc]⟩
    · intro ⟨rest', heq⟩
      obtain ⟨hb, heq⟩ := List.cons.inj heq
      exact ⟨hb, (List.cons.inj heq).1⟩
  · next hshort =>
    refine ⟨nofun, fun ⟨rest, heq⟩ => ?_⟩
    exact absurd heq (hshort 13 10 rest)

/-- The loop goes on from what it has written, which ends in no blank where a break follows. -/
theorem quotedLoop_eq : ∀ (bytes : Bytes) (out : JsString) (n : Nat),
    (breaks bytes = true → out.getLast? ≠ some 32 ∧ out.getLast? ≠ some 9) →
      quotedLoop out n bytes = out ++ quotedFrom n bytes
  | [], out, n, _ => by rw [quotedLoop, quotedFrom, List.append_nil]
  | [b], out, n, _ => by rw [quotedLoop, pushChunk_eq, quotedFrom, List.append_assoc]
  | b :: c :: rest, out, n, h => by
    by_cases hbreak : b = 13 ∧ c = 10
    · have hout := h (breaks_iff.mpr ⟨rest, by rw [hbreak.1, hbreak.2]⟩)
      have hcrlf : (out ++ crlf).getLast? ≠ some 32 ∧ (out ++ crlf).getLast? ≠ some 9 := by
        rw [List.getLast?_append]
        exact ⟨nofun, nofun⟩
      rw [quotedLoop, if_pos hbreak, encodeTrailing_of_getLast hout, quotedLoop_eq rest _ 0 fun _ => hcrlf,
        quotedFrom, if_pos hbreak, List.append_assoc]
    · rw [quotedLoop, if_neg hbreak, pushChunk_eq, quotedFrom, if_neg hbreak]
      dsimp only
      by_cases hspace : b = 32 ∧ breaks (c :: rest) = true
      · -- the space is escaped when the break is read
        obtain ⟨rfl, hnext⟩ := hspace
        obtain ⟨rest', heq⟩ := breaks_iff.mp hnext
        obtain ⟨rfl, rfl⟩ := List.cons.inj heq
        have hcrlf : ∀ s : JsString, (s ++ crlf).getLast? ≠ some 32 ∧ (s ++ crlf).getLast? ≠ some 9 := by
          intro s
          rw [List.getLast?_append]
          exact ⟨nofun, nofun⟩
        have hchunk : quotedChunk 32 = [32] := rfl
        rw [quotedLoop, if_pos ⟨rfl, rfl⟩, hchunk, encodeTrailing_space, quotedLoop_eq rest' _ 0 fun _ => hcrlf _,
          if_pos (by rw [hnext]; rfl), quotedFrom, if_pos ⟨rfl, rfl⟩]
        simp only [List.append_assoc]
      · have hlast : breaks (c :: rest) = true → (out ++ softBreak n b ++ quotedChunk b).getLast? ≠ some 32 ∧
            (out ++ softBreak n b ++ quotedChunk b).getLast? ≠ some 9 := by
          intro hnext
          obtain ⟨u, hu, h32, h9⟩ := quotedChunk_getLast fun hb => hspace ⟨hb, hnext⟩
          rw [List.getLast?_append, hu]
          exact ⟨fun heq => h32 (Option.some.inj heq), fun heq => h9 (Option.some.inj heq)⟩
        rw [quotedLoop_eq (c :: rest) _ _ hlast, if_neg]
        · simp only [List.append_assoc]
        · rw [Bool.and_eq_true, decide_eq_true_eq]
          exact hspace
termination_by bytes => bytes.length

theorem quotedPrintable_eq (input : JsString) : quotedPrintable input = quotedFrom 0 (utf8 (normaliseBreaks input)) :=
  quotedLoop_eq _ [] 0 fun _ => ⟨nofun, nofun⟩

end Sag
