import Sag.Endpoints.Authorize
import Sag.Util.Print

/-!
# The session cookie

What a browser is handed for a session, as text: the name of the cookie, and the sealed
JSON of the session (`sessionCookie` of `session.js`, with the encryption as a parameter).
Its size is that of the JSON, enlarged by the tag and by base64url (`sessionCookie_bytes`).
-/

namespace Sag

open Resumable

variable (rt : Runtime) (config : Config)

/-- The name that `cookieNameFor` comes to. -/
def sessionCookieName (clientId : Option JsString) : JsString :=
  match clientId.filter (· ≠ []) with
  | none => config.session.cookieName
  | some id =>
    config.session.cookieName ++ js "_" ++
      ((b64u (rt.sha256 (js "cookie " ++ id))).take 12).filter fun u => u ≠ hyphen ∧ u ≠ 95

/-- What a session is made of. -/
inductive Field where
  | num (n : Nat)
  | bool (b : Bool)
  | str (s : JsString)
  | strs (items : List JsString)
  | claims (members : Members)

def Field.text : Field → JsString
  | .num n => decimal n
  | .bool b => boolText b
  | .str s => quoteJsonString s
  | .strs items => arrayText (items.map quoteJsonString)
  | .claims members => Json.text (fun x => rt.stringOf (.num x)) (.obj members)

/-- The members of a session, without those that are `undefined`. -/
def sessionFields (s : Session) : List (JsString × Field) :=
  [(js "v", .num 1), (js "sid", .str s.sid), (js "email", .str s.email)] ++
    (s.emailVerified.map fun b => (js "emailVerified", Field.bool b)).toList ++
    [(js "acr", .str s.acr), (js "amr", .strs s.amr), (js "auth_time", .num s.authTime)] ++
    (s.upstream.map fun u => (js "upstream", Field.str u)).toList ++
    (s.upstreamLabel.map fun l => (js "upstreamLabel", Field.str l)).toList ++
    (s.claims.map fun c => (js "claims", Field.claims c)).toList ++
    (s.localIdentityId.map fun id => (js "localIdentityId", Field.str id)).toList ++
    (s.localIdentityKey.map fun key => (js "localIdentityKey", Field.str key)).toList ++
    (s.localSecurityVersion.map fun n => (js "localSecurityVersion", Field.num n)).toList ++
    [(js "iat", .num s.iat), (js "exp", .num s.exp), (js "abs", .num s.abs)]

/-- `JSON.stringify(session)`. -/
def sessionText (s : Session) : JsString := objectText ((sessionFields s).map fun m => (m.1, m.2.text rt))

/-- The value of the cookie, where `aead` encrypts. -/
def sessionCookieValue (aead : Bytes → Bytes × Bytes) (s : Session) : JsString :=
  let (iv, ct) := aead (utf8 (sessionText rt s))
  encodeURIComponent (sealedText (js "session") iv ct)

/-! ## What the size comes to -/

def valueBytes : Json → Nat
  | .str s => stringBytes s
  | _ => 0

def Field.bytes : Field → Nat
  | .num n => (decimal n).length
  | .bool b => if b then 4 else 5
  | .str s => stringBytes s
  | .strs items => listBytes (items.map stringBytes)
  | .claims members => objectBytes (members.map fun m => (m.1, valueBytes m.2))

/-- The size of the JSON of a session, whose claims are strings. -/
def sessionBytes (s : Session) : Nat := objectBytes ((sessionFields s).map fun m => (m.1, m.2.bytes))

/-- AES-GCM, with an `iv` of twelve bytes and a tag of sixteen. -/
def Gcm (aead : Bytes → Bytes × Bytes) : Prop :=
  ∀ plaintext, (aead plaintext).1.length = 12 ∧ (aead plaintext).2.length = plaintext.length + 16

variable {rt config} {C : Contract effects}

/-- A cookie of a session has this name. -/
theorem cookieNameFor_value (hC : Routine C) (clientId : Option JsString) :
    Ensures C (cookieNameFor rt config clientId) fun name => name = sessionCookieName rt config clientId := by
  unfold cookieNameFor sessionCookieName
  cases clientId.filter (· ≠ []) with
  | none => exact pure_ensures rfl
  | some id => exact suspend_then_ensures hC (pure_ensures rfl)

/-- Does every claim hold a string? -/
def Field.Textual : Field → Prop
  | .claims members => ∀ m ∈ members, ∃ value, m.2 = .str value
  | _ => True

theorem memberTexts_strings {numberText : Rat → JsString} {members : Members}
    (h : ∀ m ∈ members, ∃ value, m.2 = .str value) :
    (∀ m ∈ Json.memberTexts numberText members, Whole m.2) ∧
      (Json.memberTexts numberText members).map (fun m => (m.1, (utf8 m.2).length)) =
        members.map fun m => (m.1, valueBytes m.2) := by
  induction members with
  | nil => exact ⟨nofun, rfl⟩
  | cons m members ih =>
    obtain ⟨hwhole, hbytes⟩ := ih fun m' hm' => h m' (List.mem_cons_of_mem _ hm')
    obtain ⟨name, v⟩ := m
    obtain ⟨value, hvalue⟩ := h _ List.mem_cons_self
    cases hvalue
    rw [Json.memberTexts, Json.text]
    refine ⟨fun m' hm' => ?_, ?_⟩
    · rcases List.mem_cons.mp hm' with rfl | hm'
      · exact Whole.quoted value
      · exact hwhole m' hm'
    · rw [List.map_cons, hbytes, List.map_cons, quoteJsonString_bytes]
      rfl

theorem decimal_ascii (n : Nat) : ∀ u ∈ decimal n, u < 128 := by
  intro u hu
  have hdigit := decimal_digit u hu
  rw [isDigit, Bool.and_eq_true, decide_eq_true_eq, decide_eq_true_eq] at hdigit
  exact UInt16.lt_of_le_of_lt hdigit.2 (by decide)

/-- A field is printed in as many bytes as it costs. -/
theorem Field.text_bytes {f : Field} (h : f.Textual) : Whole (f.text rt) ∧ (utf8 (f.text rt)).length = f.bytes := by
  cases f with
  | num n => exact ⟨Whole.ascii (decimal_ascii n), utf8_ascii_length (decimal_ascii n)⟩
  | bool b =>
    have hascii : ∀ u ∈ boolText b, u < 128 := by
      cases b <;> decide
    refine ⟨Whole.ascii hascii, (utf8_ascii_length hascii).trans ?_⟩
    cases b <;> decide
  | str s => exact ⟨Whole.quoted s, quoteJsonString_bytes s⟩
  | strs items =>
    obtain ⟨hwhole, hbytes⟩ := arrayText_bytes (items.map quoteJsonString) fun item hitem => by
      obtain ⟨s, -, rfl⟩ := List.mem_map.mp hitem
      exact Whole.quoted s
    refine ⟨hwhole, hbytes.trans ?_⟩
    rw [List.map_map]
    exact congrArg listBytes (List.map_congr_left fun s _ => quoteJsonString_bytes s)
  | claims members =>
    obtain ⟨hmembers, hsizes⟩ := @memberTexts_strings (fun x => rt.stringOf (.num x)) members h
    obtain ⟨hwhole, hbytes⟩ := objectText_bytes _ hmembers
    rw [hsizes] at hbytes
    rw [Field.text, Json.text]
    exact ⟨hwhole, hbytes⟩

theorem sessionText_bytes {s : Session} (h : ∀ held, s.claims = some held → ∀ m ∈ held, ∃ value, m.2 = .str value) :
    (utf8 (sessionText rt s)).length = sessionBytes s := by
  have htextual : ∀ m ∈ sessionFields s, m.2.Textual := by
    intro m hm
    obtain ⟨name, f⟩ := m
    cases f with
    | claims members =>
      simp only [sessionFields, List.mem_append, List.mem_cons, List.not_mem_nil, or_false, Prod.mk.injEq, reduceCtorEq,
        and_false, false_or, Option.mem_toList, Option.map_eq_some_iff, exists_false, Field.claims.injEq] at hm
      obtain ⟨held, hheld, -, rfl⟩ := hm
      exact h held hheld
    | _ => trivial
  obtain ⟨-, hbytes⟩ := objectText_bytes ((sessionFields s).map fun m => (m.1, m.2.text rt)) fun m hm => by
    obtain ⟨m', hm', rfl⟩ := List.mem_map.mp hm
    exact (Field.text_bytes (htextual m' hm')).1
  rw [sessionText, hbytes, sessionBytes, List.map_map]
  refine congrArg objectBytes (List.map_congr_left fun m hm => ?_)
  exact congrArg (m.1, ·) (Field.text_bytes (htextual m hm)).2

/-! ## The cookie -/

/-- What needs no escape is left alone. -/
theorem encodeURIComponent_self {s : JsString} (h : ∀ u ∈ s, u < 128 ∧ isUnreserved u = true) :
    encodeURIComponent s = s := by
  rw [encodeURIComponent, utf8_ascii fun u hu => (h u hu).1, List.flatMap_map]
  induction s with
  | nil => rfl
  | cons u s ih =>
    obtain ⟨hascii, hunreserved⟩ := h u List.mem_cons_self
    have hlt : u.toNat < 128 := hascii
    have hunit : UInt16.ofNat (UInt8.ofNat u.toNat).toNat = u := by
      rw [UInt8.toNat_ofNat_of_lt' (by simp only [UInt8.size]; omega), UInt16.ofNat_toNat]
    rw [List.flatMap_cons, ih fun v hv => h v (List.mem_cons_of_mem _ hv)]
    dsimp only
    rw [hunit, if_pos hunreserved]
    rfl

theorem sealedText_plain (iv ct : Bytes) :
    ∀ u ∈ sealedText (js "session") iv ct, u < 128 ∧ isUnreserved u = true := by
  have hplain : ∀ bytes : Bytes, ∀ u ∈ b64u bytes, u < 128 ∧ isUnreserved u = true := by
    have hall : ∀ i : Fin 64, b64Char i < 128 ∧ isUnreserved (b64Char i) = true := by decide +kernel
    exact fun bytes => b64u_forall (fun i hi => hall ⟨i, hi⟩) bytes
  have hfixed : ∀ u ∈ js "k1." ++ js "session" ++ js ".", u < 128 ∧ isUnreserved u = true := by decide
  intro u hu
  rcases List.mem_append.mp hu with hu | hu
  · rcases List.mem_append.mp hu with hu | hu
    · rcases List.mem_append.mp hu with hu | hu
      · exact hfixed u hu
      · exact hplain iv u hu
    · exact hfixed u (List.mem_append_right _ hu)
  · exact hplain ct u hu

/-- The size of the value of a session cookie. -/
theorem sessionCookieValue_bytes {aead : Bytes → Bytes × Bytes} (haead : Gcm aead) {s : Session}
    (h : ∀ held, s.claims = some held → ∀ m ∈ held, ∃ value, m.2 = .str value) :
    (utf8 (sessionCookieValue rt aead s)).length = 28 + (4 * (sessionBytes s + 16) + 2) / 3 := by
  obtain ⟨hiv, hct⟩ := haead (utf8 (sessionText rt s))
  rw [sessionText_bytes h] at hct
  have hplain := sealedText_plain (aead (utf8 (sessionText rt s))).1 (aead (utf8 (sessionText rt s))).2
  have hvalue : sessionCookieValue rt aead s = sealedText (js "session") (aead (utf8 (sessionText rt s))).1
      (aead (utf8 (sessionText rt s))).2 := encodeURIComponent_self hplain
  have hfixed : (js "k1.").length = 3 ∧ (js "session").length = 7 ∧ (js ".").length = 1 := by decide
  rw [hvalue, utf8_ascii_length fun u hu => (hplain u hu).1, sealedText]
  simp only [List.length_append, b64u_length, hiv, hct, hfixed]

end Sag
