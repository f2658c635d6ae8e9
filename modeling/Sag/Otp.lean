import Sag.Http

/-!
# Email one-time codes

`otp.js`. A code is drawn by rejection sampling from an alphabet, and only its
keyed digest is kept, bound to the transaction and the address.

`digestCode_inj` is the binding: where the digest is collision free, two digests
agree only for one transaction, one address and one code. The separator
`" | "` does the work, because neither a transaction identifier, nor an
accepted address, nor a normalised code holds a space.
-/

namespace Sag

open Resumable

variable (rt : Runtime) (config : Config)

def CODE_ALPHABETS : CodeAlphabet → JsString
  | .alphanumeric => js "23456789ABCDEFGHJKMNPQRSTVWXYZ"
  | .numeric => js "0123456789"

def alphabetFor : JsString := CODE_ALPHABETS config.otp.codeAlphabet

/-- `256 - (256 % alphabet.length)`. -/
def sampleLimit (alphabet : JsString) : Nat := 256 - 256 % alphabet.length

/-- The characters one draw contributes: bytes at or above the limit are
rejected. -/
def acceptedChars (alphabet : JsString) (bytes : Bytes) : JsString :=
  (bytes.filter fun b => b.toNat < sampleLimit alphabet).map fun b =>
    alphabet.getD (b.toNat % alphabet.length) 0

/-- The loop of `generateCode`. The source loops until the code is long enough;
here `rt.maxDraws` bounds the draws, and a run whose randomness is rejected more
often ends with an error. -/
def drawCode (length : Nat) (alphabet : JsString) : Nat → JsString → M JsString
  | 0, _ => fail (.error (js "no random bytes were accepted"))
  | draws + 1, out =>
    if length ≤ out.length then pure out
    else do
      let bytes ← perform (.randomBytes (length * 2))
      drawCode length alphabet draws ((out ++ acceptedChars alphabet bytes).take length)

/-- A uniformly distributed code. -/
def generateCode (length : Nat) (alphabet : JsString) : M JsString :=
  drawCode length alphabet (rt.maxDraws + 1) []

/-- Fold what somebody typed into the canonical form. -/
def normaliseCode (input : Option JsString) : JsString :=
  (rt.cases.toUpperCase (input.getD [])).filter fun u => isDigit u || isUpper u

/-- What the digest of a code authenticates. -/
def digestText (txId : JsString) (email : Option JsString) (code : JsString) : JsString :=
  join SEP [txId, email.getD [], code]

def otpDigest (txId : JsString) (email : Option JsString) (code : JsString) : JsString :=
  b64u (rt.hmac (rt.derive config.secret (js "otp-digest") 32) (digestText txId email code))

/-- Digest of a code, bound to the transaction and the address. -/
def digestCode (txId : JsString) (email : Option JsString) (code : JsString) : M JsString := do
  suspend
  suspend
  pure (otpDigest rt config txId email (normaliseCode rt (some code)))

inductive VerifyReason where
  | noCode
  | expired
  | tooManyAttempts
  | mismatch
  deriving DecidableEq, Repr

/-- Check a submitted code; `none` is success. -/
def verifyCode (tx : Transaction) (submitted : Option JsString) : M (Option VerifyReason) :=
  match tx.otp.bind fun otp => otp.digest.map (otp, ·) with
  | none => pure (some .noCode)
  | some (otp, expected) =>
    if expected = [] then pure (some .noCode)
    else do
      let actual ← digestCode rt config tx.id tx.email (normaliseCode rt submitted)
      let now ← nowSeconds
      pure (
        if otp.exp < now then some .expired
        else if config.otp.maxAttempts ≤ otp.attempts then some .tooManyAttempts
        else if timingSafeEqual actual expected then none
        else some .mismatch)

/-- `entry.toLowerCase().replace(/^\*?\./, '')`. -/
def domainEntry (entry : JsString) : JsString :=
  match rt.cases.toLowerCase entry with
  | 42 :: 46 :: rest => rest
  | 46 :: rest => rest
  | e => e

/-- Is OTP available for this address? -/
def otpAllowed (email : Option JsString) : Bool :=
  if !config.otp.enabled then false
  else
    match (domainOf rt email).filter (· ≠ []) with
    | none => false
    | some domain =>
      let matching := fun entries : List JsString =>
        entries.any fun entry => underDomain domain (domainEntry rt entry)
      if config.otp.blockedDomains ≠ [] && matching config.otp.blockedDomains then false
      else if config.otp.allowedDomains ≠ [] && !matching config.otp.allowedDomains then false
      else true

/-- Nobody signs in by email without an address. -/
theorem otpAllowed_named {rt : Runtime} {config : Config} {email : Option JsString}
    (h : otpAllowed rt config email = true) : email ≠ none := by
  rintro rfl
  simp [otpAllowed, domainOf, split, splitWhere] at h

/-! ## The binding of a digest -/

/-- No two texts have one keyed digest. -/
def CollisionFree : Prop := ∀ key text text', rt.hmac key text = rt.hmac key text' → text = text'

/-- Text without a space ends at the first space. -/
theorem append_space_inj {a a' b b' : JsString} (ha : ∀ u ∈ a, isSpace u = false)
    (ha' : ∀ u ∈ a', isSpace u = false) (h : a ++ 32 :: b = a' ++ 32 :: b') : a = a' ∧ b = b' := by
  have hspace : ¬ (!isSpace 32) = true := by decide
  have take : ∀ {s t : JsString}, (∀ u ∈ s, isSpace u = false) →
      (s ++ 32 :: t).takeWhile (!isSpace ·) = s := by
    intro s t hs
    rw [List.takeWhile_append_of_pos (by simpa using hs),
      List.takeWhile_cons_of_neg (p := (!isSpace ·)) hspace, List.append_nil]
  have heq : a = a' := by rw [← take (t := b) ha, h, take ha']
  subst heq
  simpa using h

theorem digestText_inj {txId txId' code code' : JsString} {email email' : Option JsString}
    (hid : ∀ u ∈ txId, isSpace u = false) (hid' : ∀ u ∈ txId', isSpace u = false)
    (hem : ∀ u ∈ email.getD [], isSpace u = false) (hem' : ∀ u ∈ email'.getD [], isSpace u = false)
    (h : digestText txId email code = digestText txId' email' code') :
    txId = txId' ∧ email.getD [] = email'.getD [] ∧ code = code' := by
  have shape : ∀ a b c : JsString, join SEP [a, b, c] = a ++ 32 :: ([124, 32] ++ (b ++ 32 :: ([124, 32] ++ c))) := by
    intro a b c
    have hsep : SEP = [32, 124, 32] := by decide
    simp [join, hsep]
  rw [digestText, digestText, shape, shape] at h
  obtain ⟨h₁, h⟩ := append_space_inj hid hid' h
  obtain ⟨h₂, h⟩ := append_space_inj hem hem' (List.append_cancel_left h)
  exact ⟨h₁, h₂, List.append_cancel_left h⟩

/-- A digest stands for one transaction, one address and one code. -/
theorem otpDigest_inj (hfree : CollisionFree rt) {txId txId' code code' : JsString}
    {email email' : Option JsString}
    (hid : ∀ u ∈ txId, isSpace u = false) (hid' : ∀ u ∈ txId', isSpace u = false)
    (hem : ∀ u ∈ email.getD [], isSpace u = false) (hem' : ∀ u ∈ email'.getD [], isSpace u = false)
    (h : otpDigest rt config txId email code = otpDigest rt config txId' email' code') :
    txId = txId' ∧ email.getD [] = email'.getD [] ∧ code = code' :=
  digestText_inj hid hid' hem hem' (hfree _ _ _ (b64u_injective h))

/-! ## What the functions do -/

variable {rt config} {C : Contract effects}

/-- Both alphabets hold digits and capitals only. -/
theorem alphabet_plain (a : CodeAlphabet) :
    ∀ u ∈ CODE_ALPHABETS a, u < 128 ∧ (isDigit u || isUpper u) = true := by
  cases a <;> decide

theorem alphabet_pos (a : CodeAlphabet) : 0 < (CODE_ALPHABETS a).length := by cases a <;> decide

theorem acceptedChars_mem {alphabet : JsString} (hpos : 0 < alphabet.length) {bytes : Bytes} :
    ∀ u ∈ acceptedChars alphabet bytes, u ∈ alphabet := by
  intro u hu
  obtain ⟨b, -, rfl⟩ := List.mem_map.mp hu
  have hlt : b.toNat % alphabet.length < alphabet.length := Nat.mod_lt _ hpos
  simp [List.getD_eq_getElem?_getD, List.getElem?_eq_getElem hlt]

/-- A drawn code is made of the alphabet and has the length asked for. -/
theorem drawCode_ensures (hC : Routine C) {alphabet : JsString} (hpos : 0 < alphabet.length)
    {length : Nat} : ∀ draws out, out.length ≤ length → (∀ u ∈ out, u ∈ alphabet) →
      Ensures C (drawCode length alphabet draws out) fun code =>
        code.length = length ∧ ∀ u ∈ code, u ∈ alphabet := by
  intro draws
  induction draws with
  | zero => exact fun out _ _ => fail_ensures
  | succ draws ih =>
    intro out hlen hout
    unfold drawCode
    split
    · exact pure_ensures ⟨by omega, hout⟩
    · refine andThen_ensures (perform_ensures hC rfl) fun bytes _ =>
        ih _ (List.length_take_le _ _) ?_
      intro u hu
      rcases List.mem_append.mp (List.mem_of_mem_take hu) with hu | hu
      · exact hout u hu
      · exact acceptedChars_mem hpos u hu

theorem generateCode_ensures (hC : Routine C) (length : Nat) (a : CodeAlphabet) :
    Ensures C (generateCode rt length (CODE_ALPHABETS a)) fun code =>
      code.length = length ∧ ∀ u ∈ code, u ∈ CODE_ALPHABETS a :=
  drawCode_ensures hC (alphabet_pos a) _ _ (by simp) (by simp)

/-- Text of digits and capitals is in canonical form. -/
theorem normaliseCode_plain {code : JsString}
    (hplain : ∀ u ∈ code, u < 128 ∧ (isDigit u || isUpper u) = true) :
    normaliseCode rt (some code) = code := by
  have hnot : ∀ u : CodeUnit, (isDigit u || isUpper u) = true → isLower u = false := by
    intro u hu
    simp only [isDigit, isUpper, isLower, Bool.or_eq_true, Bool.and_eq_true, decide_eq_true_eq,
      Bool.and_eq_false_iff, decide_eq_false_iff_not, UInt16.le_iff_toNat_le] at hu ⊢
    simp at hu ⊢
    omega
  rw [normaliseCode, Option.getD_some, CaseTables.toUpperCase_ascii]
  · exact List.filter_eq_self.mpr fun u hu => (hplain u hu).2
  · exact fun u hu => ⟨(hplain u hu).1, hnot u (hplain u hu).2⟩

/-- A code as it was drawn is in canonical form. -/
theorem normaliseCode_generated {code : JsString} {a : CodeAlphabet}
    (h : ∀ u ∈ code, u ∈ CODE_ALPHABETS a) : normaliseCode rt (some code) = code :=
  normaliseCode_plain fun u hu => alphabet_plain a u (h u hu)

/-- Folding a code twice is folding it once. -/
theorem normaliseCode_idem (input : Option JsString) :
    normaliseCode rt (some (normaliseCode rt input)) = normaliseCode rt input := by
  refine normaliseCode_plain fun u hu => ?_
  have hkind : (isDigit u || isUpper u) = true := (List.mem_filter.mp hu).2
  refine ⟨?_, hkind⟩
  simp only [isDigit, isUpper, Bool.or_eq_true, Bool.and_eq_true, decide_eq_true_eq,
    UInt16.le_iff_toNat_le] at hkind
  rw [UInt16.lt_iff_toNat_lt]
  simp at hkind ⊢
  omega

theorem digestCode_ensures (hC : Routine C) (txId : JsString) (email : Option JsString)
    (code : JsString) :
    Ensures C (digestCode rt config txId email code) fun d =>
      d = otpDigest rt config txId email (normaliseCode rt (some code)) :=
  suspend_then_ensures hC (suspend_then_ensures hC (pure_ensures rfl))

/-- An accepted code hashes to the digest the transaction carries, at an instant
at which that was neither expired nor out of attempts. -/
structure Accepted (C : Rely effects) (rt : Runtime) (config : Config)
    (tx : Transaction) (otp : OtpState) (digest : JsString) (submitted : Option JsString) : Prop where
  otp_eq : tx.otp = some otp
  digest_eq : otp.digest = some digest
  matches_ : digest = otpDigest rt config tx.id tx.email
    (normaliseCode rt (some (normaliseCode rt submitted)))
  attempts : otp.attempts < config.otp.maxAttempts
  unexpired : ∃ now, C.tick now ∧ now ≤ otp.exp

theorem verifyCode_ensures (hC : Routine C) (tx : Transaction) (submitted : Option JsString) :
    Ensures C (verifyCode rt config tx submitted) fun r =>
      r = none → ∃ otp digest, Accepted C rt config tx otp digest submitted := by
  unfold verifyCode
  split
  · exact pure_ensures (by rintro ⟨⟩)
  · next otp expected h =>
    obtain ⟨otp', hotp, hmap⟩ := Option.bind_eq_some_iff.mp h
    obtain ⟨d, hdigest, hpair⟩ := Option.map_eq_some_iff.mp hmap
    obtain ⟨rfl, rfl⟩ := Prod.mk.inj hpair
    split
    · exact pure_ensures (by rintro ⟨⟩)
    · refine andThen_ensures (digestCode_ensures hC tx.id tx.email _) fun actual hactual => ?_
      refine now_then_ensures fun now hnow => pure_ensures fun hnone => ?_
      split at hnone
      · cases hnone
      · next hexp =>
        split at hnone
        · cases hnone
        · next hatt =>
          split at hnone
          · next heq =>
            have hascii : ∀ u ∈ actual, u < 128 := hactual ▸ b64u_ascii _
            have hd := timingSafeEqual_ascii hascii heq
            exact ⟨otp', d, hotp, hdigest, by rw [← hd, hactual], by omega, now, hnow, by omega⟩
          · cases hnone

end Sag
