import Sag.Http
import Sag.Lib.Bits

/-!
# Time-based one-time passwords

`local-identities/totp.js`. The base32 loops keep their accumulator in 32 bits,
as the bitwise operators of the source do; what falls off the top has been read
already, which is what `decodeLoop_bits` and `encodeLoop_bits` say, and so
decoding undoes encoding (`decodeBase32_encodeBase32`).

`verifyTotp` only ever answers a step above the last one used
(`verifyTotp_ensures`).
-/

namespace Sag

open Resumable Bits

variable (rt : Runtime)

def BASE32 : JsString := js "ABCDEFGHIJKLMNOPQRSTUVWXYZ234567"

def base32Char (i : Nat) : CodeUnit := BASE32.getD i 0

/-- `BASE32.indexOf(char)`, for a character of the alphabet. -/
def base32Index (u : CodeUnit) : Nat := BASE32.findIdx (· = u)

def decodeLoop : Nat → Nat → JsString → Bytes
  | _, _, [] => []
  | acc, bits, c :: cs =>
    let acc := (acc * 2 ^ 5 + base32Index c) % 2 ^ 32
    let bits := bits + 5
    if 8 ≤ bits then UInt8.ofNat (acc / 2 ^ (bits - 8)) :: decodeLoop acc (bits - 8) cs
    else decodeLoop acc bits cs

/-- Decode an unpadded RFC 4648 base32 value. -/
def decodeBase32 (value : JsString) : Option Bytes :=
  let text := dropPadding (((rt.cases.toUpperCase value).filter (· ≠ 32)).filter (· ≠ hyphen))
  if text = [] || !text.all (· ∈ BASE32) then none
  else
    let out := decodeLoop 0 0 text
    if out.length < 10 then none else some out

/-- `while (bits >= 5)`: the digits that are complete, and the bits left over. -/
def drain (acc : Nat) : Nat → List Nat × Nat
  | bits + 5 => (acc / 2 ^ bits % 2 ^ 5 :: (drain acc bits).1, (drain acc bits).2)
  | bits => ([], bits)

def encodeLoop : Nat → Nat → Bytes → List Nat
  | acc, bits, [] => if 0 < bits then [acc * 2 ^ (5 - bits) % 2 ^ 5] else []
  | acc, bits, b :: bs =>
    let acc := (acc * 2 ^ 8 + b.toNat) % 2 ^ 32
    (drain acc (bits + 8)).1 ++ encodeLoop acc (drain acc (bits + 8)).2 bs

/-- Encode bytes as unpadded RFC 4648 base32. -/
def encodeBase32 (bytes : Bytes) : JsString := (encodeLoop 0 0 bytes).map base32Char

/-! ## Codes -/

/-- The counter of a step as eight bytes, most significant first. -/
def counterBytes (step : Nat) : Bytes :=
  (List.range 8).map fun i => UInt8.ofNat (step / 256 ^ (7 - i))

/-- The dynamic truncation of RFC 4226. -/
def truncate (digest : Bytes) : Nat :=
  let offset := (digest.getLastD 0).toNat % 16
  let at_ := fun i => (digest.getD (offset + i) 0).toNat
  at_ 0 % 128 * 2 ^ 24 + at_ 1 * 2 ^ 16 + at_ 2 * 2 ^ 8 + at_ 3

/-- `padStart(digits, '0')`. -/
def padStart (digits : Nat) (s : JsString) : JsString := List.replicate (digits - s.length) 48 ++ s

/-- Generate one TOTP value for an exact time-step. -/
def totpForStep (secret : JsString) (step : Nat) (algorithm : HashName) (digits : Nat) : M JsString :=
  if Json.maxSafeInteger < step then fail (.error (js "invalid TOTP time-step"))
  else if digits ≠ 6 ∧ digits ≠ 8 then fail (.error (js "TOTP digits must be 6 or 8"))
  else
    match decodeBase32 rt secret with
    | none => fail (.error (js "invalid base32 secret"))
    | some bytes => do
      suspend
      suspend
      let number := truncate (rt.totpMac algorithm bytes (counterBytes step))
      pure (padStart digits (decimal (number % 10 ^ digits)))

/-- The candidates `current - skew … current + skew` that are not negative. -/
def candidateSteps (current skew : Nat) : List Nat :=
  (List.range (2 * skew + 1)).filterMap fun i => if skew ≤ current + i then some (current + i - skew) else none

/-- The loop over the candidates: the latest that matches. -/
def matchSteps (secret presented : JsString) (algorithm : HashName) (digits : Nat)
    (lastUsedStep : Option Nat) : List Nat → Option Nat → M (Option Nat)
  | [], matched => pure matched
  | step :: steps, matched => do
    let expected ← totpForStep rt secret step algorithm digits
    let accepted := timingSafeEqual expected presented && lastUsedStep.all (· < step)
    matchSteps secret presented algorithm digits lastUsedStep steps
      (if accepted then some ((matched.map (max · step)).getD step) else matched)

/-- Verify a code across the configured skew without accepting a used step.
`now` is in seconds. -/
def verifyTotp (secret : JsString) (code : Option JsString) (now : Nat) (algorithm : HashName)
    (digits period skew : Nat) (lastUsedStep : Option Nat) : M (Option Nat) :=
  let presented := (code.getD []).filter fun u => !(isSpace u || u = hyphen)
  if presented.length ≠ digits || presented = [] || !presented.all isDigit then pure none
  else if period < 15 ∨ 120 < period then fail (.error (js "invalid TOTP period"))
  else if 5 < skew then fail (.error (js "invalid TOTP skew"))
  else
    matchSteps rt secret presented algorithm digits lastUsedStep (candidateSteps (now / period) skew)
      none

/-! ## Base32 is lossless -/

theorem base32_index {i : Nat} (h : i < 32) : base32Index (base32Char i) = i := by
  have hall : ∀ j : Fin 32, base32Index (base32Char j) = j := by decide +kernel
  exact hall ⟨i, h⟩

theorem base32_mem {i : Nat} (h : i < 32) : base32Char i ∈ BASE32 := by
  have hall : ∀ j : Fin 32, base32Char j ∈ BASE32 := by decide +kernel
  exact hall ⟨i, h⟩

/-- The alphabet is upper-case ASCII, without blanks, hyphens or padding. -/
theorem base32_plain : ∀ u ∈ BASE32, u < 128 ∧ isLower u = false ∧ u ≠ 32 ∧ u ≠ hyphen ∧ u ≠ 61 := by
  decide +kernel

theorem base32Index_lt {u : CodeUnit} (h : u ∈ BASE32) : base32Index u < 2 ^ 5 := by
  have hlt := List.findIdx_lt_length_of_exists (p := (· = u)) ⟨u, h, by simp⟩
  exact Nat.lt_of_lt_of_eq hlt (by decide)

/-- The digits a drain completes, and what it leaves. -/
theorem drain_bits (acc bits : Nat) :
    (drain acc bits).2 < 5 ∧ (∀ d ∈ (drain acc bits).1, d < 2 ^ 5) ∧
      bitsOf bits acc = (drain acc bits).1.flatMap (bitsOf 5) ++ bitsOf (drain acc bits).2 acc := by
  induction bits using drain.induct with
  | case1 bits ih =>
    obtain ⟨hrest, hlt, hbits⟩ := ih
    refine ⟨hrest, fun d hd => ?_, ?_⟩
    · rcases List.mem_cons.mp hd with rfl | hd
      · exact Nat.mod_lt _ (by decide)
      · exact hlt d hd
    · have hsplit := bitsOf_add 5 bits acc
      have hdigit : bitsOf 5 (acc / 2 ^ bits % 2 ^ 5) = bitsOf 5 (acc / 2 ^ bits) :=
        bitsOf_congr (Nat.mod_mod _ _)
      rw [Nat.add_comm, hbits, ← hdigit, ← List.append_assoc] at hsplit
      exact hsplit
  | case2 bits h =>
    have hlt : bits < 5 := by
      rcases Nat.lt_or_ge bits 5 with hlt | hge
      · exact hlt
      · exact absurd (Nat.sub_add_cancel hge).symm (h (bits - 5))
    have hdrain : drain acc bits = ([], bits) := by
      unfold drain
      split
      · next n => exact absurd rfl (h n)
      · rfl
    rw [hdrain]
    exact ⟨hlt, by simp, by simp⟩

/-- Encoding keeps the bits and pads the last digit. -/
theorem encodeLoop_bits : ∀ (bs : Bytes) (acc bits : Nat), bits < 5 →
    (∀ d ∈ encodeLoop acc bits bs, d < 2 ^ 5) ∧ ∃ pad : List Bool, pad.length < 5 ∧
      (encodeLoop acc bits bs).flatMap (bitsOf 5) =
        bitsOf bits acc ++ (bs.map UInt8.toNat).flatMap (bitsOf 8) ++ pad := by
  intro bs
  induction bs with
  | nil =>
    intro acc bits hbits
    simp only [encodeLoop]
    split
    · next hpos =>
      refine ⟨fun d hd => ?_, bitsOf (5 - bits) 0, by rw [bitsOf_length]; omega, ?_⟩
      · rw [List.mem_singleton.mp hd]
        exact Nat.mod_lt _ (by decide)
      · have hpush := bitsOf_push (k := 5) (w := 5 - bits) (b := bits) (a := acc) (d := 0)
          (by omega) (Nat.two_pow_pos _)
        rw [Nat.add_sub_cancel' (Nat.le_of_lt hbits), Nat.add_zero] at hpush
        simpa using hpush
    · next hzero =>
      have hb : bits = 0 := by omega
      subst hb
      exact ⟨by simp, [], by decide, by simp [bitsOf]⟩
  | cons b bs ih =>
    intro acc bits hbits
    simp only [encodeLoop]
    obtain ⟨hrest, hlt, hdrain⟩ := drain_bits ((acc * 2 ^ 8 + b.toNat) % 2 ^ 32) (bits + 8)
    obtain ⟨hlt', pad, hpad, hstream⟩ := ih ((acc * 2 ^ 8 + b.toNat) % 2 ^ 32) _ hrest
    refine ⟨fun d hd => ?_, pad, hpad, ?_⟩
    · rcases List.mem_append.mp hd with hd | hd
      · exact hlt d hd
      · exact hlt' d hd
    · have hpush := bitsOf_push (k := 32) (w := 8) (b := bits) (a := acc) (d := b.toNat)
        (by omega) b.toNat_lt
      rw [List.flatMap_append, hstream, ← List.append_assoc, ← List.append_assoc, ← hdrain, hpush]
      simp

/-- Decoding keeps the bits and drops less than a byte. -/
theorem decodeLoop_bits : ∀ (cs : JsString) (acc bits : Nat), bits < 8 → (∀ c ∈ cs, c ∈ BASE32) →
    ∃ rest : List Bool, rest.length < 8 ∧
      bitsOf bits acc ++ (cs.map base32Index).flatMap (bitsOf 5) =
        ((decodeLoop acc bits cs).map UInt8.toNat).flatMap (bitsOf 8) ++ rest := by
  intro cs
  induction cs with
  | nil => intro acc bits hbits _; exact ⟨bitsOf bits acc, by simpa using hbits, by simp [decodeLoop]⟩
  | cons c cs ih =>
    intro acc bits hbits hcs
    have hpush := bitsOf_push (k := 32) (w := 5) (b := bits) (a := acc) (d := base32Index c)
      (by omega) (base32Index_lt (hcs c List.mem_cons_self))
    have hcs' : ∀ c ∈ cs, c ∈ BASE32 := fun x hx => hcs x (List.mem_cons_of_mem _ hx)
    simp only [List.map_cons, List.flatMap_cons, ← List.append_assoc, ← hpush, decodeLoop]
    split
    · next hfull =>
      obtain ⟨rest, hrest, hstream⟩ := ih ((acc * 2 ^ 5 + base32Index c) % 2 ^ 32) (bits + 5 - 8)
        (by omega) hcs'
      refine ⟨rest, hrest, ?_⟩
      rw [show bits + 5 = 8 + (bits + 5 - 8) by omega, bitsOf_add, List.append_assoc,
        show 8 + (bits + 5 - 8) - 8 = bits + 5 - 8 by omega, hstream, List.map_cons,
        List.flatMap_cons, List.append_assoc]
      congr 1
      exact bitsOf_congr (by simp)
    · next hpart =>
      exact ih _ (bits + 5) (by omega) hcs'

/-- Characters of the alphabet pass the clean-up of `decodeBase32` unchanged. -/
theorem cleanBase32 {text : JsString} (h : ∀ u ∈ text, u ∈ BASE32) :
    dropPadding (((rt.cases.toUpperCase text).filter (· ≠ 32)).filter (· ≠ hyphen)) = text := by
  have hplain : ∀ u ∈ text, u < 128 ∧ isLower u = false ∧ u ≠ 32 ∧ u ≠ hyphen ∧ u ≠ 61 :=
    fun u hu => base32_plain u (h u hu)
  have hup : rt.cases.toUpperCase text = text :=
    CaseTables.toUpperCase_ascii _ fun u hu => ⟨(hplain u hu).1, (hplain u hu).2.1⟩
  have hspace : text.filter (· ≠ 32) = text :=
    List.filter_eq_self.mpr fun u hu => by simpa using (hplain u hu).2.2.1
  have hhyphen : text.filter (· ≠ hyphen) = text :=
    List.filter_eq_self.mpr fun u hu => by simpa using (hplain u hu).2.2.2.1
  have hpad : dropPadding text = text := by
    cases hrev : text.reverse with
    | nil => simp [dropPadding, List.reverse_eq_nil_iff.mp hrev]
    | cons u rest =>
      have hu : u ≠ 61 := (hplain u (by rw [← List.mem_reverse, hrev]; simp)).2.2.2.2
      rw [dropPadding, hrev, List.dropWhile_cons_of_neg (by simpa using hu), ← hrev, List.reverse_reverse]
  rw [hup, hspace, hhyphen, hpad]

theorem encodeBase32_mem (bytes : Bytes) : ∀ u ∈ encodeBase32 bytes, u ∈ BASE32 := by
  intro u hu
  obtain ⟨d, hd, rfl⟩ := List.mem_map.mp hu
  exact base32_mem ((encodeLoop_bits bytes 0 0 (by decide)).1 d hd)

/-- Decoding undoes encoding. -/
theorem decodeLoop_encodeBase32 (bytes : Bytes) : decodeLoop 0 0 (encodeBase32 bytes) = bytes := by
  obtain ⟨hlt, pad, hpad, henc⟩ := encodeLoop_bits bytes 0 0 (by decide)
  obtain ⟨rest, hrest, hdec⟩ := decodeLoop_bits (encodeBase32 bytes) 0 0 (by decide)
    (encodeBase32_mem bytes)
  have hdigits : (encodeBase32 bytes).map base32Index = encodeLoop 0 0 bytes := by
    rw [encodeBase32, List.map_map]
    refine (List.map_congr_left fun d hd => ?_).trans (List.map_id _)
    exact base32_index (hlt d hd)
  rw [hdigits, henc] at hdec
  simp only [bitsOf, List.nil_append] at hdec
  have hbyte : ∀ bs : Bytes, ∀ n ∈ bs.map UInt8.toNat, n < 2 ^ 8 := by
    intro bs n hn
    obtain ⟨b, -, rfl⟩ := List.mem_map.mp hn
    exact b.toNat_lt
  have heq := flatMap_bitsOf_unique (hbyte _) (hbyte _) (by omega) hrest hdec
  exact (List.map_inj_right fun _ _ => UInt8.toNat_inj.mp).mp heq.symm

/-- A secret in canonical form decodes to the bytes it was encoded from. -/
theorem decodeBase32_encodeBase32 {bytes : Bytes} (h : 10 ≤ bytes.length) :
    decodeBase32 rt (encodeBase32 bytes) = some bytes := by
  have hne : encodeBase32 bytes ≠ [] := by
    intro hnil
    have := decodeLoop_encodeBase32 bytes
    rw [hnil] at this
    rw [← this] at h
    exact absurd h (by decide)
  have hall : (encodeBase32 bytes).all (· ∈ BASE32) = true :=
    List.all_eq_true.mpr fun u hu => by simpa using encodeBase32_mem bytes u hu
  have hlen : ¬ bytes.length < 10 := by omega
  simp only [decodeBase32, cleanBase32 rt (encodeBase32_mem bytes), decodeLoop_encodeBase32]
  simp [hne, hall, hlen]

theorem decodeBase32_length {value : JsString} {bytes : Bytes}
    (h : decodeBase32 rt value = some bytes) : 10 ≤ bytes.length := by
  simp only [decodeBase32] at h
  split at h
  · cases h
  · split at h
    · cases h
    · next hlen =>
      exact Option.some.inj h ▸ Nat.le_of_not_lt hlen

/-! ## What the check does -/

variable {rt} {C : Contract effects}

theorem totpForStep_ensures (hC : Routine C) (secret : JsString) (step : Nat) (algorithm : HashName)
    (digits : Nat) :
    Ensures C (totpForStep rt secret step algorithm digits) fun _ => step ≤ Json.maxSafeInteger := by
  unfold totpForStep
  split
  · exact fail_ensures
  · next hsafe =>
    split
    · exact fail_ensures
    · split
      · exact fail_ensures
      · exact suspend_then_ensures hC
          (suspend_then_ensures hC (pure_ensures (Nat.le_of_not_lt hsafe)))

theorem matchSteps_ensures (hC : Routine C) (secret presented : JsString) (algorithm : HashName)
    (digits : Nat) (lastUsedStep : Option Nat) {P : Nat → Prop}
    (hP : ∀ step, step ≤ Json.maxSafeInteger → lastUsedStep.all (· < step) = true → P step) :
    ∀ steps matched, (∀ m, matched = some m → P m) →
      Ensures C (matchSteps rt secret presented algorithm digits lastUsedStep steps matched) fun r =>
        ∀ step, r = some step → P step := by
  intro steps
  induction steps with
  | nil => exact fun matched h => pure_ensures h
  | cons step steps ih =>
    intro matched hmatched
    refine andThen_ensures (totpForStep_ensures hC secret step algorithm digits)
      fun expected hsafe => ih _ ?_
    intro m hm
    split at hm
    · next haccepted =>
      have hstep : P step := hP step hsafe (by simp at haccepted ⊢; exact haccepted.2)
      cases matched with
      | none => exact Option.some.inj hm ▸ hstep
      | some m' =>
        have hmax : max m' step = m := Option.some.inj hm
        rcases Nat.le_total m' step with hle | hle
        · rw [← hmax, Nat.max_eq_right hle]
          exact hstep
        · rw [← hmax, Nat.max_eq_left hle]
          exact hmatched m' rfl
    · exact hmatched m hm

/-- The accepted step is above the last one used. -/
theorem verifyTotp_ensures (hC : Routine C) (secret : JsString) (code : Option JsString) (now : Nat)
    (algorithm : HashName) (digits period skew : Nat) (lastUsedStep : Option Nat) :
    Ensures C (verifyTotp rt secret code now algorithm digits period skew lastUsedStep) fun r =>
      ∀ step, r = some step →
        step ≤ Json.maxSafeInteger ∧ ∀ last, lastUsedStep = some last → last < step := by
  unfold verifyTotp
  simp only
  split
  · exact pure_ensures (by rintro step ⟨⟩)
  · split
    · exact fail_ensures
    · split
      · exact fail_ensures
      · refine matchSteps_ensures hC _ _ _ _ _ (fun step hsafe h => ⟨hsafe, ?_⟩) _ _ (by simp)
        rintro last rfl
        simpa using h

end Sag
