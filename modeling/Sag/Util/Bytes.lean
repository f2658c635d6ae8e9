import Sag.Util.Text

/-!
# Byte, base64url and hexadecimal helpers

The encoders of `util/bytes.js` over lists of bytes. The shifts and masks of
the source are written as division and remainder.

`b64u` never produces white space and is injective, which is what lets a
digest printed by it stand for the bytes it was printed from; `b64u_length`
is the size it grows to.
-/

namespace Sag

abbrev Bytes := List UInt8

/-! ## UTF-8 -/

/-- The UTF-8 bytes of one code point; a lone surrogate is sent as U+FFFD. -/
def utf8Point (p : Nat) : Bytes :=
  let p := if 0xD800 ≤ p ∧ p ≤ 0xDFFF then 0xFFFD else p
  if p < 0x80 then [UInt8.ofNat p]
  else if p < 0x800 then [UInt8.ofNat (0xC0 + p / 0x40), UInt8.ofNat (0x80 + p % 0x40)]
  else if p < 0x10000 then
    [UInt8.ofNat (0xE0 + p / 0x1000), UInt8.ofNat (0x80 + p / 0x40 % 0x40),
      UInt8.ofNat (0x80 + p % 0x40)]
  else
    [UInt8.ofNat (0xF0 + p / 0x40000), UInt8.ofNat (0x80 + p / 0x1000 % 0x40),
      UInt8.ofNat (0x80 + p / 0x40 % 0x40), UInt8.ofNat (0x80 + p % 0x40)]

/-- `new TextEncoder().encode(s)`. -/
def utf8 (s : JsString) : Bytes := (codePoints s).flatMap utf8Point

/-- Constant-time comparison of two strings, which is on their bytes. -/
def timingSafeEqual (a b : JsString) : Bool := utf8 a = utf8 b

/-- A byte below 0x80 stands for an ASCII code point. -/
theorem utf8Point_ascii {p : Nat} (h : ∀ b ∈ utf8Point p, b < 128) : p < 128 := by
  have big : ∀ n : Nat, 128 ≤ n → n < 256 → ¬ UInt8.ofNat n < 128 := by
    intro n hn hlt hb
    have hnat : (UInt8.ofNat n).toNat < 128 := hb
    rw [UInt8.toNat_ofNat_of_lt' hlt] at hnat
    omega
  have hp : ∀ q : Nat, q = (if 0xD800 ≤ p ∧ p ≤ 0xDFFF then 0xFFFD else p) → q < 128 := by
    intro q hq
    rcases Nat.lt_or_ge q 128 with hsmall | hlarge
    · exact hsmall
    · simp only [utf8Point, ← hq] at h
      split at h
      · assumption
      · split at h
        · exact absurd (h _ List.mem_cons_self) (big _ (by omega) (by omega))
        · split at h
          · exact absurd (h _ List.mem_cons_self) (big _ (by omega) (by omega))
          · -- the first byte may wrap for a value that is no code point; the last one cannot
            exact absurd (h (UInt8.ofNat (0x80 + q % 0x40)) (by simp)) (big _ (by omega) (by omega))
  have hlt := hp _ rfl
  split at hlt <;> omega

/-- A string whose code points are ASCII is ASCII. -/
theorem ascii_of_codePoints : ∀ {s : JsString}, (∀ p ∈ codePoints s, p < 128) → ∀ u ∈ s, u < 128 := by
  intro s
  induction s using codePoints.induct with
  | case1 => simp
  | case2 u =>
    intro h v hv
    rw [List.mem_singleton.mp hv]
    exact h u.toNat (by simp [codePoints])
  | case3 u v s hpair ih =>
    intro h
    rw [codePoints, if_pos hpair] at h
    have := h _ List.mem_cons_self
    omega
  | case4 u v s hpair ih =>
    intro h w hw
    rw [codePoints, if_neg hpair] at h
    rcases List.mem_cons.mp hw with rfl | hw
    · exact h _ List.mem_cons_self
    · exact ih (fun p hp => h p (List.mem_cons_of_mem _ hp)) w hw

theorem utf8_ascii {s : JsString} (h : ∀ u ∈ s, u < 128) :
    utf8 s = s.map fun u => UInt8.ofNat u.toNat := by
  rw [utf8, codePoints_ascii h]
  induction s with
  | nil => rfl
  | cons u s ih =>
    have hu : u.toNat < 128 := h u List.mem_cons_self
    rw [List.map_cons, List.flatMap_cons, List.map_cons, ih fun v hv => h v (List.mem_cons_of_mem _ hv)]
    have hpoint : utf8Point u.toNat = [UInt8.ofNat u.toNat] := by
      have hsur : ¬ (0xD800 ≤ u.toNat ∧ u.toNat ≤ 0xDFFF) := by omega
      simp only [utf8Point, if_neg hsur]
      rw [if_pos (by omega)]
    rw [hpoint, List.singleton_append]

/-- An ASCII string equals only itself. -/
theorem timingSafeEqual_ascii {a b : JsString} (ha : ∀ u ∈ a, u < 128)
    (h : timingSafeEqual a b = true) : a = b := by
  have hutf : utf8 a = utf8 b := by simpa [timingSafeEqual] using h
  have hbytes : ∀ x ∈ utf8 b, x < 128 := by
    rw [← hutf, utf8_ascii ha]
    intro x hx
    obtain ⟨u, hu, rfl⟩ := List.mem_map.mp hx
    have hlt : u.toNat < 128 := ha u hu
    show (UInt8.ofNat u.toNat).toNat < 128
    rw [UInt8.toNat_ofNat_of_lt' (by simp [UInt8.size]; omega)]
    exact hlt
  have hb : ∀ u ∈ b, u < 128 := by
    refine ascii_of_codePoints fun p hp => utf8Point_ascii fun x hx => hbytes x ?_
    exact List.mem_flatMap.mpr ⟨p, hp, hx⟩
  rw [utf8_ascii ha, utf8_ascii hb] at hutf
  clear h hbytes
  induction a generalizing b with
  | nil => exact (List.map_eq_nil_iff.mp hutf.symm).symm
  | cons u a ih =>
    cases b with
    | nil => simp at hutf
    | cons v b =>
      simp only [List.map_cons, List.cons.injEq] at hutf
      have hu : u.toNat < 128 := ha u List.mem_cons_self
      have hv : v.toNat < 128 := hb v List.mem_cons_self
      have hnat : u.toNat = v.toNat := by
        have := congrArg UInt8.toNat hutf.1
        rwa [UInt8.toNat_ofNat_of_lt' (by simp [UInt8.size]; omega),
          UInt8.toNat_ofNat_of_lt' (by simp [UInt8.size]; omega)] at this
      rw [UInt16.toNat_inj.mp hnat, ih (fun w hw => ha w (List.mem_cons_of_mem _ hw)) hutf.2
        fun w hw => hb w (List.mem_cons_of_mem _ hw)]

/-! ## Base64url -/

def B64_ALPHA : JsString := js "ABCDEFGHIJKLMNOPQRSTUVWXYZabcdefghijklmnopqrstuvwxyz0123456789+/"

/-- `replaceAll('+', '-').replaceAll('/', '_')`. -/
def urlSafe (u : CodeUnit) : CodeUnit := if u = 43 then 45 else if u = 47 then 95 else u

def b64Char (i : Nat) : CodeUnit := urlSafe (B64_ALPHA.getD i 0)

/-- Encode bytes as base64url without padding. -/
def b64u : Bytes → JsString
  | [] => []
  | [b0] => [b64Char (b0.toNat / 4), b64Char (b0.toNat % 4 * 16)]
  | [b0, b1] =>
    [b64Char (b0.toNat / 4), b64Char (b0.toNat % 4 * 16 + b1.toNat / 16),
      b64Char (b1.toNat % 16 * 4)]
  | b0 :: b1 :: b2 :: rest =>
    b64Char (b0.toNat / 4) :: b64Char (b0.toNat % 4 * 16 + b1.toNat / 16) ::
      b64Char (b1.toNat % 16 * 4 + b2.toNat / 64) :: b64Char (b2.toNat % 64) :: b64u rest

/-- `replace(/=+$/, '')`. -/
def dropPadding (s : JsString) : JsString := (s.reverse.dropWhile (· = 61)).reverse

/-- `replaceAll('-', '+').replaceAll('_', '/')`. -/
def urlUnsafe (u : CodeUnit) : CodeUnit := if u = 45 then 43 else if u = 95 then 47 else u

def unb64uLoop : Nat → Nat → JsString → Bytes
  | _, _, [] => []
  | acc, bits, c :: cs =>
    let acc := (acc * 2 ^ 6 + B64_ALPHA.findIdx (· = c)) % 2 ^ 32
    let bits := bits + 6
    if 8 ≤ bits then UInt8.ofNat (acc / 2 ^ (bits - 8)) :: unb64uLoop acc (bits - 8) cs
    else unb64uLoop acc bits cs

/-- Decode base64url, padding optional. -/
def unb64u (s : JsString) : Option Bytes :=
  let norm := dropPadding (s.map urlUnsafe)
  if norm.all (· ∈ B64_ALPHA) then some (unb64uLoop 0 0 norm) else none

/-- Decode standard base64. -/
def unb64 (s : JsString) : Option Bytes := unb64u (s.map urlSafe)

/-- Four characters for every three bytes, two or three for a shorter tail. -/
theorem b64u_length : ∀ bs : Bytes, (b64u bs).length = (4 * bs.length + 2) / 3
  | [] => rfl
  | [_] => by simp [b64u]
  | [_, _] => by simp [b64u]
  | b0 :: b1 :: b2 :: rest => by
    simp only [b64u, List.length_cons, b64u_length rest]
    omega

/-- The alphabet unit by unit, so that what is decided of its characters does not read the text again
for each of them. -/
theorem B64_ALPHA_units : B64_ALPHA =
  [ 65, 66, 67, 68, 69, 70, 71, 72, 73, 74, 75, 76, 77, 78, 79, 80, 81, 82, 83, 84,
    85, 86, 87, 88, 89, 90, 97, 98, 99, 100, 101, 102, 103, 104, 105, 106, 107, 108, 109, 110,
    111, 112, 113, 114, 115, 116, 117, 118, 119, 120, 121, 122, 48, 49, 50, 51, 52, 53, 54, 55, 56, 57, 43, 47 ] := by
  rfl

theorem b64Char_mem {i : Nat} (h : i < 64) : isSpace (b64Char i) = false := by
  have hall : ∀ j : Fin 64, isSpace (b64Char j) = false := by
    simp only [b64Char, B64_ALPHA_units]
    decide
  exact hall ⟨i, h⟩

theorem b64_index {i : Nat} (h : i < 64) : B64_ALPHA.findIdx (· = urlUnsafe (b64Char i)) = i := by
  have hall : ∀ j : Fin 64, B64_ALPHA.findIdx (· = urlUnsafe (b64Char j)) = j := by
    simp only [b64Char, B64_ALPHA_units]
    decide
  exact hall ⟨i, h⟩

theorem b64Char_inj {i j : Nat} (hi : i < 64) (hj : j < 64) (h : b64Char i = b64Char j) : i = j := by
  rw [← b64_index hi, h, b64_index hj]

theorem b64Char_ascii {i : Nat} (h : i < 64) : b64Char i < 128 := by
  have hall : ∀ j : Fin 64, b64Char j < 128 := by
    simp only [b64Char, B64_ALPHA_units]
    decide
  exact hall ⟨i, h⟩

/-- Whatever holds of the alphabet holds of an encoding. -/
theorem b64u_forall {p : CodeUnit → Prop} (hp : ∀ i < 64, p (b64Char i)) :
    ∀ bs : Bytes, ∀ u ∈ b64u bs, p u
  | [] => by simp [b64u]
  | [b0] => by
    have h0 := b0.toNat_lt
    intro u hu
    simp only [b64u, List.mem_cons, List.not_mem_nil, or_false] at hu
    rcases hu with rfl | rfl <;> exact hp _ (by omega)
  | [b0, b1] => by
    have h0 := b0.toNat_lt
    have h1 := b1.toNat_lt
    intro u hu
    simp only [b64u, List.mem_cons, List.not_mem_nil, or_false] at hu
    rcases hu with rfl | rfl | rfl <;> exact hp _ (by omega)
  | b0 :: b1 :: b2 :: rest => by
    have h0 := b0.toNat_lt
    have h1 := b1.toNat_lt
    have h2 := b2.toNat_lt
    intro u hu
    simp only [b64u, List.mem_cons] at hu
    rcases hu with rfl | rfl | rfl | rfl | hu
    · exact hp _ (by omega)
    · exact hp _ (by omega)
    · exact hp _ (by omega)
    · exact hp _ (by omega)
    · exact b64u_forall hp rest u hu

theorem b64u_no_space (bs : Bytes) : ∀ u ∈ b64u bs, isSpace u = false :=
  b64u_forall (fun _ => b64Char_mem) bs

theorem b64u_ascii (bs : Bytes) : ∀ u ∈ b64u bs, u < 128 := b64u_forall (fun _ => b64Char_ascii) bs

/-- Two bytes with one value are one byte. -/
private theorem byte_eq {a b : UInt8} (h : a.toNat = b.toNat) : a = b := UInt8.toNat_inj.mp h

/-- No two byte strings have one encoding. -/
theorem b64u_injective : ∀ {as bs : Bytes}, b64u as = b64u bs → as = bs := by
  intro as
  induction as using b64u.induct with
  | case1 =>
    intro bs h
    cases bs using b64u.fun_cases <;> simp [b64u] at h ⊢
  | case2 a0 =>
    intro bs h
    have h0 := a0.toNat_lt
    cases bs using b64u.fun_cases with
    | case1 => simp [b64u] at h
    | case2 b0 =>
      have g0 := b0.toNat_lt
      simp only [b64u, List.cons.injEq, and_true] at h
      have e0 := b64Char_inj (by omega) (by omega) h.1
      have e1 := b64Char_inj (by omega) (by omega) h.2
      rw [byte_eq (show a0.toNat = b0.toNat by omega)]
    | case3 b0 b1 => simp [b64u] at h
    | case4 b0 b1 b2 rest => simp [b64u] at h
  | case3 a0 a1 =>
    intro bs h
    have h0 := a0.toNat_lt
    have h1 := a1.toNat_lt
    cases bs using b64u.fun_cases with
    | case1 => simp [b64u] at h
    | case2 b0 => simp [b64u] at h
    | case3 b0 b1 =>
      have g0 := b0.toNat_lt
      have g1 := b1.toNat_lt
      simp only [b64u, List.cons.injEq, and_true] at h
      have e0 := b64Char_inj (by omega) (by omega) h.1
      have e1 := b64Char_inj (by omega) (by omega) h.2.1
      have e2 := b64Char_inj (by omega) (by omega) h.2.2
      rw [byte_eq (show a0.toNat = b0.toNat by omega), byte_eq (show a1.toNat = b1.toNat by omega)]
    | case4 b0 b1 b2 rest => simp [b64u] at h
  | case4 a0 a1 a2 as ih =>
    intro bs h
    have h0 := a0.toNat_lt
    have h1 := a1.toNat_lt
    have h2 := a2.toNat_lt
    cases bs using b64u.fun_cases with
    | case1 => simp [b64u] at h
    | case2 b0 => simp [b64u] at h
    | case3 b0 b1 => simp [b64u] at h
    | case4 b0 b1 b2 rest =>
      have g0 := b0.toNat_lt
      have g1 := b1.toNat_lt
      have g2 := b2.toNat_lt
      simp only [b64u, List.cons.injEq] at h
      obtain ⟨c0, c1, c2, c3, hrest⟩ := h
      have e0 := b64Char_inj (by omega) (by omega) c0
      have e1 := b64Char_inj (by omega) (by omega) c1
      have e2 := b64Char_inj (by omega) (by omega) c2
      have e3 := b64Char_inj (by omega) (by omega) c3
      rw [byte_eq (show a0.toNat = b0.toNat by omega), byte_eq (show a1.toNat = b1.toNat by omega),
        byte_eq (show a2.toNat = b2.toNat by omega), ih hrest]

/-! ## Reading base64 back -/

/-- Standard base64, padded. -/
def b64 (bytes : Bytes) : JsString :=
  let s := (b64u bytes).map urlUnsafe
  s ++ List.replicate ((4 - s.length % 4) % 4) 61

theorem urlUnsafe_b64Char {i : Nat} (h : i < 64) :
    urlUnsafe (b64Char i) ∈ B64_ALPHA ∧ urlUnsafe (b64Char i) ≠ 61 ∧
      urlUnsafe (urlSafe (urlUnsafe (b64Char i))) = urlUnsafe (b64Char i) := by
  have hall : ∀ j : Fin 64, urlUnsafe (b64Char j) ∈ B64_ALPHA ∧ urlUnsafe (b64Char j) ≠ 61 ∧
      urlUnsafe (urlSafe (urlUnsafe (b64Char j))) = urlUnsafe (b64Char j) := by
    simp only [b64Char, B64_ALPHA_units]
    decide
  exact hall ⟨i, h⟩

/-- The loop reads back what was encoded, whatever was in the accumulator. -/
theorem unb64uLoop_b64u : ∀ (bs : Bytes) (acc : Nat), unb64uLoop acc 0 ((b64u bs).map urlUnsafe) = bs
  | [], acc => rfl
  | [b0], acc => by
    have h0 := b0.toNat_lt
    simp only [b64u, List.map_cons, List.map_nil, unb64uLoop, b64_index (show b0.toNat / 4 < 64 by omega),
      b64_index (show b0.toNat % 4 * 16 < 64 by omega), Nat.reduceAdd, Nat.reduceLeDiff, Nat.reduceSub, if_true,
      if_false]
    congr 1
    refine UInt8.toNat_inj.mp ?_
    rw [UInt8.toNat_ofNat']
    omega
  | [b0, b1], acc => by
    have h0 := b0.toNat_lt
    have h1 := b1.toNat_lt
    simp only [b64u, List.map_cons, List.map_nil, unb64uLoop, b64_index (show b0.toNat / 4 < 64 by omega),
      b64_index (show b0.toNat % 4 * 16 + b1.toNat / 16 < 64 by omega),
      b64_index (show b1.toNat % 16 * 4 < 64 by omega), Nat.reduceAdd, Nat.reduceLeDiff, Nat.reduceSub, if_true,
      if_false]
    congr 1
    · refine UInt8.toNat_inj.mp ?_
      rw [UInt8.toNat_ofNat']
      omega
    · congr 1
      refine UInt8.toNat_inj.mp ?_
      rw [UInt8.toNat_ofNat']
      omega
  | b0 :: b1 :: b2 :: rest, acc => by
    have h0 := b0.toNat_lt
    have h1 := b1.toNat_lt
    have h2 := b2.toNat_lt
    simp only [b64u, List.map_cons, unb64uLoop, b64_index (show b0.toNat / 4 < 64 by omega),
      b64_index (show b0.toNat % 4 * 16 + b1.toNat / 16 < 64 by omega),
      b64_index (show b1.toNat % 16 * 4 + b2.toNat / 64 < 64 by omega), b64_index (show b2.toNat % 64 < 64 by omega),
      Nat.reduceAdd, Nat.reduceLeDiff, Nat.reduceSub, if_true, if_false]
    rw [unb64uLoop_b64u rest]
    congr 1
    · refine UInt8.toNat_inj.mp ?_
      rw [UInt8.toNat_ofNat']
      omega
    · congr 1
      · refine UInt8.toNat_inj.mp ?_
        rw [UInt8.toNat_ofNat']
        omega
      · congr 1
        refine UInt8.toNat_inj.mp ?_
        rw [UInt8.toNat_ofNat']
        omega

theorem dropPadding_append {s : JsString} (h : ∀ u ∈ s, u ≠ 61) (n : Nat) :
    dropPadding (s ++ List.replicate n 61) = s := by
  have hpad : ∀ u ∈ (List.replicate n (61 : CodeUnit)), decide (u = 61) = true := fun u hu =>
    decide_eq_true (List.mem_replicate.mp hu).2
  unfold dropPadding
  rw [List.reverse_append, List.reverse_replicate, List.dropWhile_append_of_pos hpad]
  cases hrev : s.reverse with
  | nil => simpa using hrev.symm
  | cons u rest =>
    have hu : u ≠ 61 := h u (by rw [← List.mem_reverse, hrev]; exact List.mem_cons_self)
    rw [List.dropWhile_cons_of_neg (by simpa using hu), ← hrev, List.reverse_reverse]

/-- Decoding undoes encoding, -/
theorem unb64u_b64u (bs : Bytes) : unb64u (b64u bs) = some bs := by
  have hchars := b64u_forall (p := fun u => urlUnsafe u ∈ B64_ALPHA ∧ urlUnsafe u ≠ 61)
    (fun i hi => ⟨(urlUnsafe_b64Char hi).1, (urlUnsafe_b64Char hi).2.1⟩) bs
  have hpad : dropPadding ((b64u bs).map urlUnsafe) = (b64u bs).map urlUnsafe := by
    have hdrop := dropPadding_append (s := (b64u bs).map urlUnsafe) (fun u hu => ?_) 0
    · rwa [List.replicate_zero, List.append_nil] at hdrop
    · obtain ⟨v, hv, rfl⟩ := List.mem_map.mp hu
      exact (hchars v hv).2
  have hall : ((b64u bs).map urlUnsafe).all (· ∈ B64_ALPHA) = true := by
    refine List.all_eq_true.mpr fun u hu => ?_
    obtain ⟨v, hv, rfl⟩ := List.mem_map.mp hu
    exact decide_eq_true (hchars v hv).1
  unfold unb64u
  dsimp only
  rw [hpad, if_pos hall, unb64uLoop_b64u]

/-- in the standard form too. -/
theorem unb64_b64 (bs : Bytes) : unb64 (b64 bs) = some bs := by
  have hchars := b64u_forall (p := fun u => urlUnsafe u ∈ B64_ALPHA ∧ urlUnsafe u ≠ 61 ∧
    urlUnsafe (urlSafe (urlUnsafe u)) = urlUnsafe u) (fun i hi => urlUnsafe_b64Char hi) bs
  have hback : ((b64u bs).map urlUnsafe).map (urlUnsafe ∘ urlSafe) = (b64u bs).map urlUnsafe := by
    rw [List.map_map]
    exact List.map_congr_left fun u hu => (hchars u hu).2.2
  have hdrop : dropPadding (((b64 bs).map urlSafe).map urlUnsafe) = (b64u bs).map urlUnsafe := by
    unfold b64
    rw [List.map_map, List.map_append, hback, List.map_replicate]
    refine dropPadding_append (fun u hu => ?_) _
    obtain ⟨v, hv, rfl⟩ := List.mem_map.mp hu
    exact (hchars v hv).2.1
  have hall : ((b64u bs).map urlUnsafe).all (· ∈ B64_ALPHA) = true := by
    refine List.all_eq_true.mpr fun u hu => ?_
    obtain ⟨v, hv, rfl⟩ := List.mem_map.mp hu
    exact decide_eq_true (hchars v hv).1
  unfold unb64 unb64u
  dsimp only
  rw [hdrop, if_pos hall, unb64uLoop_b64u]

theorem b64_no_space (bs : Bytes) : ∀ u ∈ b64 bs, isSpace u = false := by
  have halpha : ∀ i < 64, isSpace (urlUnsafe (b64Char i)) = false := by
    intro i hi
    have hall : ∀ j : Fin 64, isSpace (urlUnsafe (b64Char j)) = false := by
      simp only [b64Char, B64_ALPHA_units]
      decide
    exact hall ⟨i, hi⟩
  intro u hu
  rcases List.mem_append.mp hu with hu | hu
  · obtain ⟨v, hv, rfl⟩ := List.mem_map.mp hu
    exact b64u_forall (p := fun u => isSpace (urlUnsafe u) = false) halpha bs v hv
  · rw [(List.mem_replicate.mp hu).2]
    rfl

/-! ## Hexadecimal -/

def hexDigit (n : Nat) : CodeUnit := (js "0123456789abcdef").getD n 0

def toHex (bytes : Bytes) : JsString :=
  bytes.flatMap fun b => [hexDigit (b.toNat / 16), hexDigit (b.toNat % 16)]

def upperHexDigit (n : Nat) : CodeUnit := (js "0123456789ABCDEF").getD n 0

/-- `byte.toString(16).toUpperCase().padStart(2, '0')`. -/
def hexByte (b : UInt8) : JsString := [upperHexDigit (b.toNat / 16), upperHexDigit (b.toNat % 16)]

/-- A digit in either case. -/
def readHexDigit (u : CodeUnit) : Option Nat :=
  if isDigit u then some (u.toNat - 48)
  else if 65 ≤ u && u ≤ 70 then some (u.toNat - 55)
  else if 97 ≤ u && u ≤ 102 then some (u.toNat - 87)
  else none

theorem readHexDigit_upper {n : Nat} (h : n < 16) : readHexDigit (upperHexDigit n) = some n := by
  have hall : ∀ j : Fin 16, readHexDigit (upperHexDigit j) = some j.val := by decide
  exact hall ⟨n, h⟩

/-- The digits of a byte, read back. -/
theorem readHexDigit_hexByte (b : UInt8) :
    readHexDigit (upperHexDigit (b.toNat / 16)) = some (b.toNat / 16) ∧
      readHexDigit (upperHexDigit (b.toNat % 16)) = some (b.toNat % 16) ∧
      UInt8.ofNat (b.toNat / 16 * 16 + b.toNat % 16) = b := by
  have hb := b.toNat_lt
  refine ⟨readHexDigit_upper (by omega), readHexDigit_upper (Nat.mod_lt _ (by omega)), ?_⟩
  refine UInt8.toNat_inj.mp ?_
  rw [UInt8.toNat_ofNat']
  omega

end Sag
