import Mathlib.Data.Int.Log
import Mathlib.Data.Rat.Floor
import Mathlib.Tactic.Linarith
import Mathlib.Tactic.FieldSimp
import Mathlib.Tactic.NormNum

/-!
# Rounding to double precision

The sum of two doubles is their exact sum, rounded to the nearest double (`round`). An
integer is a double, so rounding never crosses it (`le_round`), and what is nearer to it
than half the distance of the doubles there is rounded to it (`exists_margin`).

Three sums of the same numbers taken in different orders need not be equal. But where one
of them reaches an integer only by rounding, it was within a margin of that integer that no
other order leaves (`margin_round`).
-/

namespace Binary64

/-- The distance of the doubles about `x`. The exponent is not bounded above. -/
def ulp (x : ℚ) : ℚ := 2 ^ (max (Int.log 2 |x|) (-1022) - 52)

/-- The nearest integer, and the even one of two. -/
def nearest (q : ℚ) : ℤ :=
  if q - ⌊q⌋ < 1 / 2 ∨ (q - ⌊q⌋ = 1 / 2 ∧ ⌊q⌋ % 2 = 0) then ⌊q⌋ else ⌊q⌋ + 1

/-- The nearest double. -/
def round (x : ℚ) : ℚ := nearest (x / ulp x) * ulp x

/-! ## Integers -/

theorem le_nearest {q : ℚ} {n : ℤ} (h : (n : ℚ) ≤ q) : n ≤ nearest q := by
  have hfloor : n ≤ ⌊q⌋ := Int.le_floor.mpr h
  unfold nearest
  split <;> omega

theorem nearest_le_add (q : ℚ) : (nearest q : ℚ) ≤ q + 1 / 2 := by
  have hlow := Int.floor_le q
  unfold nearest
  split
  · linarith
  · next h =>
    rw [not_or] at h
    have hhalf := h.1
    push_cast
    linarith

/-- An even integer takes what is half a unit below it. -/
theorem le_nearest_of_even {q : ℚ} {n : ℤ} (heven : n % 2 = 0) (h : (n : ℚ) - 1 / 2 ≤ q) : n ≤ nearest q := by
  by_cases hle : (n : ℚ) ≤ q
  · exact le_nearest hle
  · have hfloor : ⌊q⌋ = n - 1 := by
      rw [Int.floor_eq_iff]
      push_cast
      constructor <;> linarith
    unfold nearest
    rw [hfloor]
    split
    · next hdown =>
      exfalso
      push_cast at hdown
      rcases hdown with hdown | ⟨-, hodd⟩
      · linarith
      · omega
    · omega

/-! ## Units -/

theorem ulp_pos (x : ℚ) : 0 < ulp x := zpow_pos (by norm_num) _

/-- A power of two that is at most one divides every integer. -/
theorem exists_mul_of_le {k : ℤ} (hk : k ≤ 0) (n : ℤ) : ∃ m : ℤ, (n : ℚ) = m * 2 ^ k := by
  refine ⟨n * 2 ^ k.natAbs, ?_⟩
  have hcancel : (2 : ℚ) ^ k.natAbs * 2 ^ k = 1 := by
    rw [← zpow_natCast, ← zpow_add₀ (by norm_num)]
    have hzero : (k.natAbs : ℤ) + k = 0 := by omega
    rw [hzero, zpow_zero]
  push_cast
  rw [mul_assoc, hcancel, mul_one]

/-- Below one, it goes into every integer an even number of times. -/
theorem exists_even_mul_of_lt {k : ℤ} (hk : k < 0) (n : ℤ) : ∃ m : ℤ, m % 2 = 0 ∧ (n : ℚ) = m * 2 ^ k := by
  obtain ⟨m, hm⟩ := exists_mul_of_le (show k + 1 ≤ 0 by omega) n
  refine ⟨m * 2, by omega, ?_⟩
  rw [hm, zpow_add₀ (by norm_num)]
  push_cast
  ring

/-- What a multiple of the unit is at most is rounded to no less. -/
theorem mul_le_round {x : ℚ} {m : ℤ} (h : m * ulp x ≤ x) : m * ulp x ≤ round x := by
  have hpos := ulp_pos x
  have hle : (m : ℚ) ≤ x / ulp x := by rwa [le_div_iff₀ hpos]
  have hnearest : (m : ℚ) ≤ nearest (x / ulp x) := by exact_mod_cast le_nearest hle
  exact mul_le_mul_of_nonneg_right hnearest (le_of_lt hpos)

theorem even_mul_le_round {x : ℚ} {m : ℤ} (heven : m % 2 = 0) (h : m * ulp x - ulp x / 2 ≤ x) :
    m * ulp x ≤ round x := by
  have hpos := ulp_pos x
  have hle : (m : ℚ) - 1 / 2 ≤ x / ulp x := by
    rw [le_div_iff₀ hpos]
    linarith
  have hnearest : (m : ℚ) ≤ nearest (x / ulp x) := by exact_mod_cast le_nearest_of_even heven hle
  exact mul_le_mul_of_nonneg_right hnearest (le_of_lt hpos)

theorem round_le_add (x : ℚ) : round x ≤ x + ulp x / 2 := by
  have hpos := ulp_pos x
  have hle := mul_le_mul_of_nonneg_right (nearest_le_add (x / ulp x)) (le_of_lt hpos)
  have hcancel : (x / ulp x + 1 / 2) * ulp x = x + ulp x / 2 := by
    field_simp
  unfold round
  linarith

/-- The unit of a number that is not large. -/
theorem ulp_le {x : ℚ} {m : ℤ} (hx : |x| < 2 ^ m) (hm : 1 ≤ m) : ∃ k : ℤ, ulp x = 2 ^ k ∧ k ≤ m - 53 := by
  refine ⟨_, rfl, ?_⟩
  by_cases hzero : |x| = 0
  · rw [hzero, Int.log_zero_right]
    omega
  · have hpos : 0 < |x| := lt_of_le_of_ne (abs_nonneg x) (Ne.symm hzero)
    have hlog : Int.log 2 |x| < m := by
      have hlt : |x| < ((2 : ℕ) : ℚ) ^ m := by exact_mod_cast hx
      exact (Int.lt_zpow_iff_log_lt (by norm_num) hpos).mp hlt
    omega

/-! ## Rounding and integers -/

/-- Rounding up to an integer or below it does not cross it. -/
theorem le_round {x : ℚ} {n : ℤ} (hn : |(n : ℚ)| < 2 ^ 53) (h : (n : ℚ) ≤ x) : (n : ℚ) ≤ round x := by
  by_cases hx : |x| < 2 ^ (53 : ℤ)
  · obtain ⟨k, hulp, hk⟩ := ulp_le hx (by omega)
    obtain ⟨m, hm⟩ := exists_mul_of_le (show k ≤ 0 by omega) n
    rw [hm, ← hulp] at h ⊢
    exact mul_le_round h
  · -- such a number is beyond the integer, and not below its own power of two
    have hlarge : (2 : ℚ) ^ 53 ≤ |x| := by
      rw [not_lt] at hx
      exact_mod_cast hx
    have hpos : 0 < x := by
      by_contra hneg
      rw [abs_of_nonpos (not_lt.mp hneg)] at hlarge
      have hbelow := neg_le_abs (n : ℚ)
      linarith
    rw [abs_of_pos hpos] at hlarge
    have hpower : (((2 : ℕ) : ℚ)) ^ Int.log 2 x ≤ x := Int.zpow_log_le_self (by norm_num) hpos
    have hlog : 53 ≤ Int.log 2 x := by
      refine (Int.zpow_le_iff_le_log (by norm_num) hpos).mp ?_
      exact_mod_cast hlarge
    have hulp : ulp x = 2 ^ (Int.log 2 x - 52) := by
      unfold ulp
      rw [abs_of_pos hpos, max_eq_left (by omega)]
    have hunits : ((2 ^ 52 : ℤ) : ℚ) * ulp x = 2 ^ Int.log 2 x := by
      rw [hulp, zpow_sub₀ (by norm_num)]
      norm_num
      field_simp
    have hround : (2 : ℚ) ^ Int.log 2 x ≤ round x := by
      rw [← hunits]
      refine mul_le_round ?_
      rw [hunits]
      exact_mod_cast hpower
    have hreach : (2 : ℚ) ^ (53 : ℤ) ≤ 2 ^ Int.log 2 x := zpow_le_zpow_right₀ (by norm_num) hlog
    have hbelow := le_abs_self (n : ℚ)
    norm_num at hreach hn
    linarith

theorem nearest_intCast (m : ℤ) : nearest m = m := by
  have hfloor : ⌊(m : ℚ)⌋ = m := Int.floor_intCast m
  have hhalf : (m : ℚ) - m < 1 / 2 := by norm_num
  unfold nearest
  rw [hfloor, if_pos (Or.inl hhalf)]

/-- An integer is a double. -/
theorem round_intCast {n : ℤ} (hn : |(n : ℚ)| < 2 ^ 53) : round n = n := by
  have hsize : |(n : ℚ)| < 2 ^ (53 : ℤ) := by exact_mod_cast hn
  obtain ⟨k, hulp, hk⟩ := ulp_le hsize (by omega)
  obtain ⟨m, hm⟩ := exists_mul_of_le (show k ≤ 0 by omega) n
  have hpos : (0 : ℚ) < 2 ^ k := zpow_pos (by norm_num) _
  have hquotient : (n : ℚ) / ulp n = m := by
    rw [hulp, hm, mul_div_assoc, div_self hpos.ne', mul_one]
  unfold round
  rw [hquotient, nearest_intCast, hulp, hm]

/-- A margin below an integer: none, or a power of two. -/
def IsMargin (h : ℚ) : Prop := h = 0 ∨ ∃ k : ℤ, k < 0 ∧ h = 2 ^ k

theorem IsMargin.bounds {h : ℚ} (hh : IsMargin h) : 0 ≤ h ∧ h ≤ 1 / 2 := by
  rcases hh with rfl | ⟨k, hk, rfl⟩
  · norm_num
  · have hle : (2 : ℚ) ^ k ≤ 2 ^ (-1 : ℤ) := zpow_le_zpow_right₀ (by norm_num) (by omega)
    norm_num at hle
    exact ⟨le_of_lt (zpow_pos (by norm_num) k), by linarith⟩

/-- Rounding does not leave the margin of an integer. -/
theorem margin_round {x h : ℚ} {n : ℤ} (hh : IsMargin h) (hn : |(n : ℚ)| < 2 ^ 50) (hx : (n : ℚ) - h ≤ x) :
    (n : ℚ) - h ≤ round x := by
  obtain ⟨hnonneg, hhalf⟩ := hh.bounds
  by_cases hle : (n : ℚ) ≤ x
  · have hround := le_round (lt_trans hn (by norm_num)) hle
    linarith
  rcases hh with rfl | ⟨j, hj, rfl⟩
  · linarith
  obtain ⟨hlow, hhigh⟩ := abs_lt.mp hn
  have hsmall : |x| < 2 ^ (51 : ℤ) := by
    rw [abs_lt]
    norm_num at hlow hhigh ⊢
    constructor <;> linarith
  obtain ⟨k, hulp, hk⟩ := ulp_le hsmall (by omega)
  by_cases hfine : k ≤ j
  · -- the doubles there divide the margin
    obtain ⟨m, hm⟩ := exists_mul_of_le (show k ≤ 0 by omega) n
    obtain ⟨m', hm'⟩ := exists_mul_of_le (show k - j ≤ 0 by omega) 1
    have hmargin : (2 : ℚ) ^ j = m' * 2 ^ k := by
      have hsplit : (2 : ℚ) ^ k = 2 ^ (k - j) * 2 ^ j := by
        rw [← zpow_add₀ (by norm_num)]
        congr 1
        omega
      rw [hsplit, ← mul_assoc, ← hm']
      norm_num
    have hunits : (n : ℚ) - 2 ^ j = ((m - m' : ℤ) : ℚ) * ulp x := by
      rw [hulp, hm, hmargin]
      push_cast
      ring
    rw [hunits] at hx ⊢
    exact mul_le_round hx
  · -- the margin is at most half their distance
    obtain ⟨m, heven, hm⟩ := exists_even_mul_of_lt (show k < 0 by omega) n
    have hdouble : (2 : ℚ) ^ j ≤ ulp x / 2 := by
      have hle : (2 : ℚ) ^ j ≤ 2 ^ (k - 1) := zpow_le_zpow_right₀ (by norm_num) (by omega)
      rw [zpow_sub_one₀ (by norm_num)] at hle
      rw [hulp]
      linarith
    have hround : (n : ℚ) ≤ round x := by
      rw [hm, ← hulp] at hx ⊢
      exact even_mul_le_round heven (by linarith)
    linarith

theorem round_nonpos {x : ℚ} (h : x ≤ 0) : round x ≤ 0 := by
  have hpos := ulp_pos x
  have hq : x / ulp x ≤ 0 := div_nonpos_of_nonpos_of_nonneg h (le_of_lt hpos)
  have hnearest : nearest (x / ulp x) ≤ 0 := by
    by_contra hnot
    have hone : ((1 : ℤ) : ℚ) ≤ nearest (x / ulp x) := by exact_mod_cast (show 1 ≤ nearest (x / ulp x) by omega)
    have hhalf := nearest_le_add (x / ulp x)
    push_cast at hone
    linarith
  have hcast : (nearest (x / ulp x) : ℚ) ≤ 0 := by exact_mod_cast hnearest
  exact mul_nonpos_of_nonpos_of_nonneg hcast (le_of_lt hpos)

/-- The power of two below a number is also below what is near the next integer. -/
theorem ulp_le_ulp {x y : ℚ} {n : ℤ} (hx : 0 < x) (hn : x < n) (hy : (n : ℚ) - 1 / 2 ≤ y) : ulp x ≤ ulp y := by
  have hpos : (0 : ℚ) < n := lt_trans hx hn
  have hone : (1 : ℚ) ≤ n := by exact_mod_cast (show 1 ≤ n by exact_mod_cast hpos)
  have hypos : 0 < y := by linarith
  have hbelow : ((2 : ℕ) : ℚ) ^ Int.log 2 x ≤ x := Int.zpow_log_le_self (by norm_num) hx
  have hpower : ((2 : ℕ) : ℚ) ^ Int.log 2 x ≤ y := by
    by_cases hlog : 0 ≤ Int.log 2 x
    · -- it is an integer, so it is a whole unit below `n`
      obtain ⟨e, he⟩ := Int.eq_ofNat_of_zero_le hlog
      rw [he, zpow_natCast] at hbelow ⊢
      have hlt : ((2 ^ e : ℤ) : ℚ) < n := by
        push_cast
        exact_mod_cast lt_of_le_of_lt hbelow hn
      have hnext : ((2 ^ e + 1 : ℤ) : ℚ) ≤ n := by
        have hint : (2 ^ e : ℤ) < n := by exact_mod_cast hlt
        exact_mod_cast hint
      push_cast at hnext ⊢
      linarith
    · have hle : ((2 : ℕ) : ℚ) ^ Int.log 2 x ≤ ((2 : ℕ) : ℚ) ^ (-1 : ℤ) :=
        zpow_le_zpow_right₀ (by norm_num) (by omega)
      norm_num at hle ⊢
      linarith
  have hlog : Int.log 2 x ≤ Int.log 2 y := (Int.zpow_le_iff_le_log (by norm_num) hypos).mp hpower
  unfold ulp
  rw [abs_of_pos hx, abs_of_pos hypos]
  exact zpow_le_zpow_right₀ (by norm_num) (by omega)

/-- What is rounded up to an integer is within a margin of it, and so near to it that all
there is rounded up to it. -/
theorem exists_margin {x : ℚ} {n : ℤ} (hpos : 1 ≤ n) (hn : (n : ℚ) < 2 ^ 50) (hx : (n : ℚ) ≤ round x) :
    ∃ h, IsMargin h ∧ (n : ℚ) - h ≤ x ∧ ∀ y : ℚ, (n : ℚ) - h ≤ y → (n : ℚ) ≤ round y := by
  have hone : (1 : ℚ) ≤ n := by exact_mod_cast hpos
  have habs : |(n : ℚ)| < 2 ^ 53 := by
    rw [abs_of_pos (by linarith)]
    linarith
  by_cases hle : (n : ℚ) ≤ x
  · exact ⟨0, Or.inl rfl, by linarith, fun y hy => le_round habs (by linarith)⟩
  rw [not_le] at hle
  have hxpos : 0 < x := by
    by_contra hneg
    have hround := round_nonpos (not_lt.mp hneg)
    linarith
  have small : ∀ z : ℚ, 0 < z → z < n → ∃ k : ℤ, ulp z = 2 ^ k ∧ k ≤ -2 := by
    intro z hz hzn
    refine ulp_le (m := 51) ?_ (by omega)
    rw [abs_of_pos hz]
    norm_num
    linarith
  obtain ⟨k, hulp, hk⟩ := small x hxpos hle
  have hmargin : IsMargin (ulp x / 2) := by
    refine Or.inr ⟨k - 1, by omega, ?_⟩
    rw [hulp, zpow_sub_one₀ (by norm_num)]
    ring
  have hhalf := hmargin.bounds.2
  refine ⟨ulp x / 2, hmargin, by linarith [round_le_add x], fun y hy => ?_⟩
  by_cases hny : (n : ℚ) ≤ y
  · exact le_round habs hny
  rw [not_le] at hny
  obtain ⟨k', hulp', hk'⟩ := small y (by linarith) hny
  obtain ⟨m, heven, hm⟩ := exists_even_mul_of_lt (show k' < 0 by omega) n
  have hgrow := ulp_le_ulp hxpos hle (show (n : ℚ) - 1 / 2 ≤ y by linarith)
  rw [← hulp'] at hm
  rw [hm] at hy ⊢
  exact even_mul_le_round heven (by linarith)

end Binary64
