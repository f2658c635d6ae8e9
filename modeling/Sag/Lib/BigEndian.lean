import Mathlib.Data.Nat.Digits.Lemmas

/-!
# Numbers as bytes, most significant first

`minimal` has no leading zero and `fixedWidth n` has exactly `n` bytes. The second is the first
behind as many zeros as it takes (`pad_minimal`), which is what connects a format that leaves
leading zeros out to one that keeps them.
-/

namespace BigEndian

/-- The low `n` bytes of `v`. -/
def fixedWidth : Nat → Nat → List UInt8
  | 0, _ => []
  | n + 1, v => fixedWidth n (v / 256) ++ [UInt8.ofNat v]

/-- As few bytes as possible, and none for zero. -/
def minimal (v : Nat) : List UInt8 := ((Nat.digits 256 v).map UInt8.ofNat).reverse

@[simp] theorem fixedWidth_length (n v : Nat) : (fixedWidth n v).length = n := by
  induction n generalizing v with
  | zero => rfl
  | succ n ih => rw [fixedWidth, List.length_append, ih, List.length_singleton]

@[simp] theorem fixedWidth_zero (n : Nat) : fixedWidth n 0 = List.replicate n 0 := by
  induction n with
  | zero => rfl
  | succ n ih => rw [fixedWidth, Nat.zero_div, ih, List.replicate_succ']; rfl

@[simp] theorem minimal_zero : minimal 0 = [] := by rw [minimal, Nat.digits_zero]; rfl

theorem minimal_pos {v : Nat} (h : 0 < v) : minimal v = minimal (v / 256) ++ [UInt8.ofNat v] := by
  rw [minimal, Nat.digits_def' (by decide) h, List.map_cons, List.reverse_cons, ← minimal]
  congr 2
  exact UInt8.toNat_inj.mp (by rw [UInt8.toNat_ofNat', UInt8.toNat_ofNat', Nat.mod_mod])

theorem minimal_length_le {n v : Nat} (h : v < 256 ^ n) : (minimal v).length ≤ n := by
  rw [minimal, List.length_reverse, List.length_map]
  exact (Nat.digits_length_le_iff (by decide) v).mpr h

/-- A number that is not zero has a first byte, which is not zero. -/
theorem minimal_head {v : Nat} (h : 0 < v) : ∃ b rest, minimal v = b :: rest ∧ b ≠ 0 := by
  induction v using Nat.strongRecOn with
  | ind v ih =>
    rw [minimal_pos h]
    by_cases hhigh : v / 256 = 0
    · refine ⟨UInt8.ofNat v, [], by rw [hhigh, minimal_zero]; rfl, fun hzero => ?_⟩
      have hbyte := congrArg UInt8.toNat hzero
      rw [UInt8.toNat_ofNat'] at hbyte
      have : v % 256 = 0 := hbyte
      omega
    · obtain ⟨b, rest, hb, hne⟩ := ih (v / 256) (by omega) (by omega)
      exact ⟨b, rest ++ [UInt8.ofNat v], by rw [hb, List.cons_append], hne⟩

/-- The fixed width is the minimum with zeros in front. -/
theorem pad_minimal {n v : Nat} (h : v < 256 ^ n) :
    List.replicate (n - (minimal v).length) 0 ++ minimal v = fixedWidth n v := by
  induction n generalizing v with
  | zero =>
    have hv : v = 0 := by simpa using h
    rw [hv]
    simp [fixedWidth]
  | succ n ih =>
    rcases Nat.eq_zero_or_pos v with rfl | hpos
    · simp
    · have hrest : v / 256 < 256 ^ n := by
        rw [Nat.pow_succ] at h
        exact Nat.div_lt_of_lt_mul (by omega)
      rw [fixedWidth, ← ih hrest, minimal_pos hpos, List.length_append, List.length_singleton,
        Nat.add_sub_add_right, List.append_assoc]

end BigEndian
