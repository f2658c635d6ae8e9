import Mathlib.Algebra.Order.Ring.Nat

/-!
# A bit accumulator in a signed 32-bit word

The loop of a base-`2^w` decoder whose bitwise operators work on signed 32-bit
integers. The accumulator is never cleared, so on a long input it overflows: its
high bits fall off the top, and a set bit 31 is copied down by the shift that
reads it.

Neither matters. `shiftIn_toNat` is what one step does to the word read without
a sign, and `readOut_eq` says a read of `w` bits that starts low enough sees the
same bits whatever the sign, so the loop may as well keep a number modulo `2^32`
(`unpackNat_eq`). `unpack_length` counts what a whole run produces, so an array
of that size is filled exactly.
-/

namespace Accumulator

/-- `(acc << w) | digit`. -/
def shiftIn (w : Nat) (acc : BitVec 32) (digit : Nat) : BitVec 32 := acc <<< w ||| BitVec.ofNat 32 digit

/-- `(acc >> bits) & (2^w - 1)`: the shift keeps the sign. -/
def readOut (w : Nat) (acc : BitVec 32) (bits : Nat) : Nat :=
  (acc.sshiftRight bits &&& BitVec.ofNat 32 (2 ^ w - 1)).toNat

/-- `(acc << n) & (2^w - 1)`. -/
def readLow (w : Nat) (acc : BitVec 32) (n : Nat) : Nat :=
  (acc <<< n &&& BitVec.ofNat 32 (2 ^ w - 1)).toNat

theorem shiftIn_toNat {w digit : Nat} (acc : BitVec 32) (hdigit : digit < 2 ^ w) (hw : w ≤ 32) :
    (shiftIn w acc digit).toNat = (acc.toNat * 2 ^ w + digit) % 2 ^ 32 := by
  have hfits : digit < 2 ^ 32 := Nat.lt_of_lt_of_le hdigit (Nat.pow_le_pow_right (by decide) hw)
  rw [shiftIn, BitVec.toNat_or, BitVec.toNat_shiftLeft, BitVec.toNat_ofNat, ← Nat.or_mod_two_pow,
    ← Nat.shiftLeft_add_eq_or_of_lt hdigit, Nat.shiftLeft_eq]

/-- The mask of `w` ones, cut to the word. -/
theorem mask_getLsbD {w i : Nat} (hw : w ≤ 32) :
    (BitVec.ofNat 32 (2 ^ w - 1)).getLsbD i = decide (i < w) := by
  rw [BitVec.getLsbD_ofNat, Nat.testBit_two_pow_sub_one]
  have himp : i < w → i < 32 := fun h => Nat.lt_of_lt_of_le h hw
  by_cases h : i < w
  · simp [h, himp h]
  · simp [h]

/-- A read below the sign sees the bits of the unsigned word. -/
theorem readOut_eq {w bits : Nat} (acc : BitVec 32) (h : bits + w ≤ 32) :
    readOut w acc bits = acc.toNat / 2 ^ bits % 2 ^ w := by
  refine Nat.eq_of_testBit_eq fun i => ?_
  rw [Nat.testBit_mod_two_pow, Nat.testBit_div_two_pow, readOut, ← BitVec.getLsbD, BitVec.getLsbD_and,
    BitVec.getLsbD_sshiftRight, mask_getLsbD (by omega)]
  by_cases hi : i < w
  · -- the bit is below the sign, so the copied sign is out of reach
    have hlow : bits + i < 32 := by omega
    have hword : ¬ 32 ≤ i := by omega
    simp [hi, hlow, hword, BitVec.getLsbD, Nat.add_comm]
  · simp [hi]

theorem readLow_eq {w n : Nat} (acc : BitVec 32) (hw : w ≤ 32) :
    readLow w acc n = acc.toNat * 2 ^ n % 2 ^ w := by
  have hmask : 2 ^ w - 1 < 2 ^ 32 := by
    have := Nat.pow_le_pow_right (n := 2) (by decide) hw
    have := Nat.two_pow_pos w
    omega
  rw [readLow, BitVec.toNat_and, BitVec.toNat_shiftLeft, BitVec.toNat_ofNat, Nat.mod_eq_of_lt hmask,
    Nat.and_two_pow_sub_one_eq_mod, Nat.shiftLeft_eq, Nat.mod_mod_of_dvd _ (Nat.pow_dvd_pow 2 hw)]

/-- The decoder's loop: digits of `w` bits in, bytes out. -/
def unpack (w : Nat) : BitVec 32 → Nat → List Nat → List UInt8
  | _, _, [] => []
  | acc, bits, d :: ds =>
    let acc := shiftIn w acc d
    let bits := bits + w
    if 8 ≤ bits then UInt8.ofNat (readOut 8 acc (bits - 8)) :: unpack w acc (bits - 8) ds
    else unpack w acc bits ds

/-- The same loop over numbers, of which the residue modulo `2^32` is kept. -/
def unpackNat (w : Nat) : Nat → Nat → List Nat → List UInt8
  | _, _, [] => []
  | acc, bits, d :: ds =>
    let acc := (acc * 2 ^ w + d) % 2 ^ 32
    let bits := bits + w
    if 8 ≤ bits then UInt8.ofNat (acc / 2 ^ (bits - 8)) :: unpackNat w acc (bits - 8) ds
    else unpackNat w acc bits ds

/-- Neither the sign nor what fell off the top is ever read. -/
theorem unpackNat_eq {w : Nat} (hw : w ≤ 8) (ds : List Nat) :
    ∀ (acc : BitVec 32) (bits : Nat), bits < 8 → (∀ d ∈ ds, d < 2 ^ w) →
      unpackNat w acc.toNat bits ds = unpack w acc bits ds := by
  induction ds with
  | nil => intro acc bits _ _; rfl
  | cons d ds ih =>
    intro acc bits hbits hds
    have hrest : ∀ x ∈ ds, x < 2 ^ w := fun x hx => hds x (List.mem_cons_of_mem _ hx)
    simp only [unpackNat, unpack]
    rw [← shiftIn_toNat acc (hds d List.mem_cons_self) (by omega)]
    split
    · next hfull =>
      rw [ih _ (bits + w - 8) (by omega) hrest, readOut_eq _ (by omega)]
      congr 1
      exact UInt8.toNat_inj.mp (by rw [UInt8.toNat_ofNat', UInt8.toNat_ofNat', Nat.mod_mod])
    · next hpart =>
      exact ih _ (bits + w) (by omega) hrest

/-- A byte for every eight bits. -/
theorem unpack_length {w : Nat} (hw : w ≤ 8) (ds : List Nat) :
    ∀ (acc : BitVec 32) (bits : Nat), bits < 8 → (unpack w acc bits ds).length = (bits + w * ds.length) / 8 := by
  induction ds with
  | nil =>
    intro acc bits hbits
    simp [unpack, Nat.div_eq_of_lt hbits]
  | cons d ds ih =>
    intro acc bits hbits
    have hmul : w * (d :: ds).length = w * ds.length + w := Nat.mul_succ w ds.length
    simp only [unpack]
    split
    · next hfull =>
      rw [List.length_cons, ih _ (bits + w - 8) (by omega), hmul]
      omega
    · next hpart =>
      rw [ih _ (bits + w) (by omega), hmul]
      omega

end Accumulator
