import Mathlib.Algebra.Order.Ring.Nat

/-!
# Regrouping a stream of bits

A base-`2^w` encoder reads bytes into an accumulator and writes digits of `w`
bits out of it; a decoder does the reverse. Both are right when the bits that
went in are the bits that came out, followed by what is still pending.

`bitsOf w n` is the low `w` bits of `n`, most significant first. `bitsOf_add`
splits it, `bitsOf_congr` and `bitsOf_inj` say it depends on `n` modulo `2^w` and
on nothing else, and `flatMap_bitsOf_inj` makes equal streams equal digits.
-/

namespace Bits

/-- The low `w` bits of `n`, most significant first. -/
def bitsOf : Nat → Nat → List Bool
  | 0, _ => []
  | w + 1, n => bitsOf w (n / 2) ++ [decide (n % 2 = 1)]

@[simp] theorem bitsOf_length (w n : Nat) : (bitsOf w n).length = w := by
  induction w generalizing n with
  | zero => rfl
  | succ w ih => simp [bitsOf, ih]

/-- High bits, then low bits. -/
theorem bitsOf_add (a b n : Nat) : bitsOf (a + b) n = bitsOf a (n / 2 ^ b) ++ bitsOf b n := by
  induction b generalizing n with
  | zero => simp [bitsOf]
  | succ b ih =>
    have hdiv : n / 2 / 2 ^ b = n / 2 ^ (b + 1) := by
      rw [Nat.div_div_eq_div_mul, Nat.pow_succ, Nat.mul_comm 2]
    rw [← Nat.add_assoc, bitsOf, ih, hdiv, List.append_assoc]
    rfl

/-- Only the residue counts. -/
theorem bitsOf_congr {w n m : Nat} (h : n % 2 ^ w = m % 2 ^ w) : bitsOf w n = bitsOf w m := by
  induction w generalizing n m with
  | zero => rfl
  | succ w ih =>
    have split : ∀ k : Nat, k % 2 ^ (w + 1) = k / 2 % 2 ^ w * 2 + k % 2 := by
      intro k
      rw [Nat.pow_succ, Nat.mul_comm, Nat.mod_mul]
      omega
    have hlow : n % 2 = m % 2 := by
      have := split n; have := split m
      omega
    have hhigh : n / 2 % 2 ^ w = m / 2 % 2 ^ w := by
      have := split n; have := split m
      omega
    rw [bitsOf, bitsOf, ih hhigh, hlow]

/-- Equal bits, equal residues. -/
theorem bitsOf_inj {w n m : Nat} (h : bitsOf w n = bitsOf w m) : n % 2 ^ w = m % 2 ^ w := by
  induction w generalizing n m with
  | zero => simp [Nat.mod_one]
  | succ w ih =>
    rw [bitsOf, bitsOf] at h
    obtain ⟨hhigh, hlow⟩ := List.append_inj h (by simp)
    have hlow : n % 2 = m % 2 := by
      have hiff : n % 2 = 1 ↔ m % 2 = 1 := by simpa using hlow
      omega
    rw [Nat.pow_succ, Nat.mul_comm, Nat.mod_mul, Nat.mod_mul, ih hhigh, hlow]

/-- Streams of equal length that agree are the same digits. -/
theorem flatMap_bitsOf_inj {w : Nat} {ns ms : List Nat} (hn : ∀ n ∈ ns, n < 2 ^ w)
    (hm : ∀ m ∈ ms, m < 2 ^ w) (hlen : ns.length = ms.length)
    (h : ns.flatMap (bitsOf w) = ms.flatMap (bitsOf w)) : ns = ms := by
  induction ns generalizing ms with
  | nil => exact (List.eq_nil_of_length_eq_zero hlen.symm).symm
  | cons n ns ih =>
    cases ms with
    | nil => simp at hlen
    | cons m ms =>
      rw [List.flatMap_cons, List.flatMap_cons] at h
      obtain ⟨hhead, htail⟩ := List.append_inj h (by simp)
      have hhead := bitsOf_inj hhead
      rw [Nat.mod_eq_of_lt (hn n List.mem_cons_self), Nat.mod_eq_of_lt (hm m List.mem_cons_self)] at hhead
      rw [hhead, ih (fun x hx => hn x (List.mem_cons_of_mem _ hx))
        (fun x hx => hm x (List.mem_cons_of_mem _ hx)) (by simpa using hlen) htail]

theorem flatMap_bitsOf_length (w : Nat) (ns : List Nat) :
    (ns.flatMap (bitsOf w)).length = w * ns.length := by
  induction ns with
  | nil => simp
  | cons n ns ih => simp [ih, Nat.mul_succ, Nat.add_comm]

/-- Whole digits in a stream with fewer than `w` bits left over are determined
by the stream. -/
theorem flatMap_bitsOf_unique {w : Nat} {ns ms : List Nat} {p q : List Bool} (hn : ∀ n ∈ ns, n < 2 ^ w)
    (hm : ∀ m ∈ ms, m < 2 ^ w) (hp : p.length < w) (hq : q.length < w)
    (h : ns.flatMap (bitsOf w) ++ p = ms.flatMap (bitsOf w) ++ q) : ns = ms := by
  have hlen := congrArg List.length h
  simp only [List.length_append, flatMap_bitsOf_length] at hlen
  have hcount : ns.length = ms.length := by
    rcases Nat.lt_trichotomy ns.length ms.length with hlt | heq | hgt
    · have := Nat.mul_le_mul_left w hlt
      rw [Nat.mul_succ] at this
      omega
    · exact heq
    · have := Nat.mul_le_mul_left w hgt
      rw [Nat.mul_succ] at this
      omega
  obtain ⟨hstream, -⟩ := List.append_inj h (by rw [flatMap_bitsOf_length, flatMap_bitsOf_length, hcount])
  exact flatMap_bitsOf_inj hn hm hcount hstream

/-- Shifting `d` in at the bottom of an accumulator of `k` bits, of which `b` are
pending, appends the bits of `d`. -/
theorem bitsOf_push {k w b a d : Nat} (hb : b + w ≤ k) (hd : d < 2 ^ w) :
    bitsOf (b + w) ((a * 2 ^ w + d) % 2 ^ k) = bitsOf b a ++ bitsOf w d := by
  have hpos : 0 < 2 ^ w := Nat.two_pow_pos w
  have hmod : (a * 2 ^ w + d) % 2 ^ k % 2 ^ (b + w) = (a * 2 ^ w + d) % 2 ^ (b + w) :=
    Nat.mod_mod_of_dvd _ (Nat.pow_dvd_pow 2 hb)
  rw [bitsOf_congr hmod, bitsOf_add]
  congr 1
  · rw [Nat.mul_comm, Nat.mul_add_div hpos, Nat.div_eq_of_lt hd, Nat.add_zero]
  · exact bitsOf_congr (by rw [Nat.mul_comm, Nat.mul_add_mod])

end Bits
