import Sag.Lib.BigEndian

/-!
# DER

As much of X.690 as a pair of integers takes: a tag, a length in one of its forms, and the contents.
An integer is in two's complement, so one whose first byte has its high bit set gets a zero in front.

The length of a sequence may be in the long form where the short form would do, and in more bytes
than it takes: DER asks for the shortest, but a reader is easily more generous.
-/

namespace Der

open BigEndian

/-- The ways to write a length. -/
inductive LengthForm where
  | short
  | long (width : Nat)
  deriving DecidableEq

/-- The length can be written in this form. -/
def LengthForm.Fits : LengthForm → Nat → Prop
  | .short, n => n < 128
  | .long width, n => 0 < width ∧ width < 128 ∧ n < 256 ^ width

instance (form : LengthForm) (n : Nat) : Decidable (form.Fits n) := by
  cases form
  · exact inferInstanceAs (Decidable (n < 128))
  · exact inferInstanceAs (Decidable (_ ∧ _))

def LengthForm.bytes : LengthForm → Nat → List UInt8
  | .short, n => [UInt8.ofNat n]
  | .long width, n => UInt8.ofNat (128 + width) :: fixedWidth width n

/-- The form DER itself prescribes. -/
def shortest (n : Nat) : LengthForm := if n < 128 then .short else .long (minimal n).length

def encode (tag : UInt8) (form : LengthForm) (contents : List UInt8) : List UInt8 :=
  tag :: form.bytes contents.length ++ contents

/-- The contents of an integer that is not negative. -/
def integerContents (v : Nat) : List UInt8 :=
  match minimal v with
  | [] => [0]
  | b :: rest => if b < 128 then b :: rest else 0 :: b :: rest

def integer (v : Nat) : List UInt8 :=
  encode 0x02 (shortest (integerContents v).length) (integerContents v)

/-- `SEQUENCE { r INTEGER, s INTEGER }`. -/
def integerPair (form : LengthForm) (r s : Nat) : List UInt8 := encode 0x30 form (integer r ++ integer s)

theorem integerContents_length_le {n v : Nat} (h : v < 256 ^ n) : (integerContents v).length ≤ n + 1 := by
  have hlen := minimal_length_le h
  unfold integerContents
  split
  · exact Nat.succ_le_succ (Nat.zero_le n)
  · next b rest hmin =>
    rw [hmin] at hlen
    split
    · exact Nat.le_succ_of_le hlen
    · exact Nat.succ_le_succ hlen

/-- The length of a short integer takes one byte. -/
theorem integer_short {n v : Nat} (h : v < 256 ^ n) (hn : n + 1 < 128) :
    integer v = 0x02 :: UInt8.ofNat (integerContents v).length :: integerContents v := by
  have hlen := integerContents_length_le h
  rw [integer, encode, shortest, if_pos (by omega)]
  rfl

theorem integer_length_le {n v : Nat} (h : v < 256 ^ n) (hn : n + 1 < 128) : (integer v).length ≤ n + 3 := by
  have hlen := integerContents_length_le h
  rw [integer_short h hn, List.length_cons, List.length_cons]
  omega

end Der
