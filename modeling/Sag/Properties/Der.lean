import Sag.Crypto.Jose
import Sag.Lib.Der

/-!
# From DER to the raw form

A key service returns a signature as a DER sequence of two integers, and JWS wants the two in the
width of the curve, one behind the other. `der_exact`: `derToRawEcdsa` takes one to the other, for
every pair and every way to write the length of the sequence. What DER leaves out, the zeros in
front of a small number, is put back; what it puts in, the zero in front of a high bit, is taken off.
-/

namespace Sag

open BigEndian Der

/-- Nothing is stripped from a number without a leading zero. -/
theorem stripZeros_of_ne {b : UInt8} {rest : Bytes} (h : b ≠ 0) : stripZeros (b :: rest) = b :: rest := by
  cases rest with
  | nil => rfl
  | cons c rest => rw [stripZeros, if_neg h]

/-- The zero of a high bit is stripped. -/
theorem stripZeros_integer {v : Nat} (h : 0 < v) : stripZeros (integerContents v) = minimal v := by
  obtain ⟨b, rest, hmin, hne⟩ := minimal_head h
  unfold integerContents
  rw [hmin]
  dsimp only
  split
  · exact stripZeros_of_ne hne
  · rw [stripZeros, if_pos rfl]
    exact stripZeros_of_ne hne

/-- An integer is read where it stands. -/
theorem readInt_integer {size v : Nat} (hpos : 0 < v) (hv : v < 256 ^ size) (hsize : size + 1 < 128)
    (front back : Bytes) :
    readInt (front ++ integer v ++ back) size (some front.length) =
      .ok (fixedWidth size v, some (front ++ integer v).length) := by
  have hlen := integerContents_length_le hv
  have hshort := integer_short hv hsize
  have htag : (front ++ integer v ++ back)[front.length]? = some 0x02 := by
    rw [hshort, List.append_assoc, List.getElem?_append_right (Nat.le_refl _), Nat.sub_self]
    rfl
  have hlength : ((front ++ integer v ++ back)[front.length + 1]?).map UInt8.toNat =
      some (integerContents v).length := by
    rw [hshort, List.append_assoc, List.getElem?_append_right (by omega), Nat.add_sub_cancel_left]
    show some (UInt8.ofNat _).toNat = _
    rw [UInt8.toNat_ofNat_of_lt' (by simp [UInt8.size]; omega)]
  have hcontents : ((front ++ integer v ++ back).drop (front.length + 2)).take (integerContents v).length =
      integerContents v := by
    rw [hshort, List.append_assoc, ← List.drop_drop, List.drop_left]
    exact List.take_left
  have hfits := minimal_length_le hv
  have hroom : ¬ size < (minimal v).length := by omega
  simp only [readInt, if_neg (not_not.mpr htag), hlength, Option.getD_some, Option.map_some, hcontents,
    stripZeros_integer hpos, if_neg hroom]
  rw [pad_minimal hv, hshort, List.length_append, List.length_cons, List.length_cons, Nat.add_assoc,
    Nat.add_comm 2]

/-- Where the header ends, in either form. -/
theorem header_end {form : LengthForm} {n : Nat} (h : form.Fits n) (contents : Bytes) :
    let der := 0x30 :: form.bytes n ++ contents
    let seqLen := (der[1]?.map UInt8.toNat).getD 0
    (if 128 ≤ seqLen then 2 + seqLen % 128 else 2) = (0x30 :: form.bytes n).length := by
  cases form with
  | short =>
    have hn : n < 128 := h
    have hbyte : (UInt8.ofNat n).toNat = n := UInt8.toNat_ofNat_of_lt' (by simp [UInt8.size]; omega)
    simp only [LengthForm.bytes, List.cons_append, List.getElem?_cons_succ, List.getElem?_cons_zero,
      Option.map_some, Option.getD_some, hbyte]
    rw [if_neg (by omega)]
    rfl
  | long width =>
    obtain ⟨hpos, hwidth, -⟩ := h
    have hbyte : (UInt8.ofNat (128 + width)).toNat = 128 + width :=
      UInt8.toNat_ofNat_of_lt' (by simp [UInt8.size]; omega)
    simp only [LengthForm.bytes, List.cons_append, List.getElem?_cons_succ, List.getElem?_cons_zero,
      Option.map_some, Option.getD_some, hbyte, List.length_cons, fixedWidth_length]
    rw [if_pos (by omega)]
    omega

/-- The sizes of the curves. -/
theorem curve_size {curve : JsString} {size : Nat} (h : COORD_BYTES.lookup curve = some size) : size ≤ 66 := by
  have hall : ∀ c ∈ COORD_BYTES, c.2 ≤ 66 := by decide
  obtain ⟨l, r, hl, -⟩ := List.lookup_eq_some_iff.mp h
  exact hall (curve, size) (by rw [hl]; simp)

/-- The conversion is exact. -/
theorem der_exact {curve : Option JsString} {size : Nat}
    (hcurve : COORD_BYTES.lookup (curve.getD (js "P-256")) = some size) {r s : Nat} (hr : 0 < r) (hs : 0 < s)
    (hrsize : r < 2 ^ (8 * size)) (hssize : s < 2 ^ (8 * size)) {form : LengthForm}
    (hform : form.Fits (integer r ++ integer s).length) :
    derToRawEcdsa (integerPair form r s) curve = .ok (fixedWidth size r ++ fixedWidth size s) := by
  have hsize := curve_size hcurve
  rw [Nat.pow_mul] at hrsize hssize
  have hend := header_end hform (integer r ++ integer s)
  have hfirst := readInt_integer hr hrsize (by omega)
    (0x30 :: form.bytes (integer r ++ integer s).length) (integer s)
  have hsecond := readInt_integer hs hssize (by omega)
    (0x30 :: form.bytes (integer r ++ integer s).length ++ integer r) []
  rw [List.append_nil] at hsecond
  rw [List.append_assoc] at hfirst
  rw [List.append_assoc _ _ (integer s)] at hsecond
  unfold derToRawEcdsa integerPair encode
  simp only [hcurve]
  rw [if_neg (by simp), hend, hfirst]
  dsimp only
  rw [hsecond]

/-- A number with the high bit set and the smallest, on the widest curve. -/
theorem der_exact_wide : derToRawEcdsa (integerPair (.long 1) (128 * 256 ^ 65) 1) (some (js "P-521")) =
    .ok (fixedWidth 66 (128 * 256 ^ 65) ++ fixedWidth 66 1) := by
  have hr : 128 * 256 ^ 65 < 256 ^ 66 := by decide
  have hrlen : (integer (128 * 256 ^ 65)).length ≤ 66 + 3 := integer_length_le hr (by decide)
  have hslen : (integer 1).length ≤ 1 + 3 := integer_length_le (by decide) (by decide)
  refine der_exact rfl (by decide) (by decide) ?_ (Nat.one_lt_two_pow (by decide)) ?_
  · rw [Nat.pow_mul]
    exact hr
  · rw [List.length_append]
    exact ⟨by decide, by decide, by omega⟩

end Sag
