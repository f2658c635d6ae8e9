import Sag.Util.Bytes

/-!
# UTF-8 read back, and percent encoding

`TextDecoder` and `decodeURIComponent` of the platform, and the two encodings that put text
into a URL or a form. `fromUtf8` reads ASCII as it stands; `decodeURIComponent` reads back what
was encoded as a form, except that it takes a plus sign for what it is (`decode_formEncode`).
-/

namespace Sag

/-! ## UTF-8 -/

/-- A byte that goes on with a point. -/
def isContinuation (b : UInt8) : Bool := 0x80 ≤ b.toNat && b.toNat ≤ 0xBF

/-- A byte that may come after `lead`: no longer form than there has to be, no surrogate, and
no point beyond the last. -/
def isSecond (lead b : UInt8) : Bool :=
  isContinuation b && (lead.toNat ≠ 0xE0 || 0xA0 ≤ b.toNat) && (lead.toNat ≠ 0xED || b.toNat ≤ 0x9F) &&
    (lead.toNat ≠ 0xF0 || 0x90 ≤ b.toNat) && (lead.toNat ≠ 0xF4 || b.toNat ≤ 0x8F)

def pointOf2 (b0 b1 : UInt8) : Nat := b0.toNat % 0x20 * 0x40 + b1.toNat % 0x40

def pointOf3 (b0 b1 b2 : UInt8) : Nat := (b0.toNat % 0x10 * 0x40 + b1.toNat % 0x40) * 0x40 + b2.toNat % 0x40

def pointOf4 (b0 b1 b2 b3 : UInt8) : Nat :=
  ((b0.toNat % 8 * 0x40 + b1.toNat % 0x40) * 0x40 + b2.toNat % 0x40) * 0x40 + b3.toNat % 0x40

/-- How many bytes a lead announces. -/
def announced (lead : UInt8) : Nat :=
  if lead.toNat < 0x80 then 1
  else if 0xC2 ≤ lead.toNat && lead.toNat ≤ 0xDF then 2
  else if 0xE0 ≤ lead.toNat && lead.toNat ≤ 0xEF then 3
  else if 0xF0 ≤ lead.toNat && lead.toNat ≤ 0xF4 then 4
  else 0

/-- The points of a sequence of bytes; what is no point is U+FFFD, once for as much of it as
might have become one. -/
def utf8Points : Bytes → List Nat
  | [] => []
  | b0 :: rest =>
    if announced b0 = 1 then b0.toNat :: utf8Points rest
    else if announced b0 = 0 then 0xFFFD :: utf8Points rest
    else
      match rest with
      | [] => [0xFFFD]
      | b1 :: rest =>
        if !isSecond b0 b1 then 0xFFFD :: utf8Points (b1 :: rest)
        else if announced b0 = 2 then pointOf2 b0 b1 :: utf8Points rest
        else
          match rest with
          | [] => [0xFFFD]
          | b2 :: rest =>
            if !isContinuation b2 then 0xFFFD :: utf8Points (b2 :: rest)
            else if announced b0 = 3 then pointOf3 b0 b1 b2 :: utf8Points rest
            else
              match rest with
              | [] => [0xFFFD]
              | b3 :: rest =>
                if !isContinuation b3 then 0xFFFD :: utf8Points (b3 :: rest)
                else pointOf4 b0 b1 b2 b3 :: utf8Points rest

/-- `new TextDecoder().decode(bytes)`, which drops a byte order mark. -/
def fromUtf8 (bytes : Bytes) : JsString :=
  match utf8Points bytes with
  | 0xFEFF :: ps => ofCodePoints ps
  | ps => ofCodePoints ps

/-- ASCII is read as it stands. -/
theorem fromUtf8_ascii {bytes : Bytes} (h : ∀ b ∈ bytes, b < 128) :
    fromUtf8 bytes = bytes.map fun b => UInt16.ofNat b.toNat := by
  have hpoints : utf8Points bytes = bytes.map (·.toNat) := by
    induction bytes with
    | nil => rfl
    | cons b rest ih =>
      have hb : b.toNat < 128 := h b List.mem_cons_self
      have hsize : announced b = 1 := if_pos hb
      rw [utf8Points.eq_def]
      dsimp only
      rw [if_pos hsize, ih fun x hx => h x (List.mem_cons_of_mem _ hx), List.map_cons]
  have hmark : ∀ ps, utf8Points bytes ≠ 0xFEFF :: ps := by
    intro ps heq
    rw [hpoints] at heq
    cases bytes with
    | nil => cases heq
    | cons b rest =>
      have hb : b.toNat < 128 := h b List.mem_cons_self
      have hhead : b.toNat = 0xFEFF := (List.cons.inj heq).1
      omega
  have hread : fromUtf8 bytes = ofCodePoints (utf8Points bytes) := by
    unfold fromUtf8
    split
    · next ps heq => exact absurd heq (hmark ps)
    · rfl
  rw [hread, hpoints]
  clear hpoints hmark hread
  induction bytes with
  | nil => rfl
  | cons b rest ih =>
    have hb : b.toNat < 128 := h b List.mem_cons_self
    have hunit : encodePoint b.toNat = [UInt16.ofNat b.toNat] := if_pos (by omega)
    have hrest := ih fun x hx => h x (List.mem_cons_of_mem _ hx)
    rw [ofCodePoints] at hrest ⊢
    rw [List.map_cons, List.flatMap_cons, hunit, hrest]
    rfl

/-- A point of a string without lone surrogates. -/
def UnicodeScalar (p : Nat) : Prop := p < 0xD800 ∨ 0xE000 ≤ p ∧ p < 0x110000

/-- A string without lone surrogates. -/
def WellFormedText (s : JsString) : Prop := ∀ p ∈ codePoints s, UnicodeScalar p

theorem ofCodePoints_codePoints (s : JsString) : ofCodePoints (codePoints s) = s := by
  induction s using codePoints.induct with
  | case1 => rfl
  | case2 u => simp only [codePoints, ofCodePoints, List.flatMap_cons, List.flatMap_nil,
    encodePoint_toNat, List.append_nil]
  | case3 u v s hpair ih =>
    rw [codePoints, if_pos hpair]
    simp only [isHighSurrogate, isLowSurrogate, Bool.and_eq_true, decide_eq_true_eq, UInt16.le_iff_toNat_le] at hpair
    obtain ⟨⟨hhigh, hhigh'⟩, hlow, hlow'⟩ := hpair
    have hhigh : 0xD800 ≤ u.toNat := hhigh
    have hhigh' : u.toNat ≤ 0xDBFF := hhigh'
    have hlow : 0xDC00 ≤ v.toNat := hlow
    have hlow' : v.toNat ≤ 0xDFFF := hlow'
    have hpoint : encodePoint (0x10000 + (u.toNat - 0xD800) * 0x400 + (v.toNat - 0xDC00)) = [u, v] := by
      rw [encodePoint, if_neg (by omega)]
      have hu : 0xD800 + (0x10000 + (u.toNat - 0xD800) * 0x400 + (v.toNat - 0xDC00) - 0x10000) / 0x400 = u.toNat := by
        omega
      have hv : 0xDC00 + (0x10000 + (u.toNat - 0xD800) * 0x400 + (v.toNat - 0xDC00) - 0x10000) % 0x400 = v.toNat := by
        omega
      rw [hu, hv, UInt16.ofNat_toNat, UInt16.ofNat_toNat]
    rw [ofCodePoints] at ih ⊢
    rw [List.flatMap_cons, hpoint, ih]
    rfl
  | case4 u v s hpair ih =>
    rw [codePoints, if_neg hpair]
    rw [ofCodePoints] at ih ⊢
    rw [List.flatMap_cons, encodePoint_toNat, ih]
    rfl

/-- The bytes of a point beyond ASCII, which announce how many they are. -/
inductive Wide (p : Nat) : Bytes → Prop where
  | two {b0 b1 : UInt8} (hsize : announced b0 = 2) (hsecond : isSecond b0 b1 = true) (hpoint : pointOf2 b0 b1 = p) :
      Wide p [b0, b1]
  | three {b0 b1 b2 : UInt8} (hsize : announced b0 = 3) (hsecond : isSecond b0 b1 = true)
      (hthird : isContinuation b2 = true) (hpoint : pointOf3 b0 b1 b2 = p) : Wide p [b0, b1, b2]
  | four {b0 b1 b2 b3 : UInt8} (hsize : announced b0 = 4) (hsecond : isSecond b0 b1 = true)
      (hthird : isContinuation b2 = true) (hfourth : isContinuation b3 = true)
      (hpoint : pointOf4 b0 b1 b2 b3 = p) : Wide p [b0, b1, b2, b3]

theorem utf8Point_small {p : Nat} (h : p < 0x80) : utf8Point p = [UInt8.ofNat p] := by
  have hsurrogate : ¬ (0xD800 ≤ p ∧ p ≤ 0xDFFF) := by omega
  rw [utf8Point, if_neg hsurrogate]
  exact if_pos h

theorem utf8Point_wide {p : Nat} (hp : UnicodeScalar p) (h : 0x80 ≤ p) : Wide p (utf8Point p) := by
  have hsurrogate : ¬ (0xD800 ≤ p ∧ p ≤ 0xDFFF) := by
    rcases hp with hp | hp <;> omega
  have hlast : p < 0x110000 := by
    rcases hp with hp | hp <;> omega
  have byte : ∀ n, n < 256 → (UInt8.ofNat n).toNat = n := fun n hn => by
    rw [UInt8.toNat_ofNat']
    exact Nat.mod_eq_of_lt hn
  have follows : ∀ n, isContinuation (UInt8.ofNat (0x80 + n % 0x40)) = true := fun n => by
    have hlt : n % 0x40 < 0x40 := Nat.mod_lt _ (by omega)
    rw [isContinuation, byte _ (by omega), Bool.and_eq_true, decide_eq_true_eq, decide_eq_true_eq]
    omega
  rw [utf8Point, if_neg hsurrogate, if_neg (by omega)]
  split
  · next hsmall =>
    have hfirst := byte (0xC0 + p / 0x40) (by omega)
    have hsecond := byte (0x80 + p % 0x40) (by omega)
    refine .two ?_ ?_ ?_
    · rw [announced, hfirst, if_neg (by omega), if_pos (by simp; omega)]
    · simp only [isSecond, follows, hfirst, hsecond, Bool.true_and, Bool.and_eq_true, Bool.or_eq_true,
        decide_eq_true_eq]
      omega
    · rw [pointOf2, hfirst, hsecond]
      omega
  · split
    · next hmiddle =>
      have hfirst := byte (0xE0 + p / 0x1000) (by omega)
      have hsecond := byte (0x80 + p / 0x40 % 0x40) (by omega)
      have hthird := byte (0x80 + p % 0x40) (by omega)
      refine .three ?_ ?_ (follows p) ?_
      · rw [announced, hfirst, if_neg (by omega), if_neg (by simp; omega), if_pos (by simp; omega)]
      · simp only [isSecond, follows, hfirst, hsecond, Bool.true_and, Bool.and_eq_true, Bool.or_eq_true,
          decide_eq_true_eq]
        omega
      · rw [pointOf3, hfirst, hsecond, hthird]
        omega
    · have hfirst := byte (0xF0 + p / 0x40000) (by omega)
      have hsecond := byte (0x80 + p / 0x1000 % 0x40) (by omega)
      have hthird := byte (0x80 + p / 0x40 % 0x40) (by omega)
      have hfourth := byte (0x80 + p % 0x40) (by omega)
      refine .four ?_ ?_ (follows _) (follows p) ?_
      · rw [announced, hfirst, if_neg (by omega), if_neg (by simp; omega), if_neg (by simp; omega),
          if_pos (by simp; omega)]
      · simp only [isSecond, follows, hfirst, hsecond, Bool.true_and, Bool.and_eq_true, Bool.or_eq_true,
          decide_eq_true_eq]
        omega
      · rw [pointOf4, hfirst, hsecond, hthird, hfourth]
        omega

/-- No byte of such a point is ASCII. -/
theorem Wide.high {p : Nat} {bytes : Bytes} (h : Wide p bytes) : ∀ b ∈ bytes, 0x80 ≤ b.toNat := by
  have lead : ∀ {b : UInt8}, announced b ≠ 1 → 0x80 ≤ b.toNat := by
    intro b hsize
    refine Nat.le_of_not_lt fun hlt => hsize ?_
    exact if_pos hlt
  have next : ∀ {b : UInt8}, isContinuation b = true → 0x80 ≤ b.toNat := by
    intro b hb
    rw [isContinuation, Bool.and_eq_true, decide_eq_true_eq] at hb
    exact hb.1
  have second : ∀ {b0 b1 : UInt8}, isSecond b0 b1 = true → 0x80 ≤ b1.toNat := by
    intro b0 b1 hb
    simp only [isSecond, Bool.and_eq_true] at hb
    exact next hb.1.1.1.1
  intro b hb
  cases h with
  | two hsize hsecond _ =>
    simp only [List.mem_cons, List.not_mem_nil, or_false] at hb
    rcases hb with rfl | rfl
    · exact lead (by omega)
    · exact second hsecond
  | three hsize hsecond hthird _ =>
    simp only [List.mem_cons, List.not_mem_nil, or_false] at hb
    rcases hb with rfl | rfl | rfl
    · exact lead (by omega)
    · exact second hsecond
    · exact next hthird
  | four hsize hsecond hthird hfourth _ =>
    simp only [List.mem_cons, List.not_mem_nil, or_false] at hb
    rcases hb with rfl | rfl | rfl | rfl
    · exact lead (by omega)
    · exact second hsecond
    · exact next hthird
    · exact next hfourth

/-- Nor one of the replacement of a surrogate. -/
theorem utf8Point_high {p : Nat} (h : 128 ≤ p) (hp : p < 0x110000) :
    (∀ b ∈ utf8Point p, 128 ≤ b.toNat) ∧ utf8Point p ≠ [] := by
  by_cases hsurrogate : 0xD800 ≤ p ∧ p ≤ 0xDFFF
  · have hreplaced : utf8Point p = utf8Point 0xFFFD := by
      rw [utf8Point, if_pos hsurrogate]
      rfl
    have hbytes : utf8Point 0xFFFD = [0xEF, 0xBF, 0xBD] := by decide +kernel
    rw [hreplaced, hbytes]
    exact ⟨by decide +kernel, List.cons_ne_nil _ _⟩
  · have hscalar : UnicodeScalar p := by
      unfold UnicodeScalar
      omega
    have hwide := utf8Point_wide hscalar h
    refine ⟨hwide.high, fun hnil => ?_⟩
    rw [hnil] at hwide
    cases hwide

/-! ## Percent encoding -/

/-- `'%' + byte.toString(16).toUpperCase().padStart(2, '0')`. -/
def percentByte (b : UInt8) : JsString := 37 :: hexByte b

/-- What stands in a percent-encoded text: a unit as it is, or a byte that was escaped. -/
inductive Escaped where
  | unit (u : CodeUnit)
  | byte (b : UInt8)
  deriving DecidableEq

/-- Read the escapes of a text. -/
def unescape : JsString → Option (List Escaped)
  | [] => some []
  | u :: s =>
    if u = 37 then
      match s with
      | high :: low :: s =>
        match readHexDigit high, readHexDigit low with
        | some h, some l => (unescape s).map (.byte (UInt8.ofNat (h * 16 + l)) :: ·)
        | _, _ => none
      | _ => none
    else (unescape s).map (.unit u :: ·)

/-- Put the points of escaped bytes together. -/
def joinEscaped : List Escaped → Option JsString
  | [] => some []
  | .unit u :: es => (joinEscaped es).map (u :: ·)
  | .byte b0 :: es =>
    if announced b0 = 1 then (joinEscaped es).map (encodePoint b0.toNat ++ ·)
    else
      match es with
      | .byte b1 :: es =>
        if !isSecond b0 b1 then none
        else if announced b0 = 2 then (joinEscaped es).map (encodePoint (pointOf2 b0 b1) ++ ·)
        else
          match es with
          | .byte b2 :: es =>
            if !isContinuation b2 then none
            else if announced b0 = 3 then (joinEscaped es).map (encodePoint (pointOf3 b0 b1 b2) ++ ·)
            else
              match es with
              | .byte b3 :: es =>
                if !isContinuation b3 || announced b0 ≠ 4 then none
                else (joinEscaped es).map (encodePoint (pointOf4 b0 b1 b2 b3) ++ ·)
              | _ => none
          | _ => none
      | _ => none

/-- `decodeURIComponent(value)`, where that does not throw. -/
def decodeURIComponent (value : JsString) : Option JsString := (unescape value).bind joinEscaped

theorem unescape_percent (b : UInt8) (s : JsString) :
    unescape (percentByte b ++ s) = (unescape s).map (.byte b :: ·) := by
  obtain ⟨hhigh, hlow, hbyte⟩ := readHexDigit_hexByte b
  show unescape (37 :: upperHexDigit (b.toNat / 16) :: upperHexDigit (b.toNat % 16) :: s) = _
  rw [unescape.eq_def]
  dsimp only
  rw [if_pos rfl, hhigh, hlow]
  dsimp only
  rw [hbyte]

theorem unescape_unit {u : CodeUnit} (h : u ≠ 37) (s : JsString) :
    unescape (u :: s) = (unescape s).map (.unit u :: ·) := by
  rw [unescape.eq_def]
  dsimp only
  rw [if_neg h]

/-- The bytes of a point, escaped one by one, are read as the point. -/
theorem joinEscaped_wide {p : Nat} {bytes : Bytes} (h : Wide p bytes) (es : List Escaped) :
    joinEscaped (bytes.map .byte ++ es) = (joinEscaped es).map (encodePoint p ++ ·) := by
  cases h with
  | two hsize hsecond hpoint =>
    simp only [List.map_cons, List.map_nil, List.cons_append, List.nil_append]
    rw [joinEscaped.eq_def]
    dsimp only
    rw [if_neg (by omega), hsecond, hpoint, if_pos hsize]
    rfl
  | three hsize hsecond hthird hpoint =>
    simp only [List.map_cons, List.map_nil, List.cons_append, List.nil_append]
    rw [joinEscaped.eq_def]
    dsimp only
    rw [if_neg (by omega), hsecond, if_neg (by omega : ¬ announced _ = 2), hthird, hpoint, if_pos hsize]
    rfl
  | four hsize hsecond hthird hfourth hpoint =>
    simp only [List.map_cons, List.map_nil, List.cons_append, List.nil_append]
    rw [joinEscaped.eq_def]
    dsimp only
    rw [if_neg (by omega), hsecond, if_neg (by omega : ¬ announced _ = 2), hthird,
      if_neg (by omega : ¬ announced _ = 3),
      hfourth, hpoint, hsize]
    rfl

/-! ## Forms -/

/-- The bytes that a form leaves as they are. -/
def isFormSafe (b : UInt8) : Bool :=
  isAlnum (UInt16.ofNat b.toNat) || b = 42 || b = 45 || b = 46 || b = 95

def formByte (b : UInt8) : JsString :=
  if b = 32 then [plusSign] else if isFormSafe b then [UInt16.ofNat b.toNat] else percentByte b

/-- `application/x-www-form-urlencoded`, for one name or value. -/
def formEncode (s : JsString) : JsString := (utf8 s).flatMap formByte

/-- How a byte of a form is read as a component of a URL. -/
def formEscaped (b : UInt8) : Escaped :=
  if b = 32 then .unit plusSign else if isFormSafe b then .unit (UInt16.ofNat b.toNat) else .byte b

/-- A space comes out as a plus sign. -/
def spaceToPlus (u : CodeUnit) : CodeUnit := if u = 32 then plusSign else u

/-- The safe bytes are ASCII, and none of them is the percent sign. -/
theorem formSafe_spec {b : UInt8} (h : isFormSafe b = true) : b.toNat < 128 ∧ b.toNat ≠ 37 ∧ b.toNat ≠ 58 := by
  have hall : ∀ n : Fin 256, isFormSafe (UInt8.ofNat n) = true → n.val < 128 ∧ n.val ≠ 37 ∧ n.val ≠ 58 := by
    decide +kernel
  have hb := hall ⟨b.toNat, b.toNat_lt⟩
  rw [UInt8.ofNat_toNat] at hb
  exact hb h

theorem unescape_formByte (b : UInt8) (s : JsString) :
    unescape (formByte b ++ s) = (unescape s).map (formEscaped b :: ·) := by
  unfold formByte formEscaped
  by_cases hspace : b = 32
  · rw [if_pos hspace, if_pos hspace]
    exact unescape_unit (by decide) s
  · rw [if_neg hspace, if_neg hspace]
    by_cases hsafe : isFormSafe b = true
    · rw [if_pos hsafe, if_pos hsafe]
      obtain ⟨hlt, hpercent, -⟩ := formSafe_spec hsafe
      refine unescape_unit (fun heq => hpercent ?_) s
      have hnat := congrArg UInt16.toNat heq
      rw [UInt16.toNat_ofNat_of_lt' (by simp [UInt16.size]; omega)] at hnat
      exact hnat
    · rw [if_neg hsafe, if_neg hsafe]
      exact unescape_percent b s

theorem unescape_form (bytes : Bytes) : unescape (bytes.flatMap formByte) = some (bytes.map formEscaped) := by
  induction bytes with
  | nil => rfl
  | cons b bytes ih =>
    rw [List.flatMap_cons, unescape_formByte, ih]
    rfl

/-- The bytes of one point of a form are read as the point, but for the space. -/
theorem joinEscaped_form {p : Nat} (hp : UnicodeScalar p) (es : List Escaped) :
    joinEscaped ((utf8Point p).map formEscaped ++ es) =
      (joinEscaped es).map ((if p = 32 then [plusSign] else encodePoint p) ++ ·) := by
  rcases Nat.lt_or_ge p 0x80 with hsmall | hwide
  · have hnat : (UInt8.ofNat p).toNat = p := by
      rw [UInt8.toNat_ofNat']
      exact Nat.mod_eq_of_lt (by omega)
    have hspace : UInt8.ofNat p = 32 ↔ p = 32 := by
      rw [← UInt8.toNat_inj, hnat]
      rfl
    rw [utf8Point_small hsmall, List.map_cons, List.map_nil, List.singleton_append, formEscaped]
    by_cases h32 : p = 32
    · rw [if_pos (hspace.mpr h32), if_pos h32]
      rfl
    · have hpoint : encodePoint p = [UInt16.ofNat p] := if_pos (by omega)
      rw [if_neg fun h => h32 (hspace.mp h), if_neg h32, hpoint]
      by_cases hsafe : isFormSafe (UInt8.ofNat p) = true
      · rw [if_pos hsafe, hnat]
        rfl
      · have hsize : announced (UInt8.ofNat p) = 1 := if_pos (by omega)
        rw [if_neg hsafe, joinEscaped.eq_def]
        dsimp only
        rw [if_pos hsize, hnat, hpoint]
  · have hbytes := utf8Point_wide hp hwide
    have hmap : (utf8Point p).map formEscaped = (utf8Point p).map .byte := by
      refine List.map_congr_left fun b hb => ?_
      have hhigh := hbytes.high b hb
      rw [formEscaped, if_neg, if_neg]
      · intro hsafe
        have hlt := (formSafe_spec hsafe).1
        omega
      · intro h32
        rw [h32] at hhigh
        exact absurd hhigh (by decide)
    rw [hmap, joinEscaped_wide hbytes, if_neg (by omega)]

theorem space_notMem_encodePoint {p : Nat} (hp : UnicodeScalar p) (h : p ≠ 32) : 32 ∉ encodePoint p := by
  have hlast : p < 0x110000 := by
    rcases hp with hp | hp <;> omega
  have other : ∀ n, n < 0x10000 → n ≠ 32 → (32 : CodeUnit) ≠ UInt16.ofNat n := by
    intro n hn hne heq
    have hnat : (32 : UInt16).toNat = (UInt16.ofNat n).toNat := congrArg UInt16.toNat heq
    rw [UInt16.toNat_ofNat_of_lt' (by simp [UInt16.size]; omega)] at hnat
    exact hne hnat.symm
  unfold encodePoint
  split
  · next hunit => exact fun hmem => other p hunit h (List.mem_singleton.mp hmem)
  · intro hmem
    simp only [List.mem_cons, List.not_mem_nil, or_false] at hmem
    rcases hmem with heq | heq
    · exact other _ (by omega) (by omega) heq
    · exact other _ (by omega) (by omega) heq

/-- What was encoded as a form is read as a component of a URL with a plus sign for each space. -/
theorem decode_formEncode {s : JsString} (hs : WellFormedText s) :
    decodeURIComponent (formEncode s) = some (s.map spaceToPlus) := by
  have hjoin : ∀ ps : List Nat, (∀ p ∈ ps, UnicodeScalar p) →
      joinEscaped ((ps.flatMap utf8Point).map formEscaped) = some ((ofCodePoints ps).map spaceToPlus) := by
    intro ps
    induction ps with
    | nil => exact fun _ => rfl
    | cons p ps ih =>
      intro hps
      have hp := hps p List.mem_cons_self
      have hmap : (if p = 32 then [plusSign] else encodePoint p) = (encodePoint p).map spaceToPlus := by
        by_cases h32 : p = 32
        · rw [if_pos h32, h32]
          rfl
        · rw [if_neg h32]
          have hmapped : (encodePoint p).map spaceToPlus = (encodePoint p).map id := by
            refine List.map_congr_left fun u hu => if_neg fun heq => ?_
            rw [heq] at hu
            exact space_notMem_encodePoint hp h32 hu
          rw [hmapped, List.map_id]
      rw [List.flatMap_cons, List.map_append, joinEscaped_form hp, ih fun q hq => hps q (List.mem_cons_of_mem _ hq),
        hmap, Option.map_some, ofCodePoints, ofCodePoints, List.flatMap_cons, List.map_append]
  rw [decodeURIComponent, formEncode, unescape_form, Option.bind_some, utf8, hjoin _ hs, ofCodePoints_codePoints]

end Sag
