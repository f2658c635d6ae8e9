import Mathlib.Algebra.Order.Ring.Nat

/-!
# JavaScript strings

A string of the program is a sequence of UTF-16 code units, lone surrogates
included, so `length`, `slice` and `indexOf` count what the source counts.
`js` writes a literal.

White space is the class `\s`, which is also what `trim` removes. Case mapping
goes code point by code point through the runtime's Unicode tables
(`CaseTables`); the tables are data of the platform, and all that is known of
them here is that they map ASCII as ASCII.
-/

namespace Sag

abbrev CodeUnit := UInt16

/-- A JavaScript string. -/
abbrev JsString := List CodeUnit

/-- Membership in a list of strings is decided with this. -/
instance lawfulBEqJsString : LawfulBEq JsString := inferInstance

/-- The UTF-16 encoding of one code point. -/
def encodePoint (p : Nat) : JsString :=
  if p < 0x10000 then [UInt16.ofNat p]
  else [UInt16.ofNat (0xD800 + (p - 0x10000) / 0x400), UInt16.ofNat (0xDC00 + (p - 0x10000) % 0x400)]

/-- A string literal of the source. -/
def js (s : String) : JsString := s.toList.flatMap fun c => encodePoint c.toNat

/-- What holds of every unit is decided along the string, not over all units there are. -/
instance (priority := high) decidableForallUnits {s : JsString} {p : CodeUnit → Prop} [DecidablePred p] :
    Decidable (∀ u ∈ s, p u) := List.decidableBAll p s

/-! ## Characters -/

def isHighSurrogate (u : CodeUnit) : Bool := 0xD800 ≤ u && u ≤ 0xDBFF
def isLowSurrogate (u : CodeUnit) : Bool := 0xDC00 ≤ u && u ≤ 0xDFFF

/-- `\s`: white space and line terminators. -/
def isSpace (u : CodeUnit) : Bool :=
  (9 ≤ u && u ≤ 13) || u == 32 || u == 0xA0 || u == 0x1680 || (0x2000 ≤ u && u ≤ 0x200A) ||
    u == 0x2028 || u == 0x2029 || u == 0x202F || u == 0x205F || u == 0x3000 || u == 0xFEFF

/-- What `.` does not match. -/
def isLineTerminator (u : CodeUnit) : Bool := u == 10 || u == 13 || u == 0x2028 || u == 0x2029

def isDigit (u : CodeUnit) : Bool := 48 ≤ u && u ≤ 57
def isUpper (u : CodeUnit) : Bool := 65 ≤ u && u ≤ 90
def isLower (u : CodeUnit) : Bool := 97 ≤ u && u ≤ 122
def isAlnum (u : CodeUnit) : Bool := isDigit u || isUpper u || isLower u

/-- The punctuation the address grammars turn on. -/
def atSign : CodeUnit := 64
def plusSign : CodeUnit := 43
def dot : CodeUnit := 46
def hyphen : CodeUnit := 45
def quoteMark : CodeUnit := 34
def lessThan : CodeUnit := 60
def greaterThan : CodeUnit := 62

theorem isSpace_of_isLineTerminator {u : CodeUnit} (h : isLineTerminator u = true) :
    isSpace u = true := by
  simp only [isLineTerminator, isSpace, Bool.or_eq_true, Bool.and_eq_true, beq_iff_eq] at h ⊢
  rcases h with ((rfl | rfl) | rfl) | rfl <;> decide

/-! ## Slicing -/

/-- `trim`. -/
def trim (s : JsString) : JsString :=
  ((s.dropWhile isSpace).reverse.dropWhile isSpace).reverse

/-- A string without white space is its own `trim`. -/
theorem trim_of_no_space {s : JsString} (h : ∀ u ∈ s, isSpace u = false) : trim s = s := by
  have keep : ∀ l : JsString, (∀ u ∈ l, isSpace u = false) → l.dropWhile isSpace = l := by
    intro l hl
    cases l with
    | nil => rfl
    | cons u l => simp [hl u]
  rw [trim, keep s h, keep s.reverse (by simpa using h), List.reverse_reverse]

/-- The text before and after the first `c`. -/
def breakFirst (c : CodeUnit) : JsString → Option (JsString × JsString)
  | [] => none
  | u :: s => if u = c then some ([], s) else (breakFirst c s).map fun (a, b) => (u :: a, b)

theorem breakFirst_eq_some_iff {c : CodeUnit} : ∀ {s a b : JsString},
    breakFirst c s = some (a, b) ↔ s = a ++ c :: b ∧ c ∉ a := by
  intro s
  induction s with
  | nil => simp [breakFirst]
  | cons u s ih =>
    intro a b
    rw [breakFirst]
    by_cases hu : u = c
    · rw [if_pos hu]
      cases a with
      | nil => simp [hu]
      | cons v a =>
        have hne : u = v → ¬ c ≠ v := fun huv hcv => hcv (hu ▸ huv)
        simp only [Option.some.injEq, Prod.mk.injEq, List.cons_append, List.cons.injEq, List.mem_cons, not_or]
        constructor
        · rintro ⟨h, -⟩
          cases h
        · rintro ⟨⟨huv, -⟩, hcv, -⟩
          exact absurd hcv (hne huv)
    · rw [if_neg hu]
      cases a with
      | nil =>
        simp [hu]
      | cons v a =>
        simp only [Option.map_eq_some_iff, Prod.exists, Prod.mk.injEq, List.cons.injEq, List.cons_append,
          List.mem_cons, not_or]
        constructor
        · rintro ⟨a', b', hs, ⟨rfl, rfl⟩, rfl⟩
          obtain ⟨rfl, hmem⟩ := ih.mp hs
          exact ⟨⟨rfl, rfl⟩, fun hc => hu hc.symm, hmem⟩
        · rintro ⟨⟨rfl, rfl⟩, -, hmem⟩
          exact ⟨a, b, ih.mpr ⟨rfl, hmem⟩, ⟨rfl, rfl⟩, rfl⟩

/-- The text before and after the last `c`. -/
def breakLast (c : CodeUnit) : JsString → Option (JsString × JsString)
  | [] => none
  | u :: s =>
    match breakLast c s with
    | some (a, b) => some (u :: a, b)
    | none => if u = c then some ([], s) else none

theorem not_mem_of_breakLast {c : CodeUnit} : ∀ {s : JsString}, breakLast c s = none → c ∉ s := by
  intro s
  induction s with
  | nil => simp
  | cons u s ih =>
    intro h
    rw [breakLast] at h
    cases hs : breakLast c s with
    | some p => simp [hs] at h
    | none =>
      simp only [hs] at h
      split at h
      · cases h
      · next hu => simpa using ⟨fun e => hu e.symm, ih hs⟩

theorem breakLast_eq {c : CodeUnit} : ∀ {s a b : JsString}, breakLast c s = some (a, b) →
    s = a ++ c :: b ∧ c ∉ b := by
  intro s
  induction s with
  | nil => simp [breakLast]
  | cons u s ih =>
    intro a b h
    rw [breakLast] at h
    cases hs : breakLast c s with
    | some p =>
      obtain ⟨a', b'⟩ := p
      simp only [hs, Option.some.injEq, Prod.mk.injEq] at h
      obtain ⟨rfl, rfl⟩ := h
      obtain ⟨hs', hb⟩ := ih hs
      exact ⟨by rw [hs', List.cons_append], hb⟩
    | none =>
      simp only [hs] at h
      split at h
      · next hu =>
        obtain ⟨rfl, rfl⟩ : [] = a ∧ s = b := by simpa using h
        exact ⟨by rw [hu, List.nil_append], not_mem_of_breakLast hs⟩
      · cases h

theorem breakLast_append {c : CodeUnit} {b : JsString} (hb : c ∉ b) : ∀ {a : JsString},
    breakLast c (a ++ c :: b) = some (a, b) := by
  have hnone : breakLast c b = none := by
    cases hbreak : breakLast c b with
    | none => rfl
    | some p =>
      obtain ⟨heq, -⟩ := breakLast_eq hbreak
      exact absurd (by rw [heq]; simp) hb
  intro a
  induction a with
  | nil => rw [List.nil_append, breakLast, hnone, if_pos rfl]
  | cons u a ih => rw [List.cons_append, breakLast, ih]

/-- `split` on every code unit that satisfies `p`. -/
def splitWhere (p : CodeUnit → Bool) : JsString → List JsString
  | [] => [[]]
  | u :: s =>
    if p u then [] :: splitWhere p s
    else match splitWhere p s with
      | [] => [[u]]
      | w :: ws => (u :: w) :: ws

/-- `split(c)` for a separator of one code unit. -/
def split (c : CodeUnit) (s : JsString) : List JsString := splitWhere (· == c) s

/-- `split(/\s+/).filter(Boolean)`. -/
def words (s : JsString) : List JsString := (splitWhere isSpace s).filter (· ≠ [])

/-- `s.includes(part)`. -/
def includes (part : JsString) : JsString → Bool
  | [] => part.isEmpty
  | s@(_ :: rest) => part.isPrefixOf s || includes part rest

theorem splitWhere_ne_nil (p : CodeUnit → Bool) (s : JsString) : splitWhere p s ≠ [] := by
  cases s with
  | nil => simp [splitWhere]
  | cons u s =>
    rw [splitWhere]
    split
    · simp
    · cases splitWhere p s <;> simp

/-- A piece of a split holds no separator. -/
theorem splitWhere_piece {p : CodeUnit → Bool} : ∀ {s w : JsString}, w ∈ splitWhere p s →
    ∀ u ∈ w, p u = false ∧ u ∈ s := by
  intro s
  induction s with
  | nil => simp [splitWhere]
  | cons v s ih =>
    intro w hw u hu
    rw [splitWhere] at hw
    split at hw
    · rcases List.mem_cons.mp hw with rfl | hw
      · simp at hu
      · exact ⟨(ih hw u hu).1, List.mem_cons_of_mem _ (ih hw u hu).2⟩
    · next hv =>
      have hv : p v = false := by simpa using hv
      cases hs : splitWhere p s with
      | nil => exact absurd hs (splitWhere_ne_nil p s)
      | cons w' ws =>
        rw [hs] at hw ih
        rcases List.mem_cons.mp hw with rfl | hw
        · rcases List.mem_cons.mp hu with rfl | hu
          · exact ⟨hv, List.mem_cons_self⟩
          · have hp := ih List.mem_cons_self u hu
            exact ⟨hp.1, List.mem_cons_of_mem _ hp.2⟩
        · have hp := ih (List.mem_cons_of_mem _ hw) u hu
          exact ⟨hp.1, List.mem_cons_of_mem _ hp.2⟩

/-- Every code unit of a string is a separator or stands in a piece. -/
theorem mem_splitWhere {p : CodeUnit → Bool} : ∀ {s : JsString} {u : CodeUnit}, u ∈ s →
    p u = true ∨ ∃ w ∈ splitWhere p s, u ∈ w := by
  intro s
  induction s with
  | nil => simp
  | cons v s ih =>
    intro u hu
    rw [splitWhere]
    by_cases hv : p v = true
    · rw [if_pos hv]
      rcases List.mem_cons.mp hu with rfl | hu
      · exact Or.inl hv
      · rcases ih hu with h | ⟨w, hw, huw⟩
        · exact Or.inl h
        · exact Or.inr ⟨w, List.mem_cons_of_mem _ hw, huw⟩
    · rw [if_neg hv]
      cases hs : splitWhere p s with
      | nil => exact absurd hs (splitWhere_ne_nil p s)
      | cons w' ws =>
        rw [hs] at ih
        rcases List.mem_cons.mp hu with rfl | hu
        · exact Or.inr ⟨_, List.mem_cons_self, List.mem_cons_self⟩
        · rcases ih hu with h | ⟨w, hw, huw⟩
          · exact Or.inl h
          · rcases List.mem_cons.mp hw with rfl | hw
            · exact Or.inr ⟨_, List.mem_cons_self, List.mem_cons_of_mem _ huw⟩
            · exact Or.inr ⟨w, List.mem_cons_of_mem _ hw, huw⟩

theorem split_append {c : CodeUnit} {b : JsString} : ∀ {a : JsString},
    split c (a ++ c :: b) = split c a ++ split c b := by
  intro a
  induction a with
  | nil => simp [split, splitWhere]
  | cons u a ih =>
    unfold split at ih ⊢
    rw [List.cons_append, splitWhere, splitWhere]
    by_cases hu : (u == c) = true
    · rw [if_pos hu, if_pos hu, ih, List.cons_append]
    · rw [if_neg hu, if_neg hu, ih]
      cases ha : splitWhere (· == c) a with
      | nil => exact absurd ha (splitWhere_ne_nil _ a)
      | cons w ws => rfl

theorem split_of_notMem {c : CodeUnit} : ∀ {s : JsString}, c ∉ s → split c s = [s] := by
  intro s
  induction s with
  | nil => exact fun _ => rfl
  | cons u s ih =>
    intro h
    have hne : ¬ (u == c) = true := fun heq => h (by rw [eq_of_beq heq]; exact List.mem_cons_self)
    have hs := ih fun hc => h (List.mem_cons_of_mem _ hc)
    unfold split at hs ⊢
    rw [splitWhere, if_neg hne, hs]

/-- A string has one piece more than separators. -/
theorem length_split {c : CodeUnit} : ∀ {s : JsString}, (split c s).length = s.count c + 1 := by
  intro s
  by_cases h : c ∈ s
  · obtain ⟨a, b, rfl, ha⟩ := List.eq_append_cons_of_mem h
    have hb : (split c b).length = b.count c + 1 := length_split
    rw [split_append, split_of_notMem ha, List.length_append, hb, List.count_append, List.count_cons_self,
      List.count_eq_zero.mpr ha]
    simp only [List.length_cons, List.length_nil]
    omega
  · rw [split_of_notMem h, List.count_eq_zero.mpr h]
    rfl
termination_by s => s.length

/-! ## Code points and case -/

/-- The code points of a string; a lone surrogate stands for itself. -/
def codePoints : JsString → List Nat
  | [] => []
  | [u] => [u.toNat]
  | u :: v :: s =>
    if isHighSurrogate u && isLowSurrogate v then
      (0x10000 + (u.toNat - 0xD800) * 0x400 + (v.toNat - 0xDC00)) :: codePoints s
    else u.toNat :: codePoints (v :: s)

theorem codePoints_le : ∀ {s : JsString}, ∀ p ∈ codePoints s, p ≤ 0x10FFFF := by
  intro s
  fun_induction codePoints s with
  | case1 => exact nofun
  | case2 u =>
    intro p hp
    have hu : u.toNat < 65536 := u.toNat_lt
    rw [List.mem_singleton.mp hp]
    omega
  | case3 u v s h ih =>
    intro p hp
    rcases List.mem_cons.mp hp with heq | hp
    · rw [heq]
      simp only [isHighSurrogate, isLowSurrogate, Bool.and_eq_true, decide_eq_true_eq, UInt16.le_iff_toNat_le] at h
      have hu := h.1.2
      have hv := h.2.2
      rw [show (0xDBFF : CodeUnit).toNat = 0xDBFF from by decide] at hu
      rw [show (0xDFFF : CodeUnit).toNat = 0xDFFF from by decide] at hv
      omega
    · exact ih p hp
  | case4 u v s h ih =>
    intro p hp
    rcases List.mem_cons.mp hp with rfl | hp
    · have hu : u.toNat < 65536 := u.toNat_lt
      omega
    · exact ih p hp

def ofCodePoints (ps : List Nat) : JsString := ps.flatMap encodePoint

def asciiLower (p : Nat) : Nat := if 65 ≤ p ∧ p ≤ 90 then p + 32 else p
def asciiUpper (p : Nat) : Nat := if 97 ≤ p ∧ p ≤ 122 then p - 32 else p

/-- The runtime's Unicode case tables: the full mappings of a code point and
the two properties the final-sigma rule reads. -/
structure CaseTables where
  lower : Nat → List Nat
  upper : Nat → List Nat
  cased : Nat → Bool
  ignorable : Nat → Bool
  lower_ascii : ∀ p < 128, lower p = [asciiLower p]
  upper_ascii : ∀ p < 128, upper p = [asciiUpper p]

namespace CaseTables

variable (T : CaseTables)

/-- A capital sigma is final after a cased letter and before none. -/
def finalSigma (before after : List Nat) : Bool :=
  (before.dropWhile T.ignorable).head?.any T.cased &&
    !(after.dropWhile T.ignorable).head?.any T.cased

/-- Lower-case the points that follow `before` (held in reverse). -/
def lowerPoints : List Nat → List Nat → List Nat
  | _, [] => []
  | before, p :: after =>
    (if p = 0x3A3 && T.finalSigma before after then [0x3C2] else T.lower p) ++
      lowerPoints (p :: before) after

def toLowerCase (s : JsString) : JsString := ofCodePoints (T.lowerPoints [] (codePoints s))

def toUpperCase (s : JsString) : JsString := ofCodePoints ((codePoints s).flatMap T.upper)

end CaseTables

theorem encodePoint_toNat {u : CodeUnit} : encodePoint u.toNat = [u] := by
  have hu : u.toNat < 0x10000 := u.toNat_lt
  simp [encodePoint, hu]

/-- In a string of ASCII code units every unit is a code point. -/
theorem codePoints_ascii : ∀ {s : JsString}, (∀ u ∈ s, u < 128) → codePoints s = s.map UInt16.toNat := by
  intro s
  induction s with
  | nil => intro _; rfl
  | cons u s ih =>
    intro h
    cases s with
    | nil => rfl
    | cons v s =>
      have hu : u < 128 := h u List.mem_cons_self
      have hnot : isHighSurrogate u = false := by
        simp only [isHighSurrogate, Bool.and_eq_false_iff, decide_eq_false_iff_not]
        exact Or.inl fun hle => absurd (UInt16.lt_of_le_of_lt hle hu) (by decide)
      rw [codePoints, hnot, ih fun w hw => h w (List.mem_cons_of_mem _ hw)]
      simp

/-- One ASCII unit in upper case. -/
def upperUnit (u : CodeUnit) : CodeUnit := if isLower u then u - 32 else u

theorem upperUnit_toNat {u : CodeUnit} : (upperUnit u).toNat = asciiUpper u.toNat := by
  unfold upperUnit asciiUpper
  have hiff : isLower u = true ↔ 97 ≤ u.toNat ∧ u.toNat ≤ 122 := by
    simp [isLower, UInt16.le_iff_toNat_le]
  by_cases h : isLower u = true
  · have hle : (32 : UInt16) ≤ u := by
      have := (hiff.mp h).1
      rw [UInt16.le_iff_toNat_le]
      simp
      omega
    rw [if_pos h, if_pos (hiff.mp h), UInt16.toNat_sub_of_le _ _ hle]
    rfl
  · rw [if_neg h, if_neg fun hc => h (hiff.mpr hc)]

/-- Upper-casing ASCII goes unit by unit. -/
theorem CaseTables.toUpperCase_map (T : CaseTables) {s : JsString} (h : ∀ u ∈ s, u < 128) :
    T.toUpperCase s = s.map upperUnit := by
  rw [CaseTables.toUpperCase, codePoints_ascii h]
  induction s with
  | nil => rfl
  | cons u s ih =>
    have hnat : u.toNat < 128 := h u List.mem_cons_self
    have hs := ih fun w hw => h w (List.mem_cons_of_mem _ hw)
    have hpoint : encodePoint (asciiUpper u.toNat) = [upperUnit u] := by
      rw [← upperUnit_toNat, encodePoint_toNat]
    simp only [ofCodePoints, List.map_cons, List.flatMap_cons, T.upper_ascii _ hnat,
      List.singleton_append, hpoint] at hs ⊢
    rw [hs]

/-- Upper-casing leaves ASCII without lower-case letters alone. -/
theorem CaseTables.toUpperCase_ascii (T : CaseTables) {s : JsString}
    (h : ∀ u ∈ s, u < 128 ∧ isLower u = false) : T.toUpperCase s = s := by
  rw [T.toUpperCase_map fun u hu => (h u hu).1]
  refine (List.map_congr_left fun u hu => ?_).trans (List.map_id s)
  rw [upperUnit, (h u hu).2]
  rfl

/-! ## Lower case, from the left -/

/-- One ASCII unit in lower case. -/
def lowerUnit (u : CodeUnit) : CodeUnit := if isUpper u then u + 32 else u

theorem isUpper_iff {u : CodeUnit} : isUpper u = true ↔ 65 ≤ u.toNat ∧ u.toNat ≤ 90 := by
  simp [isUpper, UInt16.le_iff_toNat_le]

theorem lowerUnit_toNat {u : CodeUnit} : (lowerUnit u).toNat = asciiLower u.toNat := by
  unfold lowerUnit asciiLower
  by_cases h : isUpper u = true
  · obtain ⟨hlow, hhigh⟩ := isUpper_iff.mp h
    rw [if_pos h, if_pos ⟨hlow, hhigh⟩, UInt16.toNat_add]
    show (u.toNat + 32) % 65536 = u.toNat + 32
    omega
  · rw [if_neg h, if_neg fun hc => h (isUpper_iff.mpr hc)]

theorem encodePoint_asciiLower {u : CodeUnit} : encodePoint (asciiLower u.toNat) = [lowerUnit u] := by
  rw [← lowerUnit_toNat, encodePoint_toNat]

namespace CaseTables

/-- What the tables say beyond ASCII: nothing is lost, and nothing becomes ASCII but the
dotted capital I, in part, and the sign for kelvin. -/
structure Foreign (T : CaseTables) : Prop where
  kept : ∀ p, 128 ≤ p → p ≤ 0x10FFFF → T.lower p ≠ []
  foreign : ∀ p, 128 ≤ p → p ≤ 0x10FFFF → ∀ q ∈ T.lower p, q ≤ 0x10FFFF ∧ (128 ≤ q ∨ q = 0x69 ∨ q = 0x6B)

variable (T : CaseTables)

/-- `toLowerCase` of what follows some points. -/
def lowerAfter (before : List Nat) (s : JsString) : JsString := ofCodePoints (T.lowerPoints before (codePoints s))

theorem toLowerCase_eq (s : JsString) : T.toLowerCase s = T.lowerAfter [] s := rfl

theorem lowerAfter_nil (before : List Nat) : T.lowerAfter before [] = [] := rfl

/-- An ASCII unit is a point of its own. -/
theorem codePoints_cons {u : CodeUnit} (h : u < 128) (s : JsString) :
    codePoints (u :: s) = u.toNat :: codePoints s := by
  have hnot : isHighSurrogate u = false := by
    simp only [isHighSurrogate, Bool.and_eq_false_iff, decide_eq_false_iff_not]
    exact Or.inl fun hle => absurd (UInt16.lt_of_le_of_lt hle h) (by decide)
  cases s with
  | nil => rfl
  | cons v s => rw [codePoints, hnot, Bool.false_and, if_neg Bool.false_ne_true]

theorem lowerAfter_cons {u : CodeUnit} (h : u < 128) (before : List Nat) (s : JsString) :
    T.lowerAfter before (u :: s) = lowerUnit u :: T.lowerAfter (u.toNat :: before) s := by
  have hnat : u.toNat < 128 := h
  have hsigma : ¬ u.toNat = 0x3A3 := by omega
  unfold lowerAfter
  rw [codePoints_cons h, lowerPoints, decide_eq_false hsigma, Bool.false_and, if_neg Bool.false_ne_true,
    T.lower_ascii _ hnat]
  show encodePoint (asciiLower u.toNat) ++ _ = _
  rw [encodePoint_asciiLower]
  rfl

/-- ASCII is put into lower case unit by unit, whatever follows. -/
theorem lowerAfter_append {a : JsString} (h : ∀ u ∈ a, u < 128) (before : List Nat) (s : JsString) :
    ∃ before', T.lowerAfter before (a ++ s) = a.map lowerUnit ++ T.lowerAfter before' s := by
  induction a generalizing before with
  | nil => exact ⟨before, rfl⟩
  | cons u a ih =>
    obtain ⟨before', heq⟩ := ih (fun v hv => h v (List.mem_cons_of_mem _ hv)) (u.toNat :: before)
    exact ⟨before', by rw [List.cons_append, T.lowerAfter_cons (h u List.mem_cons_self), heq]; rfl⟩

variable {T}

/-- A unit that no point beyond ASCII is mapped to. -/
def Plain (u : CodeUnit) : Prop := u < 128 ∧ u ≠ 105 ∧ u ≠ 107

/-- A point beyond ASCII is encoded without plain units. -/
theorem encodePoint_foreign {q : Nat} (hq : q ≤ 0x10FFFF) (h : 128 ≤ q ∨ q = 0x69 ∨ q = 0x6B) :
    encodePoint q ≠ [] ∧ ∀ u ∈ encodePoint q, ¬ Plain u := by
  have hunit : ∀ {n : Nat}, n < 65536 → (128 ≤ n ∨ n = 0x69 ∨ n = 0x6B) → ¬ Plain (UInt16.ofNat n) := by
    intro n hn hforeign hplain
    obtain ⟨hascii, hi, hk⟩ := hplain
    have hnat : (UInt16.ofNat n).toNat = n := UInt16.toNat_ofNat_of_lt' hn
    have hlt : (UInt16.ofNat n).toNat < 128 := hascii
    rcases hforeign with hforeign | hforeign | hforeign
    · omega
    · exact hi (by rw [hforeign]; rfl)
    · exact hk (by rw [hforeign]; rfl)
  unfold encodePoint
  split
  · next hsmall =>
    refine ⟨nofun, fun u hu => ?_⟩
    rw [List.mem_singleton.mp hu]
    exact hunit hsmall h
  · refine ⟨nofun, fun u hu => ?_⟩
    rcases List.mem_cons.mp hu with rfl | hu
    · exact hunit (by omega) (Or.inl (by omega))
    · rw [List.mem_singleton.mp hu]
      exact hunit (by omega) (Or.inl (by omega))

theorem flatMap_foreign {qs : List Nat} (hne : qs ≠ [])
    (h : ∀ q ∈ qs, q ≤ 0x10FFFF ∧ (128 ≤ q ∨ q = 0x69 ∨ q = 0x6B)) :
    qs.flatMap encodePoint ≠ [] ∧ ∀ u ∈ qs.flatMap encodePoint, ¬ Plain u := by
  constructor
  · cases qs with
    | nil => exact absurd rfl hne
    | cons q qs =>
      have hq := h q List.mem_cons_self
      intro hnil
      exact (encodePoint_foreign hq.1 hq.2).1 (List.append_eq_nil_iff.mp hnil).1
  · intro u hu
    obtain ⟨q, hq, huq⟩ := List.mem_flatMap.mp hu
    exact (encodePoint_foreign (h q hq).1 (h q hq).2).2 u huq

/-- A string that does not begin with ASCII: its first point, and what follows it. -/
theorem lowerAfter_foreign (hT : T.Foreign) {u : CodeUnit} (hu : ¬ u < 128) (before : List Nat) (s : JsString) :
    ∃ image before' rest, T.lowerAfter before (u :: s) = image ++ T.lowerAfter before' rest ∧ image ≠ [] ∧
      (∀ v ∈ image, ¬ Plain v) ∧ (rest = s ∨ ∃ v, s = v :: rest ∧ ¬ v < 128) := by
  have hu : 128 ≤ u.toNat := Nat.le_of_not_lt hu
  have hnat : u.toNat < 65536 := u.toNat_lt
  -- what one point contributes
  have hpoint : ∀ {p : Nat} {rest : JsString}, 128 ≤ p → p ≤ 0x10FFFF → codePoints (u :: s) = p :: codePoints rest →
      (rest = s ∨ ∃ v, s = v :: rest ∧ ¬ v < 128) → ∃ image before' rest,
        T.lowerAfter before (u :: s) = image ++ T.lowerAfter before' rest ∧ image ≠ [] ∧
          (∀ v ∈ image, ¬ Plain v) ∧ (rest = s ∨ ∃ v, s = v :: rest ∧ ¬ v < 128) := by
    intro p rest hp hp' hcodes hrest
    have himage : ∃ qs : List Nat, T.lowerPoints before (p :: codePoints rest) =
        qs ++ T.lowerPoints (p :: before) (codePoints rest) ∧ qs ≠ [] ∧
          ∀ q ∈ qs, q ≤ 0x10FFFF ∧ (128 ≤ q ∨ q = 0x69 ∨ q = 0x6B) := by
      rw [lowerPoints]
      split
      · refine ⟨[0x3C2], rfl, nofun, fun q hq => ?_⟩
        rw [List.mem_singleton.mp hq]
        omega
      · exact ⟨T.lower p, rfl, hT.kept p hp hp', hT.foreign p hp hp'⟩
    obtain ⟨qs, heq, hne, hforeign⟩ := himage
    obtain ⟨hnil, hplain⟩ := flatMap_foreign hne hforeign
    refine ⟨qs.flatMap encodePoint, p :: before, rest, ?_, hnil, hplain, hrest⟩
    unfold lowerAfter ofCodePoints
    rw [hcodes, heq, List.flatMap_append]
  cases s with
  | nil => exact hpoint hu (by omega) rfl (Or.inl rfl)
  | cons v s =>
    by_cases hpair : (isHighSurrogate u && isLowSurrogate v) = true
    · have hboth := hpair
      simp only [isHighSurrogate, isLowSurrogate, Bool.and_eq_true, decide_eq_true_eq,
        UInt16.le_iff_toNat_le] at hboth
      obtain ⟨⟨hu₁, hu₂⟩, hv₁, hv₂⟩ := hboth
      have hu₂ : u.toNat ≤ 0xDBFF := hu₂
      have hv₁ : 0xDC00 ≤ v.toNat := hv₁
      have hv₂ : v.toNat ≤ 0xDFFF := hv₂
      refine hpoint ?_ ?_ (by rw [codePoints, if_pos hpair]) (Or.inr ⟨v, rfl, fun hlt => ?_⟩)
      · omega
      · omega
      · have hlt : v.toNat < 128 := hlt
        omega
    · exact hpoint hu (by omega) (by rw [codePoints, if_neg hpair]) (Or.inl rfl)

/-- What comes out plain at the left was ASCII. -/
theorem lowerAfter_plain (hT : T.Foreign) {c t : JsString} (hc : ∀ u ∈ c, Plain u) :
    ∀ {before : List Nat} {s : JsString},
    T.lowerAfter before s = c ++ t →
      ∃ a before' s', s = a ++ s' ∧ a.map lowerUnit = c ∧ (∀ u ∈ a, u < 128) ∧ t = T.lowerAfter before' s' := by
  induction c with
  | nil => exact fun {before s} h => ⟨[], before, s, rfl, rfl, nofun, h.symm⟩
  | cons u c ih =>
    intro before s h
    cases s with
    | nil => cases h
    | cons v s =>
      by_cases hv : v < 128
      · rw [T.lowerAfter_cons hv] at h
        obtain ⟨hhead, hrest⟩ := List.cons.inj h
        obtain ⟨a, before', s', hs, hmap, hascii, ht⟩ := ih (fun w hw => hc w (List.mem_cons_of_mem _ hw)) hrest
        refine ⟨v :: a, before', s', by rw [hs]; rfl, by rw [List.map_cons, hhead, hmap], fun w hw => ?_, ht⟩
        rcases List.mem_cons.mp hw with heq | hw
        · rw [heq]
          exact hv
        · exact hascii w hw
      · obtain ⟨image, before', rest, heq, hne, hplain, -⟩ := T.lowerAfter_foreign hT hv before s
        rw [heq] at h
        cases image with
        | nil => exact absurd rfl hne
        | cons w image =>
          have hhead := (List.cons.inj h).1
          exact absurd (hc u List.mem_cons_self) (hhead ▸ hplain w List.mem_cons_self)

theorem lowerAfter_ne_nil (hT : T.Foreign) {s : JsString} (hs : s ≠ []) (before : List Nat) :
    T.lowerAfter before s ≠ [] := by
  cases s with
  | nil => exact absurd rfl hs
  | cons v s =>
    by_cases hv : v < 128
    · rw [T.lowerAfter_cons hv]
      exact nofun
    · obtain ⟨image, before', rest, heq, hne, -⟩ := T.lowerAfter_foreign hT hv before s
      rw [heq]
      exact fun hnil => hne (List.append_eq_nil_iff.mp hnil).1

/-- A plain unit at the right stays there, if it is no letter. -/
theorem lowerAfter_last (hT : T.Foreign) {u : CodeUnit} (hplain : Plain u) (hfixed : ∀ v, lowerUnit v = u ↔ v = u) :
    ∀ {s : JsString} (before : List Nat), (T.lowerAfter before s).getLast? = some u ↔ s.getLast? = some u := by
  intro s
  cases s with
  | nil => exact fun _ => Iff.rfl
  | cons v s =>
    intro before
    -- what comes before the last unit does not matter
    have hskip : ∀ {x rest : JsString}, rest ≠ [] → (x ++ rest).getLast? = rest.getLast? := by
      intro x rest hrest
      rw [List.getLast?_append]
      cases hlast : rest.getLast? with
      | none => exact absurd (List.getLast?_eq_none_iff.mp hlast) hrest
      | some w => rfl
    by_cases hv : v < 128
    · rw [T.lowerAfter_cons hv]
      by_cases hs : s = []
      · rw [hs, lowerAfter_nil]
        show some (lowerUnit v) = some u ↔ some v = some u
        rw [Option.some_inj, Option.some_inj]
        exact hfixed v
      · have hleft := hskip (x := [lowerUnit v]) (T.lowerAfter_ne_nil hT hs (v.toNat :: before))
        have hright := hskip (x := [v]) hs
        rw [List.singleton_append] at hleft hright
        rw [hleft, hright]
        exact lowerAfter_last hT hplain hfixed _
    · obtain ⟨image, before', rest, heq, hne, hforeign, hrest⟩ := T.lowerAfter_foreign hT hv before s
      have hno : ∀ {w : CodeUnit}, ¬ w < 128 → w ≠ u := fun hw heq => hw (heq ▸ hplain.1)
      rw [heq]
      by_cases hnil : rest = []
      · rw [hnil, lowerAfter_nil, List.append_nil]
        constructor
        · intro hlast
          exact absurd hplain (hforeign u (List.mem_of_getLast? hlast))
        · intro hlast
          exfalso
          rcases hrest with hs | ⟨w, hs, hw⟩
          · rw [← hs, hnil] at hlast
            exact hno hv (Option.some.inj hlast)
          · rw [hs, hnil] at hlast
            exact hno hw (Option.some.inj hlast)
      · rw [hskip (T.lowerAfter_ne_nil hT hnil before')]
        have hsame : (v :: s).getLast? = rest.getLast? := by
          rcases hrest with hs | ⟨w, hs, -⟩
          · rw [← hs]
            exact hskip (x := [v]) hnil
          · rw [hs]
            exact hskip (x := [v, w]) hnil
        have hshorter : rest.length < s.length + 1 := by
          rcases hrest with hs | ⟨w, hs, -⟩
          · rw [hs]
            exact Nat.lt_succ_self _
          · rw [hs]
            simp only [List.length_cons]
            omega
        rw [hsame]
        exact lowerAfter_last hT hplain hfixed _
termination_by s => s.length

end CaseTables

end Sag
