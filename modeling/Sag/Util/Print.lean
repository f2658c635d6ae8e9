import Sag.Util.Json

/-!
# The size of a JSON text

The text that `JSON.stringify` prints, put together from its parts, and its size in UTF-8.
A part that nothing joins from either side (`Whole`) has a size of its own, so the size of a
text is the sum of those of its parts; a character of a string costs what `pointBytes` says,
from one byte to the six of an escape.
-/

namespace Sag

/-! ## Texts -/

def boolText (b : Bool) : JsString := if b then js "true" else js "false"

def arrayText (items : List JsString) : JsString := [91] ++ (items.intersperse [44]).flatten ++ [93]

/-- An object, with its values as they are printed. -/
def objectText (members : List (JsString × JsString)) : JsString :=
  [123] ++ ((members.map fun m => quoteJsonString m.1 ++ [58] ++ m.2).intersperse [44]).flatten ++ [125]

theorem stringifyFlat_eq (members : List (JsString × Scalar)) :
    stringifyFlat members = objectText (members.map fun m => (m.1, m.2.text)) := by
  rw [stringifyFlat, objectText, List.map_map]
  rfl

mutual

/-- `JSON.stringify` of a value; `numberText` prints its numbers. -/
def Json.text (numberText : Rat → JsString) : Json → JsString
  | .null => js "null"
  | .bool b => boolText b
  | .num x => numberText x
  | .str s => quoteJsonString s
  | .arr items => arrayText (Json.texts numberText items)
  | .obj members => objectText (Json.memberTexts numberText members)

def Json.texts (numberText : Rat → JsString) : List Json → List JsString
  | [] => []
  | item :: items => Json.text numberText item :: Json.texts numberText items

def Json.memberTexts (numberText : Rat → JsString) : List (JsString × Json) → List (JsString × JsString)
  | [] => []
  | m :: members => (m.1, Json.text numberText m.2) :: Json.memberTexts numberText members

end

/-! ## Sizes -/

/-- What a code point of a string costs in a JSON text, in bytes. -/
def pointBytes (p : Nat) : Nat :=
  if p = 34 ∨ p = 92 ∨ p = 8 ∨ p = 9 ∨ p = 10 ∨ p = 12 ∨ p = 13 then 2
  else if p < 32 then 6
  else if p < 0x80 then 1
  else if p < 0x800 then 2
  else if 0xD800 ≤ p ∧ p ≤ 0xDFFF then 6
  else if p < 0x10000 then 3
  else 4

/-- The size of a string between its quotation marks. -/
def textBytes (s : JsString) : Nat := ((codePoints s).map pointBytes).sum

/-- The size of a string with them. -/
def stringBytes (s : JsString) : Nat := textBytes s + 2

/-- The size of what is listed between two brackets, with its commas. -/
def listBytes (sizes : List Nat) : Nat := sizes.sum + (sizes.length - 1) + 2

/-- The size of an object, from its names and the sizes of its values. -/
def objectBytes (members : List (JsString × Nat)) : Nat := listBytes (members.map fun m => stringBytes m.1 + 1 + m.2)

/-! ## Parts -/

/-- Whatever follows, nothing of it becomes one character with the end. -/
def Whole (s : JsString) : Prop := ∀ t, codePoints (s ++ t) = codePoints s ++ codePoints t

theorem Whole.nil : Whole [] := fun _ => rfl

theorem Whole.append {a b : JsString} (ha : Whole a) (hb : Whole b) : Whole (a ++ b) := by
  intro t
  rw [List.append_assoc, ha, hb, ha, List.append_assoc]

theorem Whole.utf8 {a : JsString} (ha : Whole a) (b : JsString) : utf8 (a ++ b) = utf8 a ++ utf8 b := by
  rw [Sag.utf8, ha, List.flatMap_append, ← Sag.utf8, ← Sag.utf8]

/-- A unit that is no surrogate is not joined from the left. -/
theorem codePoints_before {v : CodeUnit} (hv : isLowSurrogate v = false) (s t : JsString) :
    codePoints (s ++ v :: t) = codePoints s ++ codePoints (v :: t) := by
  induction s using codePoints.induct with
  | case1 => rfl
  | case2 u =>
    have hpair : ¬ (isHighSurrogate u && isLowSurrogate v) = true := by
      rw [hv, Bool.and_false]
      exact Bool.false_ne_true
    show codePoints (u :: v :: t) = u.toNat :: codePoints (v :: t)
    rw [codePoints, if_neg hpair]
  | case3 u w s hpair ih =>
    show codePoints (u :: w :: (s ++ v :: t)) = codePoints (u :: w :: s) ++ _
    rw [codePoints, if_pos hpair, codePoints, if_pos hpair, ih, List.cons_append]
  | case4 u w s hpair ih =>
    show codePoints (u :: w :: (s ++ v :: t)) = codePoints (u :: w :: s) ++ _
    rw [codePoints, if_neg hpair, codePoints, if_neg hpair, List.cons_append]
    exact congrArg (u.toNat :: ·) ih

theorem not_surrogate {u : CodeUnit} (h : u < 128) : isHighSurrogate u = false ∧ isLowSurrogate u = false := by
  have hu : u.toNat < 128 := h
  simp only [isHighSurrogate, isLowSurrogate, Bool.and_eq_false_iff, decide_eq_false_iff_not, UInt16.le_iff_toNat_le]
  have hhigh : (0xD800 : CodeUnit).toNat = 0xD800 := by decide
  have hlow : (0xDC00 : CodeUnit).toNat = 0xDC00 := by decide
  rw [hhigh, hlow]
  omega

theorem Whole.ascii {s : JsString} (h : ∀ u ∈ s, u < 128) : Whole s := by
  intro t
  induction s with
  | nil => rfl
  | cons u s ih =>
    have hu := h u List.mem_cons_self
    rw [List.cons_append, CaseTables.codePoints_cons hu, CaseTables.codePoints_cons hu,
      ih fun v hv => h v (List.mem_cons_of_mem _ hv),
      List.cons_append]

/-- What ends with an ASCII unit is whole. -/
theorem Whole.closed {v : CodeUnit} (hv : v < 128) (s : JsString) : Whole (s ++ [v]) := by
  intro t
  have hlow := (not_surrogate hv).2
  rw [List.append_assoc, List.singleton_append, codePoints_before hlow, codePoints_before hlow,
    CaseTables.codePoints_cons hv,
    List.append_assoc]
  rfl

theorem utf8_ascii_length {s : JsString} (h : ∀ u ∈ s, u < 128) : (utf8 s).length = s.length := by
  rw [utf8_ascii h, List.length_map]

/-! ## Strings -/

/-- A unit that does not begin a pair is a character, whatever follows. -/
theorem Whole.unit {u : CodeUnit} (hu : isHighSurrogate u = false) : Whole [u] := by
  intro t
  cases t with
  | nil => rfl
  | cons v t =>
    have hpair : ¬ (isHighSurrogate u && isLowSurrogate v) = true := by
      rw [hu, Bool.false_and]
      exact Bool.false_ne_true
    show codePoints (u :: v :: t) = u.toNat :: codePoints (v :: t)
    rw [codePoints, if_neg hpair]

theorem utf8Point_length (p : Nat) :
    (utf8Point p).length = if p < 0x80 then 1 else if p < 0x800 then 2 else if p < 0x10000 then 3 else 4 := by
  unfold utf8Point
  dsimp only
  by_cases hsurrogate : 0xD800 ≤ p ∧ p ≤ 0xDFFF
  · rw [if_pos hsurrogate, if_neg (by decide), if_neg (by decide), if_pos (by decide), if_neg (by omega),
      if_neg (by omega), if_pos (by omega)]
    rfl
  · rw [if_neg hsurrogate]
    split
    · rfl
    · split
      · rfl
      · split <;> rfl

/-- An escape is six ASCII units. -/
theorem escapeUnit_ascii (u : CodeUnit) : ∀ v ∈ escapeUnit u, v < 128 := by
  have hdigit : ∀ n < 16, hexDigit n < 128 := by decide
  have hu : u.toNat < 65536 := u.toNat_lt
  intro v hv
  simp only [escapeUnit, List.mem_cons, List.not_mem_nil, or_false] at hv
  rcases hv with rfl | rfl | rfl | rfl | rfl | rfl
  · decide
  · decide
  · exact hdigit _ (by omega)
  · exact hdigit _ (by omega)
  · exact hdigit _ (by omega)
  · exact hdigit _ (by omega)

theorem utf8_ascii_append {a : JsString} (ha : ∀ u ∈ a, u < 128) (t : JsString) :
    (utf8 (a ++ t)).length = a.length + (utf8 t).length := by
  rw [(Whole.ascii ha).utf8, List.length_append, utf8_ascii_length ha]

/-- A unit that is no surrogate, as it is printed. -/
theorem quoteUnit_bytes {u : CodeUnit} (hhigh : isHighSurrogate u = false) (hlow : isLowSurrogate u = false)
    (t : JsString) : (utf8 (quoteUnit u ++ t)).length = pointBytes u.toNat + (utf8 t).length := by
  -- an escaped unit, and its two units
  have pair : ∀ (c : CodeUnit) (text : JsString), u = c → (∀ v ∈ text, v < 128) → text.length = 2 →
      pointBytes c.toNat = 2 → (utf8 (text ++ t)).length = pointBytes u.toNat + (utf8 t).length := by
    intro c text hu htext hlen hbytes
    rw [utf8_ascii_append htext, hlen, hu, hbytes]
  unfold quoteUnit
  split
  · next hu => exact pair 34 _ hu (by decide) rfl (by decide)
  · next h34 =>
    split
    · next hu => exact pair 92 _ hu (by decide) rfl (by decide)
    · next h92 =>
      split
      · next hu => exact pair 8 _ hu (by decide) (by decide) (by decide)
      · next h8 =>
        split
        · next hu => exact pair 9 _ hu (by decide) (by decide) (by decide)
        · next h9 =>
          split
          · next hu => exact pair 10 _ hu (by decide) (by decide) (by decide)
          · next h10 =>
            split
            · next hu => exact pair 12 _ hu (by decide) (by decide) (by decide)
            · next h12 =>
              split
              · next hu => exact pair 13 _ hu (by decide) (by decide) (by decide)
              · next h13 =>
                have apart : ∀ {n : Nat} {c : CodeUnit}, c.toNat = n → u ≠ c → u.toNat ≠ n :=
                  fun hc hne heq => hne (UInt16.toNat_inj.mp (heq.trans hc.symm))
                have hplain : ¬ (u.toNat = 34 ∨ u.toNat = 92 ∨ u.toNat = 8 ∨ u.toNat = 9 ∨ u.toNat = 10 ∨
                    u.toNat = 12 ∨ u.toNat = 13) := by
                  rintro (h | h | h | h | h | h | h)
                  · exact apart rfl h34 h
                  · exact apart rfl h92 h
                  · exact apart rfl h8 h
                  · exact apart rfl h9 h
                  · exact apart rfl h10 h
                  · exact apart rfl h12 h
                  · exact apart rfl h13 h
                rw [pointBytes, if_neg hplain]
                split
                · next hcontrol =>
                  have hlt : u.toNat < 32 := hcontrol
                  rw [if_pos hlt, utf8_ascii_append (escapeUnit_ascii u)]
                  rfl
                · next hcontrol =>
                  have hge : ¬ u.toNat < 32 := hcontrol
                  have hlt : u.toNat < 65536 := u.toNat_lt
                  have hnot : ¬ (0xD800 ≤ u.toNat ∧ u.toNat ≤ 0xDFFF) := by
                    simp only [isHighSurrogate, isLowSurrogate, Bool.and_eq_false_iff, decide_eq_false_iff_not,
                      UInt16.le_iff_toNat_le] at hhigh hlow
                    rw [show (0xD800 : CodeUnit).toNat = 0xD800 from by decide,
                      show (0xDBFF : CodeUnit).toNat = 0xDBFF from by decide] at hhigh
                    rw [show (0xDC00 : CodeUnit).toNat = 0xDC00 from by decide,
                      show (0xDFFF : CodeUnit).toNat = 0xDFFF from by decide] at hlow
                    omega
                  rw [(Whole.unit hhigh).utf8, List.length_append, if_neg hge, if_neg hnot, if_pos hlt]
                  show (utf8Point u.toNat ++ []).length + _ = _
                  rw [List.append_nil, utf8Point_length, if_pos hlt]

/-- A unit that is not half of a pair, as it is printed. -/
theorem quoted_bytes (u : CodeUnit) (t : JsString) :
    (utf8 ((if isHighSurrogate u || isLowSurrogate u then escapeUnit u else quoteUnit u) ++ t)).length =
      pointBytes u.toNat + (utf8 t).length := by
  split
  · next h =>
    rw [utf8_ascii_append (escapeUnit_ascii u)]
    have hsurrogate : 0xD800 ≤ u.toNat ∧ u.toNat ≤ 0xDFFF := by
      simp only [isHighSurrogate, isLowSurrogate, Bool.or_eq_true, Bool.and_eq_true, decide_eq_true_eq,
        UInt16.le_iff_toNat_le] at h
      rw [show (0xD800 : CodeUnit).toNat = 0xD800 from by decide,
        show (0xDBFF : CodeUnit).toNat = 0xDBFF from by decide,
        show (0xDC00 : CodeUnit).toNat = 0xDC00 from by decide,
        show (0xDFFF : CodeUnit).toNat = 0xDFFF from by decide] at h
      omega
    have hbytes : pointBytes u.toNat = 6 := by
      rw [pointBytes, if_neg (by omega), if_neg (by omega), if_neg (by omega), if_neg (by omega), if_pos hsurrogate]
    rw [hbytes]
    rfl
  · next h =>
    rw [Bool.not_eq_true, Bool.or_eq_false_iff] at h
    exact quoteUnit_bytes h.1 h.2 t

/-- A string is printed in as many bytes as its characters cost. -/
theorem quoteUnits_bytes (s : JsString) : (utf8 (quoteUnits s)).length = textBytes s := by
  unfold textBytes
  induction s using codePoints.induct with
  | case1 => rfl
  | case2 u =>
    have hquoted := quoted_bytes u []
    rw [List.append_nil] at hquoted
    exact hquoted
  | case3 u v s hpair ih =>
    rw [quoteUnits, if_pos hpair, codePoints, if_pos hpair, List.map_cons, List.sum_cons, ← ih, utf8, codePoints,
      if_pos hpair, List.flatMap_cons, List.length_append, utf8Point_length]
    simp only [Bool.and_eq_true, isHighSurrogate, isLowSurrogate, decide_eq_true_eq, UInt16.le_iff_toNat_le] at hpair
    rw [show (0xD800 : CodeUnit).toNat = 0xD800 from by decide] at hpair
    unfold pointBytes
    rw [if_neg (by omega), if_neg (by omega), if_neg (by omega), if_neg (by omega), if_neg (by omega),
      if_neg (by omega), if_neg (by omega), if_neg (by omega), utf8]
  | case4 u v s hpair ih =>
    rw [quoteUnits, if_neg hpair, codePoints, if_neg hpair, List.map_cons, List.sum_cons, ← ih]
    exact quoted_bytes u _

theorem Whole.quoted (s : JsString) : Whole (quoteJsonString s) := Whole.closed (by decide) (34 :: quoteUnits s)

theorem quoteJsonString_bytes (s : JsString) : (utf8 (quoteJsonString s)).length = stringBytes s := by
  have hquote : ∀ u ∈ [(34 : CodeUnit)], u < 128 := by decide
  have hclosed : codePoints (quoteUnits s ++ [34]) = codePoints (quoteUnits s) ++ codePoints [34] :=
    codePoints_before (by decide) _ _
  have hinner : (utf8 (quoteUnits s ++ [34])).length = textBytes s + 1 := by
    rw [utf8, hclosed, List.flatMap_append, List.length_append, ← utf8, quoteUnits_bytes]
    rfl
  show (utf8 ([34] ++ (quoteUnits s ++ [34]))).length = _
  rw [utf8_ascii_append hquote, hinner, stringBytes, List.length_singleton]
  omega

/-! ## Lists and objects -/

/-- Parts with commas between them. -/
theorem intersperse_bytes (items : List JsString) (h : ∀ item ∈ items, Whole item) :
    Whole (items.intersperse [44]).flatten ∧ (utf8 (items.intersperse [44]).flatten).length =
      (items.map fun item => (utf8 item).length).sum + (items.length - 1) := by
  have hcomma : ∀ u ∈ [(44 : CodeUnit)], u < 128 := by decide
  induction items with
  | nil => exact ⟨Whole.nil, rfl⟩
  | cons item items ih =>
    have hitem := h item List.mem_cons_self
    cases items with
    | nil =>
      rw [List.intersperse_singleton, List.flatten_singleton]
      exact ⟨hitem, by simp⟩
    | cons next items =>
      obtain ⟨hwhole, hbytes⟩ := ih fun other hother => h other (List.mem_cons_of_mem _ hother)
      rw [List.intersperse_cons_cons, List.flatten_cons, List.flatten_cons]
      refine ⟨hitem.append ((Whole.ascii hcomma).append hwhole), ?_⟩
      rw [hitem.utf8, List.length_append, utf8_ascii_append hcomma, hbytes]
      simp only [List.map_cons, List.sum_cons, List.length_cons, List.length_nil]
      omega

/-- Parts between brackets. -/
theorem bracketed_bytes {left right : CodeUnit} (hleft : left < 128) (hright : right < 128) (items : List JsString)
    (h : ∀ item ∈ items, Whole item) :
    Whole ([left] ++ (items.intersperse [44]).flatten ++ [right]) ∧
      (utf8 ([left] ++ (items.intersperse [44]).flatten ++ [right])).length =
        listBytes (items.map fun item => (utf8 item).length) := by
  obtain ⟨hwhole, hbytes⟩ := intersperse_bytes items h
  have one : ∀ {u : CodeUnit}, u < 128 → ∀ v ∈ [u], v < 128 := fun hu v hv => List.mem_singleton.mp hv ▸ hu
  refine ⟨Whole.closed hright _, ?_⟩
  rw [List.append_assoc, utf8_ascii_append (one hleft), hwhole.utf8, List.length_append, hbytes,
    utf8_ascii_length (one hright), listBytes, List.length_map]
  simp only [List.length_singleton]
  omega

theorem arrayText_bytes (items : List JsString) (h : ∀ item ∈ items, Whole item) :
    Whole (arrayText items) ∧ (utf8 (arrayText items)).length = listBytes (items.map fun item => (utf8 item).length) :=
  bracketed_bytes (by decide) (by decide) items h

theorem objectText_bytes (members : List (JsString × JsString)) (h : ∀ m ∈ members, Whole m.2) :
    Whole (objectText members) ∧
      (utf8 (objectText members)).length = objectBytes (members.map fun m => (m.1, (utf8 m.2).length)) := by
  have hcolon : ∀ u ∈ [(58 : CodeUnit)], u < 128 := by decide
  have hmember : ∀ m ∈ members, Whole (quoteJsonString m.1 ++ [58] ++ m.2) ∧
      (utf8 (quoteJsonString m.1 ++ [58] ++ m.2)).length = stringBytes m.1 + 1 + (utf8 m.2).length := by
    intro m hm
    have hname := (Whole.quoted m.1).append (Whole.ascii hcolon)
    refine ⟨hname.append (h m hm), ?_⟩
    rw [hname.utf8, List.length_append, (Whole.quoted m.1).utf8, List.length_append, quoteJsonString_bytes,
      utf8_ascii_length hcolon]
    rfl
  obtain ⟨hwhole, hbytes⟩ := bracketed_bytes (show (123 : CodeUnit) < 128 by decide)
    (show (125 : CodeUnit) < 128 by decide) (members.map fun m => quoteJsonString m.1 ++ [58] ++ m.2)
      (fun item hitem => by
      obtain ⟨m, hm, rfl⟩ := List.mem_map.mp hitem
      exact (hmember m hm).1)
  refine ⟨hwhole, hbytes.trans ?_⟩
  rw [objectBytes, List.map_map, List.map_map]
  exact congrArg listBytes (List.map_congr_left fun m hm => (hmember m hm).2)

end Sag
