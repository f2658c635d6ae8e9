import Sag.Util.Percent
import Sag.Util.Print

/-!
# Text that survives UTF-8

A string without lone surrogates is read back from its bytes (`utf8Points_utf8`), so two of
them with the same bytes are one (`utf8_injective`). What `JSON.stringify` prints is such a
string whatever it was given, and has no byte order mark in front: it is read back as it was
printed (`fromUtf8_text`).
-/

namespace Sag

/-! ## Reading back -/

/-- A point in front of more bytes is read first. -/
theorem utf8Points_point {p : Nat} (hp : UnicodeScalar p) (rest : Bytes) :
    utf8Points (utf8Point p ++ rest) = p :: utf8Points rest := by
  by_cases hsmall : p < 0x80
  · have hbyte : (UInt8.ofNat p).toNat = p := by
      rw [UInt8.toNat_ofNat']
      omega
    have hsize : announced (UInt8.ofNat p) = 1 := if_pos (by omega)
    rw [utf8Point_small hsmall, List.singleton_append, utf8Points.eq_def]
    dsimp only
    rw [if_pos hsize, hbyte]
  · -- the first byte announces the others, and each of them is what may follow
    have hwide := utf8Point_wide hp (Nat.le_of_not_lt hsmall)
    generalize utf8Point p = bytes at hwide
    cases hwide with
    | two hsize hsecond hpoint =>
      simp only [List.cons_append, List.nil_append]
      rw [utf8Points.eq_def]
      dsimp only
      rw [if_neg (by omega), if_neg (by omega), if_neg (by rw [hsecond]; decide), if_pos hsize, hpoint]
    | three hsize hsecond hthird hpoint =>
      simp only [List.cons_append, List.nil_append]
      rw [utf8Points.eq_def]
      dsimp only
      rw [if_neg (by omega), if_neg (by omega), if_neg (by rw [hsecond]; decide), if_neg (by omega),
        if_neg (by rw [hthird]; decide), if_pos hsize, hpoint]
    | four hsize hsecond hthird hfourth hpoint =>
      simp only [List.cons_append, List.nil_append]
      rw [utf8Points.eq_def]
      dsimp only
      rw [if_neg (by omega), if_neg (by omega), if_neg (by rw [hsecond]; decide), if_neg (by omega),
        if_neg (by rw [hthird]; decide), if_neg (by omega), if_neg (by rw [hfourth]; decide), hpoint]

/-- The points of a string are read back from its bytes, -/
theorem utf8Points_utf8 {s : JsString} (hs : WellFormedText s) : utf8Points (utf8 s) = codePoints s := by
  have hread : ∀ ps : List Nat, (∀ p ∈ ps, UnicodeScalar p) → utf8Points (ps.flatMap utf8Point) = ps := by
    intro ps
    induction ps with
    | nil => exact fun _ => rfl
    | cons p ps ih =>
      intro hps
      rw [List.flatMap_cons, utf8Points_point (hps p List.mem_cons_self),
        ih fun q hq => hps q (List.mem_cons_of_mem _ hq)]
  exact hread _ hs

/-- so no other string has the same bytes. -/
theorem utf8_injective {s t : JsString} (hs : WellFormedText s) (ht : WellFormedText t) (h : utf8 s = utf8 t) :
    s = t := by
  have hpoints : codePoints s = codePoints t := by
    rw [← utf8Points_utf8 hs, ← utf8Points_utf8 ht, h]
  rw [← ofCodePoints_codePoints s, hpoints, ofCodePoints_codePoints]

/-- `fromUtf8` reads a string back that has no byte order mark in front. -/
theorem fromUtf8_utf8_text {s : JsString} (hs : WellFormedText s) (hmark : (codePoints s).head? ≠ some 0xFEFF) :
    fromUtf8 (utf8 s) = s := by
  have hpoints := utf8Points_utf8 hs
  unfold fromUtf8
  split
  · next ps heq =>
    rw [hpoints] at heq
    rw [heq] at hmark
    exact absurd rfl hmark
  · rw [hpoints, ofCodePoints_codePoints]

/-! ## Parts of a text -/

theorem WellFormedText.append {a b : JsString} (hwhole : Whole a) (ha : WellFormedText a) (hb : WellFormedText b) :
    WellFormedText (a ++ b) := by
  intro p hp
  rw [hwhole, List.mem_append] at hp
  exact hp.elim (ha p) (hb p)

theorem WellFormedText.ascii {s : JsString} (h : ∀ u ∈ s, u < 128) : WellFormedText s := by
  intro p hp
  rw [codePoints_ascii h] at hp
  obtain ⟨u, hu, rfl⟩ := List.mem_map.mp hp
  have hlt : u.toNat < 128 := h u hu
  exact Or.inl (by omega)

/-- Around an ASCII unit there are two texts. -/
theorem wellFormedText_join {a b : JsString} {c : CodeUnit} (hc : c < 128) :
    WellFormedText (a ++ c :: b) ↔ WellFormedText a ∧ WellFormedText b := by
  have hpoints : codePoints (a ++ c :: b) = codePoints a ++ c.toNat :: codePoints b := by
    rw [codePoints_before (not_surrogate hc).2, CaseTables.codePoints_cons hc]
  have hlt : c.toNat < 128 := hc
  constructor
  · intro h
    refine ⟨fun p hp => h p ?_, fun p hp => h p ?_⟩
    · rw [hpoints]
      exact List.mem_append_left _ hp
    · rw [hpoints]
      exact List.mem_append_right _ (List.mem_cons_of_mem _ hp)
  · intro h p hp
    rw [hpoints, List.mem_append, List.mem_cons] at hp
    rcases hp with hp | rfl | hp
    · exact h.1 p hp
    · exact Or.inl (by omega)
    · exact h.2 p hp

/-! ## What is printed -/

/-- A unit that is no surrogate is a text of its own. -/
theorem quoteUnit_text {u : CodeUnit} (hhigh : isHighSurrogate u = false) (hlow : isLowSurrogate u = false) :
    Whole (quoteUnit u) ∧ WellFormedText (quoteUnit u) := by
  have plain : ∀ {s : JsString}, (∀ v ∈ s, v < 128) → Whole s ∧ WellFormedText s :=
    fun h => ⟨Whole.ascii h, WellFormedText.ascii h⟩
  unfold quoteUnit
  repeat' split
  all_goals first
    | exact plain (by decide)
    | exact plain (escapeUnit_ascii u)
    | skip
  refine ⟨Whole.unit hhigh, fun p hp => ?_⟩
  have hp : p = u.toNat := List.mem_singleton.mp hp
  have hlt : u.toNat < 65536 := u.toNat_lt
  simp only [isHighSurrogate, isLowSurrogate, Bool.and_eq_false_iff, decide_eq_false_iff_not,
    UInt16.le_iff_toNat_le] at hhigh hlow
  rw [show (0xD800 : CodeUnit).toNat = 0xD800 from by decide,
    show (0xDBFF : CodeUnit).toNat = 0xDBFF from by decide] at hhigh
  rw [show (0xDC00 : CodeUnit).toNat = 0xDC00 from by decide,
    show (0xDFFF : CodeUnit).toNat = 0xDFFF from by decide] at hlow
  unfold UnicodeScalar
  omega

/-- A lone surrogate is escaped, and everything else was a text already. -/
theorem quoteUnits_text (s : JsString) : WellFormedText (quoteUnits s) := by
  have one : ∀ u : CodeUnit, Whole (if isHighSurrogate u || isLowSurrogate u then escapeUnit u else quoteUnit u) ∧
      WellFormedText (if isHighSurrogate u || isLowSurrogate u then escapeUnit u else quoteUnit u) := by
    intro u
    split
    · exact ⟨Whole.ascii (escapeUnit_ascii u), WellFormedText.ascii (escapeUnit_ascii u)⟩
    · next h =>
      rw [Bool.not_eq_true, Bool.or_eq_false_iff] at h
      exact quoteUnit_text h.1 h.2
  induction s using codePoints.induct with
  | case1 => exact fun p hp => absurd hp List.not_mem_nil
  | case2 u =>
    exact (one u).2
  | case3 u v s hpair ih =>
    rw [quoteUnits, if_pos hpair]
    intro p hp
    rw [codePoints, if_pos hpair, List.mem_cons] at hp
    refine hp.elim (fun hp => ?_) (ih p)
    simp only [Bool.and_eq_true, isHighSurrogate, isLowSurrogate, decide_eq_true_eq,
      UInt16.le_iff_toNat_le] at hpair
    rw [show (0xD800 : CodeUnit).toNat = 0xD800 from by decide, show (0xDBFF : CodeUnit).toNat = 0xDBFF from by decide,
      show (0xDC00 : CodeUnit).toNat = 0xDC00 from by decide,
      show (0xDFFF : CodeUnit).toNat = 0xDFFF from by decide] at hpair
    unfold UnicodeScalar
    omega
  | case4 u v s hpair ih =>
    rw [quoteUnits, if_neg hpair]
    exact WellFormedText.append (one u).1 (one u).2 ih

/-- A text to which more may be joined. -/
structure Joins (s : JsString) : Prop where
  whole : Whole s
  text : WellFormedText s

theorem Joins.ascii {s : JsString} (h : ∀ u ∈ s, u < 128) : Joins s := ⟨Whole.ascii h, WellFormedText.ascii h⟩

theorem Joins.append {a b : JsString} (ha : Joins a) (hb : Joins b) : Joins (a ++ b) :=
  ⟨ha.whole.append hb.whole, WellFormedText.append ha.whole ha.text hb.text⟩

theorem Joins.quoted (s : JsString) : Joins (quoteJsonString s) := by
  have hquote : ∀ u ∈ [(34 : CodeUnit)], u < 128 := by decide
  refine ⟨Whole.quoted s, ?_⟩
  show WellFormedText ([34] ++ (quoteUnits s ++ [34]))
  exact WellFormedText.append (Whole.ascii hquote) (WellFormedText.ascii hquote)
    ((wellFormedText_join (by decide)).mpr ⟨quoteUnits_text s, nofun⟩)

theorem Joins.bracketed {l r : CodeUnit} (hl : l < 128) (hr : r < 128) {items : List JsString}
    (h : ∀ item ∈ items, Joins item) : Joins ([l] ++ (items.intersperse [44]).flatten ++ [r]) := by
  have one : ∀ {c : CodeUnit}, c < 128 → Joins [c] := fun hc =>
    Joins.ascii fun u hu => by rw [List.mem_singleton.mp hu]; exact hc
  have hinner : ∀ items : List JsString, (∀ item ∈ items, Joins item) → Joins (items.intersperse [44]).flatten := by
    intro items
    induction items with
    | nil => exact fun _ => Joins.ascii nofun
    | cons item items ih =>
      intro h
      have hitem := h item List.mem_cons_self
      have hitems := ih fun i hi => h i (List.mem_cons_of_mem _ hi)
      cases items with
      | nil =>
        rw [List.intersperse_singleton, List.flatten_singleton]
        exact hitem
      | cons next items =>
        rw [List.intersperse_cons_cons, List.flatten_cons, List.flatten_cons]
        exact hitem.append ((one (by decide)).append hitems)
  exact ((one hl).append (hinner items h)).append (one hr)

variable {numberText : Rat → JsString}

mutual

/-- What is printed is a text. -/
theorem Json.text_joins (hnumber : ∀ x, ∀ u ∈ numberText x, u < 128) : ∀ v : Json, Joins (Json.text numberText v)
  | .null => Joins.ascii (s := js "null") (by decide)
  | .bool b => Joins.ascii (s := boolText b) (by cases b <;> decide)
  | .num x => Joins.ascii (hnumber x)
  | .str s => Joins.quoted s
  | .arr items => by
    rw [Json.text]
    exact Joins.bracketed (by decide) (by decide) (Json.texts_joins hnumber items)
  | .obj members => by
    rw [Json.text]
    refine Joins.bracketed (by decide) (by decide) fun item hitem => ?_
    obtain ⟨m, hm, rfl⟩ := List.mem_map.mp hitem
    exact ((Joins.quoted m.1).append (Joins.ascii (by decide))).append (Json.memberTexts_joins hnumber members m hm)

theorem Json.texts_joins (hnumber : ∀ x, ∀ u ∈ numberText x, u < 128) :
    ∀ items : List Json, ∀ item ∈ Json.texts numberText items, Joins item
  | [] => nofun
  | v :: items => by
    intro item hitem
    rcases List.mem_cons.mp hitem with rfl | hitem
    · exact Json.text_joins hnumber v
    · exact Json.texts_joins hnumber items item hitem

theorem Json.memberTexts_joins (hnumber : ∀ x, ∀ u ∈ numberText x, u < 128) :
    ∀ members : List (JsString × Json), ∀ m ∈ Json.memberTexts numberText members, Joins m.2
  | [] => nofun
  | (_, v) :: members => by
    intro m hm
    rcases List.mem_cons.mp hm with rfl | hm
    · exact Json.text_joins hnumber v
    · exact Json.memberTexts_joins hnumber members m hm

end

/-- Its front is ASCII. -/
theorem Json.text_front (hnumber : ∀ x, ∀ u ∈ numberText x, u < 128) (v : Json) (u : CodeUnit)
    (hu : (Json.text numberText v).head? = some u) : u < 128 := by
  have front : ∀ {s : JsString}, (∀ u ∈ s, u < 128) → s.head? = some u → u < 128 :=
    fun h hu => h u (List.mem_of_mem_head? hu)
  cases v with
  | null => exact front (s := js "null") (by decide) hu
  | bool b => exact front (s := boolText b) (by cases b <;> decide) hu
  | num x => exact front (hnumber x) hu
  | str s => exact front (s := [34]) (by decide) hu
  | arr items => exact front (s := [91]) (by decide) hu
  | obj members => exact front (s := [123]) (by decide) hu

/-- What is printed is read back as it was printed. -/
theorem fromUtf8_text (hnumber : ∀ x, ∀ u ∈ numberText x, u < 128) (v : Json) :
    fromUtf8 (utf8 (Json.text numberText v)) = Json.text numberText v := by
  have hfront := Json.text_front hnumber v
  refine fromUtf8_utf8_text (Json.text_joins hnumber v).text ?_
  cases htext : Json.text numberText v with
  | nil => exact nofun
  | cons u s =>
    rw [htext] at hfront
    have hlt : u < 128 := hfront u rfl
    have hnat : u.toNat < 128 := hlt
    rw [CaseTables.codePoints_cons hlt, List.head?_cons, Ne, Option.some_inj]
    omega

end Sag
