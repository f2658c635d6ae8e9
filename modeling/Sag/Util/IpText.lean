import Sag.Util.Ip

/-!
# The text of an IPv6 address

The grammar of the text, in lower case (`AddressText`): eight words in groups of hexadecimal
digits, of which the last two may be written as a dotted quad, and a row of which may be left
out if they are zero. `ipv6Parts` replaces the quad first, and then takes the groups apart
on either side of the gap; `bodyParts_iff` says that it reads just that grammar.
-/

namespace Sag

/-! ## The grammar -/

/-- Groups with a colon after each. -/
def lead (gs : List JsString) : JsString := gs.flatMap (· ++ [colon])

/-- Groups with colons between them, or none at all. -/
inductive Groups : JsString → List Nat → Prop where
  | empty : Groups [] []
  | listed {gs : List JsString} {g : JsString} (groups : ∀ x ∈ gs, isGroup x = true) (last : isGroup g = true) :
      Groups (lead gs ++ g) (gs.map hexValue ++ [hexValue g])

/-- A dotted quad and its number. -/
inductive DottedQuad : JsString → Nat → Prop where
  | mk {a b c d : JsString} (octets : ∀ x ∈ [a, b, c, d], isOctet x = true) :
      DottedQuad (a ++ dot :: (b ++ dot :: (c ++ dot :: d)))
        (((decimalValue a * 256 + decimalValue b) * 256 + decimalValue c) * 256 + decimalValue d)

/-- Groups, of which the last two may be a dotted quad. -/
inductive Tail : JsString → List Nat → Prop where
  | groups {text : JsString} {ws : List Nat} (groups : Groups text ws) : Tail text ws
  | quad {gs : List JsString} {quad : JsString} {n : Nat} (groups : ∀ x ∈ gs, isGroup x = true)
      (number : DottedQuad quad n) : Tail (lead gs ++ quad) (gs.map hexValue ++ [n / 65536, n % 65536])

/-- Eight words, or fewer on either side of a gap. -/
inductive AddressText (T : JsString → List Nat → Prop) : JsString → List Nat → Prop where
  | full {text : JsString} {ws : List Nat} (words : T text ws) (eight : ws.length = 8) : AddressText T text ws
  | compressed {left right : JsString} {a b : List Nat} (before : Groups left a) (after : T right b)
      (gap : a.length + b.length < 8) :
      AddressText T (left ++ colon :: colon :: right) (a ++ List.replicate (8 - (a.length + b.length)) 0 ++ b)

/-! ## Groups -/

theorem colon_notMem_of_group {g : JsString} (h : isGroup g = true) : colon ∉ g := by
  intro hmem
  simp only [isGroup, Bool.and_eq_true, List.all_eq_true] at h
  have hhex := h.2 colon hmem
  revert hhex
  decide

theorem group_ne_nil {g : JsString} (h : isGroup g = true) : g ≠ [] := by
  intro hnil
  rw [hnil] at h
  cases h

theorem lead_cons (x : JsString) (gs : List JsString) : lead (x :: gs) = x ++ colon :: lead gs := by
  simp [lead]

theorem lead_concat (gs : List JsString) (x : JsString) : lead (gs ++ [x]) = lead gs ++ (x ++ [colon]) := by
  simp [lead]

/-- Groups come apart at their colons. -/
theorem split_lead {gs : List JsString} {g : JsString} (hgs : ∀ x ∈ gs, colon ∉ x) (hg : colon ∉ g) :
    split colon (lead gs ++ g) = gs ++ [g] := by
  induction gs with
  | nil => exact split_of_notMem hg
  | cons x gs ih =>
    rw [lead_cons, List.append_assoc, List.cons_append, split_append, split_of_notMem (hgs x List.mem_cons_self),
      ih fun y hy => hgs y (List.mem_cons_of_mem _ hy)]
    rfl

/-- Every text is the pieces between its colons. -/
theorem exists_lead (text : JsString) : ∃ gs g, split colon text = gs ++ [g] ∧ text = lead gs ++ g := by
  by_cases h : colon ∈ text
  · obtain ⟨a, b, rfl, ha⟩ := List.eq_append_cons_of_mem h
    obtain ⟨gs, g, hsplit, hb⟩ := exists_lead b
    refine ⟨a :: gs, g, ?_, ?_⟩
    · rw [split_append, split_of_notMem ha, hsplit]
      rfl
    · rw [lead_cons, List.append_assoc, List.cons_append, ← hb]
  · exact ⟨[], text, split_of_notMem h, rfl⟩
termination_by text.length

theorem groupsOf_ne_nil {text : JsString} (h : text ≠ []) : groupsOf text = split colon text := if_neg h

theorem groups_of_groupsOf {text : JsString} (h : ∀ g ∈ groupsOf text, isGroup g = true) :
    Groups text ((groupsOf text).map hexValue) := by
  by_cases hnil : text = []
  · rw [hnil]
    exact .empty
  · rw [groupsOf_ne_nil hnil] at h ⊢
    obtain ⟨gs, g, hsplit, htext⟩ := exists_lead text
    rw [hsplit] at h ⊢
    rw [htext, List.map_append]
    exact .listed (fun x hx => h x (List.mem_append_left _ hx)) (h g (List.mem_append_right _ List.mem_cons_self))

theorem Groups.groupsOf {text : JsString} {ws : List Nat} (h : Groups text ws) :
    (∀ g ∈ groupsOf text, isGroup g = true) ∧ (Sag.groupsOf text).map hexValue = ws := by
  cases h with
  | empty => exact ⟨nofun, rfl⟩
  | @listed gs g hgs hg =>
    have hne : lead gs ++ g ≠ [] := fun hnil => group_ne_nil hg (List.append_eq_nil_iff.mp hnil).2
    rw [groupsOf_ne_nil hne,
      split_lead (fun x hx => colon_notMem_of_group (hgs x hx)) (colon_notMem_of_group hg), List.map_append]
    refine ⟨fun x hx => ?_, rfl⟩
    rcases List.mem_append.mp hx with hx | hx
    · exact hgs x hx
    · rw [List.mem_singleton.mp hx]
      exact hg

/-! ## The gap -/

theorem breakPair_eq : ∀ {s a b : JsString}, breakPair s = some (a, b) → s = a ++ colon :: colon :: b := by
  intro s
  induction s with
  | nil => exact nofun
  | cons u s ih =>
    intro a b h
    rw [breakPair] at h
    split at h
    · next hpair =>
      obtain ⟨rfl, rfl⟩ := Prod.mk.inj (Option.some.inj h)
      simp only [Bool.and_eq_true, decide_eq_true_eq] at hpair
      obtain ⟨hu, hs⟩ := hpair
      cases s with
      | nil => cases hs
      | cons v s =>
        rw [hu, Option.some.inj hs]
        rfl
    · obtain ⟨⟨a', b'⟩, hrest, heq⟩ := Option.map_eq_some_iff.mp h
      obtain ⟨rfl, rfl⟩ := Prod.mk.inj heq
      rw [ih hrest]
      rfl

/-- A gap does not begin in a piece without colons. -/
theorem breakPair_append {x : JsString} (hx : colon ∉ x) (s : JsString) :
    breakPair (x ++ s) = (breakPair s).map fun pair => (x ++ pair.1, pair.2) := by
  induction x with
  | nil => simp
  | cons u x ih =>
    have hu : u ≠ colon := fun heq => hx (heq ▸ List.mem_cons_self)
    rw [List.cons_append, breakPair, if_neg (by simp [hu]), ih fun hc => hx (List.mem_cons_of_mem _ hc), Option.map_map]
    rfl

theorem breakPair_colon {s : JsString} (hs : s.head? ≠ some colon) :
    breakPair (colon :: s) = (breakPair s).map fun pair => (colon :: pair.1, pair.2) := by
  rw [breakPair, if_neg (by simpa using hs)]

theorem head_lead {gs : List JsString} {g : JsString} (hgs : ∀ x ∈ gs, isGroup x = true) (hg : isGroup g = true)
    (s : JsString) : (lead gs ++ (g ++ s)).head? ≠ some colon := by
  have hhead : ∀ {x : JsString}, isGroup x = true → ∀ t : JsString, (x ++ t).head? ≠ some colon := by
    intro x hx t heq
    cases x with
    | nil => cases hx
    | cons u x => exact colon_notMem_of_group hx (Option.some.inj heq ▸ List.mem_cons_self)
  cases gs with
  | nil => exact hhead hg s
  | cons x gs =>
    rw [lead_cons, List.append_assoc]
    exact hhead (hgs x List.mem_cons_self) _

/-- The first gap after groups is the one behind them. -/
theorem breakPair_lead {gs : List JsString} {g : JsString} (hgs : ∀ x ∈ gs, isGroup x = true) (hg : isGroup g = true)
    (s : JsString) :
    breakPair (lead gs ++ (g ++ s)) = (breakPair s).map fun pair => (lead gs ++ (g ++ pair.1), pair.2) := by
  induction gs with
  | nil => exact breakPair_append (colon_notMem_of_group hg) s
  | cons x gs ih =>
    have hrest : ∀ y ∈ gs, isGroup y = true := fun y hy => hgs y (List.mem_cons_of_mem _ hy)
    rw [lead_cons, List.append_assoc, List.cons_append,
      breakPair_append (colon_notMem_of_group (hgs x List.mem_cons_self)), breakPair_colon (head_lead hrest hg s),
      ih hrest, Option.map_map, Option.map_map]
    cases breakPair s with
    | none => rfl
    | some pair => simp

theorem Groups.no_gap {text : JsString} {ws : List Nat} (h : Groups text ws) : breakPair text = none := by
  cases h with
  | empty => rfl
  | @listed gs g hgs hg =>
    have hlead := breakPair_lead hgs hg []
    rw [List.append_nil] at hlead
    rw [hlead]
    rfl

theorem Groups.gap {left : JsString} {ws : List Nat} (h : Groups left ws) (right : JsString) :
    breakPair (left ++ colon :: colon :: right) = some (left, right) := by
  have hbreak : breakPair (colon :: colon :: right) = some ([], right) := rfl
  cases h with
  | empty => exact hbreak
  | @listed gs g hgs hg =>
    rw [List.append_assoc, breakPair_lead hgs hg, hbreak, Option.map_some, List.append_nil]

/-- What is read of two rows of groups. -/
theorem hexParts_eq {text : JsString} {ws : List Nat} :
    hexParts text = some ws ↔
      ∃ left right, (breakPair text).getD (text, []) = (left, right) ∧
        ((breakPair text).any fun pair => (breakPair pair.2).isSome) = false ∧
        (∀ g ∈ groupsOf left, isGroup g = true) ∧ (∀ g ∈ groupsOf right, isGroup g = true) ∧
        (if (breakPair text).isSome = true then (groupsOf left).length + (groupsOf right).length < 8
          else (groupsOf left).length + (groupsOf right).length = 8) ∧
        (groupsOf left).map hexValue ++ List.replicate (8 - ((groupsOf left).length + (groupsOf right).length)) 0 ++
            (groupsOf right).map hexValue = ws := by
  have hzero : hexValue (js "0") = 0 := rfl
  obtain ⟨left, right, hparts⟩ : ∃ left right, (breakPair text).getD (text, []) = (left, right) := ⟨_, _, rfl⟩
  have hall : ∀ part : JsString, (groupsOf part).any (!isGroup ·) = false ↔ ∀ g ∈ groupsOf part, isGroup g = true := by
    intro part
    simp only [List.any_eq_false, Bool.not_eq_true', Bool.not_eq_false]
  have hmissing : (8 - (groupsOf left).length - (groupsOf right).length : Int).toNat =
      8 - ((groupsOf left).length + (groupsOf right).length) := by omega
  unfold hexParts
  rw [hparts]
  dsimp only
  rw [hmissing, List.map_append, List.map_append, List.map_replicate, hzero]
  constructor
  · intro h
    split at h
    · cases h
    · next hone =>
      split at h
      · cases h
      · next hgroups =>
        rw [Bool.not_eq_true, Bool.or_eq_false_iff, hall, hall] at hgroups
        split at h
        · cases h
        · next hcount =>
          refine ⟨left, right, rfl, Bool.eq_false_iff.mpr hone, hgroups.1, hgroups.2, ?_, Option.some.inj h⟩
          cases hpair : breakPair text with
          | none =>
            simp only [hpair, Option.isSome_none, Option.isNone_none, Bool.false_and, Bool.true_and, Bool.false_or,
              decide_eq_true_eq, Decidable.not_not] at hcount
            simp only [Option.isSome_none, Bool.false_eq_true, if_false]
            omega
          | some pair =>
            simp only [hpair, Option.isSome_some, Option.isNone_some, Bool.false_and, Bool.true_and, Bool.or_false,
              decide_eq_true_eq] at hcount
            simp only [Option.isSome_some, if_true]
            omega
  · intro h
    obtain ⟨left', right', heq, hone, hleft, hright, hcount, hws⟩ := h
    obtain ⟨rfl, rfl⟩ := Prod.mk.inj heq
    rw [if_neg (by rw [hone]; exact Bool.false_ne_true), if_neg, if_neg, hws]
    · cases hpair : breakPair text with
      | none =>
        simp only [hpair, Option.isSome_none, Bool.false_eq_true, if_false] at hcount
        simp only [Option.isSome_none, Option.isNone_none, Bool.false_and, Bool.true_and, Bool.false_or,
          decide_eq_true_eq]
        omega
      | some pair =>
        simp only [hpair, Option.isSome_some, if_true] at hcount
        simp only [Option.isSome_some, Option.isNone_some, Bool.false_and, Bool.true_and, Bool.or_false,
          decide_eq_true_eq]
        omega
    · rw [(hall left).mpr hleft, (hall right).mpr hright]
      exact Bool.false_ne_true

/-- The groups on either side of a gap are read as they are. -/
theorem hexParts_iff {text : JsString} {ws : List Nat} : hexParts text = some ws ↔ AddressText Groups text ws := by
  rw [hexParts_eq]
  constructor
  · intro h
    obtain ⟨left, right, hparts, hone, hleft, hright, hcount, rfl⟩ := h
    cases hpair : breakPair text with
    | none =>
      rw [hpair] at hparts
      obtain ⟨rfl, rfl⟩ := Prod.mk.inj hparts
      simp only [hpair, Option.isSome_none, Bool.false_eq_true, if_false] at hcount
      have height : (groupsOf text).length = 8 := hcount
      have hfull : (groupsOf text).map hexValue ++
          List.replicate (8 - ((groupsOf text).length + (groupsOf ([] : JsString)).length)) 0 ++
            (groupsOf ([] : JsString)).map hexValue = (groupsOf text).map hexValue := by
        rw [hcount]
        simp [groupsOf]
      rw [hfull]
      exact .full (groups_of_groupsOf hleft) (by rw [List.length_map, height])
    | some pair =>
      rw [hpair] at hparts
      obtain rfl : pair = (left, right) := hparts
      simp only [hpair, Option.isSome_some, if_true] at hcount
      rw [breakPair_eq hpair]
      have hgap := groups_of_groupsOf hleft
      have hafter := groups_of_groupsOf hright
      have hbody := AddressText.compressed hgap hafter (by rw [List.length_map, List.length_map]; exact hcount)
      rw [List.length_map, List.length_map] at hbody
      exact hbody
  · intro h
    cases h with
    | full hgroups height =>
      obtain ⟨hall, hvalues⟩ := hgroups.groupsOf
      have hlength : (groupsOf text).length = 8 := by
        rw [← hvalues, List.length_map] at height
        exact height
      refine ⟨text, [], by rw [hgroups.no_gap]; rfl, by rw [hgroups.no_gap]; rfl, hall, nofun, ?_, ?_⟩
      · rw [hgroups.no_gap]
        exact hlength
      · rw [hvalues, hlength]
        simp [groupsOf]
    | @compressed left right a b hleft hright hgap =>
      obtain ⟨hall, hvalues⟩ := hleft.groupsOf
      obtain ⟨hall', hvalues'⟩ := hright.groupsOf
      have hlength : (groupsOf left).length = a.length := by rw [← hvalues, List.length_map]
      have hlength' : (groupsOf right).length = b.length := by rw [← hvalues', List.length_map]
      refine ⟨left, right, by rw [hleft.gap]; rfl, ?_, hall, hall', ?_, ?_⟩
      · rw [hleft.gap, Option.any_some, hright.no_gap]
        rfl
      · rw [hleft.gap, hlength, hlength']
        exact hgap
      · rw [hvalues, hvalues', hlength, hlength']

/-! ## Dotted quads -/

theorem digit_ne_dot {part : JsString} (h : part.all isDigit = true) : dot ∉ part := by
  intro hmem
  have hdigit := List.all_eq_true.mp h dot hmem
  revert hdigit
  decide

theorem isOctet_digits {part : JsString} (h : isOctet part = true) :
    part ≠ [] ∧ part.all isDigit = true ∧ decimalValue part ≤ 255 := by
  simp only [isOctet, Bool.and_eq_true, decide_eq_true_eq] at h
  refine ⟨fun hnil => ?_, h.1.2, h.2⟩
  rw [hnil] at h
  exact absurd h.1.1.1 (by decide)

theorem split_quad {a b c d : JsString} (ha : dot ∉ a) (hb : dot ∉ b) (hc : dot ∉ c) (hd : dot ∉ d) :
    split dot (a ++ dot :: (b ++ dot :: (c ++ dot :: d))) = [a, b, c, d] := by
  rw [split_append, split_append, split_append, split_of_notMem ha, split_of_notMem hb, split_of_notMem hc,
    split_of_notMem hd]
  rfl

/-- A text with three dots is the four pieces between them. -/
theorem quad_of_split {text a b c d : JsString} (h : split dot text = [a, b, c, d]) :
    text = a ++ dot :: (b ++ dot :: (c ++ dot :: d)) := by
  have hfirst : ∀ {text x : JsString} {rest : List JsString}, split dot text = x :: rest → rest ≠ [] →
      ∃ tail, text = x ++ dot :: tail ∧ split dot tail = rest := by
    intro text x rest hsplit hrest
    by_cases hmem : dot ∈ text
    · obtain ⟨y, tail, rfl, hy⟩ := List.eq_append_cons_of_mem hmem
      rw [split_append, split_of_notMem hy] at hsplit
      obtain ⟨rfl, heq⟩ := List.cons.inj hsplit
      exact ⟨tail, rfl, heq⟩
    · rw [split_of_notMem hmem] at hsplit
      exact absurd (List.cons.inj hsplit).2.symm hrest
  have hlast : ∀ {text x : JsString}, split dot text = [x] → text = x := by
    intro text x hsplit
    by_cases hmem : dot ∈ text
    · have hlength := congrArg List.length hsplit
      rw [length_split] at hlength
      have hpos := List.count_pos_iff.mpr hmem
      simp only [List.length_cons, List.length_nil] at hlength
      omega
    · rw [split_of_notMem hmem] at hsplit
      exact (List.cons.inj hsplit).1
  obtain ⟨t₁, rfl, h₁⟩ := hfirst h nofun
  obtain ⟨t₂, rfl, h₂⟩ := hfirst h₁ nofun
  obtain ⟨t₃, rfl, h₃⟩ := hfirst h₂ nofun
  rw [hlast h₃]

theorem ipv4Number_iff {text : JsString} {n : Nat} : ipv4Number text = some n ↔ DottedQuad text n := by
  unfold ipv4Number
  dsimp only
  constructor
  · intro h
    split at h
    · next hparts =>
      simp only [Bool.and_eq_true, decide_eq_true_eq] at hparts
      obtain ⟨hfour, hoctets⟩ := hparts
      match hsplit : split dot text, hfour with
      | [a, b, c, d], _ =>
        rw [hsplit] at h hoctets
        obtain rfl := Option.some.inj h
        rw [quad_of_split hsplit]
        have hnumber := DottedQuad.mk (List.all_eq_true.mp hoctets)
        simpa using hnumber
    · cases h
  · intro h
    cases h with
    | @mk a b c d hoctets =>
      have hplain : ∀ x ∈ [a, b, c, d], dot ∉ x := fun x hx => digit_ne_dot (isOctet_digits (hoctets x hx)).2.1
      rw [split_quad (hplain a (by simp)) (hplain b (by simp)) (hplain c (by simp)) (hplain d (by simp)), if_pos]
      · simp
      · rw [List.all_eq_true.mpr hoctets]
        rfl

theorem DottedQuad.isQuad {text : JsString} {n : Nat} (h : DottedQuad text n) : isQuad text = true := by
  cases h with
  | @mk a b c d hoctets =>
    have hplain : ∀ x ∈ [a, b, c, d], dot ∉ x := fun x hx => digit_ne_dot (isOctet_digits (hoctets x hx)).2.1
    unfold Sag.isQuad
    rw [split_quad (hplain a (by simp)) (hplain b (by simp)) (hplain c (by simp)) (hplain d (by simp))]
    refine List.all_eq_true.mpr fun x hx => ?_
    have hdigits := isOctet_digits (hoctets x hx)
    rw [Bool.and_eq_true, decide_eq_true_eq]
    exact ⟨hdigits.1, hdigits.2.1⟩

/-- A quad has a number of 32 bits. -/
theorem DottedQuad.lt {text : JsString} {n : Nat} (h : DottedQuad text n) : n < 2 ^ 32 := by
  cases h with
  | @mk a b c d hoctets =>
    have ha := (isOctet_digits (hoctets a (by simp))).2.2
    have hb := (isOctet_digits (hoctets b (by simp))).2.2
    have hc := (isOctet_digits (hoctets c (by simp))).2.2
    have hd := (isOctet_digits (hoctets d (by simp))).2.2
    omega

/-- Without a dot there is no quad. -/
theorem not_isQuad {text : JsString} (h : dot ∉ text) : isQuad text = false := by
  unfold isQuad
  rw [split_of_notMem h]

theorem dot_notMem_of_group {g : JsString} (h : isGroup g = true) : dot ∉ g := by
  intro hmem
  simp only [isGroup, Bool.and_eq_true, List.all_eq_true] at h
  have hhex := h.2 dot hmem
  revert hhex
  decide

/-- The two groups that a quad is replaced by. -/
theorem hexText_word {w : Nat} (h : w < 65536) : isGroup (hexText w) = true ∧ hexValue (hexText w) = w := by
  have hdigit : ∀ d : Fin 16, isLowerHex (UInt16.ofNat (Nat.digitChar d).toNat) = true ∧
      hexDigitValue (UInt16.ofNat (Nat.digitChar d).toNat) = d := by decide
  have hlast : ∀ {n : Nat}, isLowerHex (UInt16.ofNat (Nat.digitChar (n % 16)).toNat) = true ∧
      hexDigitValue (UInt16.ofNat (Nat.digitChar (n % 16)).toNat) = n % 16 :=
    fun {n} => hdigit ⟨n % 16, Nat.mod_lt _ (by omega)⟩
  -- one digit more than the quotient
  have hnext : ∀ {n : Nat}, 16 ≤ n → hexText n = hexText (n / 16) ++ [UInt16.ofNat (Nat.digitChar (n % 16)).toNat] := by
    intro n hn
    rw [hexText, Nat.toDigits_of_base_le (by omega) hn, List.map_append]
    rfl
  have hgrow : ∀ {k n : Nat}, n < 16 ^ (k + 1) → (hexText n).length ≤ k + 1 ∧ 1 ≤ (hexText n).length ∧
      (hexText n).all isLowerHex = true ∧ hexValue (hexText n) = n := by
    intro k
    induction k with
    | zero =>
      intro n hn
      have hd := hdigit ⟨n, by omega⟩
      rw [hexText, Nat.toDigits_of_lt_base (by omega)]
      refine ⟨Nat.le_refl _, Nat.le_refl _, ?_, ?_⟩
      · show (isLowerHex _ && true) = true
        rw [Bool.and_true]
        exact hd.1
      · show 0 * 16 + hexDigitValue _ = n
        rw [Nat.zero_mul, Nat.zero_add]
        exact hd.2
    | succ k ih =>
      intro n hn
      by_cases hsmall : n < 16
      · obtain ⟨hlength, hrest⟩ := ih (n := n) (by
          have hpow : 16 ≤ 16 ^ (k + 1) := Nat.le_self_pow (by omega) 16
          omega)
        exact ⟨by omega, hrest⟩
      · have hquot : n / 16 < 16 ^ (k + 1) := by
          rw [Nat.pow_succ] at hn
          exact Nat.div_lt_of_lt_mul (by rw [Nat.mul_comm]; exact hn)
        obtain ⟨hlength, hpos, hall, hvalue⟩ := ih hquot
        rw [hnext (by omega)]
        refine ⟨by simpa using hlength, by simp, ?_, ?_⟩
        · rw [List.all_append, hall]
          show (true && (isLowerHex _ && true)) = true
          rw [Bool.true_and, Bool.and_true]
          exact hlast.1
        · unfold hexValue at hvalue ⊢
          rw [List.foldl_append, hvalue]
          show n / 16 * 16 + hexDigitValue _ = n
          rw [hlast.2]
          omega
  obtain ⟨hlength, hpos, hall, hvalue⟩ := hgrow (k := 3) (n := w) (by omega)
  refine ⟨?_, hvalue⟩
  simp only [isGroup, Bool.and_eq_true, decide_eq_true_eq]
  exact ⟨⟨hpos, by omega⟩, hall⟩

/-! ## The last piece -/

/-- What can stand before a piece: nothing, or something with a colon after it. -/
def BeforePiece (before : JsString) : Prop := before = [] ∨ ∃ start, before = start ++ [colon]

theorem beforePiece_lead (gs : List JsString) : BeforePiece (lead gs) := by
  rcases List.eq_nil_or_concat gs with rfl | ⟨gs, x, rfl⟩
  · exact Or.inl rfl
  · refine Or.inr ⟨lead gs ++ x, ?_⟩
    rw [List.concat_eq_append, lead_concat, List.append_assoc]

theorem beforePiece_append {before : JsString} (h : BeforePiece before) (start : JsString) :
    BeforePiece (start ++ [colon] ++ before) := by
  rcases h with rfl | ⟨start', rfl⟩
  · exact Or.inr ⟨start, by simp⟩
  · exact Or.inr ⟨start ++ [colon] ++ start', by simp⟩

theorem lastPiece_append {before last : JsString} (h : BeforePiece before) (hlast : colon ∉ last) :
    lastPiece (before ++ last) = (before, last) := by
  unfold lastPiece
  rcases h with rfl | ⟨start, rfl⟩
  · cases hbreak : breakLast colon ([] ++ last) with
    | none => rfl
    | some p =>
      obtain ⟨heq, -⟩ := breakLast_eq hbreak
      rw [List.nil_append] at heq
      exact absurd (by rw [heq]; simp) hlast
  · rw [List.append_assoc, List.singleton_append, breakLast_append hlast]

/-- A text ends in one piece. -/
theorem piece_unique {a b x y : JsString} (ha : BeforePiece a) (hb : BeforePiece b) (hx : colon ∉ x) (hy : colon ∉ y)
    (h : a ++ x = b ++ y) : a = b ∧ x = y := by
  have hleft := lastPiece_append ha hx
  rw [h, lastPiece_append hb hy] at hleft
  exact ⟨(Prod.mk.inj hleft).1.symm, (Prod.mk.inj hleft).2.symm⟩

theorem lastPiece_eq {text before last : JsString} (h : lastPiece text = (before, last)) :
    text = before ++ last ∧ BeforePiece before ∧ colon ∉ last := by
  unfold lastPiece at h
  split at h
  · next a b hbreak =>
    obtain ⟨rfl, rfl⟩ := Prod.mk.inj h
    obtain ⟨heq, hmem⟩ := breakLast_eq hbreak
    exact ⟨by rw [heq]; simp, Or.inr ⟨a, rfl⟩, hmem⟩
  · next hbreak =>
    obtain ⟨rfl, rfl⟩ := Prod.mk.inj h
    exact ⟨rfl, Or.inl rfl, not_mem_of_breakLast hbreak⟩

/-! ## The quad and its groups -/

theorem expandQuad_append {before last : JsString} (h : BeforePiece before) (hlast : colon ∉ last) :
    expandQuad (before ++ last) =
      if isQuad last then
        (ipv4Number last).map fun number =>
          before ++ hexText (number >>> 16 &&& 0xffff) ++ [colon] ++ hexText (number &&& 0xffff)
      else some (before ++ last) := by
  unfold expandQuad
  rw [lastPiece_append h hlast]

/-- The two words of a quad. -/
theorem quad_words {n : Nat} (h : n < 2 ^ 32) :
    n >>> 16 &&& 0xffff = n / 65536 ∧ n &&& 0xffff = n % 65536 ∧ n / 65536 < 65536 := by
  have hmask : ∀ m : Nat, m &&& 0xffff = m % 65536 := fun m => Nat.and_two_pow_sub_one_eq_mod m 16
  have hshift : n >>> 16 = n / 65536 := Nat.shiftRight_eq_div_pow n 16
  rw [hmask, hmask, hshift]
  omega

theorem colon_notMem_of_quad {text : JsString} {n : Nat} (h : DottedQuad text n) : colon ∉ text := by
  cases h with
  | @mk a b c d hoctets =>
    have hplain : ∀ x ∈ [a, b, c, d], colon ∉ x := by
      intro x hx hmem
      have hdigit := List.all_eq_true.mp (isOctet_digits (hoctets x hx)).2.1 colon hmem
      revert hdigit
      decide
    have hdot : colon ≠ dot := by decide
    simp only [List.mem_append, List.mem_cons, not_or]
    exact ⟨hplain a (by simp), hdot, hplain b (by simp), hdot, hplain c (by simp), hdot, hplain d (by simp)⟩

/-- The quad at the end becomes two groups, and groups stay as they are. -/
theorem Tail.expand {text : JsString} {ws : List Nat} (h : Tail text ws) {before : JsString}
    (hbefore : BeforePiece before) :
    ∃ groups, expandQuad (before ++ text) = some (before ++ groups) ∧ Groups groups ws := by
  have hlead : ∀ gs : List JsString, BeforePiece (before ++ lead gs) := by
    intro gs
    rcases hbefore with rfl | ⟨start, rfl⟩
    · exact beforePiece_lead gs
    · exact beforePiece_append (beforePiece_lead gs) start
  cases h with
  | groups hgroups =>
    refine ⟨text, ?_, hgroups⟩
    cases hgroups with
    | empty => rw [expandQuad_append hbefore List.not_mem_nil, if_neg (by decide)]
    | @listed gs g _ hg =>
      rw [← List.append_assoc, expandQuad_append (hlead gs) (colon_notMem_of_group hg),
        not_isQuad (dot_notMem_of_group hg), if_neg Bool.false_ne_true]
  | @quad gs quad n hgs hquad =>
    obtain ⟨hhigh, hlow, hword⟩ := quad_words hquad.lt
    obtain ⟨hgroup, hvalue⟩ := hexText_word hword
    obtain ⟨hgroup', hvalue'⟩ := hexText_word (w := n % 65536) (Nat.mod_lt _ (by omega))
    refine ⟨lead (gs ++ [hexText (n / 65536)]) ++ hexText (n % 65536), ?_, ?_⟩
    · rw [← List.append_assoc, expandQuad_append (hlead gs) (colon_notMem_of_quad hquad), hquad.isQuad, if_pos rfl,
        ipv4Number_iff.mpr hquad, Option.map_some, hhigh, hlow, lead_concat]
      simp only [List.append_assoc]
    · have hlisted : Groups (lead (gs ++ [hexText (n / 65536)]) ++ hexText (n % 65536))
          ((gs ++ [hexText (n / 65536)]).map hexValue ++ [hexValue (hexText (n % 65536))]) := by
        refine .listed (fun x hx => ?_) hgroup'
        rcases List.mem_append.mp hx with hx | hx
        · exact hgs x hx
        · rw [List.mem_singleton.mp hx]
          exact hgroup
      rw [List.map_append, List.map_singleton, hvalue, hvalue', List.append_assoc] at hlisted
      exact hlisted

/-- Two groups at the end of others, taken off again. -/
theorem lead_unique {gs : List JsString} {g before high low : JsString} (hgs : ∀ x ∈ gs, isGroup x = true)
    (hg : isGroup g = true) {start : JsString} (hstart : BeforePiece start) (hbefore : BeforePiece before)
    (hhigh : isGroup high = true) (hlow : isGroup low = true)
    (h : start ++ (lead gs ++ g) = before ++ high ++ [colon] ++ low) :
    (gs = [] ∧ start = before ++ high ++ [colon]) ∨
      ∃ gs', gs = gs' ++ [high] ∧ start ++ lead gs' = before := by
  have hlead : ∀ gs : List JsString, BeforePiece (start ++ lead gs) := by
    intro gs
    rcases hstart with rfl | ⟨s, rfl⟩
    · exact beforePiece_lead gs
    · exact beforePiece_append (beforePiece_lead gs) s
  rw [← List.append_assoc] at h
  obtain ⟨hfirst, -⟩ := piece_unique (hlead gs) (Or.inr ⟨_, rfl⟩) (colon_notMem_of_group hg)
    (colon_notMem_of_group hlow) h
  rcases List.eq_nil_or_concat gs with rfl | ⟨gs', x, rfl⟩
  · left
    rw [← hfirst]
    exact ⟨rfl, by simp [lead]⟩
  · right
    rw [List.concat_eq_append] at hfirst hgs ⊢
    rw [lead_concat, ← List.append_assoc, ← List.append_assoc] at hfirst
    have hrest := List.append_cancel_right hfirst
    obtain ⟨heq, hx⟩ := piece_unique (hlead gs') hbefore
      (colon_notMem_of_group (hgs x (List.mem_append_right _ List.mem_cons_self))) (colon_notMem_of_group hhigh) hrest
    exact ⟨gs', by rw [hx], heq⟩

/-- What is left of groups when two are taken off is a quad's place. -/
theorem Groups.contract {text last : JsString} {ws : List Nat} {n : Nat} (h : Groups text ws)
    (hquad : DottedQuad last n)
    {start before : JsString} (hstart : start = [] ∨ ∃ left, start = left ++ [colon, colon])
    (hbefore : BeforePiece before)
    (heq : start ++ text = before ++ hexText (n / 65536) ++ [colon] ++ hexText (n % 65536)) :
    ∃ text', Tail text' ws ∧ before ++ last = start ++ text' := by
  obtain ⟨-, -, hword⟩ := quad_words hquad.lt
  obtain ⟨hgroup, hvalue⟩ := hexText_word hword
  obtain ⟨hgroup', hvalue'⟩ := hexText_word (w := n % 65536) (Nat.mod_lt _ (by omega))
  have hpiece : BeforePiece start := by
    rcases hstart with rfl | ⟨left, rfl⟩
    · exact Or.inl rfl
    · exact Or.inr ⟨left ++ [colon], by simp⟩
  cases h with
  | empty =>
    -- a text that ends in a group does not end in a colon
    rw [List.append_nil] at heq
    have hnone := (piece_unique hpiece (b := before ++ hexText (n / 65536) ++ [colon]) (Or.inr ⟨_, rfl⟩)
      List.not_mem_nil (colon_notMem_of_group hgroup') (by rw [List.append_nil]; exact heq)).2
    exact absurd hnone.symm (group_ne_nil hgroup')
  | @listed gs g hgs hg =>
    have hlow : g = hexText (n % 65536) := by
      have hlead : BeforePiece (start ++ lead gs) := by
        rcases hpiece with rfl | ⟨s, rfl⟩
        · exact beforePiece_lead gs
        · exact beforePiece_append (beforePiece_lead gs) s
      rw [← List.append_assoc] at heq
      exact (piece_unique hlead (Or.inr ⟨_, rfl⟩) (colon_notMem_of_group hg) (colon_notMem_of_group hgroup') heq).2
    rcases lead_unique hgs hg hpiece hbefore hgroup hgroup' heq with ⟨rfl, hgap⟩ | ⟨gs', rfl, hbefore'⟩
    · exfalso
      rcases hstart with rfl | ⟨left, rfl⟩
      · exact absurd hgap.symm (by simp)
      · -- nothing stands between the two colons of a gap
        have hpair : left ++ [colon] ++ [colon] = before ++ hexText (n / 65536) ++ [colon] := by
          rw [← hgap]
          simp
        have hcut := List.append_cancel_right hpair
        have hnone := (piece_unique (Or.inr ⟨left, rfl⟩) hbefore List.not_mem_nil (colon_notMem_of_group hgroup)
          (by rw [List.append_nil]; exact hcut)).2
        exact group_ne_nil hgroup hnone.symm
    · refine ⟨lead gs' ++ last, ?_, by rw [← hbefore', List.append_assoc]⟩
      have htail := Tail.quad (fun x hx => hgs x (List.mem_append_left _ hx)) hquad
      rw [List.map_append, List.map_singleton, hvalue, hlow, hvalue', List.append_assoc]
      exact htail

/-- What is read, once the quad is replaced, is the grammar. -/
theorem bodyParts_iff {text : JsString} {ws : List Nat} :
    (expandQuad text).bind hexParts = some ws ↔ AddressText Tail text ws := by
  constructor
  · intro h
    obtain ⟨text', hexpand, hparts⟩ := Option.bind_eq_some_iff.mp h
    have hbody := hexParts_iff.mp hparts
    obtain ⟨before, last, hpieces⟩ : ∃ before last, lastPiece text = (before, last) := ⟨_, _, rfl⟩
    obtain ⟨rfl, hbefore, hlast⟩ := lastPiece_eq hpieces
    rw [expandQuad_append hbefore hlast] at hexpand
    split at hexpand
    · obtain ⟨n, hn, rfl⟩ := Option.map_eq_some_iff.mp hexpand
      have hquad := ipv4Number_iff.mp hn
      obtain ⟨hhigh, hlow, -⟩ := quad_words hquad.lt
      rw [hhigh, hlow] at hbody
      generalize htext : before ++ hexText (n / 65536) ++ [colon] ++ hexText (n % 65536) = text' at hbody
      cases hbody with
      | full hgroups height =>
        obtain ⟨text'', htail, heq⟩ := hgroups.contract hquad (Or.inl rfl) hbefore htext.symm
        rw [heq]
        exact .full htail height
      | @compressed left right a b hleft hright hgap =>
        have hsame : left ++ [colon, colon] ++ right =
            before ++ hexText (n / 65536) ++ [colon] ++ hexText (n % 65536) := by
          rw [htext]
          simp
        obtain ⟨right', htail, heq⟩ := hright.contract hquad (Or.inr ⟨left, rfl⟩) hbefore hsame
        rw [heq, List.append_assoc]
        exact .compressed hleft htail hgap
    · rw [← Option.some.inj hexpand] at hbody
      generalize before ++ last = text at hbody ⊢
      cases hbody with
      | full hgroups height => exact .full (.groups hgroups) height
      | compressed hleft hright hgap => exact .compressed hleft (.groups hright) hgap
  · intro h
    cases h with
    | full htail height =>
      obtain ⟨groups, hexpand, hgroups⟩ := htail.expand (Or.inl rfl)
      exact Option.bind_eq_some_iff.mpr ⟨groups, hexpand, hexParts_iff.mpr (.full hgroups height)⟩
    | @compressed left right a b hleft hright hgap =>
      have hpiece : BeforePiece (left ++ [colon, colon]) := Or.inr ⟨left ++ [colon], by simp⟩
      obtain ⟨groups, hexpand, hgroups⟩ := hright.expand hpiece
      rw [List.append_assoc, List.append_assoc] at hexpand
      exact Option.bind_eq_some_iff.mpr ⟨_, hexpand, hexParts_iff.mpr (.compressed hleft hgroups hgap)⟩

/-! ## Case, brackets and zones -/

/-- A zone suffix, or none. -/
def IsZone (zone : JsString) : Prop := zone = [] ∨ ∃ z, zone = percent :: z

/-- A spelling of the address with these words. -/
def Spells (value : JsString) (ws : List Nat) : Prop :=
  ∃ body zone, AddressText Tail (body.map lowerUnit) ws ∧ IsZone zone ∧
    (value = body ++ zone ∨ value = openBracket :: (body ++ zone ++ [closeBracket]))

/-- What an address is written with. -/
def isAddressUnit (u : CodeUnit) : Bool := isLowerHex u || u = colon || u = dot

theorem Groups.units {text : JsString} {ws : List Nat} (h : Groups text ws) : ∀ u ∈ text, isAddressUnit u = true := by
  have hgroup : ∀ {g : JsString}, isGroup g = true → ∀ u ∈ g, isAddressUnit u = true := by
    intro g hg u hu
    simp only [isGroup, Bool.and_eq_true, List.all_eq_true] at hg
    rw [isAddressUnit, hg.2 u hu]
    rfl
  cases h with
  | empty => exact nofun
  | @listed gs g hgs hg =>
    intro u hu
    rcases List.mem_append.mp hu with hu | hu
    · obtain ⟨x, hx, hux⟩ := List.mem_flatMap.mp hu
      rcases List.mem_append.mp hux with hux | hux
      · exact hgroup (hgs x hx) u hux
      · rw [List.mem_singleton.mp hux]
        decide
    · exact hgroup hg u hu

theorem Tail.units {text : JsString} {ws : List Nat} (h : Tail text ws) : ∀ u ∈ text, isAddressUnit u = true := by
  cases h with
  | groups hgroups => exact hgroups.units
  | @quad gs quad n hgs hquad =>
    have hdigit : ∀ {part : JsString}, isOctet part = true → ∀ u ∈ part, isAddressUnit u = true := by
      intro part hpart u hu
      have hd := List.all_eq_true.mp (isOctet_digits hpart).2.1 u hu
      rw [isAddressUnit, isLowerHex, hd]
      rfl
    intro u hu
    rcases List.mem_append.mp hu with hu | hu
    · by_cases hnone : gs = []
      · rw [hnone] at hu
        cases hu
      · -- the groups before the quad are those of a text of their own
        obtain ⟨x, hx, hux⟩ := List.mem_flatMap.mp hu
        have hone : Groups (lead [x] ++ x) ([x].map hexValue ++ [hexValue x]) :=
          .listed (fun y hy => List.mem_singleton.mp hy ▸ hgs x hx) (hgs x hx)
        refine hone.units u (List.mem_append_left _ ?_)
        simpa [lead] using hux
    · cases hquad with
      | @mk a b c d hoctets =>
        simp only [List.mem_append, List.mem_cons] at hu
        have hdot : isAddressUnit dot = true := by decide
        rcases hu with hu | rfl | hu | rfl | hu | rfl | hu
        · exact hdigit (hoctets a (by simp)) u hu
        · exact hdot
        · exact hdigit (hoctets b (by simp)) u hu
        · exact hdot
        · exact hdigit (hoctets c (by simp)) u hu
        · exact hdot
        · exact hdigit (hoctets d (by simp)) u hu

theorem AddressText.units {text : JsString} {ws : List Nat} (h : AddressText Tail text ws) :
    ∀ u ∈ text, isAddressUnit u = true := by
  cases h with
  | full htail _ => exact htail.units
  | compressed hleft hright _ =>
    intro u hu
    simp only [List.mem_append, List.mem_cons] at hu
    have hcolon : isAddressUnit colon = true := by decide
    rcases hu with hu | rfl | rfl | hu
    · exact hleft.units u hu
    · exact hcolon
    · exact hcolon
    · exact hright.units u hu

/-- An address has at least one colon, and its words. -/
theorem AddressText.colon_mem {text : JsString} {ws : List Nat} (h : AddressText Tail text ws) : colon ∈ text := by
  have hlead : ∀ {gs : List JsString} {x : JsString}, gs ≠ [] → colon ∈ lead gs ++ x := by
    intro gs x hgs
    cases gs with
    | nil => exact absurd rfl hgs
    | cons y gs =>
      rw [lead_cons]
      simp
  cases h with
  | full htail height =>
    cases htail with
    | groups hgroups =>
      cases hgroups with
      | empty => cases height
      | @listed gs g _ _ =>
        refine hlead fun hnil => ?_
        rw [hnil] at height
        cases height
    | @quad gs quad n _ _ =>
      refine hlead fun hnil => ?_
      rw [hnil] at height
      cases height
  | compressed => simp

theorem AddressText.length {text : JsString} {ws : List Nat} (h : AddressText Tail text ws) : ws.length = 8 := by
  cases h with
  | full _ height => exact height
  | compressed _ _ hgap =>
    simp only [List.length_append, List.length_replicate]
    omega

/-- A group is a word of 16 bits. -/
theorem hexValue_lt {g : JsString} (h : isGroup g = true) : hexValue g < 65536 := by
  have hdigit : ∀ {u : CodeUnit}, isLowerHex u = true → hexDigitValue u < 16 := by
    intro u hu
    simp only [isLowerHex, isDigit, Bool.or_eq_true, Bool.and_eq_true, decide_eq_true_eq,
      UInt16.le_iff_toNat_le] at hu
    unfold hexDigitValue
    rcases hu with ⟨hlow, hhigh⟩ | ⟨hlow, hhigh⟩
    · have hlow : 48 ≤ u.toNat := hlow
      have hhigh : u.toNat ≤ 57 := hhigh
      rw [if_pos (by simp [isDigit, UInt16.le_iff_toNat_le]; omega)]
      omega
    · have hlow : 97 ≤ u.toNat := hlow
      have hhigh : u.toNat ≤ 102 := hhigh
      rw [if_neg (by simp [isDigit, UInt16.le_iff_toNat_le]; omega)]
      omega
  have hfold : ∀ (g : JsString) (n : Nat), (∀ u ∈ g, isLowerHex u = true) →
      g.foldl (fun n u => n * 16 + hexDigitValue u) n < (n + 1) * 16 ^ g.length := by
    intro g
    induction g with
    | nil =>
      intro n _
      simp
    | cons u g ih =>
      intro n hall
      have hu := hdigit (hall u List.mem_cons_self)
      have hrest := ih (n * 16 + hexDigitValue u) fun v hv => hall v (List.mem_cons_of_mem _ hv)
      refine Nat.lt_of_lt_of_le hrest ?_
      rw [List.length_cons, Nat.pow_succ, Nat.mul_comm (16 ^ g.length), ← Nat.mul_assoc]
      exact Nat.mul_le_mul_right _ (by omega)
  simp only [isGroup, Bool.and_eq_true, decide_eq_true_eq, List.all_eq_true] at h
  have hlt := hfold g 0 h.2
  have hpow : 16 ^ g.length ≤ 16 ^ 4 := Nat.pow_le_pow_right (by omega) h.1.2
  unfold hexValue
  omega

theorem Groups.words {text : JsString} {ws : List Nat} (h : Groups text ws) : ∀ w ∈ ws, w < 65536 := by
  cases h with
  | empty => exact nofun
  | @listed gs g hgs hg =>
    intro w hw
    rcases List.mem_append.mp hw with hw | hw
    · obtain ⟨x, hx, rfl⟩ := List.mem_map.mp hw
      exact hexValue_lt (hgs x hx)
    · rw [List.mem_singleton.mp hw]
      exact hexValue_lt hg

theorem Tail.words {text : JsString} {ws : List Nat} (h : Tail text ws) : ∀ w ∈ ws, w < 65536 := by
  cases h with
  | groups hgroups => exact hgroups.words
  | @quad gs quad n hgs hquad =>
    intro w hw
    have hn := hquad.lt
    rcases List.mem_append.mp hw with hw | hw
    · obtain ⟨x, hx, rfl⟩ := List.mem_map.mp hw
      exact hexValue_lt (hgs x hx)
    · simp only [List.mem_cons, List.not_mem_nil, or_false] at hw
      rcases hw with rfl | rfl <;> omega

theorem AddressText.words {text : JsString} {ws : List Nat} (h : AddressText Tail text ws) : ∀ w ∈ ws, w < 65536 := by
  cases h with
  | full htail _ => exact htail.words
  | compressed hleft hright _ =>
    intro w hw
    simp only [List.mem_append, List.mem_replicate] at hw
    rcases hw with (hw | ⟨-, rfl⟩) | hw
    · exact hleft.words w hw
    · omega
    · exact hright.words w hw

theorem plain_of_unit {u : CodeUnit} (h : isAddressUnit u = true) :
    CaseTables.Plain u ∧ u ≠ percent ∧ u ≠ openBracket := by
  have hall : ∀ v : Fin 128, isAddressUnit (UInt16.ofNat v) = true →
      UInt16.ofNat v ≠ 105 ∧ UInt16.ofNat v ≠ 107 ∧ UInt16.ofNat v ≠ percent ∧ UInt16.ofNat v ≠ openBracket := by
    decide +kernel
  have hlt : u.toNat < 128 := by
    simp only [isAddressUnit, isLowerHex, isDigit, Bool.or_eq_true, Bool.and_eq_true, decide_eq_true_eq,
      UInt16.le_iff_toNat_le] at h
    rcases h with ((⟨-, h⟩ | ⟨-, h⟩) | h) | h
    · have h : u.toNat ≤ 57 := h
      omega
    · have h : u.toNat ≤ 102 := h
      omega
    · rw [h]
      decide
    · rw [h]
      decide
  have hunit := hall ⟨u.toNat, hlt⟩
  rw [UInt16.ofNat_toNat] at hunit
  obtain ⟨hi, hk, hzone, hopen⟩ := hunit h
  exact ⟨⟨hlt, hi, hk⟩, hzone, hopen⟩

/-- The lower case of a unit is ASCII only where the unit is. -/
theorem ascii_of_lowerUnit {u : CodeUnit} (h : lowerUnit u < 128) : u < 128 := by
  by_cases hup : isUpper u = true
  · obtain ⟨-, hhigh⟩ := isUpper_iff.mp hup
    show u.toNat < 128
    omega
  · rw [lowerUnit, if_neg hup] at h
    exact h

/-- Signs are in no case. -/
theorem lowerUnit_sign {u : CodeUnit} (hlow : lowerUnit u = u) (hsign : u.toNat < 97 ∨ 122 < u.toNat) (v : CodeUnit) :
    lowerUnit v = u ↔ v = u := by
  constructor
  · intro h
    by_cases hup : isUpper v = true
    · obtain ⟨hl, hh⟩ := isUpper_iff.mp hup
      have hnat := congrArg UInt16.toNat h
      rw [lowerUnit_toNat, asciiLower, if_pos ⟨hl, hh⟩] at hnat
      omega
    · rw [lowerUnit, if_neg hup] at h
      exact h
  · intro h
    rw [h]
    exact hlow

variable {rt : Runtime}

theorem ipv6Parts_eq {value : JsString} {ws : List Nat} :
    ipv6Parts rt value = some ws ↔
      AddressText Tail ((unbracket (rt.cases.toLowerCase value)).takeWhile (· ≠ percent)) ws := bodyParts_iff

theorem unbracket_of {text : JsString} : unbracket (openBracket :: (text ++ [closeBracket])) = text := by
  have hlast : (openBracket :: (text ++ [closeBracket])).getLast? = some closeBracket := by
    rw [← List.cons_append, List.getLast?_concat]
  rw [unbracket, hlast]
  simp

/-- A text is in brackets, or it is left as it is. -/
theorem unbracket_cases (text : JsString) :
    text = openBracket :: (unbracket text ++ [closeBracket]) ∨ unbracket text = text := by
  unfold unbracket
  split
  · next h =>
    simp only [Bool.and_eq_true, decide_eq_true_eq] at h
    obtain ⟨hhead, hlast⟩ := h
    left
    cases text with
    | nil => cases hhead
    | cons u text =>
      rw [Option.some.inj hhead] at hlast ⊢
      rcases List.eq_nil_or_concat text with rfl | ⟨inner, v, rfl⟩
      · revert hlast
        decide
      · rw [List.concat_eq_append, ← List.cons_append, List.getLast?_concat] at hlast
        rw [Option.some.inj hlast]
        simp
  · exact Or.inr rfl

theorem takeWhile_zone {core rest : JsString} (hcore : ∀ u ∈ core, u ≠ percent)
    (hrest : rest = [] ∨ ∃ z, rest = percent :: z) : (core ++ rest).takeWhile (· ≠ percent) = core := by
  rw [List.takeWhile_append_of_pos fun u hu => decide_eq_true (hcore u hu)]
  rcases hrest with rfl | ⟨z, rfl⟩ <;> simp

/-- The zone begins at the first percent sign. -/
theorem exists_zone (text : JsString) :
    ∃ rest, text = text.takeWhile (· ≠ percent) ++ rest ∧ (rest = [] ∨ ∃ z, rest = percent :: z) := by
  refine ⟨text.dropWhile (· ≠ percent), List.takeWhile_append_dropWhile.symm, ?_⟩
  cases h : text.dropWhile (· ≠ percent) with
  | nil => exact Or.inl rfl
  | cons u z =>
    right
    have hhead := List.head?_dropWhile_not (· ≠ percent) text
    rw [h] at hhead
    have hu : u = percent := by simpa using hhead
    exact ⟨z, by rw [hu]⟩

theorem percent_iff (v : CodeUnit) : lowerUnit v = percent ↔ v = percent := lowerUnit_sign (by decide) (by decide) v
theorem openBracket_iff (v : CodeUnit) : lowerUnit v = openBracket ↔ v = openBracket :=
  lowerUnit_sign (by decide) (by decide) v
theorem closeBracket_iff (v : CodeUnit) : lowerUnit v = closeBracket ↔ v = closeBracket :=
  lowerUnit_sign (by decide) (by decide) v

theorem plain_signs : CaseTables.Plain percent ∧ CaseTables.Plain openBracket ∧ CaseTables.Plain closeBracket := by
  unfold CaseTables.Plain
  decide

theorem map_concat_eq {a c : JsString} {v : CodeUnit} (h : a.map lowerUnit = c ++ [v]) :
    ∃ body e, a = body ++ [e] ∧ body.map lowerUnit = c ∧ lowerUnit e = v := by
  obtain ⟨body, last, ha, hbody, hlast⟩ := List.map_eq_append_iff.mp h
  obtain ⟨e, he, hv⟩ := List.map_eq_singleton_iff.mp hlast
  exact ⟨body, e, by rw [ha, he], hbody, hv⟩

/-- What is read is spelt. -/
theorem spells_of_parts (hT : rt.cases.Foreign) {value : JsString} {ws : List Nat} (h : ipv6Parts rt value = some ws) :
    Spells value ws := by
  have hbody := ipv6Parts_eq.mp h
  obtain ⟨hpercent, hopen, hclose⟩ := plain_signs
  obtain ⟨rest, hrest, hzone⟩ := exists_zone (unbracket (rt.cases.toLowerCase value))
  generalize hcore : (unbracket (rt.cases.toLowerCase value)).takeWhile (· ≠ percent) = core at hbody hrest
  have hplain : ∀ u ∈ core, CaseTables.Plain u := fun u hu => (plain_of_unit (hbody.units u hu)).1
  have hnothing : ∀ {before : List Nat} {s : JsString}, [] = rt.cases.lowerAfter before s → s = [] := by
    intro before s hs
    by_cases hnil : s = []
    · exact hnil
    · exact absurd hs.symm (CaseTables.lowerAfter_ne_nil hT hnil before)
  rcases unbracket_cases (rt.cases.toLowerCase value) with hbracketed | hbare
  · rw [hrest, CaseTables.toLowerCase_eq] at hbracketed
    rcases hzone with rfl | ⟨z, rfl⟩
    · have hall : ∀ u ∈ openBracket :: (core ++ [closeBracket]), CaseTables.Plain u := by
        intro u hu
        rcases List.mem_cons.mp hu with rfl | hu
        · exact hopen
        · rcases List.mem_append.mp hu with hu | hu
          · exact hplain u hu
          · rw [List.mem_singleton.mp hu]
            exact hclose
      rw [List.append_nil] at hbracketed
      obtain ⟨a, before, s', rfl, hmap, -, hs'⟩ := CaseTables.lowerAfter_plain hT hall (t := [])
        (by rw [List.append_nil]; exact hbracketed)
      obtain rfl := hnothing hs'
      obtain ⟨o, a', rfl, ho, htail⟩ := List.map_eq_cons_iff.mp hmap
      obtain ⟨body, e, rfl, hcase, he⟩ := map_concat_eq htail
      refine ⟨body, [], by rw [hcase]; exact hbody, Or.inl rfl, Or.inr ?_⟩
      rw [(openBracket_iff o).mp ho, (closeBracket_iff e).mp he]
      simp
    · have hall : ∀ u ∈ openBracket :: (core ++ [percent]), CaseTables.Plain u := by
        intro u hu
        rcases List.mem_cons.mp hu with rfl | hu
        · exact hopen
        · rcases List.mem_append.mp hu with hu | hu
          · exact hplain u hu
          · rw [List.mem_singleton.mp hu]
            exact hpercent
      obtain ⟨a, before, s', rfl, hmap, -, hs'⟩ := CaseTables.lowerAfter_plain hT hall (t := z ++ [closeBracket])
        (by rw [hbracketed]; simp)
      obtain ⟨o, a', rfl, ho, htail⟩ := List.map_eq_cons_iff.mp hmap
      obtain ⟨body, e, rfl, hcase, he⟩ := map_concat_eq htail
      have hlast := (CaseTables.lowerAfter_last hT hclose closeBracket_iff before).mp
        (by rw [← hs', List.getLast?_concat])
      rcases List.eq_nil_or_concat s' with rfl | ⟨z', v, rfl⟩
      · cases hlast
      · rw [List.concat_eq_append, List.getLast?_concat] at hlast
        refine ⟨body, percent :: z', by rw [hcase]; exact hbody, Or.inr ⟨z', rfl⟩, Or.inr ?_⟩
        rw [(openBracket_iff o).mp ho, (percent_iff e).mp he, Option.some.inj hlast]
        simp
  · rw [hbare] at hrest
    rw [CaseTables.toLowerCase_eq] at hrest
    rcases hzone with rfl | ⟨z, rfl⟩
    · obtain ⟨a, before, s', rfl, hmap, -, hs'⟩ := CaseTables.lowerAfter_plain hT hplain hrest
      obtain rfl := hnothing hs'
      exact ⟨a, [], by rw [hmap]; exact hbody, Or.inl rfl, Or.inl rfl⟩
    · have hall : ∀ u ∈ core ++ [percent], CaseTables.Plain u := by
        intro u hu
        rcases List.mem_append.mp hu with hu | hu
        · exact hplain u hu
        · rw [List.mem_singleton.mp hu]
          exact hpercent
      obtain ⟨a, before, s', rfl, hmap, -, -⟩ := CaseTables.lowerAfter_plain hT hall (t := z) (by rw [hrest]; simp)
      obtain ⟨body, e, rfl, hcase, he⟩ := map_concat_eq hmap
      refine ⟨body, percent :: s', by rw [hcase]; exact hbody, Or.inr ⟨s', rfl⟩, Or.inl ?_⟩
      rw [(percent_iff e).mp he]
      simp

/-- A spelling in lower case is one too, of the same shape. -/
theorem Spells.lower (hT : rt.cases.Foreign) {value : JsString} {ws : List Nat} (h : Spells value ws) :
    ∃ body zone, AddressText Tail body ws ∧ IsZone zone ∧
      (rt.cases.toLowerCase value = body ++ zone ∨
        rt.cases.toLowerCase value = openBracket :: (body ++ zone ++ [closeBracket])) := by
  obtain ⟨body, zone, hbody, hzone, hvalue⟩ := h
  obtain ⟨hpercent, hopen, hclose⟩ := plain_signs
  have hascii : ∀ u ∈ body, u < 128 := fun u hu =>
    ascii_of_lowerUnit (plain_of_unit (hbody.units (lowerUnit u) (List.mem_map.mpr ⟨u, hu, rfl⟩))).1.1
  have hlower : lowerUnit openBracket = openBracket ∧ lowerUnit percent = percent := by decide
  rcases hvalue with rfl | rfl
  · obtain ⟨before, heq⟩ := rt.cases.lowerAfter_append hascii [] zone
    refine ⟨body.map lowerUnit, rt.cases.lowerAfter before zone, hbody, ?_, Or.inl heq⟩
    rcases hzone with rfl | ⟨z, rfl⟩
    · exact Or.inl rfl
    · exact Or.inr ⟨_, by rw [rt.cases.lowerAfter_cons hpercent.1, hlower.2]⟩
  · obtain ⟨before, heq⟩ := rt.cases.lowerAfter_append hascii [openBracket.toNat] (zone ++ [closeBracket])
    -- the bracket at the end stays where it is
    have hrest : ∃ rest, rt.cases.lowerAfter before (zone ++ [closeBracket]) =
      rest ++ [closeBracket] ∧ IsZone rest := by
      have hlast := (CaseTables.lowerAfter_last hT hclose closeBracket_iff before (s := zone ++ [closeBracket])).mpr
        List.getLast?_concat
      rcases hzone with rfl | ⟨z, rfl⟩
      · exact ⟨[], rt.cases.lowerAfter_cons hclose.1 before [], Or.inl rfl⟩
      · rw [List.cons_append, rt.cases.lowerAfter_cons hpercent.1] at hlast ⊢
        rcases List.eq_nil_or_concat (rt.cases.lowerAfter (percent.toNat :: before) (z ++ [closeBracket])) with
          hnil | ⟨inner, v, hinner⟩
        · exact absurd hnil (CaseTables.lowerAfter_ne_nil hT (by simp) _)
        · rw [hinner, List.concat_eq_append, ← List.cons_append, List.getLast?_concat] at hlast
          rw [hinner, Option.some.inj hlast, hlower.2]
          exact ⟨percent :: inner, by simp, Or.inr ⟨inner, rfl⟩⟩
    obtain ⟨rest, hrest, hshape⟩ := hrest
    refine ⟨body.map lowerUnit, rest, hbody, hshape, Or.inr ?_⟩
    rw [CaseTables.toLowerCase_eq, rt.cases.lowerAfter_cons hopen.1, List.append_assoc, heq, hrest, hlower.1,
      ← List.append_assoc]

/-- The text of an address does not begin with a bracket. -/
theorem AddressText.head_ne {text : JsString} {ws : List Nat} (h : AddressText Tail text ws) (rest : JsString) :
    (text ++ rest).head? ≠ some openBracket := by
  cases hb : text with
  | nil =>
    rw [hb] at h
    cases h.colon_mem
  | cons u rest =>
    exact fun hu => (plain_of_unit (h.units u (by rw [hb]; exact List.mem_cons_self))).2.2 (Option.some.inj hu)

/-- What is spelt is read. -/
theorem parts_of_spells (hT : rt.cases.Foreign) {value : JsString} {ws : List Nat} (h : Spells value ws) :
    ipv6Parts rt value = some ws := by
  obtain ⟨body, zone, hbody, hzone, hlower⟩ := h.lower hT
  have hcore : ∀ u ∈ body, u ≠ percent := fun u hu => (plain_of_unit (hbody.units u hu)).2.1
  rw [ipv6Parts_eq]
  rcases hlower with hlower | hlower
  · have hbare : unbracket (body ++ zone) = body ++ zone := by
      rw [unbracket, decide_eq_false (hbody.head_ne zone), Bool.false_and, if_neg Bool.false_ne_true]
    rw [hlower, hbare, takeWhile_zone hcore hzone]
    exact hbody
  · rw [hlower, unbracket_of, takeWhile_zone hcore hzone]
    exact hbody

/-- The words of an address are read from its spellings, and from nothing else. -/
theorem ipv6Parts_iff (hT : rt.cases.Foreign) {value : JsString} {ws : List Nat} :
    ipv6Parts rt value = some ws ↔ Spells value ws := ⟨spells_of_parts hT, parts_of_spells hT⟩

end Sag
