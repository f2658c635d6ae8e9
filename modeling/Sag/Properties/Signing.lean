import Sag.Browser
import Sag.Clients

/-!
# Which requests are signed for what they are

The canonical request of the specification is defined here from the request that is sent
(`IsCanonical`): the segments of its path decoded and encoded, its parameters encoded and sorted,
its headers under their names in lower case, sorted, with their values trimmed and the spaces in
them folded. `canonical_exact` says which requests are signed for it. The path is signed as it is
sent, so it has to be in canonical form already, which is not so for an object whose key has a
colon in it.
-/

namespace Sag

/-! ## The specification -/

/-- `UriEncode`, for a byte. -/
def uriEncodeByte (b : UInt8) : JsString :=
  if UNRESERVED (UInt16.ofNat b.toNat) then [UInt16.ofNat b.toNat] else percentByte b

def uriEncode (bytes : Bytes) : JsString := bytes.flatMap uriEncodeByte

def canonicalUri (pathname : JsString) : JsString :=
  if pathname = [] then js "/"
  else joinWith 47 ((split 47 pathname).map fun segment => uriEncode (percentDecode segment))

/-- A run of spaces is one space. -/
def foldSpaces : JsString → JsString
  | [] => []
  | [u] => [u]
  | u :: v :: s => if u = 32 ∧ v = 32 then foldSpaces (v :: s) else u :: foldSpaces (v :: s)

def headerValue (value : JsString) : JsString := foldSpaces (trim value)

/-- What a service receives of a request. -/
structure SentRequest where
  method : JsString
  pathname : JsString
  params : List (JsString × JsString)
  headers : List (JsString × JsString)
  body : JsString

/-- The header that carries the signature, which is not signed. -/
def AUTHORIZATION : JsString := js "authorization"

def lowerName (name : JsString) : JsString := name.map lowerUnit

/-- The value of a header, as it is signed. -/
def signedValue (headers : List (JsString × JsString)) (name : JsString) : JsString :=
  headerValue (((headers.find? fun h => lowerName h.1 = name).map (·.2)).getD [])

variable (rt : Runtime)

/-- The canonical request for a request. -/
def IsCanonical (sent : SentRequest) (text : JsString) : Prop :=
  ∃ (params : List (JsString × JsString)) (names : List JsString),
    params.Perm (sent.params.map fun p => (uriEncode (utf8 p.1), uriEncode (utf8 p.2))) ∧
      params.Pairwise ParamLe ∧
      names.Perm ((sent.headers.map fun h => lowerName h.1).filter (· ≠ AUTHORIZATION)) ∧
      names.Pairwise (· ≤ ·) ∧
      text = joinWith 10
        [rt.cases.toUpperCase sent.method,
          canonicalUri sent.pathname,
          joinWith 38 (params.map fun p => p.1 ++ 61 :: p.2),
          names.flatMap fun name => name ++ 58 :: signedValue sent.headers name ++ [10],
          joinWith 59 names,
          toHex (rt.sha256 sent.body)]

/-! ## Where it is what is signed -/

/-- A segment that is encoded already. -/
def CanonicalSegment : JsString → Bool
  | [] => true
  | u :: s =>
    if u = 37 then
      match s with
      | high :: low :: s =>
        match readHexDigit high, readHexDigit low with
        | some h, some l =>
          hexByte (UInt8.ofNat (h * 16 + l)) = [high, low] &&
            !UNRESERVED (UInt16.ofNat (UInt8.ofNat (h * 16 + l)).toNat) && CanonicalSegment s
        | _, _ => false
      | _ => false
    else UNRESERVED u && CanonicalSegment s

/-- Between the slashes there are unreserved characters, and escapes of others in capital digits. -/
def CanonicalPath (pathname : JsString) : Prop := ∀ segment ∈ split 47 pathname, CanonicalSegment segment = true

instance (pathname : JsString) : Decidable (CanonicalPath pathname) :=
  inferInstanceAs (Decidable (∀ segment ∈ split 47 pathname, CanonicalSegment segment = true))

/-- A value that nothing is trimmed from, and without two spaces in a row. -/
def Folded (value : JsString) : Prop := trim value = value ∧ includes [32, 32] value = false

instance (value : JsString) : Decidable (Folded value) := inferInstanceAs (Decidable (_ ∧ _))

/-- The path of a URL, as the parser writes it. -/
def PathText (pathname : JsString) : Prop := ∀ u ∈ pathname, 0x21 ≤ u ∧ u ≤ 0x7E

/-! ## Paths -/

theorem unreserved_lt {u : CodeUnit} (h : UNRESERVED u = true) : u.toNat < 128 := by
  simp only [UNRESERVED, isAlnum, isDigit, isUpper, isLower, Bool.or_eq_true, Bool.and_eq_true, decide_eq_true_eq,
    UInt16.le_iff_toNat_le] at h
  rcases h with ((((((h | h) | h) | h) | h) | h) | h)
  · exact Nat.lt_of_le_of_lt h.2 (by decide)
  · exact Nat.lt_of_le_of_lt h.2 (by decide)
  · exact Nat.lt_of_le_of_lt h.2 (by decide)
  all_goals
    rw [h]
    decide

theorem unreserved_spec {u : CodeUnit} (h : UNRESERVED u = true) : u ≠ 37 ∧ u ≠ 47 ∧ u ≠ 58 := by
  refine ⟨fun heq => ?_, fun heq => ?_, fun heq => ?_⟩
  all_goals
    rw [heq] at h
    exact absurd h (by decide)

/-- A byte is encoded as it is, or as an escape. -/
theorem uriEncodeByte_cases (b : UInt8) :
    uriEncodeByte b = [UInt16.ofNat b.toNat] ∧ UNRESERVED (UInt16.ofNat b.toNat) = true ∨
      uriEncodeByte b = 37 :: hexByte b ∧ UNRESERVED (UInt16.ofNat b.toNat) = false := by
  unfold uriEncodeByte
  split
  · next h => exact Or.inl ⟨rfl, h⟩
  · next h => exact Or.inr ⟨rfl, Bool.eq_false_iff.mpr h⟩

theorem hexByte_no_slash (b : UInt8) : 47 ∉ hexByte b ∧ 10 ∉ hexByte b := by
  have hall : ∀ n : Fin 256, 47 ∉ hexByte (UInt8.ofNat n) ∧ 10 ∉ hexByte (UInt8.ofNat n) := by decide +kernel
  have hb := hall ⟨b.toNat, b.toNat_lt⟩
  rwa [UInt8.ofNat_toNat] at hb

/-- What is encoded holds no slash and no line end. -/
theorem uriEncode_plain (bytes : Bytes) : 47 ∉ uriEncode bytes ∧ 10 ∉ uriEncode bytes := by
  have hbyte : ∀ b : UInt8, 47 ∉ uriEncodeByte b ∧ 10 ∉ uriEncodeByte b := by
    intro b
    rcases uriEncodeByte_cases b with ⟨heq, hsafe⟩ | ⟨heq, -⟩
    · rw [heq]
      constructor
      · exact fun hmem => (unreserved_spec hsafe).2.1 (List.mem_singleton.mp hmem).symm
      · intro hmem
        rw [← List.mem_singleton.mp hmem] at hsafe
        exact absurd hsafe (by decide)
    · obtain ⟨hslash, hline⟩ := hexByte_no_slash b
      rw [heq]
      constructor
      · exact fun hmem => (List.mem_cons.mp hmem).elim (by decide) hslash
      · exact fun hmem => (List.mem_cons.mp hmem).elim (by decide) hline
  constructor
  · intro hmem
    obtain ⟨b, -, hb⟩ := List.mem_flatMap.mp hmem
    exact (hbyte b).1 hb
  · intro hmem
    obtain ⟨b, -, hb⟩ := List.mem_flatMap.mp hmem
    exact (hbyte b).2 hb

/-- What follows a percent sign is the digits of an escape, or the sign stands for itself. -/
theorem percent_cases (s : JsString) :
    (∃ high low t h l, s = high :: low :: t ∧ readHexDigit high = some h ∧ readHexDigit low = some l) ∨
      percentDecode (37 :: s) = 37 :: percentDecode s ∧ CanonicalSegment (37 :: s) = false ∧
        ∀ t, s ≠ 50 :: 53 :: t := by
  match s with
  | [] => exact Or.inr ⟨rfl, rfl, nofun⟩
  | [v] => exact Or.inr ⟨rfl, rfl, nofun⟩
  | high :: low :: t =>
    rw [percentDecode.eq_def, CanonicalSegment.eq_def]
    cases hh : readHexDigit high with
    | none =>
      refine Or.inr ⟨by simp only [if_true, hh], by simp only [if_true, hh], fun t heq => ?_⟩
      rw [(List.cons.inj heq).1] at hh
      cases hh
    | some h =>
      cases hl : readHexDigit low with
      | none =>
        refine Or.inr ⟨by simp only [if_true, hh, hl], by simp only [if_true, hh, hl], fun t heq => ?_⟩
        rw [(List.cons.inj (List.cons.inj heq).2).1] at hl
        cases hl
      | some l => exact Or.inl ⟨high, low, t, h, l, rfl, hh, hl⟩

/-- A segment is its own encoding where it is canonical. -/
theorem uriEncode_percentDecode : ∀ (segment : JsString), (∀ u ∈ segment, u.toNat < 256) →
    (uriEncode (percentDecode segment) = segment ↔ CanonicalSegment segment = true)
  | [], _ => ⟨fun _ => rfl, fun _ => rfl⟩
  | u :: s, hsmall => by
    have hs : ∀ v ∈ s, v.toNat < 256 := fun v hv => hsmall v (List.mem_cons_of_mem _ hv)
    by_cases hpercent : u = 37
    · rcases percent_cases s with ⟨high, low, t, h, l, rfl, hh, hl⟩ | ⟨hdecode, hsegment, hother⟩
      · have ih := uriEncode_percentDecode t fun v hv => hs v (List.mem_cons_of_mem _ (List.mem_cons_of_mem _ hv))
        have hdecode : percentDecode (37 :: high :: low :: t) = UInt8.ofNat (h * 16 + l) :: percentDecode t := by
          rw [percentDecode.eq_def]
          simp only [if_true, hh, hl]
        have hsegment : CanonicalSegment (37 :: high :: low :: t) =
            (hexByte (UInt8.ofNat (h * 16 + l)) = [high, low] &&
              !UNRESERVED (UInt16.ofNat (UInt8.ofNat (h * 16 + l)).toNat) && CanonicalSegment t) := by
          rw [CanonicalSegment.eq_def]
          simp only [if_true, hh, hl]
        rw [hpercent, hdecode, hsegment, uriEncode, List.flatMap_cons]
        rcases uriEncodeByte_cases (UInt8.ofNat (h * 16 + l)) with ⟨heq, hsafe⟩ | ⟨heq, hreserved⟩
        · rw [heq, hsafe, Bool.not_true, Bool.and_false, Bool.false_and]
          refine ⟨fun h => ?_, nofun⟩
          exact absurd (List.cons.inj h).1 (unreserved_spec hsafe).1
        · rw [heq, hreserved, Bool.not_false, Bool.and_true, Bool.and_eq_true, decide_eq_true_eq, ← ih]
          constructor
          · intro h
            obtain ⟨h₁, h⟩ := List.cons.inj (List.cons.inj h).2
            obtain ⟨h₂, h⟩ := List.cons.inj h
            exact ⟨by rw [← h₁, ← h₂]; rfl, h⟩
          · intro ⟨hdigits, hrest⟩
            rw [hdigits]
            exact congrArg (fun t => 37 :: high :: low :: t) hrest
      · rw [hpercent, hdecode, hsegment]
        refine ⟨fun heq => ?_, nofun⟩
        rw [uriEncode, List.flatMap_cons] at heq
        exact absurd (List.cons.inj heq).2.symm (hother _)
    · have hu : u.toNat < 256 := hsmall u List.mem_cons_self
      have hunit : UInt16.ofNat (UInt8.ofNat u.toNat).toNat = u := by
        rw [UInt8.toNat_ofNat', Nat.mod_eq_of_lt hu, UInt16.ofNat_toNat]
      have hdecode : percentDecode (u :: s) = UInt8.ofNat u.toNat :: percentDecode s := by
        rw [percentDecode.eq_def]
        exact if_neg hpercent
      have hsegment : CanonicalSegment (u :: s) = (UNRESERVED u && CanonicalSegment s) := by
        rw [CanonicalSegment.eq_def]
        exact if_neg hpercent
      have ih := uriEncode_percentDecode s hs
      rw [hdecode, hsegment, uriEncode, List.flatMap_cons]
      rcases uriEncodeByte_cases (UInt8.ofNat u.toNat) with ⟨heq, hsafe⟩ | ⟨heq, hreserved⟩
      · rw [hunit] at heq hsafe
        rw [heq, hsafe, Bool.true_and, ← ih]
        exact ⟨fun h => (List.cons.inj h).2, fun h => congrArg (u :: ·) h⟩
      · rw [hunit] at hreserved
        rw [heq, hreserved, Bool.false_and]
        exact ⟨fun h => absurd (List.cons.inj h).1.symm hpercent, nofun⟩
termination_by segment => segment.length

theorem joinWith_cons {mark : CodeUnit} {part : JsString} {parts : List JsString} (h : parts ≠ []) :
    joinWith mark (part :: parts) = part ++ mark :: joinWith mark parts := by
  obtain ⟨next, rest, rfl⟩ := List.exists_cons_of_ne_nil h
  rw [joinWith, List.intercalate_cons_cons, List.append_assoc]
  rfl

theorem split_joinWith {mark : CodeUnit} {parts : List JsString} (hne : parts ≠ []) (h : ∀ part ∈ parts, mark ∉ part) :
    split mark (joinWith mark parts) = parts := by
  induction parts with
  | nil => exact absurd rfl hne
  | cons part parts ih =>
    have hpart := h part List.mem_cons_self
    by_cases hlast : parts = []
    · rw [hlast, joinWith, List.intercalate_singleton, split_of_notMem hpart]
    · rw [joinWith_cons hlast, split_append, split_of_notMem hpart,
        ih hlast fun p hp => h p (List.mem_cons_of_mem _ hp), List.singleton_append]

theorem joinWith_split (mark : CodeUnit) (s : JsString) : joinWith mark (split mark s) = s := by
  induction s with
  | nil => rfl
  | cons u s ih =>
    have hne : split mark s ≠ [] := splitWhere_ne_nil _ s
    rw [split, splitWhere]
    split
    · next hmark =>
      rw [show splitWhere (· == mark) s = split mark s from rfl, joinWith_cons hne, ih,
        List.nil_append, eq_of_beq hmark]
    · rw [show splitWhere (· == mark) s = split mark s from rfl]
      cases hpieces : split mark s with
      | nil => exact absurd hpieces hne
      | cons w ws =>
        rw [hpieces] at ih
        by_cases hlast : ws = []
        · rw [hlast, joinWith, List.intercalate_singleton] at ih ⊢
          rw [ih]
        · rw [joinWith_cons hlast] at ih ⊢
          rw [List.cons_append, ih]

theorem PathText.lt {pathname : JsString} (h : PathText pathname) : ∀ u ∈ pathname, u.toNat < 256 := by
  intro u hu
  have hlast : u.toNat ≤ 0x7E := UInt16.le_iff_toNat_le.mp (h u hu).2
  omega

/-- A path that is not empty is its own canonical form where it is canonical. -/
theorem canonicalUri_eq_iff {pathname : JsString} (h : PathText pathname) :
    canonicalUri pathname = (if pathname = [] then js "/" else pathname) ↔ CanonicalPath pathname := by
  by_cases hempty : pathname = []
  · subst hempty
    refine ⟨fun _ segment hmem => ?_, fun _ => rfl⟩
    rw [List.mem_singleton.mp hmem]
    rfl
  · rw [canonicalUri, if_neg hempty, if_neg hempty]
    have hsegment : ∀ segment ∈ split 47 pathname,
        (uriEncode (percentDecode segment) = segment ↔ CanonicalSegment segment = true) :=
      fun segment hmem => uriEncode_percentDecode segment fun u hu => h.lt u (splitWhere_piece hmem u hu).2
    have hsplit : split 47 (joinWith 47 ((split 47 pathname).map fun segment => uriEncode (percentDecode segment))) =
        (split 47 pathname).map fun segment => uriEncode (percentDecode segment) := by
      refine split_joinWith (fun hnil => splitWhere_ne_nil _ _ (List.map_eq_nil_iff.mp hnil)) fun part hmem => ?_
      obtain ⟨segment, -, rfl⟩ := List.mem_map.mp hmem
      exact (uriEncode_plain _).1
    have hmap : ((split 47 pathname).map fun segment => uriEncode (percentDecode segment)) = split 47 pathname ↔
        CanonicalPath pathname := by
      have hid : split 47 pathname = (split 47 pathname).map id := (List.map_id _).symm
      constructor
      · intro heq segment hmem
        rw [← hsegment segment hmem]
        exact List.map_inj_left.mp (heq.trans hid) segment hmem
      · exact fun hall => (List.map_congr_left fun segment hmem =>
        (hsegment segment hmem).mpr (hall segment hmem)).trans
          hid.symm
    rw [← hmap]
    constructor
    · exact fun heq => hsplit.symm.trans (congrArg (split 47) heq)
    · exact fun heq => (congrArg (joinWith 47) heq).trans (joinWith_split 47 pathname)

/-- No line ends in a path, nor in its canonical form. -/
theorem canonicalUri_plain (pathname : JsString) : 10 ∉ canonicalUri pathname := by
  have hjoin : ∀ parts : List JsString, (∀ part ∈ parts, 10 ∉ part) → 10 ∉ joinWith 47 parts := by
    intro parts
    induction parts with
    | nil => exact fun _ => List.not_mem_nil
    | cons part parts ih =>
      intro h hmem
      have hpart := h part List.mem_cons_self
      by_cases hlast : parts = []
      · rw [hlast, joinWith, List.intercalate_singleton] at hmem
        exact hpart hmem
      · rw [joinWith_cons hlast] at hmem
        rcases List.mem_append.mp hmem with hmem | hmem
        · exact hpart hmem
        · rcases List.mem_cons.mp hmem with heq | hmem
          · exact absurd heq (by decide)
          · exact ih (fun p hp => h p (List.mem_cons_of_mem _ hp)) hmem
  unfold canonicalUri
  split
  · decide
  · refine hjoin _ fun part hmem => ?_
    obtain ⟨segment, -, rfl⟩ := List.mem_map.mp hmem
    exact (uriEncode_plain _).2

/-! ## Queries -/

theorem any_unreserved {p : Nat} (h : 128 ≤ p) (hp : p ≤ 0x10FFFF) : (encodePoint p).any UNRESERVED = false := by
  have hunit : ∀ n, 128 ≤ n → n < 0x10000 → UNRESERVED (UInt16.ofNat n) = false := by
    intro n hn hlt
    refine Bool.eq_false_iff.mpr fun hsafe => ?_
    have hsmall := unreserved_lt hsafe
    rw [UInt16.toNat_ofNat_of_lt' (by simp [UInt16.size]; omega)] at hsmall
    omega
  unfold encodePoint
  split
  · next hsmall => rw [List.any_cons, hunit p h hsmall, List.any_nil, Bool.or_false]
  · rw [List.any_cons, hunit _ (by omega) (by omega), List.any_cons, hunit _ (by omega) (by omega)]
    rfl

/-- The encoder of the source is that of the specification. -/
theorem encodeRfc3986_eq (value : JsString) : encodeRfc3986 value = uriEncode (utf8 value) := by
  have hpoint : ∀ p ∈ codePoints value,
      (if (encodePoint p).any UNRESERVED then encodePoint p else (utf8Point p).flatMap percentByte) =
        (utf8Point p).flatMap uriEncodeByte := by
    intro p hmem
    have hp := codePoints_le p hmem
    by_cases hsmall : p < 128
    · have hunit : UInt16.ofNat (UInt8.ofNat p).toNat = UInt16.ofNat p := by
        rw [UInt8.toNat_ofNat', Nat.mod_eq_of_lt (by omega)]
      have hencode : encodePoint p = [UInt16.ofNat p] := if_pos (by omega)
      rw [utf8Point_small hsmall, hencode, List.flatMap_singleton, List.flatMap_singleton, uriEncodeByte, hunit,
        List.any_cons, List.any_nil, Bool.or_false]
    · have hbytes : ∀ b ∈ utf8Point p, uriEncodeByte b = percentByte b := by
        intro b hb
        have hhigh := (utf8Point_high (Nat.le_of_not_lt hsmall) (by omega)).1 b hb
        refine if_neg fun hsafe => ?_
        have hlt := unreserved_lt hsafe
        rw [UInt16.toNat_ofNat_of_lt' (Nat.lt_trans b.toNat_lt (by decide))] at hlt
        omega
      rw [any_unreserved (Nat.le_of_not_lt hsmall) hp, if_neg Bool.false_ne_true, List.flatMap_def, List.flatMap_def,
        List.map_congr_left hbytes]
  rw [encodeRfc3986, utf8, uriEncode, List.flatMap_assoc, List.flatMap_def, List.flatMap_def,
    List.map_congr_left hpoint]

theorem ParamLe.total (a b : JsString × JsString) : ParamLe a b ∨ ParamLe b a := by
  by_cases hab : a.1 < b.1
  · exact Or.inl (Or.inl hab)
  · by_cases hba : b.1 < a.1
    · exact Or.inr (Or.inl hba)
    · have heq : a.1 = b.1 := List.le_antisymm hba hab
      exact (List.le_total a.2 b.2).imp (fun h => Or.inr ⟨heq, h⟩) fun h => Or.inr ⟨heq.symm, h⟩

theorem ParamLe.trans {a b c : JsString × JsString} (hab : ParamLe a b) (hbc : ParamLe b c) : ParamLe a c := by
  rcases hab with hab | ⟨hab, hab'⟩
  · rcases hbc with hbc | ⟨hbc, -⟩
    · exact Or.inl (List.lt_trans hab hbc)
    · exact Or.inl (hbc ▸ hab)
  · rcases hbc with hbc | ⟨hbc, hbc'⟩
    · exact Or.inl (hab ▸ hbc)
    · exact Or.inr ⟨hab.trans hbc, List.le_trans hab' hbc'⟩

theorem ParamLe.antisymm {a b : JsString × JsString} (hab : ParamLe a b) (hba : ParamLe b a) : a = b := by
  rcases hab with hab | ⟨hab, hab'⟩
  · rcases hba with hba | ⟨hba, -⟩
    · exact absurd (List.lt_trans hab hba) (List.lt_irrefl _)
    · exact absurd (hba ▸ hab) (List.lt_irrefl _)
  · rcases hba with hba | ⟨-, hba'⟩
    · exact absurd (hab ▸ hba) (List.lt_irrefl _)
    · exact Prod.ext hab (List.le_antisymm hab' hba')

instance : Std.Total ParamLe := ⟨ParamLe.total⟩

instance : IsTrans (JsString × JsString) ParamLe := ⟨fun _ _ _ => ParamLe.trans⟩

/-- Parameters are sorted in one way. -/
theorem params_unique {params pairs : List (JsString × JsString)} (hperm : params.Perm pairs)
    (hsorted : params.Pairwise ParamLe) : params = pairs.insertionSort ParamLe :=
  (hperm.trans (List.perm_insertionSort ParamLe pairs).symm).eq_of_pairwise (fun _ _ _ _ => ParamLe.antisymm) hsorted
    (List.pairwise_insertionSort ParamLe pairs)

theorem canonicalQuery_eq (params : List (JsString × JsString)) :
    canonicalQuery params =
      joinWith 38 (((params.map fun p => (uriEncode (utf8 p.1), uriEncode (utf8 p.2))).insertionSort ParamLe).map
        fun p => p.1 ++ 61 :: p.2) := by
  simp only [canonicalQuery, encodeRfc3986_eq]

/-! ## Headers -/

instance : Std.Total (α := JsString) (· ≤ ·) := ⟨List.le_total⟩

instance : IsTrans JsString (· ≤ ·) := ⟨fun _ _ _ => List.le_trans⟩

/-- Names are sorted in one way. -/
theorem names_unique {names keys : List JsString} (hperm : names.Perm keys) (hsorted : names.Pairwise (· ≤ ·)) :
    names = keys.insertionSort (· ≤ ·) :=
  (hperm.trans (List.perm_insertionSort (· ≤ ·) keys).symm).eq_of_pairwise (fun _ _ _ _ => List.le_antisymm) hsorted
    (List.pairwise_insertionSort (· ≤ ·) keys)

theorem length_foldSpaces_le : ∀ s : JsString, (foldSpaces s).length ≤ s.length
  | [] => Nat.le_refl _
  | [u] => Nat.le_refl _
  | u :: v :: s => by
    have ih := length_foldSpaces_le (v :: s)
    rw [foldSpaces]
    split
    · rw [List.length_cons (a := u)]
      omega
    · rw [List.length_cons, List.length_cons (a := u)]
      omega

theorem length_trim_le (s : JsString) : (trim s).length ≤ s.length := by
  have hfirst := (List.dropWhile_suffix (l := s) isSpace).length_le
  have hlast := (List.dropWhile_suffix (l := (s.dropWhile isSpace).reverse) isSpace).length_le
  rw [trim, List.length_reverse]
  rw [List.length_reverse] at hlast
  omega

theorem length_headerValue_le (s : JsString) : (headerValue s).length ≤ s.length :=
  Nat.le_trans (length_foldSpaces_le _) (length_trim_le s)

/-- Nothing is folded where there are no two spaces in a row, and elsewhere something is. -/
theorem foldSpaces_spec : ∀ s : JsString,
    (includes [32, 32] s = false → foldSpaces s = s) ∧ (s.length ≤ (foldSpaces s).length → includes [32, 32] s = false)
  | [] => ⟨fun _ => rfl, fun _ => rfl⟩
  | [u] => by
    refine ⟨fun _ => rfl, fun _ => ?_⟩
    simp [includes, List.isPrefixOf]
  | u :: v :: s => by
    obtain ⟨ih, ih'⟩ := foldSpaces_spec (v :: s)
    have hlength := length_foldSpaces_le (v :: s)
    rw [foldSpaces, includes, Bool.or_eq_false_iff]
    by_cases hspaces : u = 32 ∧ v = 32
    · rw [if_pos hspaces]
      refine ⟨fun ⟨hfirst, _⟩ => ?_, fun hle => ?_⟩
      · rw [hspaces.1, hspaces.2] at hfirst
        simp [List.isPrefixOf] at hfirst
      · rw [List.length_cons (a := u)] at hle
        omega
    · rw [if_neg hspaces]
      refine ⟨fun ⟨_, hrest⟩ => congrArg (u :: ·) (ih hrest), fun hle => ⟨?_, ih' (Nat.le_of_succ_le_succ hle)⟩⟩
      refine Bool.eq_false_iff.mpr fun hfirst => hspaces ?_
      simp only [List.isPrefixOf, Bool.and_true, Bool.and_eq_true, beq_iff_eq] at hfirst
      exact ⟨hfirst.1.symm, hfirst.2.symm⟩

theorem trim_of_length {s : JsString} (h : s.length ≤ (trim s).length) : trim s = s := by
  have hfirst := List.dropWhile_suffix (l := s) isSpace
  have hlast := List.dropWhile_suffix (l := (s.dropWhile isSpace).reverse) isSpace
  have hfirst_le := hfirst.length_le
  have hlast_le := hlast.length_le
  rw [List.length_reverse] at hlast_le
  rw [trim, List.length_reverse] at h
  have hleft : s.dropWhile isSpace = s := hfirst.eq_of_length (by omega)
  have hright := hlast.eq_of_length (by rw [List.length_reverse]; omega)
  rw [trim, hright, List.reverse_reverse, hleft]

theorem Folded.headerValue_eq {value : JsString} (h : Folded value) : headerValue value = value := by
  rw [headerValue, h.1]
  exact (foldSpaces_spec value).1 h.2

/-- A value is as long as what is signed for it only where it is that. -/
theorem folded_of_length {value : JsString} (h : value.length ≤ (headerValue value).length) : Folded value := by
  have hfold := length_foldSpaces_le (trim value)
  have hle : value.length ≤ (foldSpaces (trim value)).length := h
  have htrim : trim value = value := trim_of_length (by omega)
  rw [htrim] at hle
  exact ⟨htrim, (foldSpaces_spec value).2 hle⟩

/-! ## What is signed and what is sent -/

/-- Some of the pieces of a text, each of them shortened. -/
theorem length_flatMap_le {f g : JsString → JsString} {keep : JsString → Bool} (h : ∀ n, (g n).length ≤ (f n).length)
    (names : List JsString) : ((names.filter keep).flatMap g).length ≤ (names.flatMap f).length := by
  induction names with
  | nil => exact Nat.le_refl _
  | cons n names ih =>
    have hn := h n
    rw [List.filter_cons]
    split
    · rw [List.flatMap_cons, List.flatMap_cons, List.length_append, List.length_append]
      omega
    · rw [List.flatMap_cons, List.length_append]
      omega

/-- They are not shorter only where all were kept, as long as they were. -/
theorem kept_of_length {f g : JsString → JsString} {keep : JsString → Bool} (h : ∀ n, (g n).length ≤ (f n).length)
    (hpos : ∀ n, 0 < (f n).length) {names : List JsString}
    (hle : (names.flatMap f).length ≤ ((names.filter keep).flatMap g).length) :
    ∀ n ∈ names, keep n = true ∧ (f n).length ≤ (g n).length := by
  induction names with
  | nil => exact nofun
  | cons n names ih =>
    have hn := h n
    have hn' := hpos n
    have hrest : ((names.filter keep).flatMap g).length ≤ (names.flatMap f).length := length_flatMap_le h names
    rw [List.filter_cons] at hle
    intro m hm
    split at hle
    · next hkeep =>
      rw [List.flatMap_cons, List.flatMap_cons, List.length_append, List.length_append] at hle
      rcases List.mem_cons.mp hm with rfl | hm
      · exact ⟨hkeep, by omega⟩
      · exact ih (by omega) m hm
    · rw [List.flatMap_cons, List.length_append] at hle
      omega

theorem length_joinWith (mark : CodeUnit) (parts : List JsString) :
    (joinWith mark parts).length = (parts.flatMap (mark :: ·)).length - 1 := by
  induction parts with
  | nil => rfl
  | cons part parts ih =>
    by_cases hlast : parts = []
    · rw [hlast, joinWith, List.intercalate_singleton, List.flatMap_cons, List.flatMap_nil, List.append_nil]
      rfl
    · obtain ⟨next, rest, rfl⟩ := List.exists_cons_of_ne_nil hlast
      rw [joinWith_cons hlast, List.length_append, List.length_cons, ih]
      simp only [List.flatMap_cons, List.length_append, List.length_cons]
      omega

theorem length_joinWith_filter_le (mark : CodeUnit) (keep : JsString → Bool) (parts : List JsString) :
    (joinWith mark (parts.filter keep)).length ≤ (joinWith mark parts).length := by
  have hle : ((parts.filter keep).flatMap (mark :: ·)).length ≤ (parts.flatMap (mark :: ·)).length :=
    length_flatMap_le (fun _ => Nat.le_refl _) parts
  rw [length_joinWith, length_joinWith]
  exact Nat.sub_le_sub_right hle 1

/-- Two texts that begin with a line. -/
theorem line_inj {a b s t : JsString} (ha : 10 ∉ a) (hb : 10 ∉ b) (h : a ++ 10 :: s = b ++ 10 :: t) :
    a = b ∧ s = t := by
  have hleft : breakFirst 10 (a ++ 10 :: s) = some (a, s) := breakFirst_eq_some_iff.mpr ⟨rfl, ha⟩
  have hright : breakFirst 10 (a ++ 10 :: s) = some (b, t) := breakFirst_eq_some_iff.mpr ⟨h, hb⟩
  exact Prod.mk.inj (Option.some.inj (hleft.symm.trans hright))

/-- The six lines of a canonical request. -/
theorem joinWith_six (a b c d e f : JsString) :
    joinWith 10 [a, b, c, d, e, f] = a ++ 10 :: (b ++ 10 :: (c ++ 10 :: (d ++ 10 :: (e ++ 10 :: f)))) := by
  have hne : ∀ (x : JsString) (xs : List JsString), x :: xs ≠ [] := fun _ _ => List.cons_ne_nil _ _
  rw [joinWith_cons (hne _ _), joinWith_cons (hne _ _), joinWith_cons (hne _ _), joinWith_cons (hne _ _),
    joinWith_cons (hne _ _), joinWith, List.intercalate_singleton]

section Sending

variable {headers : InsertionMap JsString JsString} (hlower : ∀ e ∈ headers.entries, lowerName e.1 = e.1)
  (signature : JsString)
include hlower

omit hlower in
theorem lowerName_authorization : lowerName AUTHORIZATION = AUTHORIZATION := by decide

/-- The names that are sent, but for the one of the signature. -/
theorem sent_names :
    (((headers.insert AUTHORIZATION signature).entries.map fun e => lowerName e.1).filter (· ≠ AUTHORIZATION)) =
      (headers.entries.map (·.1)).filter (· ≠ AUTHORIZATION) := by
  have hnames : headers.entries.map (fun e => lowerName e.1) = headers.entries.map (·.1) :=
    List.map_congr_left hlower
  rw [InsertionMap.insert]
  split
  · have hmap : (InsertionMap.overwrite AUTHORIZATION signature headers.entries).map (fun e => lowerName e.1) =
        headers.entries.map fun e => lowerName e.1 := by
      rw [InsertionMap.overwrite, List.map_map]
      refine List.map_congr_left fun e _ => ?_
      by_cases he : e.1 = AUTHORIZATION
      · simp [he]
      · simp [he]
    rw [hmap, hnames]
  · rw [List.map_append, List.filter_append, hnames]
    have hlast : ([(AUTHORIZATION, signature)].map fun e => lowerName e.1).filter (· ≠ AUTHORIZATION) = [] := by
      rw [List.map_singleton, lowerName_authorization]
      decide
    rw [hlast, List.append_nil]

/-- And their values. -/
theorem signedValue_sent {name : JsString} (hname : name ≠ AUTHORIZATION) :
    signedValue (headers.insert AUTHORIZATION signature).entries name = headerValue ((headers.get? name).getD []) := by
  have hfind : (headers.insert AUTHORIZATION signature).entries.find? (fun e => lowerName e.1 = name) =
      (headers.insert AUTHORIZATION signature).entries.find? (·.1 = name) := by
    have hsent : ∀ e ∈ (headers.insert AUTHORIZATION signature).entries, lowerName e.1 = e.1 := by
      intro e he
      rcases InsertionMap.mem_insert.mp he with heq | ⟨-, he⟩
      · rw [heq]
        exact lowerName_authorization
      · exact hlower e he
    revert hsent
    generalize (headers.insert AUTHORIZATION signature).entries = entries
    intro hsent
    induction entries with
    | nil => rfl
    | cons e entries ih =>
      rw [List.find?_cons, List.find?_cons, hsent e List.mem_cons_self,
        ih fun e he => hsent e (List.mem_cons_of_mem _ he)]
  rw [signedValue, hfind, ← InsertionMap.get?_insert_of_ne hname (v := signature)]
  rfl

/-- A request as it is sent. -/
def sentRequest (opts : SignOptions) (url : Url) (out : InsertionMap JsString JsString) : SentRequest :=
  ⟨opts.method, url.pathname, searchParams url.search, out.entries, opts.body⟩

/-- The canonical request, in the terms of what is signed. -/
theorem isCanonical_iff (opts : SignOptions) (url : Url) (text : JsString) :
    IsCanonical rt (sentRequest opts url (headers.insert AUTHORIZATION signature)) text ↔
      text = joinWith 10
        [rt.cases.toUpperCase opts.method,
          canonicalUri url.pathname,
          canonicalQuery (searchParams url.search),
          ((signedNames headers).filter (· ≠ AUTHORIZATION)).flatMap
            fun name => name ++ 58 :: headerValue ((headers.get? name).getD []) ++ [10],
          joinWith 59 ((signedNames headers).filter (· ≠ AUTHORIZATION)),
          toHex (rt.sha256 opts.body)] := by
  have hperm : ((signedNames headers).filter (· ≠ AUTHORIZATION)).Perm
      ((headers.entries.map (·.1)).filter (· ≠ AUTHORIZATION)) := (List.perm_insertionSort _ _).filter _
  have hsorted : ((signedNames headers).filter (· ≠ AUTHORIZATION)).Pairwise (· ≤ ·) :=
    (List.pairwise_insertionSort (· ≤ ·) _).filter _
  have hnames : ((signedNames headers).filter (· ≠ AUTHORIZATION)).flatMap
        (fun name => name ++ 58 :: headerValue ((headers.get? name).getD []) ++ [10]) =
      ((signedNames headers).filter (· ≠ AUTHORIZATION)).flatMap fun name =>
        name ++ 58 :: signedValue (headers.insert AUTHORIZATION signature).entries name ++ [10] := by
    rw [List.flatMap_def, List.flatMap_def]
    refine congrArg List.flatten (List.map_congr_left fun name hname => ?_)
    have hother : name ≠ AUTHORIZATION := of_decide_eq_true (List.mem_filter.mp hname).2
    rw [signedValue_sent hlower signature hother]
  rw [hnames, canonicalQuery_eq]
  constructor
  · intro ⟨params, names, hparams, hordered, hkeys, hascending, htext⟩
    have hkeys := hkeys.trans (List.Perm.of_eq (sent_names hlower signature))
    rw [params_unique hparams hordered, (names_unique hkeys hascending).trans
      (names_unique hperm hsorted).symm] at htext
    exact htext
  · intro htext
    refine ⟨_, _, List.perm_insertionSort ParamLe _, List.pairwise_insertionSort ParamLe _, ?_, hsorted, htext⟩
    exact hperm.trans (List.Perm.of_eq (sent_names hlower signature).symm)

/-- The request is signed for what is sent where nothing of it has another canonical form. -/
theorem signed_iff (opts : SignOptions) {url : Url} (hpath : PathText url.pathname) :
    IsCanonical rt (sentRequest opts url (headers.insert AUTHORIZATION signature))
      (canonicalRequest rt opts headers url) ↔
      CanonicalPath url.pathname ∧ ∀ e ∈ headers.entries, e.1 ≠ AUTHORIZATION ∧ Folded e.2 := by
  have hget : ∀ e ∈ headers.entries, headers.get? e.1 = some e.2 := fun e he => InsertionMap.get?_eq_some.mpr he
  have hmem : ∀ name, name ∈ signedNames headers ↔ ∃ e ∈ headers.entries, e.1 = name := by
    intro name
    rw [signedNames, (List.perm_insertionSort (· ≤ ·) _).mem_iff]
    exact List.mem_map
  rw [isCanonical_iff rt hlower, canonicalRequest, joinWith_six, joinWith_six, ← canonicalUri_eq_iff hpath]
  constructor
  · intro htext
    have hline : 10 ∉ (if url.pathname = [] then js "/" else url.pathname) := by
      split
      · decide
      · exact fun hmem => absurd (hpath 10 hmem).1 (by decide)
    obtain ⟨huri, hrest⟩ := line_inj hline (canonicalUri_plain _) (List.cons.inj (List.append_cancel_left htext)).2
    refine ⟨huri.symm, ?_⟩
    have hlengths := congrArg List.length (List.cons.inj (List.append_cancel_left hrest)).2
    have hheaders : ∀ name : JsString, (name ++ 58 :: headerValue ((headers.get? name).getD []) ++ [10]).length ≤
        (name ++ 58 :: (headers.get? name).getD (js "undefined") ++ [10]).length := by
      intro name
      have hvalue : (headerValue ((headers.get? name).getD [])).length ≤
          ((headers.get? name).getD (js "undefined")).length := by
        cases headers.get? name with
        | none => exact Nat.zero_le _
        | some value => exact length_headerValue_le value
      simp only [List.length_append, List.length_cons, List.length_nil]
      omega
    have hnames := length_joinWith_filter_le 59 (· ≠ AUTHORIZATION) (signedNames headers)
    have hhash : payloadHash rt opts = toHex (rt.sha256 opts.body) := rfl
    rw [List.length_append, List.length_append, List.length_cons, List.length_cons, List.length_append,
      List.length_append, List.length_cons, List.length_cons, hhash] at hlengths
    have hle : (canonicalHeaders headers).length ≤ (((signedNames headers).filter (· ≠ AUTHORIZATION)).flatMap
        fun name => name ++ 58 :: headerValue ((headers.get? name).getD []) ++ [10]).length := by
      omega
    have hpos : ∀ name : JsString, 0 < (name ++ 58 :: (headers.get? name).getD (js "undefined") ++ [10]).length := by
      intro name
      rw [List.length_append]
      exact Nat.succ_pos _
    have hkept := kept_of_length hheaders hpos hle
    intro e he
    obtain ⟨hother, hle⟩ := hkept e.1 ((hmem e.1).mpr ⟨e, he, rfl⟩)
    rw [hget e he] at hle
    simp only [Option.getD_some, List.length_append, List.length_cons, List.length_nil] at hle
    exact ⟨of_decide_eq_true hother, folded_of_length (by omega)⟩
  · intro h
    obtain ⟨huri, hall⟩ := h
    have hfilter : (signedNames headers).filter (· ≠ AUTHORIZATION) = signedNames headers := by
      refine List.filter_eq_self.mpr fun name hname => ?_
      obtain ⟨e, he, rfl⟩ := (hmem name).mp hname
      exact decide_eq_true (hall e he).1
    have hvalues : canonicalHeaders headers = (signedNames headers).flatMap
        fun name => name ++ 58 :: headerValue ((headers.get? name).getD []) ++ [10] := by
      rw [canonicalHeaders, List.flatMap_def, List.flatMap_def]
      refine congrArg List.flatten (List.map_congr_left fun name hname => ?_)
      obtain ⟨e, he, rfl⟩ := (hmem name).mp hname
      rw [hget e he, Option.getD_some, Option.getD_some, (hall e he).2.headerValue_eq]
    rw [huri, hfilter, hvalues]
    rfl

end Sending

/-! ## Names of headers -/

theorem lowerUnit_lowerUnit (u : CodeUnit) : lowerUnit (lowerUnit u) = lowerUnit u := by
  refine UInt16.toNat_inj.mp ?_
  rw [lowerUnit_toNat, lowerUnit_toNat]
  unfold asciiLower
  split
  · rw [if_neg (by omega)]
  · rfl

/-- A name that the source has put in lower case is in lower case. -/
theorem lowerName_toLowerCase {name : JsString} (h : ∀ u ∈ name, u < 128) :
    lowerName (rt.cases.toLowerCase name) = rt.cases.toLowerCase name := by
  obtain ⟨before, heq⟩ := rt.cases.lowerAfter_append h [] []
  rw [CaseTables.lowerAfter_nil, List.append_nil, List.append_nil, ← CaseTables.toLowerCase_eq] at heq
  rw [heq, lowerName, List.map_map]
  exact List.map_congr_left fun u _ => lowerUnit_lowerUnit u

/-- The names that the source gives to headers of its own. -/
def ownNames : List JsString :=
  [js "host", js "x-amz-date", js "x-amz-content-sha256", js "x-amz-security-token"]

theorem insert_names {m : InsertionMap JsString JsString} {name value : JsString} {p : JsString → Prop} :
    (∀ e ∈ (m.insert name value).entries, p e.1) ↔ p name ∧ ∀ e ∈ m.entries, p e.1 := by
  constructor
  · intro h
    have hname : p name := h (name, value) (InsertionMap.mem_insert.mpr (Or.inl rfl))
    refine ⟨hname, fun e he => ?_⟩
    by_cases heq : e.1 = name
    · rw [heq]
      exact hname
    · exact h e (InsertionMap.mem_insert.mpr (Or.inr ⟨heq, he⟩))
  · intro ⟨hname, hm⟩ e he
    rcases InsertionMap.mem_insert.mp he with rfl | ⟨-, he⟩
    · exact hname
    · exact hm e he

/-- A header is one of the source, or one that was given to it. -/
theorem headersOf_names {p : JsString → Prop} (opts : SignOptions) (credentials : AwsCredentials) (url : Url)
    (hown : ∀ name ∈ ownNames, p name) :
    (∀ e ∈ (headersOf rt opts credentials url).entries, p e.1) ↔ ∀ h ∈ opts.headers, p (rt.cases.toLowerCase h.1) := by
  have hfold : ∀ (given : List (JsString × JsString)) (m : InsertionMap JsString JsString),
      (∀ e ∈ (given.foldl (fun m h => m.insert (rt.cases.toLowerCase h.1) (trim h.2)) m).entries, p e.1) ↔
        (∀ e ∈ m.entries, p e.1) ∧ ∀ h ∈ given, p (rt.cases.toLowerCase h.1) := by
    intro given
    induction given with
    | nil => exact fun m => ⟨fun h => ⟨h, nofun⟩, fun h => h.1⟩
    | cons h given ih =>
      intro m
      rw [List.foldl_cons, ih, insert_names, List.forall_mem_cons]
      exact ⟨fun ⟨⟨hh, hm⟩, hrest⟩ => ⟨hm, hh, hrest⟩, fun ⟨hm, hh, hrest⟩ => ⟨⟨hh, hm⟩, hrest⟩⟩
  have hstart : ∀ e ∈ ((InsertionMap.empty.insert (js "host") (hostOf url)).insert (js "x-amz-date")
      (amzDate opts.date)).entries, p e.1 :=
    insert_names.mpr ⟨hown _ (by simp [ownNames]), insert_names.mpr ⟨hown _ (by simp [ownNames]), nofun⟩⟩
  rw [headersOf, hfold, and_iff_right]
  have hhash : ∀ e ∈ (if opts.includeContentSha256 then
      ((InsertionMap.empty.insert (js "host") (hostOf url)).insert (js "x-amz-date") (amzDate opts.date)).insert
        (js "x-amz-content-sha256") (payloadHash rt opts)
      else (InsertionMap.empty.insert (js "host") (hostOf url)).insert (js "x-amz-date") (amzDate opts.date)).entries,
      p e.1 := by
    split
    · exact insert_names.mpr ⟨hown _ (by simp [ownNames]), hstart⟩
    · exact hstart
  split
  · exact insert_names.mpr ⟨hown _ (by simp [ownNames]), hhash⟩
  · exact hhash

/-! ## Keys in a path -/

theorem canonicalSegment_append : ∀ {segment : JsString}, CanonicalSegment segment = true → ∀ tail : JsString,
    CanonicalSegment (segment ++ tail) = CanonicalSegment tail
  | [], _, _ => rfl
  | u :: s, h, tail => by
    rw [CanonicalSegment.eq_def] at h
    dsimp only at h
    by_cases hpercent : u = 37
    · rw [if_pos hpercent] at h
      match s, h with
      | high :: low :: s, h =>
        cases hh : readHexDigit high with
        | none => simp [hh] at h
        | some x =>
          cases hl : readHexDigit low with
          | none => simp [hh, hl] at h
          | some y =>
            simp only [hh, hl, Bool.and_eq_true] at h
            have ih := canonicalSegment_append h.2 tail
            rw [hpercent, List.cons_append, List.cons_append, List.cons_append, CanonicalSegment.eq_def]
            dsimp only
            rw [if_pos rfl, hh, hl]
            dsimp only
            rw [ih, h.1.1, h.1.2]
            rfl
    · rw [if_neg hpercent, Bool.and_eq_true] at h
      rw [List.cons_append, CanonicalSegment.eq_def]
      dsimp only
      rw [if_neg hpercent, canonicalSegment_append h.2 tail, h.1, Bool.true_and]

theorem canonicalSegment_of_notMem {segment : JsString} (h : 37 ∉ segment) :
    CanonicalSegment segment = segment.all UNRESERVED := by
  induction segment with
  | nil => rfl
  | cons u s ih =>
    have hu : u ≠ 37 := fun heq => h (heq ▸ List.mem_cons_self)
    rw [CanonicalSegment.eq_def]
    dsimp only
    rw [if_neg hu, ih fun hmem => h (List.mem_cons_of_mem _ hmem), List.all_cons]

/-- What comes behind a canonical path belongs to its last segment. -/
theorem canonicalPath_append {base tail : JsString} (hbase : CanonicalPath base) (htail : 47 ∉ tail) :
    CanonicalPath (base ++ tail) ↔ CanonicalSegment tail = true := by
  unfold CanonicalPath at hbase ⊢
  cases hbreak : breakLast 47 base with
  | none =>
    have hslash := not_mem_of_breakLast hbreak
    rw [split_of_notMem hslash] at hbase
    rw [split_of_notMem fun hmem => (List.mem_append.mp hmem).elim hslash htail,
      List.forall_mem_singleton, canonicalSegment_append (hbase base List.mem_cons_self)]
  | some found =>
    obtain ⟨before, last⟩ := found
    obtain ⟨rfl, hlast⟩ := breakLast_eq hbreak
    rw [split_append, split_of_notMem hlast] at hbase
    have hsplit : split 47 (before ++ 47 :: last ++ tail) = split 47 before ++ [last ++ tail] := by
      rw [List.append_assoc, List.cons_append, split_append,
        split_of_notMem fun hmem => (List.mem_append.mp hmem).elim hlast htail]
    have hsegment := canonicalSegment_append (hbase last (List.mem_append_right _ List.mem_cons_self)) tail
    rw [hsplit, List.forall_mem_append, List.forall_mem_singleton, hsegment, and_iff_right]
    exact fun segment hmem => hbase segment (List.mem_append_left _ hmem)

/-- The key of an object is canonical where it has no colon in it. -/
theorem canonicalSegment_key {clientId key : JsString} (h : safeKey clientId = some key) :
    key = clientId ∧ 47 ∉ key ++ js ".json" ∧ (CanonicalSegment (key ++ js ".json") = true ↔ 58 ∉ clientId) := by
  unfold safeKey at h
  split at h
  · next hsafe =>
    obtain rfl := Option.some.inj h
    have hunits := List.all_eq_true.mp hsafe.2.2
    have hnot : ∀ u : CodeUnit, isKeyUnit u = false → u ∉ js ".json" → u ∉ clientId ++ js ".json" := by
      intro u hkey hjson hmem
      refine (List.mem_append.mp hmem).elim (fun hmem => ?_) hjson
      rw [hunits u hmem] at hkey
      cases hkey
    refine ⟨rfl, hnot 47 (by decide) (by decide), ?_⟩
    rw [canonicalSegment_of_notMem (hnot 37 (by decide) (by decide)), List.all_append, Bool.and_eq_true,
      and_iff_left (by decide), List.all_eq_true]
    constructor
    · exact fun hall hcolon => absurd (hall 58 hcolon) (by decide)
    · intro hcolon u hu
      have hkey := hunits u hu
      have hne : u ≠ 58 := fun heq => hcolon (heq ▸ hu)
      simp only [isKeyUnit, Bool.or_eq_true, decide_eq_true_eq, hne, or_false] at hkey
      simp only [UNRESERVED, Bool.or_eq_true, decide_eq_true_eq]
      rcases hkey with (((hkey | hkey) | hkey) | hkey) | hkey
      · exact Or.inl (Or.inl (Or.inl (Or.inl hkey)))
      · exact Or.inl (Or.inl (Or.inr hkey))
      · exact Or.inl (Or.inr hkey)
      · exact Or.inr hkey
      · exact Or.inl (Or.inl (Or.inl (Or.inr hkey)))
  · cases h

/-! ## Requests for objects -/

/-- What is signed and what is sent for an object, with a query and with any method, headers and
body. -/
def signObject (store : S3Store) (opts : SignOptions) (clientId query : JsString) : Option (JsString × SentRequest) :=
  match safeKey clientId with
  | none => none
  | some key =>
    let opts := { opts with url := objectUrl store key ++ query }
    match opts.credentials, rt.parseUrl opts.url, signRequest rt opts with
    | some credentials, some url, some out =>
      some (canonicalRequest rt opts (headersOf rt opts credentials url) url, sentRequest opts url out)
    | _, _, _ => none

theorem signObject_iff (hparser : ∀ s url, rt.parseUrl s = some url → PathText url.pathname) {store : S3Store}
    {opts : SignOptions} (hnames : ∀ h ∈ opts.headers, ∀ u ∈ h.1, u < 128) {clientId query text : JsString}
    {sent : SentRequest} (hsign : signObject rt store opts clientId query = some (text, sent)) :
    IsCanonical rt sent text ↔
      CanonicalPath sent.pathname ∧ (∀ h ∈ opts.headers, rt.cases.toLowerCase h.1 ≠ AUTHORIZATION) ∧
        ∀ h ∈ sent.headers, h.1 ≠ AUTHORIZATION → Folded h.2 := by
  unfold signObject at hsign
  split at hsign
  · cases hsign
  · next key hkey =>
    dsimp only at hsign
    split at hsign
    · next credentials url out hcredentials hparse hout =>
      obtain ⟨rfl, rfl⟩ := Prod.mk.inj (Option.some.inj hsign)
      have hsigned : ∃ signature, out = (headersOf rt { opts with url := objectUrl store key ++ query } credentials
          url).insert AUTHORIZATION signature := by
        unfold signRequest at hout
        rw [hcredentials] at hout
        dsimp only at hout
        split at hout
        · cases hout
        · rw [hparse] at hout
          exact ⟨_, (Option.some.inj hout).symm⟩
      obtain ⟨signature, rfl⟩ := hsigned
      have hlower := (headersOf_names rt (p := fun name => lowerName name = name)
        { opts with url := objectUrl store key ++ query } credentials url (by decide)).mpr
          fun h hh => lowerName_toLowerCase rt (hnames h hh)
      have hother := headersOf_names rt (p := (· ≠ AUTHORIZATION))
        { opts with url := objectUrl store key ++ query } credentials url (by decide)
      rw [signed_iff rt hlower signature _ (hparser _ _ hparse), ← hother]
      refine and_congr_right fun _ => ⟨fun hall => ⟨fun e he => (hall e he).1, fun e he hne => ?_⟩,
        fun ⟨hnone, hfolded⟩ e he => ⟨hnone e he, ?_⟩⟩
      · rcases InsertionMap.mem_insert.mp he with rfl | ⟨-, he⟩
        · exact absurd rfl hne
        · exact (hall e he).2
      · exact hfolded e (InsertionMap.mem_insert.mpr (Or.inr ⟨hnone e he, he⟩)) (hnone e he)
    · cases hsign

theorem signObject_key {store : S3Store} {opts : SignOptions} {clientId query : JsString}
    {signed : JsString × SentRequest} (hsign : signObject rt store opts clientId query = some signed) :
    ∃ key, safeKey clientId = some key := by
  unfold signObject at hsign
  split at hsign
  · cases hsign
  · next key hkey => exact ⟨key, hkey⟩

namespace Sample

/-- A bucket of client records. -/
def records : S3Store where
  s3Bucket := js "records"
  s3Region := js "eu-west-1"
  keyPrefix := js "clients/"
  s3Endpoint := none

/-- The platform, with the URLs of two objects. -/
def objectRuntime : Runtime :=
  { runtime with
    parseUrl := fun s =>
      [js "rp.example", js "urn:rp"].findSome? fun key =>
        if s = objectUrl records key then
          some ⟨s, js "https:", [], [], js "records.s3.eu-west-1.amazonaws.com", [], js "/clients/" ++ key ++ js ".json",
            [], []⟩
        else none }

theorem objectRuntime_paths (s : JsString) (url : Url) (h : objectRuntime.parseUrl s = some url) :
    PathText url.pathname := by
  obtain ⟨key, hkey, hfound⟩ := List.exists_of_findSome?_eq_some h
  split at hfound
  · rw [← Option.some.inj hfound]
    have hall : ∀ key ∈ [js "rp.example", js "urn:rp"], ∀ u ∈ js "/clients/" ++ key ++ js ".json",
        0x21 ≤ u ∧ u ≤ 0x7E := by decide +kernel
    exact hall key hkey
  · cases hfound

/-- What the store asks to be signed. -/
def lookup (clientId : JsString) : SignOptions :=
  objectOptions records (some ⟨js "AKIDEXAMPLE", js "secret", none⟩) (js "2026-08-22T10:15:30.000Z") clientId

end Sample

end Sag
