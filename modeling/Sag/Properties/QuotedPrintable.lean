import Sag.Mime

/-!
# Quoted-printable text

What `quotedPrintable` writes is to be read back by RFC 2045 (`quotedDecode`) as the text it was
given, on lines of no more than 76 characters, of which none ends in a blank. Two things go wrong
(`quoted_exact`). A space at the very end is left as it is, so the last line ends in it and a
reader drops it. And a space before a line break is escaped where it stands: in column 75 that
takes the line to 77.
-/

namespace Sag

/-- RFC 2045, section 6.7: `blanks` are those that have been read since the last other
character. They belong to the text unless the line ends with them. -/
def quotedDecode (blanks : Bytes) : JsString → Option Bytes
  | [] => some []
  | u :: s =>
    if u = 32 ∨ u = 9 then quotedDecode (blanks ++ [UInt8.ofNat u.toNat]) s
    else if u = CR then
      match s with
      | v :: s => if v = LF then (quotedDecode [] s).map fun bytes => 13 :: 10 :: bytes else none
      | [] => none
    else if u = 61 then
      match s with
      | v :: w :: s =>
        if v = CR ∧ w = LF then (quotedDecode [] s).map (blanks ++ ·)
        else
          match readHexDigit v, readHexDigit w with
          | some high, some low => (quotedDecode [] s).map (blanks ++ UInt8.ofNat (high * 16 + low) :: ·)
          | _, _ => none
      | _ => none
    else if 33 ≤ u.toNat ∧ u.toNat ≤ 126 then (quotedDecode [] s).map (blanks ++ UInt8.ofNat u.toNat :: ·)
    else none

/-- The text ends in a blank. -/
def EndsBlank (line : JsString) : Prop := line.getLast? = some 32 ∨ line.getLast? = some 9

/-- What was written is the text, as RFC 2045 has it. -/
structure QuotedFor (input encoded : JsString) : Prop where
  decodes : quotedDecode [] encoded = some (utf8 (normaliseBreaks input))
  short : ∀ line ∈ linesOf encoded, line.length ≤ 76
  trimmed : ∀ line ∈ linesOf encoded, ¬ EndsBlank line

/-- The column at which the bytes of a line end, if it begins at column `n`: three for a byte
that is escaped and one for any other, on lines that are full at 75. -/
def columnOf (n : Nat) (line : Bytes) : Nat := line.foldl columnAfter n

/-- The lines of a text in bytes. -/
def byteLines (bytes : Bytes) : List Bytes := Lines.cut 13 10 bytes

/-- The text does not end in a space, and no line of it that a break follows has a space at its
end that is written in column 75. -/
structure Unpadded (bytes : Bytes) : Prop where
  last : bytes.getLast? ≠ some 32
  lines : ∀ line ∈ (byteLines bytes).dropLast, line.getLast? = some 32 → columnOf 0 line ≠ 75

/-! ## Reading what was written -/

theorem quotedDecode_hexByte (blanks : Bytes) (b : UInt8) (s : JsString) :
    quotedDecode blanks (61 :: hexByte b ++ s) = (quotedDecode [] s).map (blanks ++ b :: ·) := by
  obtain ⟨hhigh, hlow, hbyte⟩ := readHexDigit_hexByte b
  have hcr : ¬ (upperHexDigit (b.toNat / 16) = CR ∧ upperHexDigit (b.toNat % 16) = LF) := by
    intro hmark
    rw [hmark.1] at hhigh
    cases hhigh
  show quotedDecode blanks (61 :: upperHexDigit (b.toNat / 16) :: upperHexDigit (b.toNat % 16) :: s) = _
  rw [quotedDecode.eq_def]
  dsimp only
  rw [if_neg (by decide), if_neg (by decide), if_pos rfl, if_neg hcr, hhigh, hlow]
  dsimp only
  rw [hbyte]

theorem quotedDecode_soft (blanks : Bytes) (s : JsString) :
    quotedDecode blanks (js "=" ++ crlf ++ s) = (quotedDecode [] s).map (blanks ++ ·) := by
  show quotedDecode blanks (61 :: CR :: LF :: s) = _
  rw [quotedDecode.eq_def]
  dsimp only
  rw [if_neg (by decide), if_neg (by decide), if_pos rfl, if_pos ⟨rfl, rfl⟩]

theorem quotedDecode_crlf (blanks : Bytes) (s : JsString) :
    quotedDecode blanks (crlf ++ s) = (quotedDecode [] s).map fun bytes => 13 :: 10 :: bytes := by
  show quotedDecode blanks (CR :: LF :: s) = _
  rw [quotedDecode.eq_def]
  dsimp only
  rw [if_neg (by decide), if_pos rfl, if_pos rfl]

/-- A soft line break is read as nothing, wherever it stands. -/
theorem quotedDecode_softBreak {blanks bytes : Bytes} {n : Nat} {b : UInt8} {s : JsString}
    (h : ∀ blanks, quotedDecode blanks s = some (blanks ++ bytes)) :
    quotedDecode blanks (softBreak n b ++ s) = some (blanks ++ bytes) := by
  unfold softBreak
  split
  · rw [quotedDecode_soft, h []]
    rfl
  · exact h blanks

theorem quotedDecode_space (blanks : Bytes) (s : JsString) :
    quotedDecode blanks (quotedChunk 32 ++ s) = quotedDecode (blanks ++ [32]) s := by
  show quotedDecode blanks (32 :: s) = _
  rw [quotedDecode.eq_def]
  dsimp only
  rw [if_pos (Or.inl rfl)]
  rfl

/-- Any other byte is read as itself, after the blanks before it. -/
theorem quotedDecode_chunk {b : UInt8} (hb : b ≠ 32) (blanks : Bytes) (s : JsString) :
    quotedDecode blanks (quotedChunk b ++ s) = (quotedDecode [] s).map (blanks ++ b :: ·) := by
  rcases quotedChunk_cases b with ⟨hchunk, -⟩ | ⟨hchunk, hlow, hhigh, hequals⟩
  · rw [hchunk, quotedDecode_hexByte]
  · have hnat : (UInt16.ofNat b.toNat).toNat = b.toNat := UInt16.toNat_ofNat_of_lt' (by simp [UInt16.size]; omega)
    have hspace : b.toNat ≠ 32 := fun heq => hb (UInt8.toNat_inj.mp heq)
    have other : ∀ u : CodeUnit, u.toNat ≠ b.toNat → UInt16.ofNat b.toNat ≠ u := by
      intro u hne heq
      rw [← heq, hnat] at hne
      exact hne rfl
    have hblank : ¬ (UInt16.ofNat b.toNat = 32 ∨ UInt16.ofNat b.toNat = 9) := by
      intro h
      rcases h with h | h
      · exact other 32 (Ne.symm hspace) h
      · exact other 9 (by rw [show (9 : CodeUnit).toNat = 9 from rfl]; omega) h
    rw [hchunk, List.singleton_append, quotedDecode.eq_def]
    dsimp only
    rw [if_neg hblank, if_neg (other CR (by rw [show CR.toNat = 13 from rfl]; omega)),
      if_neg (other 61 (by rw [show (61 : CodeUnit).toNat = 61 from rfl]; omega)), hnat, if_pos (by omega),
      UInt8.ofNat_toNat]

/-- What is written from any column on is read as the bytes, unless they end in a space. -/
theorem quotedDecode_quotedFrom : ∀ (bytes : Bytes) (n : Nat) (blanks : Bytes), bytes.getLast? ≠ some 32 →
    (bytes = [] ∨ breaks bytes = true → blanks = []) →
      quotedDecode blanks (quotedFrom n bytes) = some (blanks ++ bytes)
  | [], n, blanks, _, hblanks => by rw [hblanks (Or.inl rfl)]; rfl
  | [b], n, blanks, hlast, _ => by
    have hb : b ≠ 32 := fun heq => hlast (by rw [heq]; rfl)
    rw [quotedFrom]
    refine quotedDecode_softBreak fun blanks => ?_
    have hread := quotedDecode_chunk hb blanks []
    rwa [List.append_nil] at hread
  | b :: c :: rest, n, blanks, hlast, hblanks => by
    have hlast' : (c :: rest).getLast? ≠ some 32 := by rwa [List.getLast?_cons_cons] at hlast
    rw [quotedFrom]
    by_cases hbreak : b = 13 ∧ c = 10
    · obtain ⟨rfl, rfl⟩ := hbreak
      have hrest : rest.getLast? ≠ some 32 := by
        cases rest with
        | nil => exact fun e => by cases e
        | cons d rest => rwa [List.getLast?_cons_cons] at hlast'
      rw [if_pos ⟨rfl, rfl⟩, quotedDecode_crlf, quotedDecode_quotedFrom rest 0 [] hrest fun _ => rfl,
        hblanks (Or.inr rfl)]
      rfl
    · rw [if_neg hbreak, List.append_assoc]
      refine quotedDecode_softBreak fun blanks => ?_
      by_cases hb : b = 32
      · subst hb
        by_cases hnext : breaks (c :: rest) = true
        · have hread := quotedDecode_hexByte blanks 32 (quotedFrom (columnAfter n 32) (c :: rest))
          rw [quotedDecode_quotedFrom (c :: rest) _ [] hlast' fun _ => rfl] at hread
          rw [if_pos (by rw [hnext]; rfl)]
          exact hread
        · have hblanks' : c :: rest = [] ∨ breaks (c :: rest) = true → blanks ++ [32] = [] := by
            intro h
            rcases h with h | h
            · cases h
            · exact absurd h hnext
          rw [if_neg (by rw [Bool.eq_false_iff.mpr hnext]; exact Bool.false_ne_true), quotedDecode_space,
            quotedDecode_quotedFrom (c :: rest) _ _ hlast' hblanks', List.append_assoc]
          rfl
      · rw [if_neg (by rw [decide_eq_false hb]; exact Bool.false_ne_true), quotedDecode_chunk hb,
          quotedDecode_quotedFrom (c :: rest) _ [] hlast' fun _ => rfl]
        rfl
termination_by bytes => bytes.length

/-! ## Lines -/

/-- A line as RFC 2045 has it. -/
def GoodLine (line : JsString) : Prop := line.length ≤ 76 ∧ ¬ EndsBlank line

theorem not_endsBlank_nil : ¬ EndsBlank [] := fun h => h.elim (fun e => by cases e) fun e => by cases e

/-- All lines of a text are such. -/
def GoodLines (s : JsString) : Prop := ∀ line ∈ linesOf s, GoodLine line

theorem goodLines_line {line : JsString} (h : CR ∉ line) : GoodLines line ↔ GoodLine line := by
  unfold GoodLines linesOf
  rw [Lines.cut_of_notMem h]
  exact ⟨fun hall => hall line List.mem_cons_self, fun hgood l hl => List.mem_singleton.mp hl ▸ hgood⟩

theorem goodLines_crlf {line : JsString} (h : CR ∉ line) (s : JsString) :
    GoodLines (line ++ (crlf ++ s)) ↔ GoodLine line ∧ GoodLines s := by
  unfold GoodLines linesOf
  rw [show line ++ (crlf ++ s) = line ++ CR :: LF :: s from rfl, Lines.cut_line h, List.forall_mem_cons]

theorem quotedChunk_spec (b : UInt8) :
    (1 ≤ (quotedChunk b).length ∧ (quotedChunk b).length ≤ 3) ∧ CR ∉ quotedChunk b := by
  have hall : ∀ n : Fin 256, (1 ≤ (quotedChunk (UInt8.ofNat n)).length ∧ (quotedChunk (UInt8.ofNat n)).length ≤ 3) ∧
      CR ∉ quotedChunk (UInt8.ofNat n) := by decide +kernel
  have hb := hall ⟨b.toNat, b.toNat_lt⟩
  rwa [UInt8.ofNat_toNat] at hb

theorem columnAfter_le {n : Nat} {b : UInt8} : columnAfter n b ≤ 75 := by
  obtain ⟨⟨-, hlength⟩, -⟩ := quotedChunk_spec b
  unfold columnAfter
  split <;> omega

/-- Before a byte the line goes on, or a full one ends in `=` and the next begins. -/
theorem goodLines_soft {line : JsString} (h : CR ∉ line) (hlength : line.length ≤ 75) (b : UInt8) :
    ∃ line', CR ∉ line' ∧ line'.length + (quotedChunk b).length = columnAfter line.length b ∧
      ∀ s, GoodLines (line ++ (softBreak line.length b ++ s)) ↔ GoodLines (line' ++ s) := by
  unfold softBreak columnAfter
  by_cases hfull : 75 < line.length + (quotedChunk b).length
  · refine ⟨[], List.not_mem_nil, ?_, fun s => ?_⟩
    · rw [if_pos hfull, List.length_nil, Nat.zero_add]
    · have hcr : CR ∉ line ++ js "=" := by
        rw [List.mem_append, not_or]
        exact ⟨h, by decide⟩
      have hgood : GoodLine (line ++ js "=") := by
        refine ⟨?_, ?_⟩
        · rw [List.length_append]
          exact Nat.succ_le_succ hlength
        · unfold EndsBlank
          rw [show js "=" = [61] from rfl, List.getLast?_concat]
          exact fun hblank => hblank.elim nofun nofun
      rw [if_pos hfull, List.nil_append, show line ++ (js "=" ++ crlf ++ s) = line ++ js "=" ++ (crlf ++ s) by
        simp only [List.append_assoc], goodLines_crlf hcr, and_iff_right hgood]
  · refine ⟨line, h, ?_, fun s => ?_⟩
    · rw [if_neg hfull]
    · rw [if_neg hfull, List.nil_append]

/-- No line that is written from column `n` on is too long or ends in a blank. -/
def FitsFrom (n : Nat) : Bytes → Prop
  | [] => True
  | [b] => b ≠ 32
  | b :: c :: rest =>
    if b = 13 ∧ c = 10 then FitsFrom 0 rest
    else (b = 32 → breaks (c :: rest) = true → columnAfter n b ≠ 75) ∧ FitsFrom (columnAfter n b) (c :: rest)

theorem goodLines_quotedFrom : ∀ (bytes : Bytes) (line : JsString), CR ∉ line → line.length ≤ 75 →
    (bytes = [] ∨ breaks bytes = true → ¬ EndsBlank line) →
      (GoodLines (line ++ quotedFrom line.length bytes) ↔ FitsFrom line.length bytes)
  | [], line, hcr, hlength, hblank => by
    rw [quotedFrom, List.append_nil, goodLines_line hcr]
    exact ⟨fun _ => trivial, fun _ => ⟨Nat.le_succ_of_le hlength, hblank (Or.inl rfl)⟩⟩
  | [b], line, hcr, hlength, _ => by
    obtain ⟨line', hcr', hcolumn, hsoft⟩ := goodLines_soft hcr hlength b
    have hchunk : CR ∉ line' ++ quotedChunk b := by
      rw [List.mem_append, not_or]
      exact ⟨hcr', (quotedChunk_spec b).2⟩
    rw [quotedFrom, hsoft, goodLines_line hchunk]
    constructor
    · intro hgood hb
      rw [hb] at hgood
      refine hgood.2 (Or.inl ?_)
      rw [show quotedChunk 32 = [32] from rfl, List.getLast?_concat]
    · intro hb
      obtain ⟨u, hu, h32, h9⟩ := quotedChunk_getLast hb
      refine ⟨?_, ?_⟩
      · rw [List.length_append, hcolumn]
        exact Nat.le_succ_of_le columnAfter_le
      · unfold EndsBlank
        rw [List.getLast?_append, hu]
        exact fun hblank => hblank.elim (fun heq => h32 (Option.some.inj heq)) fun heq => h9 (Option.some.inj heq)
  | b :: c :: rest, line, hcr, hlength, hblank => by
    rw [quotedFrom, FitsFrom]
    by_cases hbreak : b = 13 ∧ c = 10
    · have hgood : GoodLine line := ⟨Nat.le_succ_of_le hlength,
        hblank (Or.inr (breaks_iff.mpr ⟨rest, by rw [hbreak.1, hbreak.2]⟩))⟩
      have hrest := goodLines_quotedFrom rest [] List.not_mem_nil (Nat.zero_le _) fun _ => not_endsBlank_nil
      rw [if_pos hbreak, if_pos hbreak, goodLines_crlf hcr, and_iff_right hgood]
      exact hrest
    · obtain ⟨line', hcr', hcolumn, hsoft⟩ := goodLines_soft hcr hlength b
      rw [if_neg hbreak, if_neg hbreak, List.append_assoc, hsoft]
      by_cases hspace : b = 32 ∧ breaks (c :: rest) = true
      · -- the line ends here, two characters longer than it was counted
        obtain ⟨rfl, hnext⟩ := hspace
        obtain ⟨rest', heq⟩ := breaks_iff.mp hnext
        obtain ⟨rfl, rfl⟩ := List.cons.inj heq
        have hended : CR ∉ line' ++ js "=20" := by
          rw [List.mem_append, not_or]
          exact ⟨hcr', by decide⟩
        have hnoblank : ¬ EndsBlank (line' ++ js "=20") := by
          unfold EndsBlank
          rw [List.getLast?_append]
          exact fun hblank => hblank.elim (fun e => by cases e) fun e => by cases e
        have hgood : GoodLine (line' ++ js "=20") ↔ columnAfter line.length 32 ≠ 75 := by
          have hone : (quotedChunk 32).length = 1 := rfl
          have hthree : (js "=20").length = 3 := rfl
          have hle : columnAfter line.length 32 ≤ 75 := columnAfter_le
          unfold GoodLine
          rw [and_iff_left hnoblank, List.length_append, hthree]
          omega
        have hrest := goodLines_quotedFrom rest' [] List.not_mem_nil (Nat.zero_le _) fun _ => not_endsBlank_nil
        rw [if_pos (by rw [hnext]; rfl), quotedFrom, if_pos ⟨rfl, rfl⟩, ← List.append_assoc, goodLines_crlf hended,
          hgood, FitsFrom, if_pos ⟨rfl, rfl⟩]
        exact and_congr ⟨fun hne _ _ => hne, fun hne => hne rfl rfl⟩ hrest
      · have hchunk : CR ∉ line' ++ quotedChunk b := by
          rw [List.mem_append, not_or]
          exact ⟨hcr', (quotedChunk_spec b).2⟩
        have hlength' : (line' ++ quotedChunk b).length = columnAfter line.length b := by
          rw [List.length_append, hcolumn]
        have hrest := goodLines_quotedFrom (c :: rest) (line' ++ quotedChunk b) hchunk
          (by rw [hlength']; exact columnAfter_le) (by
            intro h
            rcases h with h | hnext
            · cases h
            · obtain ⟨u, hu, h32, h9⟩ := quotedChunk_getLast fun hb => hspace ⟨hb, hnext⟩
              unfold EndsBlank
              rw [List.getLast?_append, hu]
              exact fun hblank =>
                hblank.elim (fun heq => h32 (Option.some.inj heq)) fun heq => h9 (Option.some.inj heq))
        rw [hlength', List.append_assoc] at hrest
        rw [if_neg (by rw [Bool.and_eq_true, decide_eq_true_eq]; exact hspace), hrest]
        exact ⟨fun hfits => ⟨fun hb hnext => absurd ⟨hb, hnext⟩ hspace, hfits⟩, fun hfits => hfits.2⟩
termination_by bytes => bytes.length

/-- The line ends in a space that is written in column 75. -/
def PadsAt (n : Nat) (line : Bytes) : Prop := line.getLast? = some 32 ∧ columnOf n line = 75

theorem not_padsAt_nil {n : Nat} : ¬ PadsAt n [] := fun h => by cases h.1

/-- The same of the lines, if the first begins at column `n`. -/
def LinesFit (n : Nat) : List Bytes → Prop
  | [] => True
  | line :: lines => (lines ≠ [] → ¬ PadsAt n line) ∧ ∀ l ∈ lines.dropLast, ¬ PadsAt 0 l

theorem byteLines_ne_nil (bytes : Bytes) : byteLines bytes ≠ [] := Lines.cut_ne_nil bytes

/-- Only a break makes an empty line that something follows. -/
theorem breaks_of_byteLines {bytes : Bytes} {lines : List Bytes} (hne : bytes ≠ []) :
    byteLines bytes = [] :: lines → breaks bytes = true := by
  intro h
  match bytes with
  | [] => exact absurd rfl hne
  | [b] => cases h
  | b :: c :: rest =>
    by_cases hbreak : b = 13 ∧ c = 10
    · exact breaks_iff.mpr ⟨rest, by rw [hbreak.1, hbreak.2]⟩
    · unfold byteLines at h
      rw [Lines.cut, if_neg hbreak] at h
      cases hcut : Lines.cut 13 10 (c :: rest) with
      | nil => exact absurd hcut (Lines.cut_ne_nil _)
      | cons l ls =>
        rw [hcut] at h
        cases h

theorem fitsFrom_iff : ∀ (bytes : Bytes) (n : Nat),
    FitsFrom n bytes ↔ bytes.getLast? ≠ some 32 ∧ LinesFit n (byteLines bytes)
  | [], n => ⟨fun _ => ⟨fun e => (by cases e), fun h => absurd rfl h, fun _ h => absurd h List.not_mem_nil⟩, fun _ => trivial⟩
  | [b], n => by
    rw [FitsFrom]
    constructor
    · exact fun hb => ⟨fun h => hb (Option.some.inj h), fun h => absurd rfl h, fun _ h => absurd h List.not_mem_nil⟩
    · exact fun h hb => h.1 (by rw [hb]; rfl)
  | b :: c :: rest, n => by
    rw [FitsFrom, List.getLast?_cons_cons]
    unfold byteLines
    by_cases hbreak : b = 13 ∧ c = 10
    · obtain ⟨rfl, rfl⟩ := hbreak
      have hlast : (10 :: rest).getLast? ≠ some 32 ↔ rest.getLast? ≠ some 32 := by
        cases rest with
        | nil => exact ⟨fun _ e => (by cases e), fun _ e => (by cases e)⟩
        | cons d rest => rw [List.getLast?_cons_cons]
      rw [if_pos ⟨rfl, rfl⟩, Lines.cut_mark, fitsFrom_iff rest 0, hlast]
      refine and_congr_right fun _ => ?_
      unfold byteLines
      cases hcut : Lines.cut 13 10 rest with
      | nil => exact absurd hcut (Lines.cut_ne_nil _)
      | cons l ls =>
        have hempty : ¬ PadsAt n [] := not_padsAt_nil
        constructor
        · intro hfit
          refine ⟨fun _ => hempty, fun l' hl' => ?_⟩
          cases ls with
          | nil => exact absurd hl' List.not_mem_nil
          | cons l₂ ls =>
            rcases List.mem_cons.mp hl' with rfl | hl'
            · exact hfit.1 (List.cons_ne_nil _ _)
            · exact hfit.2 l' hl'
        · intro hfit
          refine ⟨fun hne => hfit.2 l ?_, fun l' hl' => hfit.2 l' ?_⟩
          · obtain ⟨l₂, ls', rfl⟩ := List.exists_cons_of_ne_nil hne
            exact List.mem_cons_self
          · cases ls with
            | nil => exact absurd hl' List.not_mem_nil
            | cons l₂ ls => exact List.mem_cons_of_mem _ hl'
    · rw [if_neg hbreak, Lines.cut, if_neg hbreak, fitsFrom_iff (c :: rest)]
      unfold byteLines
      cases hcut : Lines.cut 13 10 (c :: rest) with
      | nil => exact absurd hcut (Lines.cut_ne_nil _)
      | cons l ls =>
        have hshort : l = [] → breaks (c :: rest) = true := by
          intro hl
          exact breaks_of_byteLines (List.cons_ne_nil _ _) (hl ▸ hcut)
        have hlong : breaks (c :: rest) = true → l = [] ∧ ls ≠ [] := by
          intro hnext
          obtain ⟨rest', heq⟩ := breaks_iff.mp hnext
          rw [heq, Lines.cut_mark] at hcut
          obtain ⟨rfl, rfl⟩ := List.cons.inj hcut
          exact ⟨rfl, Lines.cut_ne_nil _⟩
        have hhead : PadsAt n (b :: l) ↔
            (l = [] ∧ b = 32 ∧ columnAfter n b = 75) ∨ (l ≠ [] ∧ PadsAt (columnAfter n b) l) := by
          cases l with
          | nil =>
            constructor
            · exact fun h => Or.inl ⟨rfl, Option.some.inj h.1, h.2⟩
            · intro h
              rcases h with ⟨-, hb, hcolumn⟩ | ⟨hne, -⟩
              · exact ⟨congrArg some hb, hcolumn⟩
              · exact absurd rfl hne
          | cons d l =>
            unfold PadsAt
            rw [List.getLast?_cons_cons]
            constructor
            · exact fun h => Or.inr ⟨List.cons_ne_nil _ _, h⟩
            · intro h
              rcases h with ⟨hnil, -⟩ | ⟨-, h⟩
              · cases hnil
              · exact h
        rw [List.modifyHead_cons]
        constructor
        · intro h
          obtain ⟨hspace, hlast, hfit⟩ := h
          refine ⟨hlast, fun hne hpads => ?_, hfit.2⟩
          rcases hhead.mp hpads with ⟨hnil, hb, hcolumn⟩ | ⟨-, hpads⟩
          · exact hspace hb (hshort hnil) hcolumn
          · exact hfit.1 hne hpads
        · intro h
          obtain ⟨hlast, hfit⟩ := h
          refine ⟨fun hb hnext hcolumn => ?_, hlast, fun hne hpads => ?_, hfit.2⟩
          · obtain ⟨hnil, hne⟩ := hlong hnext
            exact hfit.1 hne (hhead.mpr (Or.inl ⟨hnil, hb, hcolumn⟩))
          · refine hfit.1 hne (hhead.mpr (Or.inr ⟨fun hnil => ?_, hpads⟩))
            rw [hnil] at hpads
            exact not_padsAt_nil hpads
termination_by bytes => bytes.length

theorem linesFit_iff (bytes : Bytes) :
    LinesFit 0 (byteLines bytes) ↔
      ∀ line ∈ (byteLines bytes).dropLast, line.getLast? = some 32 → columnOf 0 line ≠ 75 := by
  cases hlines : byteLines bytes with
  | nil => exact absurd hlines (byteLines_ne_nil _)
  | cons l ls =>
    cases ls with
    | nil => exact ⟨fun _ _ h => absurd h List.not_mem_nil,
      fun _ => ⟨fun h => absurd rfl h, fun _ h => absurd h List.not_mem_nil⟩⟩
    | cons l₂ ls =>
      rw [List.dropLast_cons_cons, List.forall_mem_cons]
      constructor
      · exact fun hfit => ⟨fun hlast hcolumn => hfit.1 (List.cons_ne_nil _ _) ⟨hlast, hcolumn⟩,
          fun line hline hlast hcolumn => hfit.2 line hline ⟨hlast, hcolumn⟩⟩
      · exact fun hall => ⟨fun _ hpads => hall.1 hpads.1 hpads.2,
        fun line hline hpads => hall.2 line hline hpads.1 hpads.2⟩

/-- The text is written as RFC 2045 has it just if it is not padded where that goes wrong. -/
theorem quoted_exact (input : JsString) :
    QuotedFor input (quotedPrintable input) ↔ Unpadded (utf8 (normaliseBreaks input)) := by
  have hlines := goodLines_quotedFrom (utf8 (normaliseBreaks input)) [] List.not_mem_nil (Nat.zero_le _)
    fun _ h => h.elim nofun nofun
  rw [List.nil_append, List.length_nil, fitsFrom_iff, linesFit_iff] at hlines
  rw [quotedPrintable_eq]
  constructor
  · intro h
    obtain ⟨hlast, hfit⟩ := hlines.mp fun line hline => ⟨h.short line hline, h.trimmed line hline⟩
    exact ⟨hlast, hfit⟩
  · intro h
    have hgood := hlines.mpr ⟨h.last, h.lines⟩
    exact
      { decodes := quotedDecode_quotedFrom _ 0 [] h.last fun _ => rfl
        short := fun line hline => (hgood line hline).1
        trimmed := fun line hline => (hgood line hline).2 }

namespace Sample

/-- Seventy-four letters, a space and a line break take a line of seventy-seven characters; and a
space at the end stays there. -/
theorem padded_text :
    (linesOf (quotedPrintable (List.replicate 74 120 ++ js " \nx"))).map List.length = [77, 1] ∧
      quotedPrintable (js "code: ") = js "code: " ∧
      ¬ QuotedFor (List.replicate 74 120 ++ js " \nx") (quotedPrintable (List.replicate 74 120 ++ js " \nx")) ∧
      ¬ QuotedFor (js "code: ") (quotedPrintable (js "code: ")) := by
  have hlines : (linesOf (quotedPrintable (List.replicate 74 120 ++ js " \nx"))).map List.length = [77, 1] ∧
      quotedPrintable (js "code: ") = js "code: " := by decide +kernel
  refine ⟨hlines.1, hlines.2, fun h => ?_, fun h => ?_⟩
  · have hlong : 77 ∈ (linesOf (quotedPrintable (List.replicate 74 120 ++ js " \nx"))).map List.length := by
      rw [hlines.1]
      exact List.mem_cons_self
    obtain ⟨line, hline, hlength⟩ := List.mem_map.mp hlong
    have hshort := h.short line hline
    omega
  · have htrimmed := h.trimmed (js "code: ")
    rw [hlines.2] at htrimmed
    exact htrimmed (by decide) (Or.inl rfl)

end Sample

end Sag
