/-!
# Lines

A text is cut into lines at a mark of two symbols, `cr lf`; either of them by itself is a
symbol like any other. `cut` gives the lines without their marks, and `cut_append` reads a text
from the left: what has no `cr` in it goes to the line that comes next.

A text is sent in a stream behind which more may follow by dot stuffing: a line that begins with
a dot is given a second one (`stuff`), and a line of a dot alone ends the text. `receive` undoes
it, whatever follows (`receive_stuff`), for every text that does not begin with a dot.
-/

namespace Lines

variable {α : Type} [DecidableEq α] (cr lf : α)

/-- The lines of a text; the last one is what follows the last mark. -/
def cut : List α → List (List α)
  | [] => [[]]
  | [x] => [[x]]
  | x :: y :: s => if x = cr ∧ y = lf then [] :: cut s else (cut (y :: s)).modifyHead (x :: ·)

theorem cut_mark (s : List α) : cut cr lf (cr :: lf :: s) = [] :: cut cr lf s := by
  rw [cut, if_pos ⟨rfl, rfl⟩]

variable {cr lf}

/-- A symbol that begins no mark. -/
theorem cut_cons {x : α} {s : List α} (h : ¬ (x = cr ∧ s.head? = some lf)) :
    cut cr lf (x :: s) = (cut cr lf s).modifyHead (x :: ·) := by
  cases s with
  | nil => rfl
  | cons y s =>
    rw [cut, if_neg]
    intro hmark
    exact h ⟨hmark.1, congrArg some hmark.2⟩

theorem cut_append {a : List α} (h : cr ∉ a) (s : List α) :
    cut cr lf (a ++ s) = (cut cr lf s).modifyHead (a ++ ·) := by
  induction a with
  | nil =>
    rw [List.nil_append]
    cases cut cr lf s with
    | nil => rfl
    | cons l ls => rfl
  | cons x a ih =>
    have hx : ¬ (x = cr ∧ (a ++ s).head? = some lf) := fun hmark => h (hmark.1 ▸ List.mem_cons_self)
    rw [List.cons_append, cut_cons hx, ih fun hmem => h (List.mem_cons_of_mem _ hmem), List.modifyHead_modifyHead]
    rfl

theorem cut_ne_nil : ∀ s : List α, cut cr lf s ≠ [] := by
  intro s
  induction s using cut.induct cr lf with
  | case1 => exact List.cons_ne_nil _ _
  | case2 x => exact List.cons_ne_nil _ _
  | case3 x y s hmark _ =>
    rw [cut, if_pos hmark]
    exact List.cons_ne_nil _ _
  | case4 x y s hmark ih =>
    rw [cut, if_neg hmark]
    cases hcut : cut cr lf (y :: s) with
    | nil => exact absurd hcut ih
    | cons l ls => exact List.cons_ne_nil _ _

/-- A line with its mark. -/
theorem cut_line {a : List α} (h : cr ∉ a) (s : List α) :
    cut cr lf (a ++ cr :: lf :: s) = a :: cut cr lf s := by
  rw [cut_append h, cut_mark, List.modifyHead_cons, List.append_nil]

theorem cut_of_notMem {a : List α} (h : cr ∉ a) : cut cr lf a = [a] := by
  have hcut : cut cr lf (a ++ []) = _ := cut_append h []
  rwa [List.append_nil, cut, List.modifyHead_cons, List.append_nil] at hcut

/-- The text behind a mark is cut by itself. -/
theorem cut_append_mark (hne : cr ≠ lf) (a b : List α) :
    cut cr lf (a ++ cr :: lf :: b) = cut cr lf a ++ cut cr lf b := by
  induction a using cut.induct cr lf with
  | case1 => exact cut_mark cr lf b
  | case2 x =>
    have hx : ¬ (x = cr ∧ (cr :: lf :: b).head? = some lf) := fun hmark => hne (Option.some.inj hmark.2)
    rw [List.singleton_append, cut_cons hx, cut_mark]
    rfl
  | case3 x y s hmark ih =>
    obtain ⟨rfl, rfl⟩ := hmark
    rw [List.cons_append, List.cons_append, cut_mark, cut_mark, ih]
    rfl
  | case4 x y s hmark ih =>
    have hx : ¬ (x = cr ∧ (y :: s).head? = some lf) := fun h => hmark ⟨h.1, Option.some.inj h.2⟩
    have hx' : ¬ (x = cr ∧ (y :: s ++ cr :: lf :: b).head? = some lf) := hx
    rw [List.cons_append, cut_cons hx', ih, cut_cons hx]
    cases hcut : cut cr lf (y :: s) with
    | nil => exact absurd hcut (cut_ne_nil _)
    | cons l ls => rfl

variable (cr lf) in
/-- Lines, each with its mark. -/
def ended (lines : List (List α)) : List α := lines.flatMap (· ++ [cr, lf])

/-- The lines of a text, each with its mark, are the text with one mark more. -/
theorem ended_cut (s : List α) : ended cr lf (cut cr lf s) = s ++ [cr, lf] := by
  induction s using cut.induct cr lf with
  | case1 => rfl
  | case2 x => rfl
  | case3 x y s hmark ih =>
    obtain ⟨rfl, rfl⟩ := hmark
    rw [cut_mark, ended, List.flatMap_cons]
    rw [ended] at ih
    rw [ih]
    rfl
  | case4 x y s hmark ih =>
    rw [cut, if_neg hmark]
    cases hcut : cut cr lf (y :: s) with
    | nil => exact absurd hcut (cut_ne_nil _)
    | cons l ls =>
      rw [hcut, ended, List.flatMap_cons] at ih
      rw [List.modifyHead_cons, ended, List.flatMap_cons, List.cons_append, List.cons_append, ih]
      rfl

/-! ## Dot stuffing -/

variable (cr lf) (dot : α)

/-- A dot after a mark is doubled. -/
def stuff : List α → List α
  | x :: y :: z :: s =>
    if x = cr ∧ y = lf ∧ z = dot then cr :: lf :: dot :: dot :: stuff s else x :: stuff (y :: z :: s)
  | s => s

/-- A line as it is sent. -/
def stuffLine (line : List α) : List α := if line.head? = some dot then dot :: line else line

/-- A line as it is received. -/
def unstuffLine (line : List α) : List α := if line.head? = some dot then line.tail else line

/-- The lines before the first that is a dot alone, and the lines behind it; the last line of all
is unfinished, and does not count. -/
def untilDot : List (List α) → Option (List (List α) × List (List α))
  | line :: next :: lines =>
    if line = [dot] then some ([], next :: lines)
      else (untilDot (next :: lines)).map fun found => (line :: found.1, found.2)
  | _ => none

/-- Lines put together again, the last one without a mark. -/
def joined : List (List α) → List α
  | [] => []
  | [line] => line
  | line :: next :: lines => line ++ cr :: lf :: joined (next :: lines)

/-- The text that is received from a stream, and the rest of the stream. -/
def receive (stream : List α) : Option (List α × List α) :=
  (untilDot dot (cut cr lf stream)).map fun found => (ended cr lf (found.1.map (unstuffLine dot)), joined cr lf found.2)

variable {cr lf dot}

theorem stuff_cons {x : α} {s : List α} (h : ¬ ∃ rest, x :: s = cr :: lf :: dot :: rest) :
    stuff cr lf dot (x :: s) = x :: stuff cr lf dot s := by
  match s with
  | [] => rfl
  | [y] => rfl
  | y :: z :: s =>
    rw [stuff, if_neg]
    intro ⟨hx, hy, hz⟩
    exact h ⟨s, by rw [hx, hy, hz]⟩

/-- Behind a mark a dot is doubled. -/
theorem stuff_mark (hcr : cr ≠ dot) (hlf : lf ≠ cr) (s : List α) :
    stuff cr lf dot (cr :: lf :: s) =
      cr :: lf :: if s.head? = some dot then dot :: stuff cr lf dot s else stuff cr lf dot s := by
  have hother : ∀ {x : α} {t : List α}, x ≠ cr → stuff cr lf dot (x :: t) = x :: stuff cr lf dot t :=
    fun hx => stuff_cons fun ⟨_, heq⟩ => hx (List.cons.inj heq).1
  by_cases hdot : s.head? = some dot
  · obtain ⟨t, rfl⟩ : ∃ t, s = dot :: t := by
      cases s with
      | nil => cases hdot
      | cons z t => exact ⟨t, by rw [Option.some.inj hdot]⟩
    rw [if_pos hdot, stuff, if_pos ⟨rfl, rfl, rfl⟩, hother (Ne.symm hcr)]
  · have hnot : ¬ ∃ rest, cr :: lf :: s = cr :: lf :: dot :: rest := by
      intro ⟨rest, heq⟩
      rw [(List.cons.inj (List.cons.inj heq).2).2] at hdot
      exact hdot rfl
    rw [if_neg hdot, stuff_cons hnot, hother hlf]

theorem head?_stuff (s : List α) : (stuff cr lf dot s).head? = s.head? := by
  match s with
  | [] => rfl
  | [x] => rfl
  | [x, y] => rfl
  | x :: y :: z :: s =>
    rw [stuff]
    split
    · next h =>
      rw [h.1]
      rfl
    · rfl

/-- The first line begins as the text does. -/
theorem head?_cut (hcr : cr ≠ dot) {s line : List α} {lines : List (List α)} (h : cut cr lf s = line :: lines) :
    line.head? = some dot ↔ s.head? = some dot := by
  match s with
  | [] =>
    obtain ⟨rfl, -⟩ := List.cons.inj h
    rfl
  | x :: s =>
    by_cases hmark : x = cr ∧ s.head? = some lf
    · obtain ⟨rfl, hhead⟩ := hmark
      cases s with
      | nil => cases hhead
      | cons y s =>
        rw [Option.some.inj hhead, cut_mark] at h
        obtain ⟨rfl, -⟩ := List.cons.inj h
        exact ⟨nofun, fun heq => absurd (Option.some.inj heq) hcr⟩
    · rw [cut_cons hmark] at h
      cases hcut : cut cr lf s with
      | nil => exact absurd hcut (cut_ne_nil _)
      | cons l ls =>
        rw [hcut] at h
        obtain ⟨rfl, -⟩ := List.cons.inj h
        rfl

/-- The lines of a stuffed text are those of the text, stuffed, but for the first. -/
theorem cut_stuff (hcr : cr ≠ dot) (hlf : lf ≠ cr) : ∀ {s line : List α} {lines : List (List α)},
    cut cr lf s = line :: lines → cut cr lf (stuff cr lf dot s) = line :: lines.map (stuffLine dot) := by
  intro s
  induction s using cut.induct cr lf with
  | case1 =>
    intro line lines h
    obtain ⟨rfl, rfl⟩ := List.cons.inj h
    rfl
  | case2 x =>
    intro line lines h
    obtain ⟨rfl, rfl⟩ := List.cons.inj h
    rfl
  | case3 x y s hmark ih =>
    intro line lines h
    obtain ⟨rfl, rfl⟩ := hmark
    rw [cut_mark] at h
    obtain ⟨rfl, rfl⟩ := List.cons.inj h
    cases hcut : cut x y s with
    | nil => exact absurd hcut (cut_ne_nil _)
    | cons l ls =>
      have hhead := head?_cut hcr hcut
      rw [stuff_mark hcr hlf, cut_mark, List.map_cons, stuffLine]
      by_cases hdot : s.head? = some dot
      · have hcons : ¬ (dot = x ∧ (stuff x y dot s).head? = some y) := fun hmark => hcr hmark.1.symm
        rw [if_pos hdot, if_pos (hhead.mpr hdot), cut_cons hcons, ih hcut]
        rfl
      · rw [if_neg hdot, if_neg fun h => hdot (hhead.mp h), ih hcut]
  | case4 x y s hmark ih =>
    intro line lines h
    have hnot : ¬ ∃ rest, x :: y :: s = cr :: lf :: dot :: rest := by
      intro ⟨rest, heq⟩
      obtain ⟨hx, heq⟩ := List.cons.inj heq
      exact hmark ⟨hx, (List.cons.inj heq).1⟩
    have hcons : ¬ (x = cr ∧ (stuff cr lf dot (y :: s)).head? = some lf) := by
      rw [head?_stuff]
      exact fun h => hmark ⟨h.1, Option.some.inj h.2⟩
    rw [cut, if_neg hmark] at h
    cases hcut : cut cr lf (y :: s) with
    | nil => exact absurd hcut (cut_ne_nil _)
    | cons l ls =>
      rw [hcut] at h
      obtain ⟨rfl, rfl⟩ := List.cons.inj h
      rw [stuff_cons hnot, cut_cons hcons, ih hcut]
      rfl

theorem unstuffLine_stuffLine (line : List α) : unstuffLine dot (stuffLine dot line) = line := by
  unfold stuffLine
  by_cases hdot : line.head? = some dot
  · rw [if_pos hdot]
    exact if_pos rfl
  · rw [if_neg hdot, unstuffLine, if_neg hdot]

theorem stuffLine_ne_dot (line : List α) : stuffLine dot line ≠ [dot] := by
  unfold stuffLine
  by_cases hdot : line.head? = some dot
  · rw [if_pos hdot]
    intro heq
    rw [(List.cons.inj heq).2] at hdot
    cases hdot
  · rw [if_neg hdot]
    intro heq
    rw [heq] at hdot
    exact hdot rfl

theorem untilDot_append {before after : List (List α)} (h : ∀ line ∈ before, line ≠ [dot]) (hne : after ≠ []) :
    untilDot dot (before ++ [dot] :: after) = some (before, after) := by
  obtain ⟨next, rest, rfl⟩ := List.exists_cons_of_ne_nil hne
  induction before with
  | nil => exact if_pos rfl
  | cons line before ih =>
    have hrest := ih fun l hl => h l (List.mem_cons_of_mem _ hl)
    cases before with
    | nil =>
      rw [List.nil_append] at hrest
      rw [List.singleton_append, untilDot, if_neg (h line List.mem_cons_self), hrest]
      rfl
    | cons l before =>
      rw [List.cons_append] at hrest
      rw [List.cons_append, List.cons_append, untilDot, if_neg (h line List.mem_cons_self), hrest]
      rfl

theorem joined_cut (s : List α) : joined cr lf (cut cr lf s) = s := by
  induction s using cut.induct cr lf with
  | case1 => rfl
  | case2 x => rfl
  | case3 x y s hmark ih =>
    obtain ⟨rfl, rfl⟩ := hmark
    rw [cut_mark]
    cases hcut : cut x y s with
    | nil => exact absurd hcut (cut_ne_nil _)
    | cons l ls =>
      rw [hcut] at ih
      rw [joined, ih]
      rfl
  | case4 x y s hmark ih =>
    rw [cut, if_neg hmark]
    cases hcut : cut cr lf (y :: s) with
    | nil => exact absurd hcut (cut_ne_nil _)
    | cons l ls =>
      rw [hcut] at ih
      rw [List.modifyHead_cons]
      cases ls with
      | nil =>
        rw [joined] at ih ⊢
        rw [ih]
      | cons l₂ ls =>
        rw [joined] at ih ⊢
        rw [List.cons_append, ih]

/-- Texts put together are cut where each of them is, and between them. -/
theorem cut_joined (hne : cr ≠ lf) {texts : List (List α)} (h : texts ≠ []) :
    cut cr lf (joined cr lf texts) = texts.flatMap (cut cr lf) := by
  induction texts with
  | nil => exact absurd rfl h
  | cons a texts ih =>
    cases texts with
    | nil => rw [joined, List.flatMap_cons, List.flatMap_nil, List.append_nil]
    | cons b texts =>
      rw [joined, cut_append_mark hne, ih (List.cons_ne_nil _ _)]
      rfl

/-- A text that holds no `cr` is not stuffed. -/
theorem stuff_append {a : List α} (h : cr ∉ a) (s : List α) :
    stuff cr lf dot (a ++ s) = a ++ stuff cr lf dot s := by
  induction a with
  | nil => rfl
  | cons x a ih =>
    have hx : ¬ ∃ rest, x :: (a ++ s) = cr :: lf :: dot :: rest :=
      fun ⟨_, heq⟩ => h ((List.cons.inj heq).1 ▸ List.mem_cons_self)
    rw [List.cons_append, stuff_cons hx, ih fun hmem => h (List.mem_cons_of_mem _ hmem), List.cons_append]

/-- A text that does not begin with a dot is received as it was, with one mark more, and what
follows is left for whoever reads on. -/
theorem receive_stuff (hcr : cr ≠ dot) (hlf : lf ≠ cr) {s : List α} (hs : s.head? ≠ some dot) (next : List α) :
    receive cr lf dot (stuff cr lf dot s ++ cr :: lf :: dot :: cr :: lf :: next) = some (s ++ [cr, lf], next) := by
  cases hcut : cut cr lf s with
  | nil => exact absurd hcut (cut_ne_nil _)
  | cons line lines =>
    have hdot : ¬ line.head? = some dot := fun h => hs ((head?_cut hcr hcut).mp h)
    have hstream : cut cr lf (stuff cr lf dot s ++ cr :: lf :: dot :: cr :: lf :: next) =
        (line :: lines.map (stuffLine dot)) ++ [dot] :: cut cr lf next := by
      rw [cut_append_mark (Ne.symm hlf), cut_stuff hcr hlf hcut]
      congr 1
      exact cut_line (a := [dot]) (fun hmem => hcr (List.mem_singleton.mp hmem)) next
    have hlines : ∀ l ∈ line :: lines.map (stuffLine dot), l ≠ [dot] := by
      intro l hl
      rcases List.mem_cons.mp hl with rfl | hl
      · intro heq
        rw [heq] at hdot
        exact hdot rfl
      · obtain ⟨l', -, rfl⟩ := List.mem_map.mp hl
        exact stuffLine_ne_dot l'
    have hback : (line :: lines.map (stuffLine dot)).map (unstuffLine dot) = cut cr lf s := by
      rw [hcut, List.map_cons, unstuffLine, if_neg hdot, List.map_map]
      congr 1
      exact (List.map_congr_left fun l _ => unstuffLine_stuffLine l).trans (List.map_id _)
    rw [receive, hstream, untilDot_append hlines (cut_ne_nil _), Option.map_some]
    dsimp only
    rw [hback, ended_cut, joined_cut]

end Lines
