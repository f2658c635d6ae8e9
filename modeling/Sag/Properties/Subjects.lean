import Sag.Clients
import Sag.Properties.Upstreams

/-!
# Whether two people can have one subject

A subject is derived from its type, its sector and the person, joined by a separator. The
text can be taken apart again unless one sector, with the separator after it, goes on where
the other one ends, and the address of the one person goes on with what is left
(`subject_injective`). An address from an email code holds no white space, so it never does;
nor does a local identity. An address that an upstream asserts may hold a separator, and a
sector may too.
-/

namespace Sag

variable {rt : Runtime} {config : Config}

/-- The parts that a person adds to the text. -/
def Principal.parts : Principal → List JsString
  | .mailbox address => [address]
  | .account id => [js "local", id]

def Principal.text (p : Principal) : JsString := join SEP p.parts

/-- What can be presented: an address as somebody has signed in with it and the client sees
it, or the stable identifier of a record. -/
inductive Presented (rt : Runtime) (config : Config) (client : Client) : Principal → Prop where
  | mailbox {raw : Option JsString} {e : JsString} (normal : normaliseEmail rt raw = some e) :
      Presented rt config client (.mailbox (identityEmail config e client))
  | account {id : JsString} (safe : safeId id = true) : Presented rt config client (.account id)

def subjectTypeText (rt : Runtime) (config : Config) (client : Client) : JsString :=
  textOfJson rt (subjectTypeFor config client)

/-- The type and the sector of a client, as they stand in the text. -/
def scopeText (rt : Runtime) (config : Config) (client : Client) : JsString :=
  subjectTypeText rt config client ++ SEP ++ subjectScope rt config client

/-- One person at one sector. -/
structure SameSubject (rt : Runtime) (config : Config) (client : Client) (p : Principal) (client' : Client)
    (p' : Principal) : Prop where
  type : subjectTypeText rt config client = subjectTypeText rt config client'
  sector : subjectScope rt config client = subjectScope rt config client'
  principal : p = p'

/-- The sector of the second goes on where that of the first has ended, with the beginning of
the first person's text. -/
def Overlaps (rt : Runtime) (config : Config) (client : Client) (p : Principal) (client' : Client)
    (p' : Principal) : Prop :=
  ∃ more, more ≠ [] ∧ scopeText rt config client' ++ SEP = scopeText rt config client ++ SEP ++ more ∧
    p.text = more ++ p'.text

/-- The type and the sector come to one text in two ways. -/
def SplitsTwice (rt : Runtime) (config : Config) (client : Client) (p : Principal) (client' : Client)
    (p' : Principal) : Prop :=
  scopeText rt config client = scopeText rt config client' ∧ p.text = p'.text ∧
    ¬ (subjectTypeText rt config client = subjectTypeText rt config client' ∧
      subjectScope rt config client = subjectScope rt config client')

/-- The type is one of the two there are. -/
def KnownType (rt : Runtime) (config : Config) (client : Client) : Prop :=
  subjectTypeText rt config client = js "pairwise" ∨ subjectTypeText rt config client = js "public"

/-- A separator stands in the text, or is cut short by its beginning. -/
def HoldsSeparator (s : JsString) : Prop :=
  (∃ before after, s = before ++ SEP ++ after) ∨ js "| " <+: s ∨ js " " <+: s

/-! ## Texts -/

theorem subjectText_eq (client : Client) (p : Principal) :
    subjectText rt config p.parts client = js "sub" ++ SEP ++ (scopeText rt config client ++ SEP ++ p.text) := by
  unfold subjectText scopeText subjectTypeText Principal.text join
  cases p with
  | mailbox address => simp [Principal.parts, List.intersperse]
  | account id => simp [Principal.parts, List.intersperse]

theorem Principal.text_mailbox (address : JsString) : (Principal.mailbox address).text = address := by
  simp [Principal.text, Principal.parts, join]

theorem Principal.text_account (id : JsString) :
    (Principal.account id).text = js "local" ++ 32 :: (js "| " ++ id) := by
  simp [Principal.text, Principal.parts, join, List.intersperse]
  rfl

theorem stripPlusTag_subset {e : JsString} {u : CodeUnit} (h : u ∈ stripPlusTag e) : u ∈ e := by
  unfold stripPlusTag at h
  split at h
  · exact h
  · next loc domain hbreak =>
    obtain ⟨heq, -⟩ := breakLast_eq hbreak
    split at h
    · exact h
    · split at h
      · exact h
      · split at h
        · exact h
        · next user tag hplus =>
          split at h
          · exact h
          · obtain ⟨hloc, -⟩ := breakFirst_eq_some_iff.mp hplus
            rw [heq, hloc]
            rcases List.mem_append.mp h with h | h
            · exact List.mem_append_left _ (List.mem_append_left _ h)
            · exact List.mem_append_right _ h

theorem at_mem_stripPlusTag {e : JsString} (h : atSign ∈ e) : atSign ∈ stripPlusTag e := by
  unfold stripPlusTag
  split
  · exact h
  · next loc domain hbreak =>
    split
    · exact h
    · split
      · exact h
      · split
        · exact h
        · split
          · exact h
          · simp

/-- An address holds an `@`, the text of a local identity does not. -/
theorem Presented.at_mem_iff {client : Client} {p : Principal} (h : Presented rt config client p) :
    atSign ∈ p.text ↔ ∃ address, p = .mailbox address := by
  cases h with
  | @mailbox raw e hnormal =>
    refine ⟨fun _ => ⟨_, rfl⟩, fun _ => ?_⟩
    rw [Principal.text_mailbox]
    have hat : atSign ∈ e := by
      unfold normaliseEmail at hnormal
      split at hnormal
      · cases hnormal
      · split at hnormal
        · cases hnormal
        · rw [← Option.some.inj hnormal]
          simp
    unfold identityEmail
    split
    · exact at_mem_stripPlusTag hat
    · exact hat
  | @account id hsafe =>
    constructor
    · intro hmem
      exfalso
      rw [Principal.text_account] at hmem
      simp only [safeId, Bool.and_eq_true, List.all_eq_true] at hsafe
      rcases List.mem_append.mp hmem with hmem | hmem
      · revert hmem
        decide
      · rcases List.mem_cons.mp hmem with hmem | hmem
        · revert hmem
          decide
        · rcases List.mem_append.mp hmem with hmem | hmem
          · revert hmem
            decide
          · have hclass := hsafe.2 atSign hmem
            revert hclass
            decide
    · intro hemail
      obtain ⟨_, heq⟩ := hemail
      cases heq

/-- The identifier of a record holds no blank. -/
theorem safeId_no_blank {id : JsString} (h : safeId id = true) : 32 ∉ id := by
  intro hmem
  simp only [safeId, Bool.and_eq_true, List.all_eq_true] at h
  have hclass := h.2 32 hmem
  revert hclass
  decide

/-- Two principals with one text are one. -/
theorem Presented.text_inj {client client' : Client} {p p' : Principal} (h : Presented rt config client p)
    (h' : Presented rt config client' p') (heq : p.text = p'.text) : p = p' := by
  have hiff := h.at_mem_iff
  rw [heq, h'.at_mem_iff] at hiff
  cases p with
  | mailbox address =>
    obtain ⟨address', rfl⟩ := hiff.mpr ⟨address, rfl⟩
    rw [Principal.text_mailbox, Principal.text_mailbox] at heq
    rw [heq]
  | account id =>
    cases p' with
    | mailbox address' =>
      obtain ⟨_, himpossible⟩ := hiff.mp ⟨address', rfl⟩
      cases himpossible
    | account id' =>
      rw [Principal.text_account, Principal.text_account] at heq
      have hrest : js "| " ++ id = js "| " ++ id' := (List.cons.inj (List.append_cancel_left heq)).2
      rw [List.append_cancel_left hrest]

/-! ## Taking the text apart -/

/-- Two ways to cut one text. -/
theorem append_eq_append_cases {a b c d : JsString} (h : a ++ b = c ++ d) :
    (a = c ∧ b = d) ∨ (∃ more, more ≠ [] ∧ c = a ++ more ∧ b = more ++ d) ∨
      (∃ more, more ≠ [] ∧ a = c ++ more ∧ d = more ++ b) := by
  rcases List.append_eq_append_iff.mp h with ⟨more, hc, hb⟩ | ⟨more, ha, hd⟩
  · by_cases hmore : more = []
    · subst hmore
      exact Or.inl ⟨by simpa using hc.symm, by simpa using hb⟩
    · exact Or.inr (Or.inl ⟨more, hmore, hc, hb⟩)
  · by_cases hmore : more = []
    · subst hmore
      exact Or.inl ⟨by simpa using ha, by simpa using hd.symm⟩
    · exact Or.inr (Or.inr ⟨more, hmore, ha, hd⟩)

variable {client client' : Client} {p p' : Principal}

/-- A subject is one person's at one sector, unless the two texts overlap. -/
theorem sameSubject_iff (h : Presented rt config client p) (h' : Presented rt config client' p') :
    (subjectText rt config p.parts client = subjectText rt config p'.parts client' →
        SameSubject rt config client p client' p') ↔
      ¬ (Overlaps rt config client p client' p' ∨ Overlaps rt config client' p' client p ∨
        SplitsTwice rt config client p client' p') := by
  rw [subjectText_eq, subjectText_eq]
  constructor
  · intro hsame hclash
    rcases hclash with ⟨more, hmore, hscope, htext⟩ | ⟨more, hmore, hscope, htext⟩ | ⟨hscope, htext, hsplit⟩
    · have hp := (hsame (by rw [htext, hscope]; simp only [List.append_assoc])).principal
      rw [hp] at htext
      exact hmore (List.self_eq_append_left.mp htext)
    · have hp := (hsame (by rw [htext, hscope]; simp only [List.append_assoc])).principal
      rw [hp] at htext
      exact hmore (List.self_eq_append_left.mp htext)
    · have hboth := hsame (by rw [hscope, htext])
      exact hsplit ⟨hboth.type, hboth.sector⟩
  · intro hclear heq
    have hrest := List.append_cancel_left heq
    rcases append_eq_append_cases hrest with ⟨hscope, htext⟩ | ⟨more, hmore, hscope, htext⟩ |
      ⟨more, hmore, hscope, htext⟩
    · have hscope := List.append_cancel_right hscope
      by_cases hboth : subjectTypeText rt config client = subjectTypeText rt config client' ∧
          subjectScope rt config client = subjectScope rt config client'
      · exact ⟨hboth.1, hboth.2, h.text_inj h' htext⟩
      · exact absurd (Or.inr (Or.inr ⟨hscope, htext, hboth⟩)) hclear
    · exact absurd (Or.inl ⟨more, hmore, hscope, htext⟩) hclear
    · exact absurd (Or.inr (Or.inl ⟨more, hmore, hscope, htext⟩)) hclear

/-! ## Texts without a separator -/

/-- What is left over before a separator ends in one, as far as it goes. -/
theorem holdsSeparator_of_overlap {before scope more text rest : JsString} (hmore : more ≠ [])
    (hscope : scope ++ SEP = before ++ more) (htext : text = more ++ rest) : HoldsSeparator text := by
  have hmore' : more <:+ scope ++ SEP := ⟨before, hscope.symm⟩
  rcases List.suffix_or_suffix_of_suffix (List.suffix_append scope SEP) hmore' with hwhole | hpart
  · obtain ⟨start, rfl⟩ := hwhole
    exact Or.inl ⟨start, rest, htext⟩
  · -- what is left over is shorter than a separator
    obtain ⟨start, hstart⟩ := hpart
    have hsep : start ++ more = [32, 124, 32] := hstart
    rcases start with _ | ⟨u, _ | ⟨v, _ | ⟨x, start⟩⟩⟩
    · exact Or.inl ⟨[], rest, by rw [htext, ← hstart]; rfl⟩
    · have hrest : more = js "| " := (List.cons.inj hsep).2
      exact Or.inr (Or.inl ⟨rest, by rw [htext, hrest]⟩)
    · have hrest : more = js " " := (List.cons.inj (List.cons.inj hsep).2).2
      exact Or.inr (Or.inr ⟨rest, by rw [htext, hrest]⟩)
    · have hrest : start ++ more = [] := (List.cons.inj (List.cons.inj (List.cons.inj hsep).2).2).2
      exact absurd (List.append_eq_nil_iff.mp hrest).2 hmore

/-- The text of a local identity is nothing else before it. -/
theorem not_overlap_account {id : JsString} (hsafe : safeId id = true) (h' : Presented rt config client' p')
    {more : JsString} (hmore : more ≠ []) : ¬ (Principal.account id).text = more ++ p'.text := by
  intro heq
  have hself : Presented rt config client' (.account id) := .account hsafe
  have hat := hself.at_mem_iff
  cases p' with
  | mailbox address =>
    have hmem := h'.at_mem_iff.mpr ⟨address, rfl⟩
    have hin : atSign ∈ (Principal.account id).text := by
      rw [heq]
      exact List.mem_append_right _ hmem
    obtain ⟨_, himpossible⟩ := hat.mp hin
    cases himpossible
  | account id' =>
    -- there are two blanks on either side, so none in what comes before
    have hcount : ∀ {x : JsString}, (Principal.account x).text.count 32 = 2 + x.count 32 := by
      intro x
      rw [Principal.text_account]
      simp only [List.count_append, List.count_cons_self]
      have hlocal : (js "local").count 32 = 0 := by decide
      have hbar : (js "| ").count 32 = 1 := by decide
      rw [hlocal, hbar]
      omega
    have hblanks := congrArg (List.count 32) heq
    rw [List.count_append, hcount, hcount, List.count_eq_zero.mpr (safeId_no_blank hsafe)] at hblanks
    have hnone : more.count 32 = 0 := by omega
    rw [Principal.text_account, Principal.text_account, ← List.append_assoc] at heq
    have hfirst : ∀ {a a' b b' : JsString}, 32 ∉ a → 32 ∉ a' → a ++ 32 :: b = a' ++ 32 :: b' → a = a' := by
      intro a a' b b' ha ha' hab
      have hleft : breakFirst 32 (a ++ 32 :: b) = some (a, b) := breakFirst_eq_some_iff.mpr ⟨rfl, ha⟩
      rw [hab, breakFirst_eq_some_iff.mpr ⟨rfl, ha'⟩] at hleft
      exact (congrArg Prod.fst (Option.some.inj hleft)).symm
    have hsame := hfirst (by decide) (fun hmem => ?_) heq
    · exact hmore (List.self_eq_append_left.mp hsame)
    · rcases List.mem_append.mp hmem with hmem | hmem
      · exact List.count_eq_zero.mp hnone hmem
      · revert hmem
        decide

/-- A person whose address holds no separator does not overlap with anybody. -/
theorem not_overlaps (h : Presented rt config client p) (h' : Presented rt config client' p')
    (hplain : ∀ address, p = .mailbox address → ¬ HoldsSeparator address) :
    ¬ Overlaps rt config client p client' p' := by
  intro hoverlap
  obtain ⟨more, hmore, hscope, htext⟩ := hoverlap
  cases h with
  | @mailbox raw e hnormal =>
    refine hplain _ rfl ?_
    rw [Principal.text_mailbox] at htext
    exact holdsSeparator_of_overlap hmore hscope htext
  | @account id hsafe => exact not_overlap_account hsafe h' hmore htext

/-- A known type does not come to one text with another. -/
theorem not_splitsTwice (htype : KnownType rt config client) (htype' : KnownType rt config client') :
    ¬ SplitsTwice rt config client p client' p' := by
  intro hsplit
  obtain ⟨hscope, -, hdiffer⟩ := hsplit
  unfold scopeText at hscope
  have hne : ∀ {a b : JsString}, js "pairwise" ++ SEP ++ a = js "public" ++ SEP ++ b → False := by
    intro a b heq
    have hsecond : (some 97 : Option CodeUnit) = some 117 := congrArg (fun s => s[1]?) heq
    revert hsecond
    decide
  rcases htype with htype | htype <;> rcases htype' with htype' | htype' <;> rw [htype, htype'] at hscope
  · exact hdiffer ⟨by rw [htype, htype'], List.append_cancel_left hscope⟩
  · exact hne hscope
  · exact hne hscope.symm
  · exact hdiffer ⟨by rw [htype, htype'], List.append_cancel_left hscope⟩

/-- Two subjects are derived from one text for one person at one sector only, exactly if
neither sector overlaps with the address of the other; and they never do where the types are
known and no address holds a separator. -/
theorem subject_injective (h : Presented rt config client p) (h' : Presented rt config client' p') :
    ((subjectText rt config p.parts client = subjectText rt config p'.parts client' →
        SameSubject rt config client p client' p') ↔
      ¬ (Overlaps rt config client p client' p' ∨ Overlaps rt config client' p' client p ∨
        SplitsTwice rt config client p client' p')) ∧
    (KnownType rt config client → KnownType rt config client' →
      (∀ address, p = .mailbox address ∨ p' = .mailbox address → ¬ HoldsSeparator address) →
        subjectText rt config p.parts client = subjectText rt config p'.parts client' →
          SameSubject rt config client p client' p') := by
  refine ⟨sameSubject_iff h h', fun htype htype' hplain => (sameSubject_iff h h').mpr fun hclash => ?_⟩
  rcases hclash with hoverlap | hoverlap | hsplit
  · exact not_overlaps h h' (fun address heq => hplain address (Or.inl heq)) hoverlap
  · exact not_overlaps h' h (fun address heq => hplain address (Or.inr heq)) hoverlap
  · exact not_splitsTwice htype htype' hsplit

/-- What a client sees of an address that has the form of one holds no separator. -/
theorem no_separator_of_looksLikeEmail {e : JsString} (h : looksLikeEmail e = true) :
    ¬ HoldsSeparator (identityEmail config e client) := by
  have hblank : ∀ u ∈ identityEmail config e client, isSpace u = false := by
    have hspace := looksLikeEmail_no_space h
    unfold identityEmail
    split
    · intro u hu
      exact hspace u (stripPlusTag_subset hu)
    · exact hspace
  intro hholds
  have hmem : 32 ∈ identityEmail config e client := by
    rcases hholds with ⟨before, after, heq⟩ | ⟨rest, heq⟩ | ⟨rest, heq⟩
    · rw [heq]
      exact List.mem_append_left _ (List.mem_append_right _ (by decide))
    · rw [← heq]
      exact List.mem_append_left _ (by decide)
    · rw [← heq]
      exact List.mem_append_left _ (by decide)
  have hno := hblank 32 hmem
  revert hno
  decide

namespace Sample

/-- The document of a client that keeps its people apart from those of another sector. -/
def documentOf (sector : String) : Json :=
  .obj
    [(js "redirect_uris", .arr [.str (js "https://app.test/cb")]), (js "subject_type", .str (js "pairwise")),
      (js "sector_identifier", .str (js sector))]

def sectored (sector : String) : Client :=
  { Sample.client with subjectType := some (.str (js "pairwise")), sectorIdentifier := some (.str (js sector)) }

theorem sectored_registered (sector : String) (hsector : js sector ≠ []) :
    ∃ record, fromRecord (js "app") (documentOf sector) = some record ∧ Registered (sectored sector) record := by
  have htruthy : truthy (.str (js sector)) = true := by
    cases hcase : js sector with
    | nil => exact absurd hcase hsector
    | cons u rest => rfl
  have heither : eitherOf (documentOf sector) "sector_identifier" "sectorIdentifier" = some (.str (js sector)) := by
    have hget : (documentOf sector).get (js "sector_identifier") = some (.str (js sector)) := rfl
    unfold eitherOf
    rw [hget, Option.filter_some, if_pos htruthy]
    rfl
  refine ⟨_, rfl, rfl, rfl, ?_⟩
  exact heither.symm

/-- Two people at two sectors. -/
theorem two_subjects :
    normaliseEmail runtime (some (js "ann@corp.test")) = some (js "ann@corp.test") ∧
      normaliseEmail runtime (some (js "ben@corp.test")) = some (js "ben@corp.test") ∧
      (subjectText runtime Sample.config (Principal.mailbox (js "ann@corp.test")).parts (sectored "shared") =
          subjectText runtime Sample.config (Principal.mailbox (js "ben@corp.test")).parts (sectored "mine") →
        SameSubject runtime Sample.config (sectored "shared") (.mailbox (js "ann@corp.test")) (sectored "mine")
          (.mailbox (js "ben@corp.test"))) := by
  have hrun : normaliseEmail runtime (some (js "ann@corp.test")) = some (js "ann@corp.test") ∧
      normaliseEmail runtime (some (js "ben@corp.test")) = some (js "ben@corp.test") ∧
      looksLikeEmail (js "ann@corp.test") = true ∧ looksLikeEmail (js "ben@corp.test") = true := by
    decide +kernel
  obtain ⟨hann, hben, hlooks, hlooks'⟩ := hrun
  refine ⟨hann, hben, ?_⟩
  refine (subject_injective (.mailbox hann) (.mailbox hben)).2 (Or.inl rfl) (Or.inl rfl) fun address hone => ?_
  rcases hone with hone | hone
  · cases hone
    have hplain : ¬ HoldsSeparator (identityEmail Sample.config (js "ann@corp.test") (sectored "shared")) :=
      no_separator_of_looksLikeEmail hlooks
    exact hplain
  · cases hone
    have hplain : ¬ HoldsSeparator (identityEmail Sample.config (js "ben@corp.test") (sectored "mine")) :=
      no_separator_of_looksLikeEmail hlooks'
    exact hplain

/-- A sector that another one goes on from, with the beginning of an address. -/
theorem one_subject :
    (∃ record, fromRecord (js "app") (documentOf "shared") = some record ∧ Registered (sectored "shared") record) ∧
      (∃ record, fromRecord (js "app") (documentOf "shared | x") = some record ∧
        Registered (sectored "shared | x") record) ∧
      Completed runtime corp [(js "email", .str (js "x | ann@corp.test"))]
        ⟨js "x | ann@corp.test", [(js "email", .str (js "x | ann@corp.test"))], none⟩ ∧
      Completed runtime corp [(js "email", .str (js "ann@corp.test"))]
        ⟨js "ann@corp.test", [(js "email", .str (js "ann@corp.test"))], none⟩ ∧
      identityEmail Sample.config (js "x | ann@corp.test") (sectored "shared") = js "x | ann@corp.test" ∧
      identityEmail Sample.config (js "ann@corp.test") (sectored "shared | x") = js "ann@corp.test" ∧
      ¬ (subjectText runtime Sample.config (Principal.mailbox (js "x | ann@corp.test")).parts (sectored "shared") =
          subjectText runtime Sample.config (Principal.mailbox (js "ann@corp.test")).parts (sectored "shared | x") →
        SameSubject runtime Sample.config (sectored "shared") (.mailbox (js "x | ann@corp.test"))
          (sectored "shared | x") (.mailbox (js "ann@corp.test"))) := by
  have completed : ∀ email : JsString,
      verifyClaims runtime corp [(js "email", .str email)] false = none ∧
        assertedEmail runtime corp [(js "email", .str email)] = some email ∧
        (domainOf runtime (some email)).any (fun d => underDomain d corp.domain) = true →
      Completed runtime corp [(js "email", .str email)] ⟨email, [(js "email", .str email)], none⟩ := by
    intro email hrun
    obtain ⟨hprovider, hasserted, hreads⟩ := hrun
    exact completes rfl ⟨hprovider, hasserted, rfl⟩ hreads
  refine ⟨sectored_registered _ (by decide), sectored_registered _ (by decide), completed _ (by decide +kernel),
    completed _ (by decide +kernel), rfl, rfl, fun hinjective => ?_⟩
  have heq : subjectText runtime Sample.config (Principal.mailbox (js "x | ann@corp.test")).parts (sectored "shared") =
      subjectText runtime Sample.config (Principal.mailbox (js "ann@corp.test")).parts (sectored "shared | x") := by
    decide +kernel
  have hsame := (hinjective heq).principal
  revert hsame
  decide

end Sample

end Sag
