import Sag.Effects

/-!
# Addresses in mail

`parseAddress` of `email/mime.js`, with which the SMTP sender reads the address that it
hands to `RCPT TO`. It looks for a display name: whatever ends in `<…>` is taken to be an
address in brackets with a name before it, and everything else for an address
(`parseAddress_address`).
-/

namespace Sag

/-- A mailbox as a mail header shows it. -/
structure MailAddress where
  name : Option JsString
  address : JsString
  deriving DecidableEq

/-- `\s*<([^>]+)>$`, from here. -/
def inBrackets (s : JsString) : Option JsString :=
  match s.dropWhile isSpace with
  | [] => none
  | u :: rest =>
    if u ≠ lessThan then none
    else
      match breakFirst greaterThan rest with
      | some (address@(_ :: _), []) => some address
      | _ => none

/-- `/^(.*?)\s*<([^>]+)>$/`: the shortest name will do. -/
def matchNamed : JsString → Option (JsString × JsString)
  | [] => none
  | u :: s =>
    ((inBrackets (u :: s)).map fun address => ([], address)) <|>
      if isLineTerminator u then none else (matchNamed s).map fun m => (u :: m.1, m.2)

/-- `name.replace(/^"|"$/g, '')`. -/
def withoutQuotes (name : JsString) : JsString :=
  let opened := if name.head? = some quoteMark then name.tail else name
  if opened.getLast? = some quoteMark then opened.dropLast else opened

/-- Split "Display Name <address@example.com>" into its parts. -/
def parseAddress (input : Option JsString) : MailAddress :=
  let s := trim (input.getD [])
  match matchNamed s with
  | some (name, address) => ⟨some (trim (withoutQuotes name)) |>.filter (· ≠ []), trim address⟩
  | none => ⟨none, s⟩

/-- The mailbox that the SMTP sender names in `RCPT TO`. -/
def rcptTo (message : EmailMessage) : JsString := (parseAddress message.«to»).address

/-! ## Which addresses are taken for something else -/

/-- The text ends in an address in brackets. -/
def Bracketed (s : JsString) : Prop :=
  ∃ before address, s = before ++ lessThan :: (address ++ [greaterThan]) ∧ address ≠ [] ∧ greaterThan ∉ address

/-- In a text without blanks the brackets start at once. -/
theorem inBrackets_eq_some_iff {s address : JsString} (hs : ∀ u ∈ s, isSpace u = false) :
    inBrackets s = some address ↔
      s = lessThan :: (address ++ [greaterThan]) ∧ address ≠ [] ∧ greaterThan ∉ address := by
  have hdrop : s.dropWhile isSpace = s := by
    cases s with
    | nil => rfl
    | cons u s => simp [hs u List.mem_cons_self]
  unfold inBrackets
  rw [hdrop]
  cases s with
  | nil => simp
  | cons u rest =>
    by_cases hu : u = lessThan
    · subst hu
      simp only [ne_eq, not_true_eq_false, if_false, List.cons.injEq, true_and]
      constructor
      · intro h
        split at h
        · next v vs hbreak =>
          obtain rfl := Option.some.inj h
          obtain ⟨rfl, hmem⟩ := breakFirst_eq_some_iff.mp hbreak
          exact ⟨rfl, List.cons_ne_nil _ _, hmem⟩
        · cases h
      · rintro ⟨rfl, hne, hmem⟩
        have hbreak : breakFirst greaterThan (address ++ [greaterThan]) = some (address, []) :=
          breakFirst_eq_some_iff.mpr ⟨rfl, hmem⟩
        rw [hbreak]
        cases address with
        | nil => exact absurd rfl hne
        | cons v vs => rfl
    · simp [hu]

/-- What is matched stands in the text, at its end. -/
theorem matchNamed_eq {s : JsString} (hs : ∀ u ∈ s, isSpace u = false) {name address : JsString}
    (h : matchNamed s = some (name, address)) :
    s = name ++ lessThan :: (address ++ [greaterThan]) ∧ address ≠ [] ∧ greaterThan ∉ address := by
  induction s generalizing name with
  | nil => cases h
  | cons u s ih =>
    rw [matchNamed] at h
    cases hfound : inBrackets (u :: s) with
    | some found =>
      rw [hfound] at h
      obtain ⟨rfl, rfl⟩ := Prod.mk.inj (Option.some.inj h)
      exact (inBrackets_eq_some_iff hs).mp hfound
    | none =>
      rw [hfound, Option.map_none, Option.orElse_eq_orElse, Option.orElse_none] at h
      split at h
      · cases h
      · obtain ⟨m, hm, heq⟩ := Option.map_eq_some_iff.mp h
        obtain ⟨rfl, rfl⟩ := Prod.mk.inj heq
        obtain ⟨rfl, hne, hmem⟩ := ih (fun v hv => hs v (List.mem_cons_of_mem _ hv)) hm
        exact ⟨rfl, hne, hmem⟩

/-- And where it could be matched, something is. -/
theorem matchNamed_isSome {s : JsString} (hs : ∀ u ∈ s, isSpace u = false) (h : Bracketed s) :
    (matchNamed s).isSome = true := by
  obtain ⟨before, address, rfl, hne, hmem⟩ := h
  induction before with
  | nil =>
    have hfound : inBrackets (lessThan :: (address ++ [greaterThan])) = some address :=
      (inBrackets_eq_some_iff hs).mpr ⟨rfl, hne, hmem⟩
    rw [List.nil_append, matchNamed, hfound]
    rfl
  | cons u before ih =>
    rw [List.cons_append, matchNamed]
    cases inBrackets (u :: (before ++ lessThan :: (address ++ [greaterThan]))) with
    | some found => rfl
    | none =>
      have hline : ¬ isLineTerminator u = true := by
        intro hline
        have hspace := hs u List.mem_cons_self
        rw [isSpace_of_isLineTerminator hline] at hspace
        cases hspace
      rw [Option.map_none, if_neg hline, Option.orElse_eq_orElse, Option.orElse_none, Option.isSome_map]
      exact ih fun v hv => hs v (List.mem_cons_of_mem _ hv)

/-- An address is mailed to as it stands, unless it ends in brackets. -/
theorem parseAddress_address {e : JsString} (he : ∀ u ∈ e, isSpace u = false) :
    (parseAddress (some e)).address = e ↔ ¬ Bracketed e := by
  have htrim : trim e = e := trim_of_no_space he
  unfold parseAddress
  rw [Option.getD_some, htrim]
  dsimp only
  cases hmatch : matchNamed e with
  | none =>
    refine ⟨fun _ hbracketed => ?_, fun _ => rfl⟩
    have hsome := matchNamed_isSome he hbracketed
    rw [hmatch] at hsome
    cases hsome
  | some m =>
    obtain ⟨name, address⟩ := m
    obtain ⟨heq, hne, hmem⟩ := matchNamed_eq he hmatch
    refine ⟨fun hsame => ?_, fun hnot => absurd ⟨name, address, heq, hne, hmem⟩ hnot⟩
    have hsame : trim address = e := hsame
    -- the address in the brackets is shorter than the text
    have hshort : trim address = address := trim_of_no_space fun u hu => he u (by rw [heq]; simp [hu])
    have hlength := congrArg List.length (hshort.symm.trans hsame)
    rw [heq] at hlength
    simp only [List.length_append, List.length_cons] at hlength
    omega

end Sag
