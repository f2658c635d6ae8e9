import Sag.Config

/-!
# Addresses and subjects

`identity.js`: how an address is normalised, what counts as one, which mailbox
stands behind it, and the subject derived from it.

`looksLikeEmail` admits no white space anywhere (`looksLikeEmail_no_space`):
the local part and every label of the domain are tested for it, and the `@`
and the dots between them are not white space. Neither the mail envelope nor
the digest of a code can therefore be confused by blanks in an address.
-/

namespace Sag

variable (rt : Runtime)

/-- Normalise an address for identity purposes. -/
def normaliseEmail (input : Option JsString) : Option JsString :=
  match breakLast atSign (trim (input.getD [])) with
  | none => none
  | some (loc, domain) =>
    if loc = [] ∨ domain = [] then none
    else some (rt.cases.toLowerCase loc ++ atSign :: rt.cases.toLowerCase domain)

/-- Drop a plus tag. -/
def stripPlusTag (email : JsString) : JsString :=
  match breakLast atSign email with
  | none => email
  | some (loc, domain) =>
    if loc = [] then email
    else if loc.head? = some quoteMark then email
    else
      match breakFirst plusSign loc with
      | none => email
      | some (user, _) => if user = [] then email else user ++ atSign :: domain

def sanitisesPlusEmails (config : Config) (client : Client) : Bool :=
  client.sanitisePlusEmails.getD config.sanitisePlusEmails

/-- The address as one relying party should see it. -/
def identityEmail (config : Config) (email : JsString) (client : Client) : JsString :=
  if sanitisesPlusEmails config client then stripPlusTag email else email

/-- `email.split('@')[1]?.toLowerCase()`. -/
def domainOf (email : Option JsString) : Option JsString :=
  (split atSign (email.getD []))[1]?.map rt.cases.toLowerCase

/-- Basic address shape check. -/
def looksLikeEmail (email : JsString) : Bool :=
  if email = [] || 254 < email.length then false
  else
    match split atSign email with
    | [loc, domain] =>
      if loc = [] || loc.any isSpace then false
      else if domain = [] || 253 < domain.length || domain.head? = some hyphen ||
          domain.getLast? = some hyphen then false
      else
        let labels := split dot domain
        !(labels.length < 2 || labels.any fun l => l = [] || l.any fun u => isSpace u || u = atSign)
    | _ => false

/-- Does `domain` equal `base` or lie below it? -/
def underDomain (domain base : JsString) : Bool := domain = base || (dot :: base).isSuffixOf domain

/-! ## Subjects -/

/-- `String(value)`. -/
def textOfJson : Json → JsString
  | .str s => s
  | value => rt.stringOf value

/-- The sector a pairwise subject is scoped to. -/
def sectorFor (client : Client) : JsString :=
  match client.sectorIdentifier.filter truthy with
  | some sector => rt.cases.toLowerCase (textOfJson rt sector)
  | none => js "client:" ++ client.clientId

def SEP : JsString := js " | "

/-- `parts.join(sep)`. -/
def join (sep : JsString) (parts : List JsString) : JsString := (parts.intersperse sep).flatten

/-- `client?.subjectType || config.subject.type`. -/
def subjectTypeFor (config : Config) (client : Client) : Json :=
  (client.subjectType.filter truthy).getD (.str config.subjectType.text)

/-- Who a subject is scoped to: a sector, or everybody. -/
def subjectScope (config : Config) (client : Client) : JsString :=
  if (subjectTypeFor config client).same (.str (js "pairwise")) then sectorFor rt client else js "public"

/-- What a subject is derived from. -/
def subjectText (config : Config) (principalParts : List JsString) (client : Client) : JsString :=
  join SEP ([js "sub", textOfJson rt (subjectTypeFor config client), subjectScope rt config client] ++ principalParts)

/-- `undefined` when no salt is configured, where the source throws. -/
def subjectForPrincipal (config : Config) (principalParts : List JsString) (client : Client) :
    Option JsString :=
  if config.subjectSalt = [] then none
  else some (b64u (rt.derive config.subjectSalt (subjectText rt config principalParts client) 24))

/-- Derive the `sub` claim of an address. -/
def subjectFor (config : Config) (email : JsString) (client : Client) : Option JsString :=
  subjectForPrincipal rt config [email] client

/-- `/^[A-Za-z0-9_-]{1,128}$/`. -/
def safeId (s : JsString) : Bool :=
  1 ≤ s.length && s.length ≤ 128 && s.all fun u => isAlnum u || u = 95 || u = hyphen

/-- Derive a subject for an operator-provisioned local identity. -/
def subjectForLocalIdentity (config : Config) (identityId : JsString) (client : Client) :
    Option JsString :=
  if safeId identityId then subjectForPrincipal rt config [js "local", identityId] client else none

/-! ## Facts about accepted addresses -/

variable {rt}

/-- A piece of `split` holds no separator. -/
theorem not_mem_of_mem_split {c : CodeUnit} {s w : JsString} (h : w ∈ split c s) : c ∉ w := by
  intro hc
  have := (splitWhere_piece h c hc).1
  simp at this

/-- Every unit of a string is the separator or in a piece of its `split`. -/
theorem mem_split_or_eq {c : CodeUnit} {s : JsString} {u : CodeUnit} (h : u ∈ s) :
    u = c ∨ ∃ w ∈ split c s, u ∈ w := by
  rcases mem_splitWhere (p := (· == c)) h with h | h
  · exact Or.inl (by simpa using h)
  · exact Or.inr h

/-- What an accepted address consists of. -/
theorem looksLikeEmail_parts {email : JsString} (h : looksLikeEmail email = true) :
    ∃ loc domain, split atSign email = [loc, domain] ∧ loc ≠ [] ∧ (∀ u ∈ loc, isSpace u = false) ∧
      domain ≠ [] ∧ ∀ u ∈ domain, isSpace u = false := by
  unfold looksLikeEmail at h
  split at h
  · cases h
  · split at h
    · next loc domain hsplit =>
      split at h
      · cases h
      · next hlocal =>
        split at h
        · cases h
        · next hdomain =>
          simp only [Bool.or_eq_true, decide_eq_true_eq, List.any_eq_true, not_or] at hlocal hdomain
          simp only [Bool.not_eq_true', Bool.or_eq_false_iff, List.any_eq_false] at h
          refine ⟨loc, domain, hsplit, hlocal.1, ?_, hdomain.1.1.1, ?_⟩
          · intro u hu
            exact Bool.eq_false_iff.mpr fun hsp => hlocal.2 ⟨u, hu, hsp⟩
          · intro u hu
            rcases mem_split_or_eq (c := dot) hu with rfl | ⟨w, hw, huw⟩
            · decide
            · have hl := h.2 w hw
              simp only [Bool.or_eq_true, decide_eq_true_eq, List.any_eq_true, not_or, not_exists,
                not_and] at hl
              exact Bool.eq_false_iff.mpr (hl.2 u huw).1
    · cases h

/-- An accepted address holds no white space. -/
theorem looksLikeEmail_no_space {email : JsString} (h : looksLikeEmail email = true) :
    ∀ u ∈ email, isSpace u = false := by
  obtain ⟨loc, domain, hsplit, -, hloc, -, hdomain⟩ := looksLikeEmail_parts h
  intro u hu
  rcases mem_split_or_eq (c := atSign) hu with rfl | ⟨w, hw, huw⟩
  · decide
  · rw [hsplit] at hw
    rcases List.mem_cons.mp hw with rfl | hw
    · exact hloc u huw
    · rw [List.mem_singleton.mp hw] at huw
      exact hdomain u huw

end Sag
