import Sag.Lib.Program

/-!
# Programs that part at an end

Two programs go the same way, until the first of them may come to an end of the kind
`B` where the second goes on. So whatever the first does that does not end like that,
the second does as well (`Cut.steps`).
-/

namespace Resumable

variable {F : Effects} {α β : Type}

namespace Prog

/-- `p` is `p'`, cut short at some ends of the kind `B`; the other ends of `p` are of the
kind `S`. -/
inductive Cut (B S : Except F.Err α → Prop) : Prog F α → Prog F α → Prop where
  | short {r : Except F.Err α} (h : B r) (p' : Prog F α) : Cut B S (ofExcept r) p'
  | same {r : Except F.Err α} (h : S r) : Cut B S (ofExcept r) (ofExcept r)
  | clock {k k' : Nat → Prog F α} (h : ∀ t, Cut B S (k t) (k' t)) : Cut B S (.clock k) (.clock k')
  | call {o : F.Op} {k k' : F.Ans o → Prog F α} (h : ∀ a, Cut B S (k a) (k' a)) :
      Cut B S (.call o k) (.call o k')

section
variable {B S : Except F.Err α → Prop} {B' S' : Except F.Err β → Prop} {p p' : Prog F α}

/-- A program is itself. -/
theorem Cut.refl (h : ∀ r, S r) (p : Prog F α) : Cut B S p p := by
  induction p with
  | pure a => exact .same (r := .ok a) (h _)
  | throw e => exact .same (r := .error e) (h _)
  | clock k ih => exact .clock ih
  | call o k ih => exact .call ih

/-- The sequencing rule. -/
theorem Cut.bind {f f' : α → Prog F β} (h : Cut B S p p') (herr : ∀ e, B (.error e) → B' (.error e))
    (hok : ∀ a, B (.ok a) → ∀ q', Cut B' S' (f a) q') (hsame : ∀ e, S (.error e) → S' (.error e))
    (hnext : ∀ a, S (.ok a) → Cut B' S' (f a) (f' a)) : Cut B' S' (p >>= f) (p' >>= f') := by
  induction h with
  | @short r hr p' =>
    cases r with
    | ok a => exact hok a hr _
    | error e => exact .short (r := .error e) (herr e hr) _
  | @same r hr =>
    cases r with
    | ok a => exact hnext a hr
    | error e => exact .same (r := .error e) (hsame e hr)
  | clock _ ih => exact .clock ih
  | call _ ih => exact .call ih

/-- What a program settles to. -/
theorem Cut.settled (h : Cut B S p p') :
    Cut (fun r => ∃ r', r = .ok r' ∧ B r') (fun r => ∃ r', r = .ok r' ∧ S r') p.settled p'.settled := by
  induction h with
  | @short r hr p' =>
    have hend : (Prog.ofExcept r : Prog F α).settled = Prog.ofExcept (.ok r) := by cases r <;> rfl
    rw [hend]
    exact .short ⟨r, rfl, hr⟩ _
  | @same r hr =>
    have hend : (Prog.ofExcept r : Prog F α).settled = Prog.ofExcept (.ok r) := by cases r <;> rfl
    rw [hend]
    exact .same ⟨r, rfl, hr⟩
  | clock _ ih => exact .clock ih
  | call _ ih => exact .call ih

theorem atTime_ofExcept (t : Nat) (r : Except F.Err α) : (ofExcept r : Prog F α).atTime t = ofExcept r := by
  cases r <;> rfl

theorem ofExcept_injective {r r' : Except F.Err α} (h : (ofExcept r : Prog F α) = ofExcept r') : r = r' := by
  cases r <;> cases r' <;> cases h <;> rfl

theorem Cut.atTime (h : Cut B S p p') (t : Nat) : Cut B S (p.atTime t) (p'.atTime t) := by
  induction h with
  | @short r hr p' =>
    rw [atTime_ofExcept]
    exact .short hr _
  | @same r hr =>
    rw [atTime_ofExcept]
    exact .same hr
  | clock _ ih => exact ih t
  | call h _ => exact .call h

/-- Where the first program comes to an end that is not of the kind `B`, so does the
second, on the same answers. -/
theorem Cut.steps {q : Prog F α} {es : List (Event F)} (h : Cut B S p p') (hs : Steps p es q) {t : Nat}
    {r : Except F.Err α} (hq : q.atTime t = ofExcept r) (hr : ¬ B r) :
    S r ∧ ∃ q', Steps p' es q' ∧ q'.atTime t = ofExcept r := by
  induction hs generalizing p' with
  | nil p =>
    have hend := h.atTime t
    rw [hq] at hend
    generalize hp : (ofExcept r : Prog F α) = pr at hend
    generalize hp' : p'.atTime t = pr' at hend
    cases hend with
    | short hb => exact absurd (ofExcept_injective hp ▸ hb) hr
    | same hsame =>
      have heq := ofExcept_injective hp
      exact ⟨heq ▸ hsame, p', .nil p', by rw [hp', ← hp]⟩
    | clock _ => cases r <;> cases hp
    | call _ => cases r <;> cases hp
  | @cons p q t₀ o k a es hp _ ih =>
    have hcall := h.atTime t₀
    rw [hp] at hcall
    generalize hc : (Prog.call o k : Prog F α) = pc at hcall
    generalize hc' : p'.atTime t₀ = pc' at hcall
    cases hcall with
    | @short r' hb => cases r' <;> cases hc
    | @same r' hsame => cases r' <;> cases hc
    | clock _ => cases hc
    | call hk =>
      cases hc
      obtain ⟨hend, q', hsteps, hq'⟩ := ih (hk a) hq
      exact ⟨hend, q', .cons hc' hsteps, hq'⟩

end

end Prog

end Resumable
