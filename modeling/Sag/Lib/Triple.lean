import Sag.Lib.System

/-!
# One program over a shared state

`Prog.Sat` asks what a program does against answers of any kind. Here the answers come from
a state that an environment moves with every call, and `Prog.Meets` asks of a program, from a
state, that each of its calls is a step of a narrower environment, and that it ends in a state
that fits its result. What others do to the state in the meantime belongs to the environment.

The definition follows the program down every branch, so a program that `Meets` a condition
under which nothing is thrown does return. `Meets.bind` composes, and `Meets.steps` carries
the fact along a run that may stop anywhere.
-/

namespace Resumable

variable {F : Effects} {σ α β : Type}

namespace Prog

/-- From the state `s`, whatever `env` makes of the calls of the program, each of them is a
`step`, what is returned satisfies `Q` and what is thrown satisfies `E`. -/
def Meets (env step : Environment F σ) (E : σ → F.Err → Prop) (Q : σ → α → Prop) : σ → Prog F α → Prop
  | s, .pure a => Q s a
  | s, .throw e => E s e
  | s, .clock k => ∀ t, Meets env step E Q s (k t)
  | s, .call o k => ∀ t a s', env t s o a s' → step t s o a s' ∧ Meets env step E Q s' (k a)

section
variable {env step : Environment F σ} {E : σ → F.Err → Prop} {s : σ}

/-- The sequencing rule. -/
theorem Meets.bind {p : Prog F α} {f : α → Prog F β} {Q : σ → α → Prop} {R : σ → β → Prop}
    (h : p.Meets env step E Q s) (hf : ∀ s a, Q s a → (f a).Meets env step E R s) :
    (p >>= f).Meets env step E R s := by
  induction p generalizing s with
  | pure a => exact hf s a h
  | throw e => exact h
  | clock k ih => exact fun t => ih t (h t)
  | call o k ih =>
    intro t a s' henv
    obtain ⟨hstep, hk⟩ := h t a s' henv
    exact ⟨hstep, ih a hk⟩

/-- The rule of consequence. -/
theorem Meets.mono {p : Prog F α} {Q R : σ → α → Prop} (h : p.Meets env step E Q s)
    (hQ : ∀ s a, Q s a → R s a) : p.Meets env step E R s := by
  induction p generalizing s with
  | pure a => exact hQ s a h
  | throw e => exact h
  | clock k ih => exact fun t => ih t (h t)
  | call o k ih =>
    intro t a s' henv
    obtain ⟨hstep, hk⟩ := h t a s' henv
    exact ⟨hstep, ih a hk⟩

/-- A segment of the program, once the clock has been read. -/
theorem Meets.atTime {p : Prog F α} {Q : σ → α → Prop} (h : p.Meets env step E Q s) (t : Nat) :
    (p.atTime t).Meets env step E Q s := by
  induction p with
  | clock k ih => exact ih t (h t)
  | _ => exact h

/-- Every run of the program, to wherever it has got, is one of the narrower environment,
and what is left of the program meets the same condition. -/
theorem Meets.steps {p q : Prog F α} {Q : σ → α → Prop} {es : List (Event F)} {c : Nat} {s' : σ}
    (h : p.Meets env step E Q s) (hs : Steps p es q) (hr : Replays env s c es s') :
    Replays step s c es s' ∧ q.Meets env step E Q s' := by
  induction hs generalizing s c with
  | nil =>
    cases hr with
    | nil => exact ⟨.nil _ _, h⟩
  | @cons p q t o k a es hp _ ih =>
    cases hr with
    | cons ht he hr =>
      have hcall := h.atTime t
      rw [hp] at hcall
      obtain ⟨hstep, hk⟩ := hcall t a _ he
      obtain ⟨hreplays, hq⟩ := ih hk hr
      exact ⟨.cons ht hstep hreplays, hq⟩

end

/-! ## Runs of a sequence -/

theorem atTime_bind {p : Prog F α} {f : α → Prog F β} {t : Nat} {o : F.Op} {k : F.Ans o → Prog F α}
    (h : p.atTime t = .call o k) : (p >>= f).atTime t = .call o fun a => k a >>= f := by
  induction p with
  | pure a => cases h
  | throw e => cases h
  | clock k' ih => exact ih t h
  | call o' k' =>
    cases h
    rfl

/-- A run of the first program to its end, and one of the second from its result. -/
theorem Steps.bind {p : Prog F α} {f : α → Prog F β} {a : α} {q : Prog F β} {es fs : List (Event F)}
    (h : Steps p es (.pure a)) (h' : Steps (f a) fs q) : Steps (p >>= f) (es ++ fs) q := by
  generalize hend : (Prog.pure a : Prog F α) = r at h
  induction h with
  | nil =>
    subst hend
    exact h'
  | cons hp _ ih => exact .cons (atTime_bind hp) (ih hend)

end Prog

end Resumable
