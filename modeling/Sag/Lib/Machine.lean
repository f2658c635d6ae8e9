import Sag.Lib.Program

/-!
# Deterministic environments

An environment that is a function of its own state: a `Machine` tells the time and answers
operations, and may change with each of them. Against a machine a program has one result
(`Prog.eval`). Whatever a program does against any environment it does against a machine that
holds those answers in store, so a fact for every machine is a fact for every environment.

`Yields` is total correctness: the program returns, and what it returns is as it should be.
`yields_bind` composes, and `Always.eval` reads off what a program ensures under a contract that
the machine keeps.
-/

namespace Resumable

variable {F : Effects} {σ α β : Type}

/-- An environment with one answer to everything. -/
structure Machine (F : Effects) (σ : Type) where
  now : σ → Nat
  answer : σ → (o : F.Op) → F.Ans o × σ

namespace Prog

/-- What a program settles to, and the state it leaves behind. -/
def eval (m : Machine F σ) : Prog F α → σ → Except F.Err α × σ
  | .pure a, s => (.ok a, s)
  | .throw e, s => (.error e, s)
  | .clock k, s => eval m (k (m.now s)) s
  | .call o k, s => eval m (k (m.answer s o).1) (m.answer s o).2

variable {m : Machine F σ} {s : σ}

/-- The second program goes on where the first one has ended. -/
theorem eval_bind (p : Prog F α) (f : α → Prog F β) (s : σ) :
    (p >>= f).eval m s =
      match p.eval m s with
      | (.ok a, s') => (f a).eval m s'
      | (.error e, s') => (.error e, s') := by
  induction p generalizing s with
  | pure a => rfl
  | throw e => rfl
  | clock k ih => exact ih _ s
  | call o k ih => exact ih _ _

/-- The program returns, and `Q` holds of what it returns and of the state it leaves. -/
def Yields (m : Machine F σ) (p : Prog F α) (s : σ) (Q : α → σ → Prop) : Prop :=
  ∃ a, (p.eval m s).1 = .ok a ∧ Q a (p.eval m s).2

variable {Q Q' : α → σ → Prop} {p : Prog F α}

theorem Yields.mono (h : p.Yields m s Q) (hQ : ∀ a s', Q a s' → Q' a s') : p.Yields m s Q' := by
  obtain ⟨a, ha, hs⟩ := h
  exact ⟨a, ha, hQ a _ hs⟩

/-- A program has one result. -/
theorem Yields.and (h : p.Yields m s Q) (h' : p.Yields m s Q') : p.Yields m s fun a s' => Q a s' ∧ Q' a s' := by
  obtain ⟨a, ha, hs⟩ := h
  obtain ⟨b, hb, hs'⟩ := h'
  obtain rfl : a = b := Except.ok.inj (ha.symm.trans hb)
  exact ⟨a, ha, hs, hs'⟩

theorem yields_pure {a : α} (h : Q a s) : (Prog.pure a : Prog F α).Yields m s Q := ⟨a, rfl, h⟩

theorem yields_await {o : F.Op} {Q : F.Ans o → σ → Prop} (h : Q (m.answer s o).1 (m.answer s o).2) :
    (await o).Yields m s Q := ⟨_, rfl, h⟩

/-- The sequencing rule. -/
theorem yields_bind {f : α → Prog F β} {Q : β → σ → Prop} (h : p.Yields m s fun a s' => (f a).Yields m s' Q) :
    (p >>= f).Yields m s Q := by
  obtain ⟨a, ha, hf⟩ := h
  have heval : (p >>= f).eval m s = (f a).eval m (p.eval m s).2 := by
    rw [eval_bind]
    generalize p.eval m s = r at ha
    obtain ⟨r, s'⟩ := r
    obtain rfl : r = .ok a := ha
    rfl
  rw [Yields, heval]
  exact hf

end Prog

/-- The machine gives only answers that may be relied on. -/
def Machine.Within (m : Machine F σ) (C : Rely F) : Prop :=
  (∀ s, C.tick (m.now s)) ∧ ∀ s o, C.reply (m.now s) o (m.answer s o).1

/-- What a program ensures holds of its result. -/
theorem Prog.Always.eval {m : Machine F σ} {C : Contract F} {E : F.Err → Prop} {Q : α → Prop} {p : Prog F α}
    (hm : m.Within C) (h : p.Always C E Q) (s : σ) :
    (∀ a, (p.eval m s).1 = .ok a → Q a) ∧ ∀ e, (p.eval m s).1 = .error e → E e := by
  have run : ∀ (p : Prog F α) (s : σ) (moment : Moment F), (∀ t, moment.now = some t → m.now s = t) →
      p.Sat C (fun _ => E) (fun _ => Q) moment →
      (∀ a, (p.eval m s).1 = .ok a → Q a) ∧ ∀ e, (p.eval m s).1 = .error e → E e := by
    intro p
    induction p with
    | pure a => exact fun s _ _ hp => ⟨fun b hb => Except.ok.inj hb ▸ hp, nofun⟩
    | throw e => exact fun s _ _ hp => ⟨nofun, fun f hf => Except.error.inj hf ▸ hp⟩
    | clock k ih =>
      intro s moment hnow hp
      exact ih _ s ⟨some (m.now s), moment.past⟩ (fun t ht => Option.some.inj ht) (hp _ ⟨hm.1 s, hnow⟩)
    | call o k ih =>
      intro s moment hnow hp
      exact ih _ _ ⟨none, _⟩ nofun ((hp _ ⟨hm.1 s, hnow⟩).2 _ (hm.2 s o))
  exact run p s ⟨none, []⟩ nofun (h _)

end Resumable
