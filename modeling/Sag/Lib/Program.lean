/-!
# Resumable programs

A server handler is sequential code that stops at every call it awaits: a
store operation, a network fetch, a draw of random bytes. `Prog` is that code
with the calls left open. `call o k` issues the operation `o` and continues
with `k` on whatever it answers, so one embedding of a handler can be read in
two ways: against an environment that answers as it likes (`Sat`), or against
a concrete shared state and under any interleaving with other programs
(`Steps`, and `Resumable.System` on top of it).

Code between two awaits runs without interruption, so it sees one clock
reading. `clock k` is therefore not an operation of its own: it is resolved by
`atTime` with the instant of the segment it stands in.

`Sat` is a weakest-precondition predicate, evaluated at a `Moment`: the events
so far, and the instant where a clock reading has fixed it. A `Contract` names
what a program may rely on (clock readings, replies) and what it guarantees
(the operations it issues, which may depend on both). `sat_bind` and
`sat_tryCatch` compose, and `Sat.steps` carries a `Sat` fact along any trace
that keeps the rely side.
-/

namespace Resumable

/-- An effect signature: what can be thrown, the operations a program can
await, and the type of each operation's answer. -/
structure Effects where
  Err : Type
  Op : Type
  Ans : Op → Type

variable {F : Effects} {α β γ : Type}

/-- A program that awaits operations of `F` and returns an `α`. -/
inductive Prog (F : Effects) (α : Type) : Type where
  | pure (a : α)
  | throw (e : F.Err)
  | clock (k : Nat → Prog F α)
  | call (o : F.Op) (k : F.Ans o → Prog F α)

namespace Prog

def bind : Prog F α → (α → Prog F β) → Prog F β
  | .pure a, f => f a
  | .throw e, _ => .throw e
  | .clock k, f => .clock fun t => bind (k t) f
  | .call o k, f => .call o fun a => bind (k a) f

instance : Monad (Prog F) where
  pure := .pure
  bind := bind

/-- Run `p`, and `h` on what it throws. -/
def tryCatch : Prog F α → (F.Err → Prog F α) → Prog F α
  | .pure a, _ => .pure a
  | .throw e, h => h e
  | .clock k, h => .clock fun t => tryCatch (k t) h
  | .call o k, h => .call o fun a => tryCatch (k a) h

/-- Await one operation. -/
def await (o : F.Op) : Prog F (F.Ans o) := .call o .pure

/-- Read the clock. -/
def now : Prog F Nat := .clock .pure

/-- Rethrow a stored failure, or go on with the stored value. -/
def ofExcept : Except F.Err α → Prog F α
  | .ok a => .pure a
  | .error e => .throw e

/-- What a program settles to. -/
def settled : Prog F α → Prog F (Except F.Err α)
  | .pure a => .pure (.ok a)
  | .throw e => .pure (.error e)
  | .clock k => .clock fun t => settled (k t)
  | .call o k => .call o fun a => settled (k a)

/-! Two programs at once, `pick` deciding before each segment which of them
takes it. A segment runs from one call to the next, so it is not cut in two. -/

/-- The two results of a pair of programs. -/
abbrev Pair (F : Effects) (α β : Type) : Type := Except F.Err α × Except F.Err β

def choose (pick : Prog F Bool) (left right : Prog F γ) : Prog F γ :=
  bind pick fun first => if first then left else right

/-- The second program takes a segment; `left` is the turn of the first. -/
def turnRight (pick : Prog F Bool) (left : Prog F β → Prog F (Pair F α β)) :
    Prog F β → Prog F (Pair F α β)
  | .pure b => left (.pure b)
  | .throw e => left (.throw e)
  | .clock k => .clock fun t => turnRight pick left (k t)
  | .call o k => .call o fun a => choose pick (left (k a)) (turnRight pick left (k a))

/-- The first program takes a segment. -/
def turnLeft (pick : Prog F Bool) : Prog F α → Prog F β → Prog F (Pair F α β)
  | .pure a => fun q => bind (settled q) fun r => .pure (.ok a, r)
  | .throw e => fun q => bind (settled q) fun r => .pure (.error e, r)
  | .clock k => fun q => .clock fun t => turnLeft pick (k t) q
  | .call o k => fun q =>
    .call o fun a => choose pick (turnLeft pick (k a) q) (turnRight pick (turnLeft pick (k a)) q)

/-- Run two programs at once. A failure of one does not stop the other. -/
def both (pick : Prog F Bool) (p : Prog F α) (q : Prog F β) : Prog F (Pair F α β) :=
  choose pick (turnLeft pick p q) (turnRight pick (turnLeft pick p) q)

@[simp] theorem pure_eq (a : α) : (Pure.pure a : Prog F α) = .pure a := rfl

@[simp] theorem bind_pure_left (a : α) (f : α → Prog F β) : (Prog.pure a : Prog F α) >>= f = f a := rfl

@[simp] theorem bind_throw (e : F.Err) (f : α → Prog F β) :
    (Prog.throw e : Prog F α) >>= f = .throw e := rfl

@[simp] theorem bind_clock (k : Nat → Prog F α) (f : α → Prog F β) :
    (Prog.clock k) >>= f = .clock fun t => k t >>= f := rfl

@[simp] theorem bind_call (o : F.Op) (k : F.Ans o → Prog F α) (f : α → Prog F β) :
    (Prog.call o k) >>= f = .call o fun a => k a >>= f := rfl

theorem map_eq (f : α → β) (p : Prog F α) : f <$> p = p >>= fun a => .pure (f a) := rfl

theorem bind_assoc (p : Prog F α) (f : α → Prog F β) (g : β → Prog F γ) :
    (p >>= f) >>= g = p >>= fun a => f a >>= g := by
  induction p with
  | pure a => rfl
  | throw e => rfl
  | clock k ih =>
    simp only [bind_clock]
    exact congrArg Prog.clock (funext ih)
  | call o k ih =>
    simp only [bind_call]
    exact congrArg (Prog.call o) (funext ih)

end Prog

/-! ## Contracts -/

/-- One awaited operation, the instant it was issued and what it answered. -/
structure Event (F : Effects) where
  time : Nat
  op : F.Op
  ans : F.Ans op

/-- Where a program stands: the events behind it, and the instant of the
segment it is in, once it has read the clock. -/
structure Moment (F : Effects) where
  now : Option Nat
  past : List (Event F)

/-- What a program may rely on: the instants it can run at, and the replies. -/
structure Rely (F : Effects) where
  tick : Nat → Prop
  reply : Nat → (o : F.Op) → F.Ans o → Prop

/-- A reliance with what it is traded for: the operations that may be issued,
after which events and at which instant. -/
structure Contract (F : Effects) extends Rely F where
  issue : List (Event F) → Nat → F.Op → Prop

instance : CoeOut (Contract F) (Rely F) := ⟨Contract.toRely⟩

/-- Can it be `t` at the moment `s`? -/
def Rely.Now (C : Rely F) (s : Moment F) (t : Nat) : Prop :=
  C.tick t ∧ ∀ t', s.now = some t' → t = t'

/-- What holds at a moment, whichever instant it is. -/
def Rely.Ends {τ : Type} (C : Rely F) (Q : Nat → List (Event F) → τ → Prop) (s : Moment F) (x : τ) :
    Prop :=
  ∀ t, C.Now s t → Q t s.past x

/-- The operation `o` has answered `a` at some instant. -/
def Rely.Saw (C : Rely F) (o : F.Op) (a : F.Ans o) : Prop := ∃ t, C.tick t ∧ C.reply t o a

namespace Prog

/-- Against every environment that keeps `C`, the program issues only what `C`
allows, returns only what satisfies `Q` and throws only what satisfies `E`. -/
def Sat (C : Contract F) (E : Moment F → F.Err → Prop) (Q : Moment F → α → Prop) :
    Moment F → Prog F α → Prop
  | s, .pure a => Q s a
  | s, .throw e => E s e
  | s, .clock k => ∀ t, C.Now s t → Sat C E Q ⟨some t, s.past⟩ (k t)
  | s, .call o k => ∀ t, C.Now s t →
      C.issue s.past t o ∧ ∀ a, C.reply t o a → Sat C E Q ⟨none, s.past ++ [⟨t, o, a⟩]⟩ (k a)

section
variable {C : Contract F} {E E' : Moment F → F.Err → Prop} {Q Q' : Moment F → α → Prop}
variable {s : Moment F}

@[simp] theorem sat_pure {a : α} : (Prog.pure a : Prog F α).Sat C E Q s ↔ Q s a := Iff.rfl

@[simp] theorem sat_throw {e : F.Err} : (Prog.throw e : Prog F α).Sat C E Q s ↔ E s e := Iff.rfl

@[simp] theorem sat_clock {k : Nat → Prog F α} :
    (Prog.clock k).Sat C E Q s ↔ ∀ t, C.Now s t → (k t).Sat C E Q ⟨some t, s.past⟩ := Iff.rfl

@[simp] theorem sat_call {o : F.Op} {k : F.Ans o → Prog F α} :
    (Prog.call o k).Sat C E Q s ↔ ∀ t, C.Now s t →
      C.issue s.past t o ∧
        ∀ a, C.reply t o a → (k a).Sat C E Q ⟨none, s.past ++ [⟨t, o, a⟩]⟩ := Iff.rfl

theorem sat_ofExcept {x : Except F.Err α} :
    (Prog.ofExcept x : Prog F α).Sat C E Q s ↔
      (∀ a, x = .ok a → Q s a) ∧ ∀ e, x = .error e → E s e := by
  cases x <;> simp [ofExcept]

/-- The sequencing rule. -/
theorem sat_bind {p : Prog F α} {f : α → Prog F β} {Q : Moment F → β → Prop} :
    (p >>= f).Sat C E Q s ↔ p.Sat C E (fun s a => (f a).Sat C E Q s) s := by
  induction p generalizing s with
  | pure a => rfl
  | throw e => rfl
  | clock k ih =>
    simp only [bind_clock, sat_clock]
    exact forall_congr' fun t => imp_congr_right fun _ => ih t
  | call o k ih =>
    simp only [bind_call, sat_call]
    exact forall_congr' fun t => imp_congr_right fun _ =>
      and_congr_right fun _ => forall_congr' fun a => imp_congr_right fun _ => ih a

/-- The rule for a handler of exceptions. -/
theorem sat_tryCatch {p : Prog F α} {h : F.Err → Prog F α} :
    (p.tryCatch h).Sat C E Q s ↔ p.Sat C (fun s e => (h e).Sat C E Q s) Q s := by
  induction p generalizing s with
  | pure a => rfl
  | throw e => rfl
  | clock k ih => exact forall_congr' fun t => imp_congr_right fun _ => ih t
  | call o k ih =>
    exact forall_congr' fun t => imp_congr_right fun _ =>
      and_congr_right fun _ => forall_congr' fun a => imp_congr_right fun _ => ih a

/-- The rule of consequence. -/
theorem Sat.mono {p : Prog F α} (h : p.Sat C E Q s) (hE : ∀ s e, E s e → E' s e)
    (hQ : ∀ s a, Q s a → Q' s a) : p.Sat C E' Q' s := by
  induction p generalizing s with
  | pure a => exact hQ s a h
  | throw e => exact hE s e h
  | clock k ih => exact fun t ht => ih t (h t ht)
  | call o k ih => exact fun t ht => ⟨(h t ht).1, fun a ha => ih a ((h t ht).2 a ha)⟩

/-- What asks for nothing is kept. -/
theorem Sat.free (hI : ∀ h t o, C.issue h t o) (hE : ∀ s e, E s e) (hQ : ∀ s a, Q s a) (p : Prog F α) :
    p.Sat C E Q s := by
  induction p generalizing s with
  | pure a => exact hQ s a
  | throw e => exact hE s e
  | clock k ih => exact fun t _ => ih t
  | call o k ih => exact fun t _ => ⟨hI _ _ _, fun a _ => ih a⟩

/-- What a program settles to. -/
theorem sat_settled {p : Prog F α} {Q : Moment F → Except F.Err α → Prop} :
    p.settled.Sat C E Q s ↔ p.Sat C (fun s e => Q s (.error e)) (fun s a => Q s (.ok a)) s := by
  induction p generalizing s with
  | pure a => rfl
  | throw e => rfl
  | clock k ih => exact forall_congr' fun t => imp_congr_right fun _ => ih t
  | call o k ih =>
    exact forall_congr' fun t => imp_congr_right fun _ =>
      and_congr_right fun _ => forall_congr' fun a => imp_congr_right fun _ => ih a

end

end Prog

/-! ## Facts about results alone -/

/-- A guarantee that does not look at the past. -/
def Contract.Forgetful (C : Contract F) : Prop :=
  ∀ h h' t o, C.issue h t o → C.issue h' t o

namespace Prog

/-- From every moment, `p` keeps `C`, returns what satisfies `Q` and throws what
satisfies `E`. -/
def Always (C : Contract F) (E : F.Err → Prop) (Q : α → Prop) (p : Prog F α) : Prop :=
  ∀ s, p.Sat C (fun _ => E) (fun _ => Q) s

section
variable {C : Contract F} {E : F.Err → Prop} {pick : Prog F Bool}

/-- A forgetful contract is met at one moment if it is met at one that says
less about the instant. -/
theorem sat_anyMoment (hC : C.Forgetful) {Q : α → Prop} {p : Prog F α} {s s' : Moment F}
    (hs : ∀ t, C.Now s' t → C.Now s t) (hp : p.Sat C (fun _ => E) (fun _ => Q) s) :
    p.Sat C (fun _ => E) (fun _ => Q) s' := by
  induction p generalizing s s' with
  | pure a => exact hp
  | throw e => exact hp
  | clock k ih => exact fun t ht => ih t (s := ⟨some t, s.past⟩) (fun _ h => h) (hp t (hs t ht))
  | call o k ih =>
    exact fun t ht => ⟨hC _ _ _ _ (hp t (hs t ht)).1, fun a ha =>
      ih a (s := ⟨none, s.past ++ [⟨t, o, a⟩]⟩) (fun _ h => h) ((hp t (hs t ht)).2 a ha)⟩

/-- Where nothing is known of the instant, one past is as good as any. -/
theorem always_of_sat (hC : C.Forgetful) {Q : α → Prop} {p : Prog F α} {h : List (Event F)}
    (hp : p.Sat C (fun _ => E) (fun _ => Q) ⟨none, h⟩) : p.Always C E Q :=
  fun _ => sat_anyMoment hC (fun _ ht => ⟨ht.1, by simp⟩) hp

theorem Always.mono {Q Q' : α → Prop} {p : Prog F α} (h : p.Always C E Q) (hQ : ∀ a, Q a → Q' a) : p.Always C E Q' :=
  fun s => (h s).mono (fun _ _ he => he) fun _ a ha => hQ a ha

/-- The sequencing rule. -/
theorem Always.bind {Q : α → Prop} {Q' : β → Prop} {p : Prog F α} {f : α → Prog F β} (h : p.Always C E Q)
    (hf : ∀ a, Q a → (f a).Always C E Q') : (p >>= f).Always C E Q' :=
  fun s => sat_bind.mpr ((h s).mono (fun _ _ he => he) fun s' a ha => hf a ha s')

/-- What a program settles to, whichever way. -/
theorem Always.settled {E' : F.Err → Prop} {Q : α → Prop} {p : Prog F α} (h : p.Always C E Q) :
    p.settled.Always C E' fun r => (∀ a, r = .ok a → Q a) ∧ ∀ e, r = .error e → E e :=
  fun s => sat_settled.mpr ((h s).mono (fun _ _ he => by simpa using he) fun _ _ ha => by simpa using ha)

/-- An operation that may be issued anywhere tells what it has answered. -/
theorem Always.await {o : F.Op} (ho : ∀ h t, C.tick t → C.issue h t o) :
    (Prog.await (F := F) o).Always C E fun a => C.Saw o a :=
  fun _ t ht => ⟨ho _ t ht.1, fun _ ha => ⟨t, ht.1, ha⟩⟩

theorem Always.choose {Q : γ → Prop} {left right : Prog F γ} (hpick : pick.Always C E fun _ => True)
    (hl : left.Always C E Q) (hr : right.Always C E Q) : (choose pick left right).Always C E Q := by
  refine fun s => sat_bind.mpr ((hpick s).mono (fun _ _ he => he) fun s' first _ => ?_)
  cases first with
  | true => exact hl s'
  | false => exact hr s'

variable {P : Except F.Err α → Prop} {Q : Except F.Err β → Prop}

theorem sat_turnRight (hC : C.Forgetful) (hpick : pick.Always C E fun _ => True)
    {left : Prog F β → Prog F (Pair F α β)}
    (hleft : ∀ q : Prog F β, q.Always C (fun e => Q (.error e)) (fun b => Q (.ok b)) →
      (left q).Always C E fun r => P r.1 ∧ Q r.2)
    {q : Prog F β} {s : Moment F}
    (hq : q.Sat C (fun _ e => Q (.error e)) (fun _ b => Q (.ok b)) s) :
    (turnRight pick left q).Sat C (fun _ => E) (fun _ r => P r.1 ∧ Q r.2) s := by
  induction q generalizing s with
  | pure b => exact hleft _ (fun _ => sat_pure.mpr (sat_pure.mp hq)) s
  | throw e => exact hleft _ (fun _ => sat_throw.mpr (sat_throw.mp hq)) s
  | clock k ih => exact fun t ht => ih t (hq t ht)
  | call o k ih =>
    refine fun t ht => ⟨(hq t ht).1, fun a ha => ?_⟩
    have hk : (k a).Always C (fun e => Q (.error e)) (fun b => Q (.ok b)) :=
      always_of_sat hC ((hq t ht).2 a ha)
    exact Always.choose hpick (hleft _ hk) (fun s' => ih a (hk s')) _

theorem sat_turnLeft (hC : C.Forgetful) (hpick : pick.Always C E fun _ => True)
    {p : Prog F α} {q : Prog F β} (hq : q.Always C (fun e => Q (.error e)) fun b => Q (.ok b))
    {s : Moment F} (hp : p.Sat C (fun _ e => P (.error e)) (fun _ a => P (.ok a)) s) :
    (turnLeft pick p q).Sat C (fun _ => E) (fun _ r => P r.1 ∧ Q r.2) s := by
  induction p generalizing q s with
  | pure a =>
    have hs := sat_settled (E := fun _ => E) (Q := fun _ => Q).mpr (hq s)
    exact sat_bind.mpr (hs.mono (fun _ _ he => he) fun _ r hr => ⟨hp, hr⟩)
  | throw e =>
    have hs := sat_settled (E := fun _ => E) (Q := fun _ => Q).mpr (hq s)
    exact sat_bind.mpr (hs.mono (fun _ _ he => he) fun _ r hr => ⟨hp, hr⟩)
  | clock k ih => exact fun t ht => ih t hq (hp t ht)
  | call o k ih =>
    refine fun t ht => ⟨(hp t ht).1, fun a ha => ?_⟩
    have hk : (k a).Always C (fun e => P (.error e)) (fun a => P (.ok a)) :=
      always_of_sat hC ((hp t ht).2 a ha)
    refine Always.choose hpick (fun s' => ih a hq (hk s')) (fun s' => ?_) _
    exact sat_turnRight hC hpick (fun q hq s' => ih a hq (hk s')) (hq s')

/-- The rule for two programs at once: each keeps to its own contract fact,
whatever the order. -/
theorem Always.both (hC : C.Forgetful) (hpick : pick.Always C E fun _ => True) {p : Prog F α}
    {q : Prog F β} (hp : p.Always C (fun e => P (.error e)) fun a => P (.ok a))
    (hq : q.Always C (fun e => Q (.error e)) fun b => Q (.ok b)) :
    (Prog.both pick p q).Always C E fun r => P r.1 ∧ Q r.2 :=
  Always.choose hpick (fun s => sat_turnLeft hC hpick hq (hp s))
    fun s => sat_turnRight hC hpick (fun _ hq s' => sat_turnLeft hC hpick hq (hp s')) (hq s)

end

/-! ## Traces -/

/-- The program as it stands once the clock reads of its current segment have
been resolved at `t`. -/
def atTime (t : Nat) : Prog F α → Prog F α
  | .clock k => (k t).atTime t
  | p => p

theorem Sat.atTime {C : Contract F} {E : Nat → List (Event F) → F.Err → Prop}
    {Q : Nat → List (Event F) → α → Prop} {t : Nat} {p : Prog F α} {s : Moment F} (ht : C.Now s t)
    (h : p.Sat C (C.Ends E) (C.Ends Q) s) :
    (p.atTime t).Sat C (C.Ends E) (C.Ends Q) ⟨some t, s.past⟩ := by
  have here : ∀ {t'}, C.Now ⟨some t, s.past⟩ t' → t' = t := fun h => h.2 t rfl
  induction p generalizing s with
  | pure a => exact fun t' ht' => here ht' ▸ h t ht
  | throw e => exact fun t' ht' => here ht' ▸ h t ht
  | clock k ih => exact ih t (s := ⟨some t, s.past⟩) ⟨ht.1, by simp⟩ (h t ht) here
  | call o k =>
    intro t' ht'
    rw [here ht']
    exact h t ht

/-- `p` performs the events `es` and is left as `q`. -/
inductive Steps : Prog F α → List (Event F) → Prog F α → Prop where
  | nil (p : Prog F α) : Steps p [] p
  | cons {p q : Prog F α} {t : Nat} {o : F.Op} {k : F.Ans o → Prog F α} {a : F.Ans o}
      {es : List (Event F)} (hp : p.atTime t = .call o k) (hk : Steps (k a) es q) :
      Steps p (⟨t, o, a⟩ :: es) q

/-- Steps compose. -/
theorem Steps.append {p q r : Prog F α} {es fs : List (Event F)} (h : Steps p es q)
    (h' : Steps q fs r) : Steps p (es ++ fs) r := by
  induction h with
  | nil => exact h'
  | cons hp _ ih => exact .cons hp (ih h')

/-- A trace can be stopped before any of its events. -/
theorem Steps.split {p q : Prog F α} {pre post : List (Event F)} {e : Event F}
    (h : Steps p (pre ++ e :: post) q) :
    ∃ p' k, Steps p pre p' ∧ p'.atTime e.time = .call e.op k ∧ Steps (k e.ans) post q := by
  induction pre generalizing p with
  | nil =>
    cases h with
    | cons hp hk => exact ⟨p, _, .nil p, hp, hk⟩
  | cons x pre ih =>
    cases h with
    | cons hp hk =>
      obtain ⟨p', k, hpre, hcall, hpost⟩ := ih hk
      exact ⟨p', k, .cons hp hpre, hcall, hpost⟩

/-- One more event at the end of a trace. -/
theorem Steps.snoc {p q : Prog F α} {es : List (Event F)} {t : Nat} {o : F.Op}
    {k : F.Ans o → Prog F α} {a : F.Ans o} (h : Steps p es q) (hq : q.atTime t = .call o k) :
    Steps p (es ++ [⟨t, o, a⟩]) (k a) :=
  h.append (.cons hq (.nil _))

end Prog

/-- A reliance, as a condition on one event. -/
def Rely.Keeps (C : Rely F) (e : Event F) : Prop :=
  C.tick e.time ∧ C.reply e.time e.op e.ans

/-- The guarantee of a contract, as a condition on a trace after the past `h`. -/
def Contract.Issued (C : Contract F) (h es : List (Event F)) : Prop :=
  ∀ pre e post, es = pre ++ e :: post → C.issue (h ++ pre) e.time e.op

theorem Contract.Issued.nil {C : Contract F} {h : List (Event F)} : C.Issued h [] := by
  intro pre e post heq
  cases pre <;> cases heq

theorem Contract.Issued.cons {C : Contract F} {h es : List (Event F)} {e : Event F}
    (he : C.issue h e.time e.op) (hes : C.Issued (h ++ [e]) es) : C.Issued h (e :: es) := by
  intro pre e' post heq
  cases pre with
  | nil =>
    obtain ⟨rfl, rfl⟩ := List.cons.inj heq
    simpa using he
  | cons x pre =>
    obtain ⟨rfl, rfl⟩ := List.cons.inj heq
    simpa using hes pre e' post rfl

theorem Contract.Issued.append {C : Contract F} {h es fs : List (Event F)} (hes : C.Issued h es)
    (hfs : C.Issued (h ++ es) fs) : C.Issued h (es ++ fs) := by
  induction es generalizing h with
  | nil => simpa using hfs
  | cons e es ih =>
    have he : C.issue h e.time e.op := by simpa using hes [] e es rfl
    refine .cons he (ih (fun pre e' post heq => ?_) (by simpa using hfs))
    simpa using hes (e :: pre) e' post (by rw [heq]; rfl)

/-- What a program has performed from one moment to another. -/
def Contract.Grown (C : Contract F) (s s' : Moment F) : Prop :=
  ∃ es, s'.past = s.past ++ es ∧ C.Issued s.past es

/-- The past grows by what the contract allows. -/
theorem Prog.Sat.grows {C : Contract F} {E : Moment F → F.Err → Prop} {Q : Moment F → α → Prop}
    {p : Prog F α} {s : Moment F} (h : p.Sat C E Q s) :
    p.Sat C (fun s' e => E s' e ∧ C.Grown s s') (fun s' a => Q s' a ∧ C.Grown s s') s := by
  induction p generalizing s with
  | pure a => exact ⟨h, [], by simp, .nil⟩
  | throw e => exact ⟨h, [], by simp, .nil⟩
  | clock k ih => exact fun t ht => ih t (h t ht)
  | call o k ih =>
    refine fun t ht => ⟨(h t ht).1, fun a ha => ?_⟩
    have grow : ∀ s', C.Grown ⟨none, s.past ++ [⟨t, o, a⟩]⟩ s' → C.Grown s s' := by
      rintro s' ⟨es, hpast, hes⟩
      exact ⟨⟨t, o, a⟩ :: es, by simp [hpast], .cons (h t ht).1 hes⟩
    exact (ih a ((h t ht).2 a ha)).mono (fun s' e he => ⟨he.1, grow s' he.2⟩)
      fun s' b hb => ⟨hb.1, grow s' hb.2⟩

/-- A program that keeps a stricter guarantee keeps a laxer one. -/
theorem Prog.Sat.relax {C : Contract F} {I : List (Event F) → Nat → F.Op → Prop}
    {E : Moment F → F.Err → Prop} {Q : Moment F → α → Prop} {p : Prog F α} {s : Moment F}
    (hI : ∀ h t o, I h t o → C.issue h t o) (h : p.Sat { C with issue := I } E Q s) :
    p.Sat C E Q s := by
  induction p generalizing s with
  | pure a => exact h
  | throw e => exact h
  | clock k ih => exact fun t ht => ih t (h t ht)
  | call o k ih => exact fun t ht => ⟨hI _ _ _ (h t ht).1, fun a ha => ih a ((h t ht).2 a ha)⟩

/-- Two facts about one program, each with its own guarantee, are one fact. -/
theorem Prog.Sat.and {C : Contract F} {I : List (Event F) → Nat → F.Op → Prop}
    {E E' : Moment F → F.Err → Prop} {Q Q' : Moment F → α → Prop} {p : Prog F α} {s : Moment F}
    (h : p.Sat C E Q s) (h' : p.Sat { C with issue := I } E' Q' s) :
    p.Sat C (fun s e => E s e ∧ E' s e) (fun s a => Q s a ∧ Q' s a) s := by
  induction p generalizing s with
  | pure a => exact ⟨h, h'⟩
  | throw e => exact ⟨h, h'⟩
  | clock k ih => exact fun t ht => ih t (h t ht) (h' t ht)
  | call o k ih => exact fun t ht => ⟨(h t ht).1, fun a ha => ih a ((h t ht).2 a ha) ((h' t ht).2 a ha)⟩

/-- `Sat` is carried along every trace that keeps the rely side, and every
operation of the trace is one the contract allows where it stands. -/
theorem Prog.Sat.steps {C : Contract F} {E : Nat → List (Event F) → F.Err → Prop}
    {Q : Nat → List (Event F) → α → Prop} {p q : Prog F α} {es h : List (Event F)} (hs : Steps p es q)
    (hp : p.Sat C (C.Ends E) (C.Ends Q) ⟨none, h⟩) (hr : ∀ e ∈ es, C.Keeps e) :
    q.Sat C (C.Ends E) (C.Ends Q) ⟨none, h ++ es⟩ ∧ C.Issued h es := by
  induction hs generalizing h with
  | nil => exact ⟨by simpa using hp, .nil⟩
  | @cons p q t o k a es hpk _ ih =>
    have he : C.Keeps ⟨t, o, a⟩ := hr _ List.mem_cons_self
    have hcall := hp.atTime ⟨he.1, by simp⟩
    rw [hpk] at hcall
    obtain ⟨hissue, hk⟩ := hcall t ⟨he.1, by simp⟩
    obtain ⟨hq, hes⟩ := ih (hk a he.2) fun e hmem => hr e (List.mem_cons_of_mem _ hmem)
    exact ⟨by simpa using hq, .cons hissue hes⟩

end Resumable
