import Sag.Lib.Program

/-!
# Interleaved systems of programs

A `System` is a family of programs, one for every request it may be sent. A
`World` is a server in the middle of serving any number of them: the shared
state, the clock, every request that has ever begun with the events it has
performed, and the log of all events in the order they took effect.

`Step` is one scheduling decision. A request begins, one of the requests in
flight performs its next operation on the shared state, or one of them
returns. Nothing orders the requests among each other, and the clock may move
on between any two steps.

Requests carry *tokens*: `presents q` are those a request needs, `releases o`
those an answer hands out. A request may only begin once every token it
presents has been handed out, so a token nobody ever released cannot appear.

`System.Meets` is what has to be known of the programs: one `Sat` fact for each,
under any reliance. `Thread.Sound.guarantee` and `Thread.Sound.result` read it
off a thread of a run, and `System.sound` is the induction all safety arguments
share: where answers turn good tokens into good tokens, every token of every
reachable world is good.
-/

namespace Resumable

variable {F : Effects} {σ : Type}

/-- A family of programs, with the tokens that requests present and answers
release. -/
structure System (F : Effects) where
  Req : Type
  Out : Type
  Tok : Type
  prog : Req → Prog F Out
  presents : Req → Tok → Prop
  releases : Out → Tok → Prop

/-- What an operation may answer, and what it does to the shared state, at an
instant. -/
abbrev Environment (F : Effects) (σ : Type) : Type :=
  Nat → σ → (o : F.Op) → F.Ans o → σ → Prop

/-- A request that has begun: its events so far, the program still to run, and
the instant and the result with which it ended. -/
structure Thread (S : System F) where
  req : S.Req
  start : Nat
  trace : List (Event F)
  rest : Prog F S.Out
  stop : Option (Nat × Except F.Err S.Out)

/-- A server at one moment. -/
structure World (S : System F) (σ : Type) where
  state : σ
  clock : Nat
  threads : List (Thread S)
  log : List (Event F)

variable {S : System F}

/-- A token that some finished request has released. -/
def World.Known (w : World S σ) (tok : S.Tok) : Prop :=
  ∃ th ∈ w.threads, ∃ t out, th.stop = some (t, .ok out) ∧ S.releases out tok

/-- The server before the first request. -/
def World.init (S : System F) (s : σ) : World S σ := ⟨s, 0, [], []⟩

def Thread.begin (S : System F) (q : S.Req) (t : Nat) : Thread S := ⟨q, t, [], S.prog q, none⟩

def Thread.perform (th : Thread S) (e : Event F) (rest : Prog F S.Out) : Thread S :=
  { th with trace := th.trace ++ [e], rest := rest }

def Thread.finish (th : Thread S) (t : Nat) (r : Except F.Err S.Out) : Thread S :=
  { th with stop := some (t, r) }

/-- One scheduling decision. -/
inductive Step (S : System F) (env : Environment F σ) : World S σ → World S σ → Prop where
  | begin (w : World S σ) (q : S.Req) (t : Nat) (ht : w.clock ≤ t)
      (hq : ∀ tok, S.presents q tok → w.Known tok) :
      Step S env w { w with clock := t, threads := w.threads ++ [Thread.begin S q t] }
  | perform (w : World S σ) (pre post : List (Thread S)) (th : Thread S) (t : Nat) (o : F.Op)
      (a : F.Ans o) (k : F.Ans o → Prog F S.Out) (s : σ) (ht : w.clock ≤ t)
      (hth : w.threads = pre ++ th :: post) (hrun : th.stop = none)
      (hp : th.rest.atTime t = .call o k) (he : env t w.state o a s) :
      Step S env w
        { state := s, clock := t, threads := pre ++ th.perform ⟨t, o, a⟩ (k a) :: post
          log := w.log ++ [⟨t, o, a⟩] }
  | finish (w : World S σ) (pre post : List (Thread S)) (th : Thread S) (t : Nat)
      (r : Except F.Err S.Out) (ht : w.clock ≤ t) (hth : w.threads = pre ++ th :: post)
      (hrun : th.stop = none) (hp : th.rest.atTime t = Prog.ofExcept r) :
      Step S env w { w with clock := t, threads := pre ++ th.finish t r :: post }

/-- Every state a server can get to from `w`. -/
inductive Runs (S : System F) (env : Environment F σ) (w : World S σ) : World S σ → Prop where
  | refl : Runs S env w w
  | step {w' w'' : World S σ} (h : Runs S env w w') (hs : Step S env w' w'') : Runs S env w w''

/-- Every state a server can be in, started from the shared state `s`. -/
abbrev Reachable (S : System F) (env : Environment F σ) (s : σ) (w : World S σ) : Prop :=
  Runs S env (World.init S s) w

theorem Runs.trans {S : System F} {env : Environment F σ} {w w' w'' : World S σ}
    (h : Runs S env w w') (h' : Runs S env w' w'') : Runs S env w w'' := by
  induction h' with
  | refl => exact h
  | step _ hs ih => exact .step ih hs

/-! ## What every thread looks like -/

/-- The history of one thread, as seen at `clock`: its events are a trace of
its program, fall in order between its start and the clock, and if it has ended
then its program had nothing left but its result. -/
structure Thread.Sound (th : Thread S) (clock : Nat) : Prop where
  steps : Prog.Steps (S.prog th.req) th.trace th.rest
  started : th.start ≤ clock
  timed : ∀ e ∈ th.trace, th.start ≤ e.time ∧ e.time ≤ clock
  sorted : th.trace.Pairwise fun e e' => e.time ≤ e'.time
  ended : ∀ t r, th.stop = some (t, r) →
    th.start ≤ t ∧ t ≤ clock ∧ (∀ e ∈ th.trace, e.time ≤ t) ∧ th.rest.atTime t = Prog.ofExcept r

theorem Thread.Sound.mono {th : Thread S} {c c' : Nat} (h : th.Sound c) (hc : c ≤ c') :
    th.Sound c' where
  steps := h.steps
  started := Nat.le_trans h.started hc
  timed e he := ⟨(h.timed e he).1, Nat.le_trans (h.timed e he).2 hc⟩
  sorted := h.sorted
  ended t r hs := by
    obtain ⟨h₁, h₂, h₃⟩ := h.ended t r hs
    exact ⟨h₁, Nat.le_trans h₂ hc, h₃⟩

theorem Thread.begin_sound (q : S.Req) (t : Nat) : (Thread.begin S q t).Sound t where
  steps := .nil _
  started := Nat.le_refl t
  timed := by simp [Thread.begin]
  sorted := .nil
  ended := by simp [Thread.begin]

theorem Thread.Sound.perform {th : Thread S} {c t : Nat} {o : F.Op} {a : F.Ans o}
    {k : F.Ans o → Prog F S.Out} (h : th.Sound c) (hc : c ≤ t) (hrun : th.stop = none)
    (hp : th.rest.atTime t = .call o k) : (th.perform ⟨t, o, a⟩ (k a)).Sound t where
  steps := h.steps.snoc hp
  started := Nat.le_trans h.started hc
  timed e he := by
    rcases List.mem_append.mp he with he | he
    · exact ⟨(h.timed e he).1, Nat.le_trans (h.timed e he).2 hc⟩
    · rw [List.mem_singleton.mp he]
      exact ⟨Nat.le_trans h.started hc, Nat.le_refl t⟩
  sorted := by
    refine List.pairwise_append.mpr ⟨h.sorted, List.pairwise_singleton _ _, fun e he e' he' => ?_⟩
    rw [List.mem_singleton.mp he']
    exact Nat.le_trans (h.timed e he).2 hc
  ended t r hs := by simp [Thread.perform, hrun] at hs

theorem Thread.Sound.finish {th : Thread S} {c t : Nat} {r : Except F.Err S.Out} (h : th.Sound c)
    (hc : c ≤ t) (hp : th.rest.atTime t = Prog.ofExcept r) : (th.finish t r).Sound t where
  steps := h.steps
  started := Nat.le_trans h.started hc
  timed e he := ⟨(h.timed e he).1, Nat.le_trans (h.timed e he).2 hc⟩
  sorted := h.sorted
  ended t' r' hs := by
    obtain ⟨rfl, rfl⟩ : t = t' ∧ r = r' := by simpa [Thread.finish] using hs
    exact ⟨Nat.le_trans h.started hc, Nat.le_refl t, fun e he => Nat.le_trans (h.timed e he).2 hc, hp⟩

variable {env : Environment F σ} {s : σ}

/-- Replacing one element of a list replaces what has to be shown of it. -/
theorem forall_mem_replace {τ : Type} {p q : τ → Prop} {pre post : List τ} {x y : τ}
    (hxy : p x → q y) (hpq : ∀ z, p z → q z) (h : ∀ z ∈ pre ++ x :: post, p z) :
    ∀ z ∈ pre ++ y :: post, q z := by
  intro z hz
  rcases List.mem_append.mp hz with hz | hz
  · exact hpq z (h z (List.mem_append_left _ hz))
  · rcases List.mem_cons.mp hz with rfl | hz
    · exact hxy (h x (by simp))
    · exact hpq z (h z (by simp [hz]))

/-- Every thread of a reachable world is sound. -/
theorem Runs.threads_sound {w : World S σ} (h : Reachable S env s w) :
    ∀ th ∈ w.threads, th.Sound w.clock := by
  induction h with
  | refl => simp [World.init]
  | @step w _ h hs ih =>
    cases hs with
    | begin q t ht hq =>
      intro th hth
      rcases List.mem_append.mp hth with hth | hth
      · exact (ih th hth).mono ht
      · rw [List.mem_singleton.mp hth]
        exact Thread.begin_sound q t
    | perform pre post th t o a k s ht hth hrun hp he =>
      rw [hth] at ih
      have hth' : (th.perform ⟨t, o, a⟩ (k a)).Sound t := (ih th (by simp)).perform ht hrun hp
      exact forall_mem_replace (fun _ => hth') (fun z hz => hz.mono ht) ih
    | finish pre post th t r ht hth hrun hp =>
      rw [hth] at ih
      have hth' : (th.finish t r).Sound t := (ih th (by simp)).finish ht hp
      exact forall_mem_replace (fun _ => hth') (fun z hz => hz.mono ht) ih

/-- What is known stays known. -/
theorem Step.known {w w' : World S σ} (hs : Step S env w w') {tok : S.Tok} (h : w.Known tok) : w'.Known tok := by
  obtain ⟨th', hth', t', out, hstop, hrel⟩ := h
  -- a thread that has ended is not the one that moves
  have apart : ∀ {pre post : List (Thread S)} {th moved : Thread S}, w.threads = pre ++ th :: post → th.stop = none →
      th' ∈ pre ++ moved :: post := by
    intro pre post th moved hth hrun
    rw [hth] at hth'
    rcases List.mem_append.mp hth' with hmem | hmem
    · exact List.mem_append_left _ hmem
    · rcases List.mem_cons.mp hmem with rfl | hmem
      · rw [hrun] at hstop
        cases hstop
      · exact List.mem_append_right _ (List.mem_cons_of_mem _ hmem)
  cases hs with
  | begin q t ht hq => exact ⟨th', List.mem_append_left _ hth', t', out, hstop, hrel⟩
  | perform pre post th t o a k s ht hth hrun hp he => exact ⟨th', apart hth hrun, t', out, hstop, hrel⟩
  | finish pre post th t r ht hth hrun hp => exact ⟨th', apart hth hrun, t', out, hstop, hrel⟩

/-- What a thread has presented was released before. -/
theorem Runs.presented {w : World S σ} (h : Reachable S env s w) :
    ∀ th ∈ w.threads, ∀ tok, S.presents th.req tok → w.Known tok := by
  induction h with
  | refl => exact nofun
  | @step w w' h hs ih =>
    suffices hall : ∀ th ∈ w'.threads, ∀ tok, S.presents th.req tok → w.Known tok from
      fun th hth tok htok => hs.known (hall th hth tok htok)
    cases hs with
    | begin q t ht hq =>
      intro th hth
      rcases List.mem_append.mp hth with hth | hth
      · exact ih th hth
      · rw [List.mem_singleton.mp hth]
        exact hq
    | perform pre post th t o a k s ht hth hrun hp he =>
      rw [hth] at ih
      exact forall_mem_replace (fun hth => hth) (fun _ h => h) ih
    | finish pre post th t r ht hth hrun hp =>
      rw [hth] at ih
      exact forall_mem_replace (fun hth => hth) (fun _ h => h) ih

/-- The log holds exactly the events of the threads. -/
theorem Runs.log_perm {w : World S σ} (h : Reachable S env s w) :
    w.log.Perm (w.threads.flatMap (·.trace)) := by
  induction h with
  | refl => exact List.Perm.nil
  | step _ hs ih =>
    cases hs with
    | begin q t ht hq => simpa [Thread.begin] using ih
    | perform pre post th t o a k s ht hth hrun hp he =>
      rw [hth] at ih
      have hmid := ih.append_right [⟨t, o, a⟩]
      refine hmid.trans ?_
      simp only [List.flatMap_append, List.flatMap_cons, Thread.perform, List.append_assoc]
      refine List.Perm.append_left _ (List.Perm.append_left _ ?_)
      exact List.perm_append_comm
    | finish pre post th t r ht hth hrun hp => simpa [hth, Thread.finish] using ih

/-- What a thread has performed is in the log. -/
theorem Runs.mem_log {w : World S σ} (h : Reachable S env s w) {th : Thread S} (hth : th ∈ w.threads)
    {e : Event F} (he : e ∈ th.trace) : e ∈ w.log :=
  h.log_perm.mem_iff.mpr (List.mem_flatMap.mpr ⟨th, hth, he⟩)

/-- What is in the log, some thread has performed. -/
theorem Runs.exists_thread {w : World S σ} (h : Reachable S env s w) {e : Event F} (he : e ∈ w.log) :
    ∃ th ∈ w.threads, e ∈ th.trace :=
  List.mem_flatMap.mp (h.log_perm.mem_iff.mp he)

/-! ## Replaying the log -/

/-- The events `es`, one after another from the instant `c`, take the shared
state from `s` to `s'`. -/
inductive Replays (env : Environment F σ) : σ → Nat → List (Event F) → σ → Prop where
  | nil (s : σ) (c : Nat) : Replays env s c [] s
  | cons {s s₁ s₂ : σ} {c : Nat} {e : Event F} {es : List (Event F)} (ht : c ≤ e.time)
      (he : env e.time s e.op e.ans s₁) (h : Replays env s₁ e.time es s₂) :
      Replays env s c (e :: es) s₂

theorem Replays.snoc {s s₁ s₂ : σ} {c d : Nat} {es : List (Event F)} {e : Event F}
    (h : Replays env s c es s₁) (hd : ∀ x ∈ es, x.time ≤ d) (hc : c ≤ d) (ht : d ≤ e.time)
    (he : env e.time s₁ e.op e.ans s₂) : Replays env s c (es ++ [e]) s₂ := by
  induction h with
  | nil s c => exact .cons (Nat.le_trans hc ht) he (.nil _ _)
  | @cons s s₁ _ c x es hx hx' _ ih =>
    exact .cons hx hx' (ih (fun y hy => hd y (List.mem_cons_of_mem _ hy)) (hd x List.mem_cons_self) he)

/-- A replay can be stopped at any event. -/
theorem Replays.split {s s' : σ} {c : Nat} {pre post : List (Event F)} {e : Event F}
    (h : Replays env s c (pre ++ e :: post) s') :
    ∃ s₁ s₂, Replays env s c pre s₁ ∧ c ≤ e.time ∧ env e.time s₁ e.op e.ans s₂ ∧
      Replays env s₂ e.time post s' := by
  induction pre generalizing s c with
  | nil =>
    cases h with
    | cons ht he h => exact ⟨s, _, .nil _ _, ht, he, h⟩
  | cons x pre ih =>
    cases h with
    | cons ht he h =>
      obtain ⟨s₁, s₂, h₁, hc, h₂, h₃⟩ := ih h
      exact ⟨s₁, s₂, .cons ht he h₁, Nat.le_trans ht hc, h₂, h₃⟩

/-- What one event preserves, a replay preserves. -/
theorem Replays.invariant {I : Nat → σ → Prop} {s s' : σ} {c : Nat} {es : List (Event F)}
    (h : Replays env s c es s')
    (step : ∀ e ∈ es, ∀ c s s', c ≤ e.time → I c s → env e.time s e.op e.ans s' → I e.time s')
    (hs : I c s) : ∃ c', I c' s' ∧ c ≤ c' ∧ ∀ e ∈ es, e.time ≤ c' := by
  induction h with
  | nil s c => exact ⟨c, hs, Nat.le_refl c, by simp⟩
  | @cons s s₁ s₂ c e es ht he _ ih =>
    obtain ⟨c', hI, hc, hes⟩ := ih (fun x hx => step x (List.mem_cons_of_mem _ hx))
      (step e List.mem_cons_self c s s₁ ht hs he)
    refine ⟨c', hI, Nat.le_trans ht hc, fun x hx => ?_⟩
    rcases List.mem_cons.mp hx with rfl | hx
    · exact hc
    · exact hes x hx

/-- What one event preserves of the state and what led to it, a replay preserves. -/
theorem Replays.history {I : List (Event F) → σ → Prop} {s s' : σ} {c : Nat} {es : List (Event F)}
    (h : Replays env s c es s') (past : List (Event F))
    (step : ∀ past e s s', I past s → env e.time s e.op e.ans s' → I (past ++ [e]) s')
    (hs : I past s) : I (past ++ es) s' := by
  induction h generalizing past with
  | nil => rwa [List.append_nil]
  | @cons s s₁ s₂ c e es _ he _ ih =>
    have hlater := ih _ (step past e s s₁ hs he)
    rwa [List.append_assoc] at hlater

/-- What came before an event happened no later. -/
theorem Replays.before {s s' : σ} {c : Nat} {pre post : List (Event F)} {e : Event F}
    (h : Replays env s c (pre ++ e :: post) s') : ∀ x ∈ pre, x.time ≤ e.time := by
  induction pre generalizing s c with
  | nil => simp
  | cons y pre ih =>
    cases h with
    | cons ht he h =>
      intro x hx
      rcases List.mem_cons.mp hx with rfl | hx
      · obtain ⟨_, _, -, hle, -, -⟩ := h.split
        exact hle
      · exact ih h x hx

/-- A relation between two events that holds whatever happens in between. -/
theorem Replays.pairwise {R : Event F → Event F → Prop} {s s' : σ} {c : Nat} {es : List (Event F)}
    (h : Replays env s c es s')
    (hR : ∀ e ∈ es, ∀ mid, ∀ e' ∈ es, ∀ s₀ s₁ s₂ s₃, env e.time s₀ e.op e.ans s₁ →
      Replays env s₁ e.time mid s₂ → (∀ x ∈ mid, x ∈ es ∧ x.time ≤ e'.time) → e.time ≤ e'.time →
        env e'.time s₂ e'.op e'.ans s₃ → R e e') : es.Pairwise R := by
  induction h with
  | nil => exact .nil
  | @cons s s₁ _ c e es ht he h ih =>
    refine .cons (fun e' he' => ?_) (ih fun x hx mid y hy s₀ s₁ s₂ s₃ h₁ h₂ h₃ h₄ h₅ =>
      hR x (List.mem_cons_of_mem _ hx) mid y (List.mem_cons_of_mem _ hy) s₀ s₁ s₂ s₃ h₁ h₂
        (fun z hz => ⟨List.mem_cons_of_mem _ (h₃ z hz).1, (h₃ z hz).2⟩) h₄ h₅)
    obtain ⟨mid, post, rfl⟩ := List.append_of_mem he'
    obtain ⟨s₂, s₃, hmid, hle, henv, -⟩ := h.split
    refine hR e List.mem_cons_self mid e' (by simp) s s₁ s₂ s₃ he hmid (fun x hx => ⟨by simp [hx], ?_⟩) hle henv
    exact h.before x hx

/-- Where every event that changes the view raises its version, a replay that leaves
the version alone has left the view alone. -/
theorem Replays.version {δ : Type} {version : δ → Nat} {s s' : σ} {c : Nat} {es : List (Event F)}
    (h : Replays env s c es s') (view : σ → δ)
    (step : ∀ e ∈ es, ∀ s s', env e.time s e.op e.ans s' →
      view s' = view s ∨ version (view s) < version (view s')) :
    view s' = view s ∨ version (view s) < version (view s') := by
  induction h with
  | nil => exact Or.inl rfl
  | @cons s s₁ s₂ c e es _ he _ ih =>
    have hlater := ih fun x hx => step x (List.mem_cons_of_mem _ hx)
    rcases step e List.mem_cons_self s s₁ he with hsame | hmore
    · rwa [hsame] at hlater
    · refine Or.inr ?_
      rcases hlater with hsame | hmore'
      · rwa [hsame]
      · exact Nat.lt_trans hmore hmore'

/-- A replay is one of every environment that allows what happens in it. -/
theorem Replays.strengthen {env' : Environment F σ} {s s' : σ} {c : Nat} {es : List (Event F)}
    (h : Replays env s c es s')
    (step : ∀ before e after s₁ s₂, es = before ++ e :: after → Replays env s c before s₁ →
      env e.time s₁ e.op e.ans s₂ → Replays env s₂ e.time after s' → env' e.time s₁ e.op e.ans s₂) :
    Replays env' s c es s' := by
  generalize hn : es.length = n
  induction n generalizing es s' with
  | zero =>
    obtain rfl := List.eq_nil_of_length_eq_zero hn
    cases h with
    | nil => exact .nil _ _
  | succ n ih =>
    rcases List.eq_nil_or_concat es with rfl | ⟨es, e, rfl⟩
    · cases hn
    rw [List.concat_eq_append] at h hn step ⊢
    obtain ⟨s₁, s₂, hbefore, hle, henv, hend⟩ := h.split
    have hsame : s₂ = s' := by cases hend with | nil => rfl
    subst hsame
    have hes : Replays env' s c es s₁ := by
      refine ih hbefore (fun before x after s₃ s₄ hsplit hx henv' hrest => ?_) (by simpa using hn)
      have htimes : ∀ y ∈ es, y.time ≤ e.time := h.before
      refine step before x (after ++ [e]) s₃ s₄ (by simp [hsplit]) hx henv' ?_
      exact hrest.snoc (fun y hy => htimes y (by simp [hsplit, hy])) (htimes x (by simp [hsplit])) (Nat.le_refl _) henv
    exact hes.snoc h.before hle (Nat.le_refl _) (step es e [] s₁ s₂ rfl hbefore henv (.nil _ _))

/-- A later stage of a thread, in which it has performed `es` more events. -/
structure Thread.Later (th th' : Thread S) (es : List (Event F)) : Prop where
  req : th'.req = th.req
  start : th'.start = th.start
  trace : th'.trace = th.trace ++ es

/-- What a run from `w` has added: events, replayed on the shared state, and the
threads they belong to, those that were there and those that began since. -/
structure World.Extends (env : Environment F σ) (w w' : World S σ) (es : List (Event F)) : Prop where
  log : w'.log = w.log ++ es
  clock : w.clock ≤ w'.clock
  times : ∀ e ∈ es, e.time ≤ w'.clock
  replays : Replays env w.state w.clock es w'.state
  threads : ∀ th' ∈ w'.threads,
    (∃ th ∈ w.threads, ∃ fs, th.Later th' fs ∧ ∀ e ∈ fs, e ∈ es) ∨
      (w.clock ≤ th'.start ∧ ∀ e ∈ th'.trace, e ∈ es)

theorem Runs.extends_ {w w' : World S σ} (h : Runs S env w w') : ∃ es, w.Extends env w' es := by
  induction h with
  | refl =>
    refine ⟨[], by simp, Nat.le_refl _, by simp, .nil _ _, fun th hth => Or.inl ⟨th, hth, [], ?_⟩⟩
    exact ⟨⟨rfl, rfl, by simp⟩, by simp⟩
  | @step w' w'' _ hs ih =>
    obtain ⟨es, ih⟩ := ih
    cases hs with
    | begin q t ht hq =>
      refine ⟨es, ih.log, Nat.le_trans ih.clock ht, fun e he => Nat.le_trans (ih.times e he) ht,
        ih.replays, fun th hth => ?_⟩
      rcases List.mem_append.mp hth with hth | hth
      · exact ih.threads th hth
      · rw [List.mem_singleton.mp hth]
        exact Or.inr ⟨Nat.le_trans ih.clock ht, by simp [Thread.begin]⟩
    | perform pre post th t o a k s ht hth hrun hp he =>
      refine ⟨es ++ [⟨t, o, a⟩], by simp [ih.log], Nat.le_trans ih.clock ht, fun e he => ?_,
        ih.replays.snoc ih.times ih.clock ht he, ?_⟩
      · rcases List.mem_append.mp he with he | he
        · exact Nat.le_trans (ih.times e he) ht
        · have hlast := List.mem_singleton.mp he
          subst hlast
          exact Nat.le_refl _
      · have hold := ih.threads
        rw [hth] at hold
        refine forall_mem_replace (fun h => ?_) (fun th h => ?_) hold
        · rcases h with ⟨th₀, hth₀, fs, hl, hfs⟩ | ⟨hstart, htr⟩
          · refine Or.inl ⟨th₀, hth₀, fs ++ [⟨t, o, a⟩], ⟨hl.req, hl.start, ?_⟩, fun e he => ?_⟩
            · simp [Thread.perform, hl.trace]
            · rcases List.mem_append.mp he with he | he
              · exact List.mem_append_left _ (hfs e he)
              · exact List.mem_append_right _ he
          · refine Or.inr ⟨hstart, fun e he => ?_⟩
            rcases List.mem_append.mp he with he | he
            · exact List.mem_append_left _ (htr e he)
            · exact List.mem_append_right _ he
        · rcases h with ⟨th₀, hth₀, fs, hl, hfs⟩ | ⟨hstart, htr⟩
          · exact Or.inl ⟨th₀, hth₀, fs, hl, fun e he => List.mem_append_left _ (hfs e he)⟩
          · exact Or.inr ⟨hstart, fun e he => List.mem_append_left _ (htr e he)⟩
    | finish pre post th t r ht hth hrun hp =>
      refine ⟨es, ih.log, Nat.le_trans ih.clock ht, fun e he => Nat.le_trans (ih.times e he) ht,
        ih.replays, ?_⟩
      have hold := ih.threads
      rw [hth] at hold
      refine forall_mem_replace (fun h => ?_) (fun _ h => h) hold
      rcases h with ⟨th₀, hth₀, fs, hl, hfs⟩ | ⟨hstart, htr⟩
      · exact Or.inl ⟨th₀, hth₀, fs, ⟨hl.req, hl.start, hl.trace⟩, hfs⟩
      · exact Or.inr ⟨hstart, htr⟩

/-- The whole log of a reachable world, replayed from the start. -/
theorem Runs.replays {w : World S σ} (h : Reachable S env s w) : Replays env s 0 w.log w.state := by
  obtain ⟨es, hext⟩ := h.extends_
  have hlog : w.log = es := hext.log
  exact hlog ▸ hext.replays

/-- An event of the log was performed by a thread whose earlier events are before it
in the log. -/
theorem Runs.performed {w : World S σ} (h : Reachable S env s w) {e : Event F} {before after : List (Event F)}
    (hlog : w.log = before ++ e :: after) :
    ∃ th ∈ w.threads, ∃ pre post, th.trace = pre ++ e :: post ∧ ∀ x ∈ pre, x ∈ before := by
  induction h generalizing after with
  | refl => simp [World.init] at hlog
  | @step w w' h hs ih =>
    cases hs with
    | begin q t ht hq =>
      obtain ⟨th, hth, hperformed⟩ := ih hlog
      exact ⟨th, List.mem_append_left _ hth, hperformed⟩
    | perform pre post th t o a k s ht hth hrun hp he =>
      have hlog : w.log ++ [⟨t, o, a⟩] = before ++ e :: after := hlog
      rcases List.eq_nil_or_concat after with rfl | ⟨after', x, rfl⟩
      · -- the event that has just been performed
        obtain ⟨rfl, hlast⟩ := List.append_inj' hlog rfl
        obtain rfl := (List.cons.inj hlast).1
        refine ⟨th.perform ⟨t, o, a⟩ (k a), by simp, th.trace, [], rfl, fun x hx => ?_⟩
        exact h.mem_log (by rw [hth]; simp) hx
      · have hlog' : w.log = before ++ e :: after' := by
          have hsplit : w.log ++ [⟨t, o, a⟩] = (before ++ e :: after') ++ [x] := by
            rw [hlog, List.concat_eq_append, List.append_assoc, List.cons_append]
          exact (List.append_inj' hsplit rfl).1
        obtain ⟨th', hth', pre', post', htr, hbefore⟩ := ih hlog'
        rw [hth] at hth'
        rcases List.mem_append.mp hth' with hmem | hmem
        · exact ⟨th', List.mem_append_left _ hmem, pre', post', htr, hbefore⟩
        · rcases List.mem_cons.mp hmem with rfl | hmem
          · refine ⟨th'.perform ⟨t, o, a⟩ (k a), by simp, pre', post' ++ [⟨t, o, a⟩], ?_, hbefore⟩
            simp [Thread.perform, htr]
          · exact ⟨th', List.mem_append_right _ (List.mem_cons_of_mem _ hmem), pre', post', htr, hbefore⟩
    | finish pre post th t r ht hth hrun hp =>
      obtain ⟨th', hth', pre', post', htr, hbefore⟩ := ih hlog
      rw [hth] at hth'
      rcases List.mem_append.mp hth' with hmem | hmem
      · exact ⟨th', List.mem_append_left _ hmem, pre', post', htr, hbefore⟩
      · rcases List.mem_cons.mp hmem with rfl | hmem
        · exact ⟨th'.finish t r, by simp, pre', post', htr, hbefore⟩
        · exact ⟨th', List.mem_append_right _ (List.mem_cons_of_mem _ hmem), pre', post', htr, hbefore⟩

/-- A symmetric relation between the events of the log holds between those of any
two threads. -/
theorem Runs.threads_pairwise {w : World S σ} (h : Reachable S env s w) {R : Event F → Event F → Prop}
    (hsymm : ∀ {e e'}, R e e' → R e' e) (hR : w.log.Pairwise R) :
    w.threads.Pairwise fun th th' => ∀ e ∈ th.trace, ∀ e' ∈ th'.trace, R e e' :=
  (List.pairwise_flatMap.mp ((h.log_perm.pairwise_iff hsymm).mp hR)).2

/-- What was answered, the environment may answer. -/
theorem Runs.answered {w : World S σ} (h : Reachable S env s w) {e : Event F} (he : e ∈ w.log) :
    ∃ s₁ s₂, env e.time s₁ e.op e.ans s₂ := by
  obtain ⟨pre, post, hlog⟩ := List.append_of_mem he
  have hreplays := h.replays
  rw [hlog] at hreplays
  obtain ⟨s₁, s₂, -, -, henv, -⟩ := hreplays.split
  exact ⟨s₁, s₂, henv⟩

/-! ## The shared induction -/

/-- The reliance of a thread on replies, while the clock runs from `start` to
`stop`. -/
def during (start stop : Nat) (reply : Nat → (o : F.Op) → F.Ans o → Prop) : Rely F :=
  ⟨fun t => start ≤ t ∧ t ≤ stop, reply⟩

/-- Under any reliance, every request keeps its guarantee and answers as
promised. -/
def System.Meets (S : System F) (G : S.Req → Rely F → List (Event F) → Nat → F.Op → Prop)
    (Q : S.Req → Rely F → S.Out → Prop) : Prop :=
  ∀ q C, (S.prog q).Sat ⟨C, G q C⟩ (fun _ _ => True) (fun _ out => Q q C out) ⟨none, []⟩

theorem System.Meets.ends {G : S.Req → Rely F → List (Event F) → Nat → F.Op → Prop}
    {Q : S.Req → Rely F → S.Out → Prop} (hm : S.Meets G Q) (q : S.Req) (C : Rely F) :
    (S.prog q).Sat ⟨C, G q C⟩ (C.Ends fun _ _ _ => True) (C.Ends fun _ _ out => Q q C out) ⟨none, []⟩ :=
  (hm q C).mono (fun _ _ _ _ _ => trivial) fun _ _ h _ _ => h

/-- What requests promise under one guarantee and under another, they promise together. -/
theorem System.Meets.and {G G' : S.Req → Rely F → List (Event F) → Nat → F.Op → Prop}
    {Q Q' : S.Req → Rely F → S.Out → Prop} (h : S.Meets G Q) (h' : S.Meets G' Q') :
    S.Meets G fun q C out => Q q C out ∧ Q' q C out :=
  fun q C => ((h q C).and (h' q C)).mono (fun _ _ _ => trivial) fun _ _ hout => hout

/-- A thread that began with good tokens. -/
def Thread.Honest (P : Nat → S.Tok → Prop) (th : Thread S) : Prop :=
  ∀ tok, S.presents th.req tok → P th.start tok

section
variable {G : S.Req → Rely F → List (Event F) → Nat → F.Op → Prop}
variable {Q : S.Req → Rely F → S.Out → Prop} {R : Nat → (o : F.Op) → F.Ans o → Prop}

/-- What a `Sat` fact about its program says of a thread that has ended. -/
theorem Thread.Sound.outcome {th : Thread S} {c : Nat} (h : th.Sound c) {C : Contract F}
    {E : Nat → List (Event F) → F.Err → Prop} {Q : Nat → List (Event F) → S.Out → Prop}
    (hsat : (S.prog th.req).Sat C (C.Ends E) (C.Ends Q) ⟨none, []⟩)
    (hr : ∀ e ∈ th.trace, C.Keeps e) {t : Nat} {r : Except F.Err S.Out}
    (hs : th.stop = some (t, r)) (ht : C.tick t) :
    (∀ out, r = .ok out → Q t th.trace out) ∧ ∀ e, r = .error e → E t th.trace e := by
  obtain ⟨-, -, -, hend⟩ := h.ended t r hs
  have hrest := (hsat.steps h.steps hr).1
  have hdone := hrest.atTime ⟨ht, by simp⟩
  rw [hend] at hdone
  obtain ⟨hok, herr⟩ := Prog.sat_ofExcept.mp hdone
  exact ⟨fun out hout => hok out hout t ⟨ht, by simp⟩, fun e he => herr e he t ⟨ht, by simp⟩⟩

/-- What a thread issues, it may issue after what it has seen by then. -/
theorem Thread.Sound.guarantee {th : Thread S} {c : Nat} (h : th.Sound c) (hm : S.Meets G Q)
    {pre post : List (Event F)} {e : Event F} (htr : th.trace = pre ++ e :: post)
    (hr : ∀ x ∈ pre, R x.time x.op x.ans) : G th.req (during th.start e.time R) pre e.time e.op := by
  have hsteps := h.steps
  rw [htr] at hsteps
  obtain ⟨p, k, hpre, hp, -⟩ := hsteps.split
  have hsorted := h.sorted
  rw [htr] at hsorted
  have hbefore : ∀ x ∈ pre, x.time ≤ e.time := fun x hx =>
    (List.pairwise_append.mp hsorted).2.2 x hx e List.mem_cons_self
  have htimes : ∀ x ∈ th.trace, th.start ≤ x.time := fun x hx => (h.timed x hx).1
  rw [htr] at htimes
  have hsat := ((hm.ends th.req (during th.start e.time R)).steps hpre fun x hx =>
    ⟨⟨htimes x (by simp [hx]), hbefore x hx⟩, hr x hx⟩).1
  have hnow : (during th.start e.time R).Now ⟨none, [] ++ pre⟩ e.time :=
    ⟨⟨htimes e (by simp), Nat.le_refl _⟩, by simp⟩
  have hcall := hsat.atTime hnow
  rw [hp] at hcall
  exact (hcall e.time ⟨hnow.1, by simp⟩).1

/-- What a thread answers, it answers as promised. -/
theorem Thread.Sound.result {th : Thread S} {c : Nat} (h : th.Sound c) (hm : S.Meets G Q)
    (hr : ∀ x ∈ th.trace, R x.time x.op x.ans) {t : Nat} {out : S.Out}
    (hs : th.stop = some (t, .ok out)) : Q th.req (during th.start t R) out := by
  obtain ⟨hle, -, htimes, -⟩ := h.ended t _ hs
  exact (h.outcome (hm.ends th.req (during th.start t R))
    (fun e he => ⟨⟨(h.timed e he).1, htimes e he⟩, hr e he⟩) hs ⟨hle, Nat.le_refl t⟩).1 out rfl

/-- Where requests of the kind `V` turn good tokens into good tokens, every token
of a run of such requests is good. -/
theorem System.sound (hm : S.Meets G Q) {P : Nat → S.Tok → Prop} {V : S.Req → Prop}
    (mono : ∀ t t' tok, t ≤ t' → P t tok → P t' tok)
    (derive : ∀ q start stop out, V q → start ≤ stop → (∀ tok, S.presents q tok → P start tok) →
      Q q (during start stop R) out → ∀ tok, S.releases out tok → P stop tok)
    {w : World S σ} (h : Reachable S env s w) (hV : ∀ th ∈ w.threads, V th.req)
    (hr : ∀ e ∈ w.log, R e.time e.op e.ans) :
    (∀ tok, w.Known tok → P w.clock tok) ∧ ∀ th ∈ w.threads, th.Honest P := by
  -- goodness of the known tokens follows from honesty; the induction carries honesty
  have known : ∀ {w : World S σ}, Reachable S env s w → (∀ th ∈ w.threads, V th.req) →
      (∀ e ∈ w.log, R e.time e.op e.ans) → (∀ th ∈ w.threads, th.Honest P) →
      ∀ tok, w.Known tok → P w.clock tok := by
    rintro w h hV hr hon tok ⟨th, hth, t, out, hs, hrel⟩
    have hsound := h.threads_sound th hth
    have hend := hsound.ended t _ hs
    have hout := hsound.result hm (fun e he => hr e (h.mem_log hth he)) hs
    exact mono _ _ _ hend.2.1 (derive _ _ _ _ (hV th hth) hend.1 (hon th hth) hout tok hrel)
  suffices hon : ∀ th ∈ w.threads, th.Honest P from ⟨known h hV hr hon, hon⟩
  induction h with
  | refl => simp [World.init]
  | step h hs ih =>
    cases hs with
    | begin q t ht hq =>
      have hV' := fun th hth => hV th (List.mem_append_left _ hth)
      intro th hth
      rcases List.mem_append.mp hth with hth | hth
      · exact ih hV' hr th hth
      · rw [List.mem_singleton.mp hth]
        intro tok htok
        exact mono _ _ _ ht (known h hV' hr (ih hV' hr) tok (hq tok htok))
    | perform pre post th t o a k s ht hth hrun hp he =>
      dsimp only at hV hr
      have hV' := forall_mem_replace (x := th.perform ⟨t, o, a⟩ (k a)) (y := th)
        (p := fun th => V th.req) id (fun _ h => h) hV
      rw [← hth] at hV'
      have hall := ih hV' fun e he => hr e (List.mem_append_left _ he)
      rw [hth] at hall
      exact forall_mem_replace (x := th) (fun hth => hth) (fun _ h => h) hall
    | finish pre post th t r ht hth hrun hp =>
      dsimp only at hV hr
      have hV' := forall_mem_replace (x := th.finish t r) (y := th) (p := fun th => V th.req) id
        (fun _ h => h) hV
      rw [← hth] at hV'
      have hall := ih hV' hr
      rw [hth] at hall
      exact forall_mem_replace (x := th) (fun hth => hth) (fun _ h => h) hall

end

end Resumable
