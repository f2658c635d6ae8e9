import Sag.Lib.System

/-!
# Concrete runs

A run of a `System` in which each request is served to its end before the next
one begins, against an environment that is a function. `play` computes what a
program performs against it, `World.serve` adds the finished request to a world,
and `Runs.serve` is the run behind it. A `Visit` is a request made of tokens that
were handed out before, so a list of visits is a script whose run needs no
further argument (`Runs.script`). What it leads to can be computed.
-/

namespace Resumable

variable {F : Effects} {σ α : Type}

/-- An environment whose answers are a function of the state and the operation. -/
abbrev Oracle (F : Effects) (σ : Type) : Type := Nat → σ → (o : F.Op) → F.Ans o × σ

/-- The answers are among those the environment may give. -/
def Oracle.Within (answer : Oracle F σ) (env : Environment F σ) : Prop :=
  ∀ t s o, env t s o (answer t s o).1 (answer t s o).2

/-- The events of at most `fuel` operations of `p` at the instant `t`, the state
they lead to and what is left of `p`. -/
def Prog.play (answer : Oracle F σ) (t : Nat) : Nat → σ → Prog F α → List (Event F) × σ × Prog F α
  | 0, s, p => ([], s, p)
  | fuel + 1, s, p =>
    match p.atTime t with
    | .call o k =>
      let (es, s', q) := play answer t fuel (answer t s o).2 (k (answer t s o).1)
      (⟨t, o, (answer t s o).1⟩ :: es, s', q)
    | _ => ([], s, p)

theorem Prog.steps_play (answer : Oracle F σ) (t fuel : Nat) (s : σ) (p : Prog F α) :
    Prog.Steps p (p.play answer t fuel s).1 (p.play answer t fuel s).2.2 := by
  induction fuel generalizing s p with
  | zero => exact .nil p
  | succ fuel ih =>
    unfold Prog.play
    split
    · next o k hp => exact .cons hp (ih _ _)
    · exact .nil p

section
variable {answer : Oracle F σ} {t fuel : Nat} {s : σ}

theorem Prog.play_pure (a : α) : (Prog.pure a : Prog F α).play answer t fuel s = ([], s, .pure a) := by
  cases fuel <;> rfl

theorem Prog.play_call (o : F.Op) (k : F.Ans o → Prog F α) :
    (Prog.call o k).play answer t (fuel + 1) s =
      (⟨t, o, (answer t s o).1⟩ :: ((k (answer t s o).1).play answer t fuel (answer t s o).2).1,
        ((k (answer t s o).1).play answer t fuel (answer t s o).2).2) := rfl

/-- An operation right after a look at the clock. -/
theorem Prog.play_clock (o : Nat → F.Op) (k : (t : Nat) → F.Ans (o t) → Prog F α) :
    (Prog.clock fun t => .call (o t) (k t)).play answer t (fuel + 1) s =
      (⟨t, o t, (answer t s (o t)).1⟩ :: ((k t (answer t s (o t)).1).play answer t fuel (answer t s (o t)).2).1,
        ((k t (answer t s (o t)).1).play answer t fuel (answer t s (o t)).2).2) := rfl

end

/-- The result of a program that has none of its operations left. -/
def Prog.result? : Prog F α → Option (Except F.Err α)
  | .pure a => some (.ok a)
  | .throw e => some (.error e)
  | _ => none

theorem Prog.eq_of_result? {p : Prog F α} {r : Except F.Err α} (h : p.result? = some r) :
    p = Prog.ofExcept r := by
  cases p <;> simp [result?] at h <;> subst h <;> rfl

variable {S : System F} {env : Environment F σ} {answer : Oracle F σ} {t : Nat}

/-- The world after a request that is served to its end at `t`. -/
def World.serve (answer : Oracle F σ) (fuel t : Nat) (q : S.Req) (w : World S σ) : World S σ :=
  let (es, s, rest) := (S.prog q).play answer t fuel w.state
  { state := s
    clock := t
    threads := w.threads ++ [⟨q, t, es, rest, (rest.atTime t).result?.map fun r => (t, r)⟩]
    log := w.log ++ es }

/-- What a thread plays, it performs. -/
theorem Runs.play (hans : answer.Within env) (pre post : List (Thread S)) (fuel : Nat) :
    ∀ (s : σ) (log : List (Event F)) (th : Thread S), th.stop = none →
      Runs S env ⟨s, t, pre ++ th :: post, log⟩
        ⟨(th.rest.play answer t fuel s).2.1, t,
          pre ++ { th with
            trace := th.trace ++ (th.rest.play answer t fuel s).1
            rest := (th.rest.play answer t fuel s).2.2 } :: post,
          log ++ (th.rest.play answer t fuel s).1⟩ := by
  induction fuel with
  | zero =>
    intro s log th _
    simpa [Prog.play] using .refl
  | succ fuel ih =>
    intro s log th hrun
    unfold Prog.play
    split
    · next o k hp =>
      have hstep : Step S env ⟨s, t, pre ++ th :: post, log⟩ _ :=
        .perform _ pre post th t o (answer t s o).1 k (answer t s o).2 (Nat.le_refl t) rfl hrun hp
          (hans t s o)
      have hrest := ih (answer t s o).2 (log ++ [⟨t, o, (answer t s o).1⟩])
        (th.perform ⟨t, o, (answer t s o).1⟩ (k (answer t s o).1)) hrun
      simpa [Thread.perform] using (Runs.refl.step hstep).trans hrest
    · simpa using .refl

/-- A request whose tokens are known can be served to its end. -/
theorem Runs.serve (hans : answer.Within env) {w : World S σ} (hc : w.clock ≤ t) (q : S.Req)
    (hq : ∀ tok, S.presents q tok → w.Known tok) (fuel : Nat) :
    Runs S env w (w.serve answer fuel t q) := by
  have hbegin : Runs S env w _ := Runs.refl.step (.begin w q t hc hq)
  have hplay := Runs.play (t := t) hans w.threads [] fuel w.state w.log (Thread.begin S q t) rfl
  have hrun := hbegin.trans hplay
  unfold World.serve
  simp only [Thread.begin, List.nil_append] at hrun
  generalize (S.prog q).play answer t fuel w.state = played at hrun ⊢
  obtain ⟨es, s, rest⟩ := played
  dsimp only at hrun ⊢
  cases hres : (rest.atTime t).result? with
  | none => exact hrun
  | some r =>
    exact hrun.step (.finish _ w.threads [] ⟨q, t, es, rest, none⟩ t r (Nat.le_refl t) rfl rfl
      (Prog.eq_of_result? hres))

section
variable {fuel : Nat} {q : S.Req} {w : World S σ} {es : List (Event F)} {s' : σ} {rest : Prog F S.Out}
variable {r : Except F.Err S.Out}

theorem World.serve_state (h : (S.prog q).play answer t fuel w.state = (es, s', rest)) :
    (w.serve answer fuel t q).state = s' := congrArg (fun played => played.2.1) h

theorem World.serve_log (h : (S.prog q).play answer t fuel w.state = (es, s', rest)) :
    (w.serve answer fuel t q).log = w.log ++ es :=
  congrArg (fun played : List (Event F) × σ × Prog F S.Out => w.log ++ played.1) h

/-- A request that plays to its end has ended. -/
theorem World.serve_ended (h : (S.prog q).play answer t fuel w.state = (es, s', rest))
    (hrest : rest.atTime t = Prog.ofExcept r) :
    (⟨q, t, es, rest, some (t, r)⟩ : Thread S) ∈ (w.serve answer fuel t q).threads := by
  unfold World.serve
  rw [h]
  have hresult : (rest.atTime t).result? = some r := by
    rw [hrest]
    cases r <;> rfl
  show _ ∈ w.threads ++ [⟨q, t, es, rest, (rest.atTime t).result?.map fun r => (t, r)⟩]
  rw [hresult]
  exact List.mem_append_right _ List.mem_cons_self

end

/-! ## Requests that wait -/

/-- The world after the first operations of a request, at most `fuel`. -/
def World.start (answer : Oracle F σ) (fuel t : Nat) (q : S.Req) (w : World S σ) : World S σ :=
  let (es, s, rest) := (S.prog q).play answer t fuel w.state
  ⟨s, t, w.threads ++ [⟨q, t, es, rest, none⟩], w.log ++ es⟩

/-- The world after the `i`-th request goes on. -/
def World.resume (answer : Oracle F σ) (fuel i : Nat) (w : World S σ) : World S σ :=
  match w.threads[i]? with
  | none => w
  | some th =>
    if th.stop.isSome then w
    else
      let (es, s, rest) := th.rest.play answer w.clock fuel w.state
      { state := s
        clock := w.clock
        threads := w.threads.take i ++ { th with trace := th.trace ++ es, rest } :: w.threads.drop (i + 1)
        log := w.log ++ es }

/-- A request can be left before its end. -/
theorem Runs.start (hans : answer.Within env) {w : World S σ} (hc : w.clock ≤ t) (q : S.Req)
    (hq : ∀ tok, S.presents q tok → w.Known tok) (fuel : Nat) : Runs S env w (w.start answer fuel t q) := by
  have hbegin : Runs S env w _ := Runs.refl.step (.begin w q t hc hq)
  have hplay := Runs.play (t := t) hans w.threads [] fuel w.state w.log (Thread.begin S q t) rfl
  simpa [World.start, Thread.begin] using hbegin.trans hplay

/-- And go on later. -/
theorem Runs.resume (hans : answer.Within env) (w : World S σ) (fuel i : Nat) :
    Runs S env w (w.resume answer fuel i) := by
  unfold World.resume
  split
  · exact .refl
  · next th hth =>
    by_cases hstop : th.stop.isSome
    · rw [if_pos hstop]
      exact .refl
    · rw [if_neg hstop]
      obtain ⟨hi, rfl⟩ := List.getElem?_eq_some_iff.mp hth
      have hsplit : w.threads.take i ++ w.threads[i] :: w.threads.drop (i + 1) = w.threads := by
        rw [← List.drop_eq_getElem_cons hi, List.take_append_drop]
      have hplay := Runs.play (t := w.clock) hans (w.threads.take i) (w.threads.drop (i + 1)) fuel w.state w.log
        w.threads[i] (by simpa using hstop)
      rw [hsplit] at hplay
      exact hplay

/-! ## Scripts -/

/-- An environment that answers just as a function does. -/
def Oracle.graph (answer : Oracle F σ) : Environment F σ := fun t s o a s' => answer t s o = (a, s')

theorem Oracle.within_graph (answer : Oracle F σ) : answer.Within answer.graph := fun _ _ _ => rfl

/-- A request made at an instant out of the tokens handed out by then. -/
structure Visit (S : System F) where
  time : Nat
  req : List S.Tok → S.Req
  own : ∀ toks tok, S.presents (req toks) tok → tok ∈ toks

/-- The tokens of an answer, as a list. -/
def Lists (S : System F) (tokens : S.Out → List S.Tok) : Prop := ∀ out tok, tok ∈ tokens out → S.releases out tok

variable {tokens : S.Out → List S.Tok}

/-- What a thread has handed out. -/
def Thread.handed (tokens : S.Out → List S.Tok) (th : Thread S) : List S.Tok :=
  match th.stop with
  | some (_, .ok out) => tokens out
  | _ => []

/-- All that was handed out so far, the oldest first. -/
def World.handed (tokens : S.Out → List S.Tok) (w : World S σ) : List S.Tok :=
  w.threads.flatMap (Thread.handed tokens)

theorem World.known_of_handed (htokens : Lists S tokens) {w : World S σ} {tok : S.Tok}
    (h : tok ∈ w.handed tokens) : w.Known tok := by
  obtain ⟨th, hth, htok⟩ := List.mem_flatMap.mp h
  unfold Thread.handed at htok
  split at htok
  · next t out hstop => exact ⟨th, hth, t, out, hstop, htokens out tok htok⟩
  · cases htok

/-- Serve the visits in order. -/
def World.script (answer : Oracle F σ) (tokens : S.Out → List S.Tok) (fuel : Nat) :
    List (Visit S) → World S σ → World S σ
  | [], w => w
  | v :: vs, w =>
    World.script answer tokens fuel vs
      (w.serve answer fuel (max w.clock v.time) (v.req (w.handed tokens)))

/-- Every script is a run. -/
theorem Runs.script (hans : answer.Within env) (htokens : Lists S tokens) (fuel : Nat) (vs : List (Visit S)) :
    ∀ w : World S σ, Runs S env w (w.script answer tokens fuel vs) := by
  induction vs with
  | nil => exact fun w => .refl
  | cons v vs ih =>
    intro w
    have hown : ∀ tok, S.presents (v.req (w.handed tokens)) tok → w.Known tok :=
      fun tok htok => World.known_of_handed htokens (v.own _ tok htok)
    exact (Runs.serve hans (Nat.le_max_left _ _) _ hown fuel).trans (ih _)

end Resumable
