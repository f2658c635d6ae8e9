import Sag.Lib.System

/-!
# A system with more requests

An extension adds requests of its own to a system. They share the environment and the
clock, and are interleaved with those of the system; they may present its tokens, and
release tokens that its own requests do not present.

So a run of the extended system, seen from the system alone, is a run of the system, in
an environment that answers anything (`Runs.restrict`): what holds of the system whatever
its environment does holds of it inside every extension.
-/

namespace Resumable

variable {F : Effects} {σ : Type} {α β : Type}

/-- More requests for a system. -/
structure Extension (S : System F) where
  Req : Type
  Out : Type
  Tok : Type
  prog : Req → Prog F Out
  presents : Req → S.Tok ⊕ Tok → Prop
  releases : Out → Tok → Prop

/-- The system with both kinds of requests. -/
@[reducible] def System.extend (S : System F) (X : Extension S) : System F where
  Req := S.Req ⊕ X.Req
  Out := S.Out ⊕ X.Out
  Tok := S.Tok ⊕ X.Tok
  prog
    | .inl q => Sum.inl <$> S.prog q
    | .inr q => Sum.inr <$> X.prog q
  presents
    | .inl q => fun tok => ∃ own, tok = .inl own ∧ S.presents q own
    | .inr q => X.presents q
  releases
    | .inl out => fun tok => ∃ own, tok = .inl own ∧ S.releases out own
    | .inr out => fun tok => ∃ more, tok = .inr more ∧ X.releases out more

variable {S : System F} {X : Extension S}

/-- What requests of either kind promise. -/
def eitherPromise (Q : S.Req → Rely F → S.Out → Prop) (Q' : X.Req → Rely F → X.Out → Prop) :
    S.Req ⊕ X.Req → Rely F → S.Out ⊕ X.Out → Prop
  | .inl q, C, .inl out => Q q C out
  | .inr q, C, .inr out => Q' q C out
  | _, _, _ => False

/-- What is known of the requests on either side is known of both. -/
theorem System.Meets.extend {G : S.Req → Rely F → List (Event F) → Nat → F.Op → Prop}
    {Q : S.Req → Rely F → S.Out → Prop} {G' : X.Req → Rely F → List (Event F) → Nat → F.Op → Prop}
    {Q' : X.Req → Rely F → X.Out → Prop} (h : S.Meets G Q)
    (h' : ∀ q C, (X.prog q).Sat ⟨C, G' q C⟩ (fun _ _ => True) (fun _ out => Q' q C out) ⟨none, []⟩) :
    (S.extend X).Meets (Sum.elim G G') (eitherPromise Q Q') := by
  intro q C
  cases q with
  | inl q => exact Prog.sat_bind.mpr (h q C)
  | inr q => exact Prog.sat_bind.mpr (h' q C)

/-! ## Programs whose result is renamed -/

namespace Prog

variable {f : α → β}

theorem map_atTime (p : Prog F α) (t : Nat) : (f <$> p).atTime t = f <$> p.atTime t := by
  induction p with
  | pure a => rfl
  | throw e => rfl
  | clock k ih => exact ih t
  | call o k _ => rfl

/-- The next call is the one of the program itself. -/
theorem call_of_map {p : Prog F α} {t : Nat} {o : F.Op} {k : F.Ans o → Prog F β}
    (h : (f <$> p).atTime t = .call o k) : ∃ k', p.atTime t = .call o k' ∧ ∀ a, k a = f <$> k' a := by
  rw [map_atTime] at h
  generalize hp : p.atTime t = q at h
  cases q with
  | call o' k' =>
    cases h
    exact ⟨k', rfl, fun a => rfl⟩
  | pure a => cases h
  | throw e => cases h
  | clock k' => cases h

/-- And so is the end. -/
theorem result_of_map {p : Prog F α} {t : Nat} {r : Except F.Err β} (h : (f <$> p).atTime t = ofExcept r) :
    ∃ r', p.atTime t = ofExcept r' ∧ r = r'.map f := by
  rw [map_atTime] at h
  generalize hp : p.atTime t = q at h
  cases q with
  | pure a =>
    cases r with
    | ok b =>
      cases h
      exact ⟨.ok a, rfl, rfl⟩
    | error e => cases h
  | throw e =>
    cases r with
    | ok b => cases h
    | error e' =>
      cases h
      exact ⟨.error e, rfl, rfl⟩
  | clock k => cases r <;> cases h
  | call o k => cases r <;> cases h

end Prog

/-! ## The system inside its extension -/

/-- An environment that answers anything. -/
def anything : Environment F Unit := fun _ _ _ _ _ => True

/-- A thread of the extended system, and the same as a thread of the system. -/
structure Thread.Same (th : Thread (S.extend X)) (own : Thread S) : Prop where
  req : th.req = .inl own.req
  start : own.start = th.start
  trace : own.trace = th.trace
  rest : th.rest = Sum.inl <$> own.rest
  stop : th.stop = own.stop.map fun e => (e.1, e.2.map Sum.inl)

/-- A thread of the extension. -/
structure Thread.More (th : Thread (S.extend X)) : Prop where
  req : ∃ q, th.req = .inr q
  rest : ∃ p : Prog F X.Out, th.rest = Sum.inr <$> p
  stop : ∀ t out, th.stop = some (t, .ok out) → ∃ more, out = .inr more

/-- The threads of the system among the threads. -/
inductive Own : List (Thread (S.extend X)) → List (Thread S) → Prop where
  | nil : Own [] []
  | same {th : Thread (S.extend X)} {own : Thread S} {ths : List (Thread (S.extend X))} {owns : List (Thread S)}
      (h : th.Same own) (hrest : Own ths owns) : Own (th :: ths) (own :: owns)
  | more {th : Thread (S.extend X)} {ths : List (Thread (S.extend X))} {owns : List (Thread S)}
      (h : th.More) (hrest : Own ths owns) : Own (th :: ths) owns

theorem Own.append {ths ths' : List (Thread (S.extend X))} {owns owns' : List (Thread S)} (h : Own ths owns)
    (h' : Own ths' owns') : Own (ths ++ ths') (owns ++ owns') := by
  induction h with
  | nil => exact h'
  | same h _ ih => exact .same h ih
  | more h _ ih => exact .more h ih

theorem Own.split {pre post : List (Thread (S.extend X))} {th : Thread (S.extend X)} {owns : List (Thread S)}
    (h : Own (pre ++ th :: post) owns) :
    ∃ pre' post', Own pre pre' ∧ Own post post' ∧
      ((∃ own, th.Same own ∧ owns = pre' ++ own :: post') ∨ (th.More ∧ owns = pre' ++ post')) := by
  induction pre generalizing owns with
  | nil =>
    cases h with
    | same h hrest => exact ⟨[], _, .nil, hrest, Or.inl ⟨_, h, rfl⟩⟩
    | more h hrest => exact ⟨[], _, .nil, hrest, Or.inr ⟨h, rfl⟩⟩
  | cons x pre ih =>
    cases h with
    | same h hrest =>
      obtain ⟨pre', post', hpre, hpost, hmid⟩ := ih hrest
      refine ⟨_, post', .same h hpre, hpost, ?_⟩
      rcases hmid with ⟨own, hsame, rfl⟩ | ⟨hmore, rfl⟩
      · exact Or.inl ⟨own, hsame, rfl⟩
      · exact Or.inr ⟨hmore, rfl⟩
    | more h hrest =>
      obtain ⟨pre', post', hpre, hpost, hmid⟩ := ih hrest
      exact ⟨pre', post', .more h hpre, hpost, hmid⟩

/-- Each of them is a thread of the extended system, -/
theorem Own.exists_thread {ths : List (Thread (S.extend X))} {owns : List (Thread S)} (h : Own ths owns) :
    ∀ own ∈ owns, ∃ th ∈ ths, th.Same own := by
  induction h with
  | nil => exact nofun
  | same h _ ih =>
    intro own hown
    rcases List.mem_cons.mp hown with rfl | hown
    · exact ⟨_, List.mem_cons_self, h⟩
    · obtain ⟨th, hth, hsame⟩ := ih own hown
      exact ⟨th, List.mem_cons_of_mem _ hth, hsame⟩
  | more _ _ ih =>
    intro own hown
    obtain ⟨th, hth, hsame⟩ := ih own hown
    exact ⟨th, List.mem_cons_of_mem _ hth, hsame⟩

/-- and every other thread is one of the extension. -/
theorem Own.exists_own {ths : List (Thread (S.extend X))} {owns : List (Thread S)} (h : Own ths owns) :
    ∀ th ∈ ths, (∃ own ∈ owns, th.Same own) ∨ th.More := by
  induction h with
  | nil => exact nofun
  | same h _ ih =>
    intro th hth
    rcases List.mem_cons.mp hth with rfl | hth
    · exact Or.inl ⟨_, List.mem_cons_self, h⟩
    · exact (ih th hth).imp_left fun ⟨own, hown, hsame⟩ => ⟨own, List.mem_cons_of_mem _ hown, hsame⟩
  | more h _ ih =>
    intro th hth
    rcases List.mem_cons.mp hth with rfl | hth
    · exact Or.inr h
    · exact ih th hth

/-- A world of the extended system, as the system sees it. -/
structure Restricts (w : World (S.extend X) σ) (own : World S Unit) : Prop where
  clock : own.clock ≤ w.clock
  threads : Own w.threads own.threads
  log : ∀ e ∈ own.log, e ∈ w.log

/-- A token of the system was released by the system. -/
theorem Restricts.known {w : World (S.extend X) σ} {own : World S Unit} (h : Restricts w own) {tok : S.Tok}
    (hknown : w.Known (.inl tok)) : own.Known tok := by
  obtain ⟨th, hth, t, out, hstop, hreleases⟩ := hknown
  rcases h.threads.exists_own th hth with ⟨th', hth', hsame⟩ | hmore
  · rw [hsame.stop] at hstop
    obtain ⟨⟨t', r⟩, hown, heq⟩ := Option.map_eq_some_iff.mp hstop
    cases r with
    | error e => cases heq
    | ok out' =>
      cases heq
      obtain ⟨_, htok, hreleases⟩ := hreleases
      cases htok
      exact ⟨th', hth', t', out', hown, hreleases⟩
  · obtain ⟨more, rfl⟩ := hmore.stop t out hstop
    obtain ⟨_, htok, -⟩ := hreleases
    cases htok

/-- A run of the extended system is a run of the system. -/
theorem Runs.restrict {env : Environment F σ} {s : σ} {w : World (S.extend X) σ}
    (h : Reachable (S.extend X) env s w) : ∃ own, Reachable S anything () own ∧ Restricts w own := by
  induction h with
  | refl => exact ⟨World.init S (), .refl, Nat.le_refl 0, .nil, nofun⟩
  | @step w _ _ hs ih =>
    obtain ⟨own, hown, hrestricts⟩ := ih
    cases hs with
    | begin q t ht hq =>
      have hle := Nat.le_trans hrestricts.clock ht
      cases q with
      | inl q =>
        have hknown : ∀ tok, S.presents q tok → own.Known tok :=
          fun tok htok => hrestricts.known (hq (.inl tok) ⟨tok, rfl, htok⟩)
        refine ⟨_, hown.step (.begin own q t hle hknown), Nat.le_refl t, ?_, hrestricts.log⟩
        exact hrestricts.threads.append (.same ⟨rfl, rfl, rfl, rfl, rfl⟩ .nil)
      | inr q =>
        have hmore : (Thread.begin (S.extend X) (.inr q) t).More := ⟨⟨q, rfl⟩, ⟨_, rfl⟩, nofun⟩
        have hthreads := hrestricts.threads.append (.more hmore .nil)
        rw [List.append_nil] at hthreads
        exact ⟨own, hown, hle, hthreads, hrestricts.log⟩
    | perform pre post th t o a k s ht hth hrun hp he =>
      have hle := Nat.le_trans hrestricts.clock ht
      have hthreads := hrestricts.threads
      rw [hth] at hthreads
      obtain ⟨pre', post', hpre, hpost, hmid⟩ := hthreads.split
      have hlog : ∀ e ∈ own.log, e ∈ w.log ++ [⟨t, o, a⟩] :=
        fun e he => List.mem_append_left _ (hrestricts.log e he)
      rcases hmid with ⟨th', hsame, howns⟩ | ⟨hmore, howns⟩
      · rw [hsame.rest] at hp
        obtain ⟨k', hcall, hk⟩ := Prog.call_of_map hp
        have hrun' : th'.stop = none := by
          rw [hsame.stop] at hrun
          exact Option.map_eq_none_iff.mp hrun
        refine ⟨_, hown.step (.perform own pre' post' th' t o a k' () hle howns hrun' hcall trivial),
          Nat.le_refl t, hpre.append (.same ?_ hpost), fun e he => ?_⟩
        · refine ⟨hsame.req, hsame.start, ?_, hk a, hsame.stop⟩
          show th'.trace ++ _ = th.trace ++ _
          rw [hsame.trace]
        · rcases List.mem_append.mp he with he | he
          · exact hlog e he
          · exact List.mem_append_right _ he
      · obtain ⟨p, hrest⟩ := hmore.rest
        rw [hrest] at hp
        obtain ⟨k', -, hk⟩ := Prog.call_of_map hp
        have hmore' : (th.perform ⟨t, o, a⟩ (k a)).More := ⟨hmore.req, ⟨k' a, hk a⟩, hmore.stop⟩
        refine ⟨own, hown, hle, ?_, hlog⟩
        rw [howns]
        exact hpre.append (.more hmore' hpost)
    | finish pre post th t r ht hth hrun hp =>
      have hle := Nat.le_trans hrestricts.clock ht
      have hthreads := hrestricts.threads
      rw [hth] at hthreads
      obtain ⟨pre', post', hpre, hpost, hmid⟩ := hthreads.split
      rcases hmid with ⟨th', hsame, howns⟩ | ⟨hmore, howns⟩
      · rw [hsame.rest] at hp
        obtain ⟨r', hresult, rfl⟩ := Prog.result_of_map hp
        have hrun' : th'.stop = none := by
          rw [hsame.stop] at hrun
          exact Option.map_eq_none_iff.mp hrun
        refine ⟨_, hown.step (.finish own pre' post' th' t r' hle howns hrun' hresult), Nat.le_refl t,
          hpre.append (.same ?_ hpost), hrestricts.log⟩
        exact ⟨hsame.req, hsame.start, hsame.trace, hsame.rest, rfl⟩
      · obtain ⟨p, hrest⟩ := hmore.rest
        rw [hrest] at hp
        obtain ⟨r', -, rfl⟩ := Prog.result_of_map hp
        have hmore' : (th.finish t (r'.map Sum.inr)).More := by
          refine ⟨hmore.req, hmore.rest, fun t' out hstop => ?_⟩
          cases r' with
          | error e => cases hstop
          | ok out' =>
            cases hstop
            exact ⟨out', rfl⟩
        refine ⟨own, hown, hle, ?_, hrestricts.log⟩
        rw [howns]
        exact hpre.append (.more hmore' hpost)

end Resumable
