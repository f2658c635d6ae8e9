import Sag.Adapters.Semaphore

/-!
# Permits are neither lost nor doubled

What the Argon2 semaphore promises in every world that can be reached, whatever the order of calls,
hand-overs and ends (`permits_kept`). The count is the number of tasks that hold a permit, although
a hand-over does not touch it: the task that leaves and the waiter that is called cancel out. So the
count can only fall where the queue is empty, and a task waits only while every permit is in use.

The log has one permit given to each task that is past the door, and one given back by each that
has settled, with a value or an error. The queue is what is left of the arrivals once those that
were handed a permit are taken from the front.
-/

namespace Sag

open Slots

namespace Semaphore

variable {ε α : Type}

structure Promises (s : Semaphore) (w : World ε α) : Prop where
  counted : w.sem.active = (w.tasks.countP Phase.holds : Int)
  bounded : w.tasks.countP Phase.holds ≤ s.limit
  short : w.sem.queue.length ≤ s.maxQueue
  queued : ∀ i : Nat, i ∈ w.sem.queue ↔ w.tasks[i]? = some Phase.waiting
  busy : ∀ i : Nat, w.tasks[i]? = some Phase.waiting → w.tasks.countP Phase.holds = s.limit
  once : ∀ (i : Nat) (p : Phase ε α), w.tasks[i]? = some p → (received i w.log, returned i w.log) = p.dealings
  /-- An operation that is over, however it went, can leave, and has settled then. -/
  leaves : ∀ (i : Nat) (result : Except ε α), w.tasks[i]? = some (.ended result) →
    Step w (w.leave i result) ∧ (w.leave i result).tasks[i]? = some (.settled result)
  order : arrivals w.log = handOvers w.log ++ w.sem.queue ∧ (arrivals w.log).Pairwise (· < ·)
  /-- No permit and no waiter is forgotten. -/
  idle : (∀ p ∈ w.tasks, p.holds = false) → w.sem.active = 0 ∧ w.sem.queue = []
  refusal : ∀ message, w.call.tasks[w.tasks.length]? = some (.refused message) →
    w.tasks.countP Phase.holds = s.limit ∧ w.sem.queue.length = s.maxQueue ∧
      w.call = { w with tasks := w.tasks ++ [.refused message] }
  /-- A caller that was refused, or has settled, has nothing to do with the semaphore any more. -/
  done : ∀ v, Run w v → ∀ (i : Nat) (p : Phase ε α), w.tasks[i]? = some p → p.dealings.1 = p.dealings.2 → p ≠ .waiting →
    v.tasks[i]? = some p

/-- What the constructor makes has a permit to give, and has given none. -/
theorem make_ok {limit maxQueue : Json} {s : Semaphore} (h : make limit maxQueue = .ok s) :
    1 ≤ s.limit ∧ s.active = 0 ∧ s.queue = [] := by
  unfold make at h
  split at h
  · cases h
  · cases h
  · next hlimit _ =>
    obtain rfl := Except.ok.inj h
    exact ⟨of_decide_eq_true (Option.filter_eq_some_iff.mp hlimit).2, rfl, rfl⟩

/-- The phases in which a task has no dealings left are its last. -/
theorem step_done {w v : World ε α} (hw : Kept w) (hstep : Step w v) {i : Nat} {p : Phase ε α}
    (h : w.tasks[i]? = some p) (hdone : p.dealings.1 = p.dealings.2) (hwait : p ≠ .waiting) :
    v.tasks[i]? = some p := by
  have hother : ∀ {task : Nat} {old : Phase ε α}, w.tasks[task]? = some old → old.dealings.1 ≠ old.dealings.2 →
      task ≠ i := by
    rintro task old hold hne rfl
    rw [h] at hold
    exact hne (Option.some.inj hold ▸ hdone)
  cases hstep with
  | call =>
    have happend : ∀ q : Phase ε α, (w.tasks ++ [q])[i]? = some p := fun q => getElem?_append_of h
    rcases call_cases w with ⟨_, hcall⟩ | ⟨_, _, hcall⟩ | ⟨_, _, hcall⟩ <;> rw [hcall] <;> exact happend _
  | resume hold =>
    show (w.tasks.set _ _)[i]? = _
    rw [getElem?_set_of hold, if_neg (hother hold (by simp [Phase.dealings])), h]
  | complete result hold =>
    show (w.tasks.set _ _)[i]? = _
    rw [getElem?_set_of hold, if_neg (hother hold (by simp [Phase.dealings])), h]
  | @leave task result hold =>
    have hne : task ≠ i := hother hold (by simp [Phase.dealings])
    rcases leave_cases w task result with ⟨_, hleave⟩ | ⟨next, rest, hqueue, hleave⟩
    · rw [hleave]
      show (w.tasks.set _ _)[i]? = _
      rw [getElem?_set_of hold, if_neg hne, h]
    · have hnext : w.tasks[next]? = some .waiting :=
        (hw.waiters next).mp (by rw [hqueue]; exact List.mem_cons_self)
      have hne' : next ≠ i := by
        rintro rfl
        rw [h] at hnext
        exact hwait (Option.some.inj hnext)
      rw [hleave]
      show ((w.tasks.set _ _).set _ _)[i]? = _
      rw [List.getElem?_set_ne hne', getElem?_set_of hold, if_neg hne, h]

theorem run_done {w v : World ε α} (hw : Kept w) (hrun : Run w v) {i : Nat} {p : Phase ε α}
    (h : w.tasks[i]? = some p) (hdone : p.dealings.1 = p.dealings.2) (hwait : p ≠ .waiting) :
    v.tasks[i]? = some p := by
  induction hrun with
  | refl => exact h
  | tail hrun hstep ih => exact step_done (hw.run hrun) hstep ih hdone hwait

/-- The semaphore keeps its permits. -/
theorem permits_kept {limit maxQueue : Json} {s : Semaphore} (hmake : make limit maxQueue = .ok s) {w : World ε α}
    (hrun : Run (World.init s) w) : Promises s w := by
  obtain ⟨hpos, hactive, hqueue⟩ := make_ok hmake
  have hw : Kept w := (kept_init s hactive hqueue).run hrun
  have hlimit : w.sem.limit = s.limit := hrun.limits.1
  have hmax : w.sem.maxQueue = s.maxQueue := hrun.limits.2
  have hbound := hw.bound
  have hcounted := hw.counted
  rw [hlimit] at hbound
  have hbusy : w.sem.queue ≠ [] → w.tasks.countP Phase.holds = s.limit := by
    intro hne
    have := hw.busy hne
    omega
  refine
    { counted := hcounted
      bounded := by omega
      short := hmax ▸ hw.short
      queued := hw.waiters
      busy := fun i hi => hbusy (List.ne_nil_of_mem ((hw.waiters i).mpr hi))
      once := fun i p hp => by
        have hdealt := hw.dealt i
        rwa [hp] at hdealt
      leaves := ?_
      order := ⟨hw.order, hw.sorted⟩
      idle := ?_
      refusal := ?_
      done := fun v hv i p => run_done hw hv }
  · intro i result hi
    refine ⟨.leave hi, ?_⟩
    rcases leave_cases w i result with ⟨_, hleave⟩ | ⟨next, rest, hq, hleave⟩
    · rw [hleave]
      show (w.tasks.set i _)[i]? = _
      rw [getElem?_set_of hi, if_pos rfl]
    · have hnext : w.tasks[next]? = some .waiting := (hw.waiters next).mp (by rw [hq]; exact List.mem_cons_self)
      have hne : next ≠ i := by
        rintro rfl
        rw [hi] at hnext
        cases hnext
      rw [hleave]
      show ((w.tasks.set i _).set next _)[i]? = _
      rw [List.getElem?_set_ne hne, getElem?_set_of hi, if_pos rfl]
  · intro hnone
    have hzero : w.tasks.countP Phase.holds = 0 :=
      List.countP_eq_zero.mpr fun p hp => by simp [hnone p hp]
    refine ⟨by omega, ?_⟩
    by_cases hempty : w.sem.queue = []
    · exact hempty
    · have := hbusy hempty
      omega
  · intro message hrefused
    rcases call_cases w with ⟨_, hcall⟩ | ⟨_, _, hcall⟩ | ⟨hfull, hlong, hcall⟩
    · rw [hcall] at hrefused
      simp at hrefused
    · rw [hcall] at hrefused
      simp at hrefused
    · have hmessage : BUSY = message := by
        rw [hcall] at hrefused
        simpa using hrefused
      have hshort := hw.short
      exact ⟨by omega, by omega, hmessage ▸ hcall⟩

/-- Three callers and one permit: the first throws, the second is handed its permit, and the third
was refused. -/
theorem permits_handed : ∃ (s : Semaphore) (w : World Nat Nat), make (Json.ofNat 1) (Json.ofNat 1) = .ok s ∧
    Run (World.init s) w ∧ w.tasks = [.settled (.error 0), .admitted, .refused BUSY] ∧ Promises s w := by
  have hmake : make (Json.ofNat 1) (Json.ofNat 1) = .ok ⟨1, 1, 0, []⟩ := by
    simp only [make, Json.safeNat?_ofNat]
    rfl
  have hrun : Run (World.init ⟨1, 1, 0, []⟩ : World Nat Nat)
      ((((World.init ⟨1, 1, 0, []⟩).call.call.call.become 0 .running).become 0 (.ended (.error 0))).leave 0 (.error 0)) :=
    (((((Run.refl _).tail (.call _)).tail (.call _)).tail (.call _)).tail (.resume rfl)).tail
      (.complete (.error 0) rfl) |>.tail (.leave rfl)
  exact ⟨_, _, hmake, hrun, rfl, permits_kept hmake hrun⟩

end Semaphore

end Sag
