import Sag.Lib.Slots
import Sag.Util.Json

/-!
# The semaphore before Argon2

`Semaphore` of `adapters/node/local-identities.js`, and the tasks that run under it.

A task that finds no permit free leaves the resolver of a promise in the queue. The task that
leaves does not put its permit back: `release` takes the first resolver out of the queue and calls
it, and the count stays. The waiter resumes at some later moment, and anything may happen in between.

`World` is the semaphore in the middle of any number of tasks, numbered in the order of their
calls. `Step` is one scheduling decision: a call of `run`, a task that resumes after `acquire`, an
operation that ends with a value or an error, a `finally` that is reached.
-/

namespace Sag

open Slots

/-- The queue has the number of the task in place of its resolver. -/
structure Semaphore where
  limit : Nat
  maxQueue : Nat
  active : Int
  queue : List Nat
  deriving DecidableEq

/-- The ways out of `acquire`. -/
inductive Admission where
  | taken
  | queued
  | refused (message : JsString)
  deriving DecidableEq

namespace Semaphore

def BUSY : JsString := js "Argon2 is busy; too many password operations are already queued"

/-- The constructor. -/
def make (limit maxQueue : Json) : Except JsString Semaphore :=
  match limit.safeNat?.filter (1 ≤ ·), maxQueue.safeNat? with
  | none, _ => .error (js "Argon2 concurrency must be a positive integer")
  | some _, none => .error (js "Argon2 queue size must be a non-negative integer")
  | some limit, some maxQueue => .ok { limit, maxQueue, active := 0, queue := [] }

def acquire (s : Semaphore) (task : Nat) : Admission × Semaphore :=
  if s.active < s.limit then (.taken, { s with active := s.active + 1 })
  else if s.maxQueue ≤ s.queue.length then (.refused BUSY, s)
  else (.queued, { s with queue := s.queue ++ [task] })

/-- The waiter whose resolver is called, if there is one. -/
def release (s : Semaphore) : Option Nat × Semaphore :=
  match s.queue with
  | next :: queue => (some next, { s with queue })
  | [] => (none, { s with active := s.active - 1 })

/-- Where a call of `run` stands. -/
inductive Phase (ε α : Type) where
  /-- It has a permit, and `acquire` has yet to resume. -/
  | admitted
  /-- Its resolver is in the queue. -/
  | waiting
  | running
  /-- The operation is over, and the `finally` has yet to run. -/
  | ended (result : Except ε α)
  | settled (result : Except ε α)
  | refused (message : JsString)

inductive Event where
  | took (task : Nat)
  | queued (task : Nat)
  | handed (task : Nat)
  | returned (task : Nat)
  deriving DecidableEq

variable {ε α : Type}

structure World (ε α : Type) where
  sem : Semaphore
  tasks : List (Phase ε α)
  log : List Event

def World.init (s : Semaphore) : World ε α := ⟨s, [], []⟩

/-- `run`, up to its first `await`. -/
def World.call (w : World ε α) : World ε α :=
  let task := w.tasks.length
  match w.sem.acquire task with
  | (.taken, sem) => { sem, tasks := w.tasks ++ [.admitted], log := w.log ++ [.took task] }
  | (.queued, sem) => { sem, tasks := w.tasks ++ [.waiting], log := w.log ++ [.queued task] }
  | (.refused message, sem) => { sem, tasks := w.tasks ++ [.refused message], log := w.log }

def World.become (w : World ε α) (task : Nat) (phase : Phase ε α) : World ε α :=
  { w with tasks := w.tasks.set task phase }

/-- The `finally` of a task, whichever way its operation went. -/
def World.leave (w : World ε α) (task : Nat) (result : Except ε α) : World ε α :=
  match w.sem.release with
  | (some next, sem) =>
    { sem
      tasks := (w.tasks.set task (.settled result)).set next .admitted
      log := w.log ++ [.returned task, .handed next] }
  | (none, sem) => { sem, tasks := w.tasks.set task (.settled result), log := w.log ++ [.returned task] }

/-- One scheduling decision. -/
inductive Step : World ε α → World ε α → Prop where
  | call (w) : Step w w.call
  | resume {w : World ε α} {task : Nat} (h : w.tasks[task]? = some .admitted) : Step w (w.become task .running)
  | complete {w : World ε α} {task : Nat} (result : Except ε α) (h : w.tasks[task]? = some .running) :
    Step w (w.become task (.ended result))
  | leave {w : World ε α} {task : Nat} {result : Except ε α} (h : w.tasks[task]? = some (.ended result)) :
    Step w (w.leave task result)

inductive Run : World ε α → World ε α → Prop where
  | refl (w) : Run w w
  | tail {w v u : World ε α} (h : Run w v) (hstep : Step v u) : Run w u

/-! ## What a step keeps -/

/-- A task has a permit from the moment it was given one to the end of its `finally`. -/
def Phase.holds : Phase ε α → Bool
  | .admitted | .running | .ended _ => true
  | .waiting | .settled _ | .refused _ => false

/-- How often a task in this phase was given a permit, and how often it gave one back. -/
def Phase.dealings : Phase ε α → Nat × Nat
  | .waiting | .refused _ => (0, 0)
  | .admitted | .running | .ended _ => (1, 0)
  | .settled _ => (1, 1)

def received (task : Nat) (log : List Event) : Nat := log.count (.took task) + log.count (.handed task)

def returned (task : Nat) (log : List Event) : Nat := log.count (.returned task)

/-- The tasks that were queued, in the order of their arrival, -/
def arrivals (log : List Event) : List Nat :=
  log.filterMap fun e => match e with | .queued task => some task | _ => none

/-- and those that were handed a permit, in the order in which they were. -/
def handOvers (log : List Event) : List Nat :=
  log.filterMap fun e => match e with | .handed task => some task | _ => none

/-- The invariant. -/
structure Kept (w : World ε α) : Prop where
  counted : w.sem.active = (w.tasks.countP Phase.holds : Int)
  bound : w.sem.active ≤ w.sem.limit
  short : w.sem.queue.length ≤ w.sem.maxQueue
  busy : w.sem.queue ≠ [] → w.sem.active = w.sem.limit
  waiters : ∀ i, i ∈ w.sem.queue ↔ w.tasks[i]? = some .waiting
  order : arrivals w.log = handOvers w.log ++ w.sem.queue
  sorted : (arrivals w.log).Pairwise (· < ·)
  known : ∀ i ∈ arrivals w.log, i < w.tasks.length
  dealt : ∀ i, (received i w.log, returned i w.log) = (w.tasks[i]?.map Phase.dealings).getD (0, 0)

/-- Two phases of a task that holds a permit, one after the other. -/
theorem Kept.become {w : World ε α} (hw : Kept w) {task : Nat} {old new : Phase ε α} (h : w.tasks[task]? = some old)
    (hold : old.holds = true) (hnew : new.holds = true) : Kept (w.become task new) := by
  have hdeal : ∀ p : Phase ε α, p.holds = true → p.dealings = (1, 0) := by
    intro p hp
    cases p <;> first | rfl | cases hp
  refine { hw with counted := ?_, waiters := ?_, known := ?_, dealt := ?_ }
  · show w.sem.active = ((w.tasks.set task new).countP Phase.holds : Int)
    rw [countP_set_of h, hold, hnew, hw.counted]
    simp
  · intro i
    show i ∈ w.sem.queue ↔ (w.tasks.set task new)[i]? = some .waiting
    rw [hw.waiters i, getElem?_set_of h]
    split
    · next heq =>
      subst heq
      rw [h]
      constructor
      · intro e
        rw [Option.some.inj e] at hold
        cases hold
      · intro e
        rw [Option.some.inj e] at hnew
        cases hnew
    · rfl
  · intro i hi
    show i < (w.tasks.set task new).length
    rw [List.length_set]
    exact hw.known i hi
  · intro i
    show _ = ((w.tasks.set task new)[i]?.map Phase.dealings).getD (0, 0)
    rw [getElem?_set_of h]
    split
    · next heq =>
      subst heq
      have hd := hw.dealt task
      rw [h] at hd
      show _ = new.dealings
      rw [hdeal new hnew, ← hdeal old hold]
      exact hd
    · exact hw.dealt i

/-! ### A call -/

theorem received_append (i : Nat) (log events : List Event) :
    received i (log ++ events) = received i log + received i events := by
  rw [received, received, received, List.count_append, List.count_append]
  exact Nat.add_add_add_comm _ _ _ _

theorem returned_append (i : Nat) (log events : List Event) :
    returned i (log ++ events) = returned i log + returned i events := List.count_append

/-- No event of a task that has not been called yet. -/
theorem Kept.unseen {w : World ε α} (hw : Kept w) {i : Nat} (hi : w.tasks.length ≤ i) :
    received i w.log = 0 ∧ returned i w.log = 0 := by
  have hd := hw.dealt i
  rw [List.getElem?_eq_none hi] at hd
  exact ⟨congrArg Prod.fst hd, congrArg Prod.snd hd⟩

/-- What the log says once a call has added an event or none, about the others and about it. -/
theorem dealt_append {w : World ε α} (hw : Kept w) {p : Phase ε α} {events : List Event}
    (hown : (received w.tasks.length events, returned w.tasks.length events) = p.dealings)
    (hothers : ∀ i, i ≠ w.tasks.length → received i events = 0 ∧ returned i events = 0) (i : Nat) :
    (received i (w.log ++ events), returned i (w.log ++ events)) =
      ((w.tasks ++ [p])[i]?.map Phase.dealings).getD (0, 0) := by
  rw [received_append, returned_append, getElem?_append_one]
  split
  · next heq =>
    subst heq
    obtain ⟨hr, hg⟩ := hw.unseen (Nat.le_refl _)
    rw [hr, hg, Nat.zero_add, Nat.zero_add]
    exact hown
  · next hne =>
    obtain ⟨hr, hg⟩ := hothers i hne
    rw [hr, hg]
    exact hw.dealt i

/-- The waiters are those that were, if the task that arrives does not wait. -/
theorem waiters_append {w : World ε α} (hw : Kept w) {p : Phase ε α} (hp : p ≠ .waiting) (i : Nat) :
    i ∈ w.sem.queue ↔ (w.tasks ++ [p])[i]? = some .waiting := by
  rw [hw.waiters i, getElem?_append_one]
  split
  · next heq =>
    subst heq
    rw [List.getElem?_eq_none (Nat.le_refl _)]
    constructor
    · intro e
      cases e
    · intro e
      exact absurd (Option.some.inj e) hp
  · rfl

/-- What a call does, and when. -/
theorem call_cases (w : World ε α) :
    (w.sem.active < w.sem.limit ∧
      w.call =
        { sem := { w.sem with active := w.sem.active + 1 }
          tasks := w.tasks ++ [.admitted]
          log := w.log ++ [.took w.tasks.length] }) ∨
    (w.sem.limit ≤ w.sem.active ∧ w.sem.queue.length < w.sem.maxQueue ∧
      w.call =
        { sem := { w.sem with queue := w.sem.queue ++ [w.tasks.length] }
          tasks := w.tasks ++ [.waiting]
          log := w.log ++ [.queued w.tasks.length] }) ∨
    (w.sem.limit ≤ w.sem.active ∧ w.sem.maxQueue ≤ w.sem.queue.length ∧
      w.call = { w with tasks := w.tasks ++ [.refused BUSY] }) := by
  by_cases hfree : w.sem.active < w.sem.limit
  · exact .inl ⟨hfree, by simp only [World.call, acquire, if_pos hfree]⟩
  · by_cases hfull : w.sem.maxQueue ≤ w.sem.queue.length
    · refine .inr (.inr ⟨Int.not_lt.mp hfree, hfull, ?_⟩)
      simp only [World.call, acquire, if_neg hfree, if_pos hfull]
    · refine .inr (.inl ⟨Int.not_lt.mp hfree, Nat.lt_of_not_le hfull, ?_⟩)
      simp only [World.call, acquire, if_neg hfree, if_neg hfull]

theorem Kept.free {w : World ε α} (hw : Kept w) (h : w.sem.active < w.sem.limit) : w.sem.queue = [] := by
  by_cases hempty : w.sem.queue = []
  · exact hempty
  · have := hw.busy hempty
    omega

theorem Kept.call {w : World ε α} (hw : Kept w) : Kept w.call := by
  have hlen : ∀ p : Phase ε α, (w.tasks ++ [p]).length = w.tasks.length + 1 := fun p => List.length_append
  rcases call_cases w with ⟨hfree, hcall⟩ | ⟨hbusy, hroom, hcall⟩ | ⟨hbusy, hfull, hcall⟩
  · -- a permit is free, so nobody waits for one
    rw [hcall]
    refine
      { counted := ?_
        bound := hfree
        short := hw.short
        busy := fun h => absurd (hw.free hfree) h
        waiters := waiters_append hw (by simp)
        order := by simpa [arrivals, handOvers] using hw.order
        sorted := by simpa [arrivals] using hw.sorted
        known := ?_
        dealt := dealt_append hw (by simp [received, returned, Phase.dealings])
          fun i hi => by simp [received, returned, Ne.symm hi] }
    · rw [countP_append_one, ← hw.counted]
      rfl
    · intro i hi
      have := hw.known i (by simpa [arrivals] using hi)
      show i < (w.tasks ++ [_]).length
      rw [hlen]
      omega
  · rw [hcall]
    have harrive : arrivals (w.log ++ [.queued w.tasks.length]) = arrivals w.log ++ [w.tasks.length] := by
      simp [arrivals]
    refine
      { counted := ?_
        bound := hw.bound
        short := ?_
        busy := fun _ => Int.le_antisymm hw.bound hbusy
        waiters := ?_
        order := ?_
        sorted := ?_
        known := ?_
        dealt := dealt_append hw (by simp [received, returned, Phase.dealings])
          fun i hi => by simp [received, returned] }
    · rw [countP_append_one, ← hw.counted]
      exact (Int.add_zero _).symm
    · show (w.sem.queue ++ [_]).length ≤ w.sem.maxQueue
      rw [List.length_append, List.length_singleton]
      exact hroom
    · intro i
      show i ∈ w.sem.queue ++ [w.tasks.length] ↔ (w.tasks ++ [Phase.waiting])[i]? = some .waiting
      rw [List.mem_append, List.mem_singleton, hw.waiters i, getElem?_append_one]
      split
      · next heq => simp [heq]
      · next hne => simp [hne]
    · show arrivals _ = handOvers _ ++ (w.sem.queue ++ [_])
      rw [harrive, hw.order, List.append_assoc]
      simp [handOvers]
    · -- numbers are given out in the order of the calls
      show (arrivals _).Pairwise _
      rw [harrive, List.pairwise_append]
      refine ⟨hw.sorted, List.pairwise_singleton _ _, fun i hi j hj => ?_⟩
      rw [List.mem_singleton.mp hj]
      exact hw.known i hi
    · intro i hi
      show i < (w.tasks ++ [_]).length
      rw [hlen]
      rw [harrive, List.mem_append, List.mem_singleton] at hi
      rcases hi with hi | hi
      · have := hw.known i hi
        omega
      · omega
  · rw [hcall]
    refine
      { hw with
        counted := ?_
        waiters := waiters_append hw (by simp)
        known := ?_
        dealt := ?_ }
    · rw [countP_append_one, ← hw.counted]
      exact (Int.add_zero _).symm
    · intro i hi
      have := hw.known i hi
      show i < (w.tasks ++ [_]).length
      rw [hlen]
      omega
    · have hd : ∀ i, (received i (w.log ++ []), returned i (w.log ++ [])) =
          ((w.tasks ++ [Phase.refused BUSY])[i]?.map Phase.dealings).getD (0, 0) :=
        dealt_append hw rfl fun i _ => ⟨rfl, rfl⟩
      rwa [List.append_nil] at hd

/-! ### The end of a task -/

/-- What the end of a task does: the permit is counted off, or passed on. -/
theorem leave_cases (w : World ε α) (task : Nat) (result : Except ε α) :
    (w.sem.queue = [] ∧
      w.leave task result =
        { sem := { w.sem with active := w.sem.active - 1 }
          tasks := w.tasks.set task (.settled result)
          log := w.log ++ [.returned task] }) ∨
    ∃ next rest, w.sem.queue = next :: rest ∧
      w.leave task result =
        { sem := { w.sem with queue := rest }
          tasks := (w.tasks.set task (.settled result)).set next .admitted
          log := w.log ++ [.returned task, .handed next] } := by
  cases hqueue : w.sem.queue with
  | nil => exact .inl ⟨rfl, by simp only [World.leave, release, hqueue]⟩
  | cons next rest => exact .inr ⟨next, rest, rfl, by simp only [World.leave, release, hqueue]⟩

theorem Kept.leave {w : World ε α} (hw : Kept w) {task : Nat} {result : Except ε α}
    (h : w.tasks[task]? = some (.ended result)) : Kept (w.leave task result) := by
  have hdealt := hw.dealt task
  rw [h] at hdealt
  have hgiven : received task w.log = 1 ∧ returned task w.log = 0 :=
    ⟨congrArg Prod.fst hdealt, congrArg Prod.snd hdealt⟩
  rcases leave_cases w task result with ⟨hqueue, hleave⟩ | ⟨next, rest, hqueue, hleave⟩
  · rw [hleave]
    refine
      { counted := ?_
        bound := ?_
        short := hw.short
        busy := fun hne => absurd hqueue hne
        waiters := ?_
        order := by simpa [arrivals, handOvers] using hw.order
        sorted := by simpa [arrivals] using hw.sorted
        known := ?_
        dealt := ?_ }
    · show w.sem.active - 1 = ((w.tasks.set task _).countP Phase.holds : Int)
      rw [countP_set_of h, hw.counted]
      simp [Phase.holds]
    · have := hw.bound
      show w.sem.active - 1 ≤ w.sem.limit
      omega
    · intro i
      show i ∈ w.sem.queue ↔ (w.tasks.set task (.settled result))[i]? = some .waiting
      rw [hw.waiters i, getElem?_set_of h]
      split
      · next heq =>
        subst heq
        simp [h]
      · rfl
    · intro i hi
      show i < (w.tasks.set task _).length
      rw [List.length_set]
      exact hw.known i (by simpa [arrivals] using hi)
    · intro i
      show _ = ((w.tasks.set task (.settled result))[i]?.map Phase.dealings).getD (0, 0)
      rw [received_append, returned_append, getElem?_set_of h]
      split
      · next heq =>
        subst heq
        rw [hgiven.1, hgiven.2]
        simp [received, returned, Phase.dealings]
      · next hne =>
        rw [← hw.dealt i]
        simp [received, returned, hne]
  · -- the head of the queue waits, and is another task
    have hnext : w.tasks[next]? = some .waiting :=
      (hw.waiters next).mp (by rw [hqueue]; exact List.mem_cons_self)
    have hne : task ≠ next := by
      rintro rfl
      rw [h] at hnext
      cases hnext
    have hnext' : (w.tasks.set task (.settled result))[next]? = some .waiting := by
      rw [getElem?_set_of h, if_neg hne, hnext]
    have hdealt' := hw.dealt next
    rw [hnext] at hdealt'
    have hwaited : received next w.log = 0 ∧ returned next w.log = 0 :=
      ⟨congrArg Prod.fst hdealt', congrArg Prod.snd hdealt'⟩
    have hqueued := hw.order
    rw [hqueue] at hqueued
    have hnodup : next ∉ rest := by
      have hsorted := hw.sorted
      rw [hqueued, List.pairwise_append] at hsorted
      exact fun hmem => Nat.lt_irrefl _ ((List.pairwise_cons.mp hsorted.2.1).1 next hmem)
    rw [hleave]
    refine
      { counted := ?_
        bound := hw.bound
        short := ?_
        busy := fun _ => hw.busy (by rw [hqueue]; exact List.cons_ne_nil _ _)
        waiters := ?_
        order := ?_
        sorted := by simpa [arrivals] using hw.sorted
        known := ?_
        dealt := ?_ }
    · show w.sem.active = (((w.tasks.set task _).set next _).countP Phase.holds : Int)
      rw [countP_set_of hnext', countP_set_of h, hw.counted]
      simp [Phase.holds]
    · have := hw.short
      rw [hqueue, List.length_cons] at this
      show rest.length ≤ w.sem.maxQueue
      omega
    · intro i
      have hold := hw.waiters i
      rw [hqueue, List.mem_cons] at hold
      show i ∈ rest ↔ ((w.tasks.set task (.settled result)).set next Phase.admitted)[i]? = some .waiting
      rw [getElem?_set_of hnext', getElem?_set_of h]
      split
      · next heq =>
        subst heq
        simp [hnodup]
      · next hother =>
        split
        · next heq =>
          subst heq
          simpa [h, Ne.symm hother] using hold
        · rw [← hold]
          simp [Ne.symm hother]
    · show arrivals _ = handOvers _ ++ rest
      simpa [arrivals, handOvers] using hqueued
    · intro i hi
      show i < ((w.tasks.set task _).set next _).length
      rw [List.length_set, List.length_set]
      exact hw.known i (by simpa [arrivals] using hi)
    · intro i
      show _ = (((w.tasks.set task (.settled result)).set next Phase.admitted)[i]?.map Phase.dealings).getD (0, 0)
      rw [received_append, returned_append, getElem?_set_of hnext', getElem?_set_of h]
      split
      · next heq =>
        subst heq
        rw [hwaited.1, hwaited.2]
        simp [received, returned, Phase.dealings, hne]
      · next hother =>
        split
        · next heq =>
          subst heq
          rw [hgiven.1, hgiven.2]
          simp [received, returned, Phase.dealings, hother]
        · next hne' =>
          rw [← hw.dealt i]
          simp [received, returned, hne', hother]

/-! ## Runs -/

theorem kept_init (s : Semaphore) (hactive : s.active = 0) (hqueue : s.queue = []) :
    Kept (World.init s : World ε α) where
  counted := hactive
  bound := by
    show s.active ≤ s.limit
    omega
  short := by
    show s.queue.length ≤ s.maxQueue
    rw [hqueue]
    exact Nat.zero_le _
  busy := fun h => absurd hqueue h
  waiters := fun i => by simp [World.init, hqueue]
  order := hqueue.symm
  sorted := List.Pairwise.nil
  known := fun _ h => absurd h List.not_mem_nil
  dealt := fun _ => rfl

theorem Kept.step {w v : World ε α} (hw : Kept w) (hstep : Step w v) : Kept v := by
  cases hstep with
  | call => exact hw.call
  | resume h => exact hw.become h rfl rfl
  | complete result h => exact hw.become h rfl rfl
  | leave h => exact hw.leave h

theorem Kept.run {w v : World ε α} (hw : Kept w) (hrun : Run w v) : Kept v := by
  induction hrun with
  | refl => exact hw
  | tail _ hstep ih => exact ih.step hstep

/-- The limits are those the constructor was given. -/
theorem Step.limits {w v : World ε α} (hstep : Step w v) :
    v.sem.limit = w.sem.limit ∧ v.sem.maxQueue = w.sem.maxQueue := by
  cases hstep with
  | call =>
    rcases call_cases w with ⟨_, hcall⟩ | ⟨_, _, hcall⟩ | ⟨_, _, hcall⟩ <;> rw [hcall] <;> exact ⟨rfl, rfl⟩
  | resume h => exact ⟨rfl, rfl⟩
  | complete result h => exact ⟨rfl, rfl⟩
  | @leave task result h =>
    rcases leave_cases w task result with ⟨_, hleave⟩ | ⟨_, _, _, hleave⟩ <;> rw [hleave] <;> exact ⟨rfl, rfl⟩

theorem Run.limits {w v : World ε α} (hrun : Run w v) :
    v.sem.limit = w.sem.limit ∧ v.sem.maxQueue = w.sem.maxQueue := by
  induction hrun with
  | refl => exact ⟨rfl, rfl⟩
  | tail _ hstep ih => exact ⟨hstep.limits.1.trans ih.1, hstep.limits.2.trans ih.2⟩

end Semaphore

end Sag
