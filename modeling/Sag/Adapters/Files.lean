import Sag.LocalIdentities.Documents
import Sag.Util.Ip
import Sag.Lib.ChainLock

/-!
# Identity records as files

`replace` of `adapters/node/local-identities.js`, and the lock under which it runs. A call checks its
arguments, takes its place in the chain of its record (`ChainLock`), reads the record when its turn
has come, and writes if the revision is the one expected. Reading and writing are taken as one step
each: a read sees what is stored or throws, and a write puts the new file in place or does not, and
may throw after it has as well as before.

`Files` is the directory in the middle of any number of calls, numbered in the order of their
arrival, and `Files.Step` what may happen next: a call, a caller whose turn comes, a read, a
write, a `finally`.
-/

namespace Sag

open ChainLock Slots

def MAX_RECORD_BYTES : Nat := 64 * 1024

def checkedKey (key : JsString) : Except JsString JsString :=
  if key.length = 64 ∧ key.all isLowerHex then .ok key
  else .error (js "local identity keys must be 64 lower-case hexadecimal characters")

/-- `minimum` is one, or zero where `allowZero` is set. -/
def checkedRevision (value : Option Json) (name : JsString) (minimum : Nat) : Except JsString Nat :=
  match (value.bind Json.safeNat?).filter (minimum ≤ ·) with
  | some n => .ok n
  | none => .error (name ++ js " must be a safe integer of at least " ++ decimal minimum)

/-- `printed` is how many bytes the indented text of a document takes. -/
def checkedDocument (printed : Json → Nat) (doc : Json) (expectedRevision : Nat) : Except JsString Unit :=
  match doc.object? with
  | none => .error (js "a local identity record must be a JSON object")
  | some m =>
    match checkedRevision (Json.member m (js "revision")) (js "record revision") 1 with
    | .error e => .error e
    | .ok revision =>
      if revision ≠ expectedRevision + 1 then
        .error (js "replacement record revision must be the expected revision plus one")
      else if MAX_RECORD_BYTES < printed doc + 1 then
        .error (js "local identity record exceeds " ++ decimal MAX_RECORD_BYTES ++ js " bytes")
      else .ok ()

def lockId (root key : JsString) : JsString := root ++ 0 :: key

namespace Files

/-- How a call ended; a write that threw may have put the file in place before it did. -/
inductive Outcome where
  | returned (swapped : Bool)
  | threw (message : JsString) (placed : Bool)
  deriving DecidableEq

/-- Where a call stands. -/
inductive Phase where
  | waiting
  | reading
  | writing
  /-- The operation is over, and the `finally` has yet to run. -/
  | ended (outcome : Outcome)
  | settled (outcome : Outcome)
  deriving DecidableEq

structure Call where
  root : JsString
  key : JsString
  expected : Nat
  doc : Json
  phase : Phase

/-- A file that was put in place. -/
structure Placement where
  caller : Nat
  root : JsString
  key : JsString
  expected : Nat
  doc : Json

def Call.placement (call : Call) (i : Nat) : Placement := ⟨i, call.root, call.key, call.expected, call.doc⟩

/-- The directories, by root, the calls, and the files put in place so far. -/
structure World where
  lock : Chain JsString
  calls : List Call
  docs : JsString → Documents
  log : List Placement

def World.init (docs : JsString → Documents) : World := ⟨Chain.init, [], docs, []⟩

def World.become (w : World) (i : Nat) (call : Call) (phase : Phase) : World :=
  { w with calls := w.calls.set i { call with phase } }

/-- `replace`, up to its first `await`. -/
def World.replace (printed : Json → Nat) (w : World) (root key : JsString) (expectedRevision doc : Json) :
    Except JsString World :=
  match checkedKey key with
  | .error e => .error e
  | .ok key =>
    match checkedRevision (some expectedRevision) (js "expected revision") 0 with
    | .error e => .error e
    | .ok expected =>
      match checkedDocument printed doc expected with
      | .error e => .error e
      | .ok () =>
        .ok { w with
          lock := w.lock.arrive (lockId root key)
          calls := w.calls ++ [{ root, key, expected, doc, phase := .waiting }] }

/-- What `readRecord` answers. -/
inductive Reads (stored : Option Json) : Except JsString (Option Json) → Prop where
  | missing (h : stored = none) : Reads stored (.ok none)
  | found {doc : Json} {m : Members} {n : Nat} (h : stored = some doc) (hobj : doc.object? = some m)
    (hrevision : checkedRevision (Json.member m (js "revision")) (js "record revision") 1 = .ok n) :
    Reads stored (.ok (some doc))
  | threw (message : JsString) : Reads stored (.error message)

/-- After the read: to write, or not. -/
def afterRead (expected : Nat) : Except JsString (Option Json) → Phase
  | .error message => .ended (.threw message false)
  | .ok current => if revisionOf current ≠ expected then .ended (.returned false) else .writing

/-- How `writeAtomic` ends. -/
inductive Writing where
  | placed
  /-- It throws `EEXIST`, and nothing was put in place. -/
  | exists (message : JsString)
  | failed (message : JsString) (placed : Bool)

/-- A file that must not exist is put in place by `link`, which refuses if it does. -/
def Writing.Possible (expected : Nat) (stored : Option Json) : Writing → Prop
  | .placed | .failed _ true => expected = 0 → stored = none
  | .exists _ | .failed _ false => True

def Writing.places : Writing → Bool
  | .placed | .failed _ true => true
  | .exists _ | .failed _ false => false

def afterWrite (expected : Nat) : Writing → Outcome
  | .placed => .returned true
  | .exists message => if expected = 0 then .returned false else .threw message false
  | .failed message placed => .threw message placed

/-- The effect of a write on the directories. -/
def World.write (w : World) (i : Nat) (call : Call) (writing : Writing) : World :=
  { lock := w.lock
    calls := w.calls.set i { call with phase := .ended (afterWrite call.expected writing) }
    docs := fun root =>
      if root = call.root ∧ writing.places then (w.docs root).write call.key call.doc else w.docs root
    log := if writing.places then w.log ++ [call.placement i] else w.log }

inductive Step (printed : Json → Nat) : World → World → Prop where
  | replace {w v : World} {root key : JsString} {expectedRevision doc : Json}
    (h : w.replace printed root key expectedRevision doc = .ok v) : Step printed w v
  | enter {w : World} {i : Nat} {call : Call} {caller : Caller JsString} (h : w.calls[i]? = some call)
    (hphase : call.phase = .waiting) (hcaller : w.lock.callers[i]? = some caller) (hopen : w.lock.Open caller) :
    Step printed w { w.become i call .reading with lock := w.lock.enter i caller }
  | read {w : World} {i : Nat} {call : Call} {answer : Except JsString (Option Json)} (h : w.calls[i]? = some call)
    (hphase : call.phase = .reading) (hread : Reads (w.docs call.root call.key) answer) :
    Step printed w (w.become i call (afterRead call.expected answer))
  | write {w : World} {i : Nat} {call : Call} {writing : Writing} (h : w.calls[i]? = some call)
    (hphase : call.phase = .writing) (hwrite : writing.Possible call.expected (w.docs call.root call.key)) :
    Step printed w (w.write i call writing)
  | leave {w : World} {i : Nat} {call : Call} {caller : Caller JsString} {outcome : Outcome}
    (h : w.calls[i]? = some call) (hphase : call.phase = .ended outcome)
    (hcaller : w.lock.callers[i]? = some caller) :
    Step printed w { w.become i call (.settled outcome) with lock := w.lock.leave i caller }

inductive Run (printed : Json → Nat) : World → World → Prop where
  | refl (w : World) : Run printed w w
  | tail {w v u : World} (h : Run printed w v) (hstep : Step printed v u) : Run printed w u

/-! ## What a step keeps -/

/-- A call is in the chain from its arrival to the end of its `finally`, and has its turn after
the wait. -/
def Phase.stage : Phase → ChainLock.Stage
  | .waiting => .waiting
  | .reading | .writing | .ended _ => .holding
  | .settled _ => .done

def Outcome.placed : Outcome → Bool
  | .returned swapped => swapped
  | .threw _ placed => placed

/-- The file of a call in this phase was put in place. -/
def Phase.placed : Phase → Bool
  | .ended outcome | .settled outcome => outcome.placed
  | _ => false

/-- What the log has of the call number `i`. -/
def placementsOf (i : Nat) : Option Call → List Placement
  | some call => if call.phase.placed then [call.placement i] else []
  | none => []

/-- The directories are what one compare-and-swap after the other has made of them. -/
inductive Swaps (docs₀ : JsString → Documents) : List Placement → (JsString → Documents) → Prop where
  | nil : Swaps docs₀ [] docs₀
  | snoc {log : List Placement} {docs docs' : JsString → Documents} {p : Placement} (h : Swaps docs₀ log docs)
    (hswap : Swap (docs p.root) p.key p.expected p.doc (docs' p.root))
    (hothers : ∀ root, root ≠ p.root → docs' root = docs root) : Swaps docs₀ (log ++ [p]) docs'

structure Kept (docs₀ : JsString → Documents) (w : World) : Prop where
  chain : ChainLock.Kept w.lock
  sized : w.lock.callers.length = w.calls.length
  callers : ∀ (i : Nat) (call : Call), w.calls[i]? = some call →
    ∃ caller, w.lock.callers[i]? = some caller ∧ caller.key = lockId call.root call.key ∧
      caller.stage = call.phase.stage
  checked : ∀ (i : Nat) (call : Call), w.calls[i]? = some call →
    call.key.length = 64 ∧ revisionOf (some call.doc) = call.expected + 1
  matched : ∀ (i : Nat) (call : Call), w.calls[i]? = some call → call.phase = .writing →
    revisionOf (w.docs call.root call.key) = call.expected
  history : Swaps docs₀ w.log w.docs
  placed : ∀ i : Nat, w.log.filter (·.caller = i) = placementsOf i w.calls[i]?
  raising : ∀ p ∈ w.log, revisionOf (some p.doc) = p.expected + 1

/-- Two calls that have their turn at one record are one call. -/
theorem Kept.exclusive {docs₀ : JsString → Documents} {w : World} (hw : Kept docs₀ w) {i j : Nat} {a b : Call}
    (ha : w.calls[i]? = some a) (hb : w.calls[j]? = some b) (hroot : a.root = b.root) (hkey : a.key = b.key)
    (hastage : a.phase.stage = .holding) (hbstage : b.phase.stage = .holding) : i = j := by
  obtain ⟨ca, hca, hak, has⟩ := hw.callers i a ha
  obtain ⟨cb, hcb, hbk, hbs⟩ := hw.callers j b hb
  exact hw.chain.exclusive hca hcb (has.trans hastage) (hbs.trans hbstage) (by rw [hak, hbk, hroot, hkey])

/-! ### A call -/

theorem checkedRevision_ok {value : Option Json} {name : JsString} {minimum n : Nat}
    (h : checkedRevision value name minimum = .ok n) : value = some (Json.ofNat n) ∧ minimum ≤ n := by
  unfold checkedRevision at h
  split at h
  · next hn =>
    obtain rfl := Except.ok.inj h
    obtain ⟨hbind, hmin⟩ := Option.filter_eq_some_iff.mp hn
    obtain ⟨v, hv, hsafe⟩ := Option.bind_eq_some_iff.mp hbind
    exact ⟨hv.trans (congrArg some (Json.safeNat?_eq_some hsafe).1), of_decide_eq_true hmin⟩
  · cases h

theorem checkedDocument_ok {printed : Json → Nat} {doc : Json} {expected : Nat}
    (h : checkedDocument printed doc expected = .ok ()) : revisionOf (some doc) = expected + 1 := by
  unfold checkedDocument at h
  split at h
  · cases h
  · next m hobj =>
    split at h
    · cases h
    · next revision hrevision =>
      split at h
      · cases h
      · next hexpected =>
        cases doc with
        | obj m' =>
          obtain rfl : m' = m := Option.some.inj hobj
          rw [revisionOf_obj (checkedRevision_ok hrevision).1]
          exact not_not.mp hexpected
        | _ => cases hobj

/-- What a call that is let in adds. -/
theorem replace_ok {printed : Json → Nat} {w v : World} {root key : JsString} {expectedRevision doc : Json}
    (h : w.replace printed root key expectedRevision doc = .ok v) :
    ∃ expected, key.length = 64 ∧ revisionOf (some doc) = expected + 1 ∧
      v = { w with
        lock := w.lock.arrive (lockId root key)
        calls := w.calls ++ [{ root, key, expected, doc, phase := .waiting }] } := by
  unfold World.replace at h
  split at h
  · cases h
  · next key' hkey =>
    unfold checkedKey at hkey
    split at hkey
    · next hpattern =>
      obtain rfl := Except.ok.inj hkey
      split at h
      · cases h
      · next expected _ =>
        split at h
        · cases h
        · next hdoc => exact ⟨expected, hpattern.1, checkedDocument_ok hdoc, (Except.ok.inj h).symm⟩
    · cases hkey

variable {docs₀ : JsString → Documents} {w : World}

theorem Kept.arrive (hw : Kept docs₀ w) {root key : JsString} {expected : Nat} {doc : Json} (hkey : key.length = 64)
    (hdoc : revisionOf (some doc) = expected + 1) :
    Kept docs₀ { w with
      lock := w.lock.arrive (lockId root key)
      calls := w.calls ++ [{ root, key, expected, doc, phase := .waiting }] } := by
  constructor
  · exact hw.chain.arrive _
  · show (w.lock.callers ++ [_]).length = (w.calls ++ [_]).length
    rw [List.length_append, List.length_append, hw.sized]
    rfl
  · intro i call hcall
    rw [getElem?_append_one] at hcall
    show ∃ caller, (w.lock.callers ++ [_])[i]? = some caller ∧ _
    split at hcall
    · next heq =>
      obtain rfl := Option.some.inj hcall
      exact ⟨_, by rw [getElem?_append_one, if_pos (heq.trans hw.sized.symm)], rfl, rfl⟩
    · obtain ⟨caller, hcaller, hk, hs⟩ := hw.callers i call hcall
      exact ⟨caller, getElem?_append_of hcaller, hk, hs⟩
  · intro i call hcall
    rw [getElem?_append_one] at hcall
    split at hcall
    · obtain rfl := Option.some.inj hcall
      exact ⟨hkey, hdoc⟩
    · exact hw.checked i call hcall
  · intro i call hcall hphase
    rw [getElem?_append_one] at hcall
    split at hcall
    · obtain rfl := Option.some.inj hcall
      cases hphase
    · exact hw.matched i call hcall hphase
  · exact hw.history
  · intro i
    have hplaced := hw.placed i
    show w.log.filter _ = placementsOf i (w.calls ++ [_])[i]?
    rw [getElem?_append_one]
    split
    · next heq =>
      rw [heq, List.getElem?_eq_none (Nat.le_refl _)] at hplaced
      rw [heq]
      exact hplaced
    · exact hplaced
  · exact hw.raising

/-! ### A change of phase -/

/-- A call goes on, and nothing is written. -/
theorem Kept.restage (hw : Kept docs₀ w) {i : Nat} {call : Call} (h : w.calls[i]? = some call) {new : Phase}
    {lock : Chain JsString} (hchain : ChainLock.Kept lock) (hsized : lock.callers.length = w.lock.callers.length)
    (hlock : ∀ j caller, w.lock.callers[j]? = some caller → ∃ next, lock.callers[j]? = some next ∧
      next.key = caller.key ∧ next.stage = if i = j then new.stage else caller.stage)
    (hplaced : new.placed = call.phase.placed)
    (hmatched : new = .writing → revisionOf (w.docs call.root call.key) = call.expected) :
    Kept docs₀ { w.become i call new with lock } := by
  have hget : ∀ j : Nat, (w.become i call new).calls[j]? = if i = j then some { call with phase := new } else w.calls[j]? :=
    fun j => getElem?_set_of h j
  constructor
  · exact hchain
  · show lock.callers.length = (w.calls.set i _).length
    rw [List.length_set, hsized, hw.sized]
  · intro j c hc
    have hfound := (hget j).symm.trans hc
    split at hfound
    · next heq =>
      subst heq
      obtain rfl := Option.some.inj hfound
      obtain ⟨caller, hcaller, hk, -⟩ := hw.callers i call h
      obtain ⟨next, hnext, hnk, hns⟩ := hlock i caller hcaller
      exact ⟨next, hnext, hnk.trans hk, hns.trans (if_pos rfl)⟩
    · next hne =>
      obtain ⟨caller, hcaller, hk, hs⟩ := hw.callers j c hfound
      obtain ⟨next, hnext, hnk, hns⟩ := hlock j caller hcaller
      exact ⟨next, hnext, hnk.trans hk, hns.trans ((if_neg hne).trans hs)⟩
  · intro j c hc
    have hfound := (hget j).symm.trans hc
    split at hfound
    · obtain rfl := Option.some.inj hfound
      exact hw.checked i call h
    · exact hw.checked j c hfound
  · intro j c hc hphase
    have hfound := (hget j).symm.trans hc
    split at hfound
    · obtain rfl := Option.some.inj hfound
      exact hmatched hphase
    · exact hw.matched j c hfound hphase
  · exact hw.history
  · intro j
    show w.log.filter _ = placementsOf j (w.become i call new).calls[j]?
    rw [hget, hw.placed j]
    split
    · next heq =>
      subst heq
      rw [h, placementsOf, placementsOf]
      dsimp only
      rw [hplaced]
      rfl
    · rfl
  · exact hw.raising

theorem Kept.enter (hw : Kept docs₀ w) {i : Nat} {call : Call} {caller : Caller JsString}
    (h : w.calls[i]? = some call) (hphase : call.phase = .waiting) (hcaller : w.lock.callers[i]? = some caller)
    (hopen : w.lock.Open caller) : Kept docs₀ { w.become i call .reading with lock := w.lock.enter i caller } := by
  obtain ⟨caller', hcaller', -, hstage⟩ := hw.callers i call h
  rw [hcaller] at hcaller'
  obtain rfl := Option.some.inj hcaller'
  have hwaits : caller.stage = .waiting := by rw [hstage, hphase]; rfl
  refine hw.restage h (hw.chain.enter hcaller hwaits hopen) (List.length_set ..) ?_ (by rw [hphase]; rfl)
    (fun e => by cases e)
  intro j other hother
  show ∃ next, (w.lock.callers.set i _)[j]? = some next ∧ _
  rw [getElem?_set_of hcaller]
  split
  · next heq =>
    subst heq
    rw [hcaller] at hother
    obtain rfl := Option.some.inj hother
    exact ⟨_, rfl, rfl, rfl⟩
  · exact ⟨other, hother, rfl, rfl⟩

theorem Kept.leave (hw : Kept docs₀ w) {i : Nat} {call : Call} {caller : Caller JsString} {outcome : Outcome}
    (h : w.calls[i]? = some call) (hphase : call.phase = .ended outcome) (hcaller : w.lock.callers[i]? = some caller) :
    Kept docs₀ { w.become i call (.settled outcome) with lock := w.lock.leave i caller } := by
  obtain ⟨caller', hcaller', -, hstage⟩ := hw.callers i call h
  rw [hcaller] at hcaller'
  obtain rfl := Option.some.inj hcaller'
  have hholds : caller.stage = .holding := by rw [hstage, hphase]; rfl
  refine hw.restage h (hw.chain.leave hcaller hholds) (List.length_set ..) ?_ (by rw [hphase]; rfl)
    (fun e => by cases e)
  intro j other hother
  show ∃ next, (w.lock.callers.set i _)[j]? = some next ∧ _
  rw [getElem?_set_of hcaller]
  split
  · next heq =>
    subst heq
    rw [hcaller] at hother
    obtain rfl := Option.some.inj hother
    exact ⟨_, rfl, rfl, rfl⟩
  · exact ⟨other, hother, rfl, rfl⟩

theorem afterRead_placed (expected : Nat) (answer : Except JsString (Option Json)) :
    (afterRead expected answer).placed = false ∧ (afterRead expected answer).stage = .holding := by
  unfold afterRead
  split
  · exact ⟨rfl, rfl⟩
  · split
    · exact ⟨rfl, rfl⟩
    · exact ⟨rfl, rfl⟩

theorem Kept.read (hw : Kept docs₀ w) {i : Nat} {call : Call} {answer : Except JsString (Option Json)}
    (h : w.calls[i]? = some call) (hphase : call.phase = .reading)
    (hread : Reads (w.docs call.root call.key) answer) :
    Kept docs₀ (w.become i call (afterRead call.expected answer)) := by
  obtain ⟨hplaced, hstage⟩ := afterRead_placed call.expected answer
  refine hw.restage h hw.chain rfl ?_ (by rw [hplaced, hphase]; rfl) ?_
  · intro j other hother
    refine ⟨other, hother, rfl, ?_⟩
    split
    · next heq =>
      subst heq
      obtain ⟨caller, hcaller, -, hs⟩ := hw.callers i call h
      rw [hother] at hcaller
      obtain rfl := Option.some.inj hcaller
      rw [hstage, hs, hphase]
      rfl
    · rfl
  · -- it goes on to write if what it has read is of the revision expected
    intro hwriting
    cases hread with
    | missing hnone =>
      unfold afterRead at hwriting
      dsimp only at hwriting
      split at hwriting
      · cases hwriting
      · next hsame => rw [hnone]; exact not_not.mp hsame
    | found hsome hobj hrevision =>
      unfold afterRead at hwriting
      dsimp only at hwriting
      split at hwriting
      · cases hwriting
      · next hsame => rw [hsome]; exact not_not.mp hsame
    | threw message => cases hwriting

/-! ### A write -/

theorem Writing.placed_iff (expected : Nat) (writing : Writing) :
    (afterWrite expected writing).placed = writing.places := by
  cases writing with
  | placed => rfl
  | «exists» message =>
    unfold afterWrite
    dsimp only
    split
    · rfl
    · rfl
  | failed message placed => cases placed <;> rfl

theorem Kept.write (hw : Kept docs₀ w) {i : Nat} {call : Call} (h : w.calls[i]? = some call)
    (hphase : call.phase = .writing) (writing : Writing) : Kept docs₀ (w.write i call writing) := by
  have hget : ∀ j : Nat, (w.write i call writing).calls[j]? =
      if i = j then some { call with phase := .ended (afterWrite call.expected writing) } else w.calls[j]? :=
    fun j => getElem?_set_of h j
  have hrevision := hw.matched i call h hphase
  constructor
  · exact hw.chain
  · show w.lock.callers.length = (w.calls.set i _).length
    rw [List.length_set, hw.sized]
  · intro j c hc
    have hfound := (hget j).symm.trans hc
    split at hfound
    · next heq =>
      subst heq
      obtain rfl := Option.some.inj hfound
      obtain ⟨caller, hcaller, hk, hs⟩ := hw.callers i call h
      refine ⟨caller, hcaller, hk, hs.trans ?_⟩
      rw [hphase]
      rfl
    · exact hw.callers j c hfound
  · intro j c hc
    have hfound := (hget j).symm.trans hc
    split at hfound
    · obtain rfl := Option.some.inj hfound
      exact hw.checked i call h
    · exact hw.checked j c hfound
  · intro j c hc hwriting
    have hfound := (hget j).symm.trans hc
    split at hfound
    · obtain rfl := Option.some.inj hfound
      cases hwriting
    · next hne =>
      have hsame := hw.matched j c hfound hwriting
      simp only [World.write]
      split
      · next hroot =>
        -- the other call has its turn too, so it is at another record
        have hkey : c.key ≠ call.key := by
          intro hkey
          refine hne (hw.exclusive h hfound hroot.1.symm hkey.symm ?_ ?_)
          · rw [hphase]
            rfl
          · rw [hwriting]
            rfl
        rw [Documents.write, if_neg hkey]
        exact hsame
      · exact hsame
  · simp only [World.write]
    split
    · next hplaces =>
      refine .snoc hw.history ?_ ?_
      · refine ⟨hrevision, ?_⟩
        show (if call.root = call.root ∧ writing.places = true then _ else _) = _
        rw [if_pos ⟨rfl, hplaces⟩]
        rfl
      · intro root hroot
        exact if_neg fun hand => hroot hand.1
    · next hnot =>
      have hdocs : (fun root => if root = call.root ∧ writing.places = true then
          (w.docs root).write call.key call.doc else w.docs root) = w.docs := by
        funext root
        exact if_neg fun hand => hnot hand.2
      rw [hdocs]
      exact hw.history
  · intro j
    have hplaced := hw.placed j
    show (w.write i call writing).log.filter _ = placementsOf j (w.write i call writing).calls[j]?
    rw [hget]
    split
    · next heq =>
      subst heq
      rw [h, placementsOf, hphase] at hplaced
      show (if writing.places then w.log ++ [call.placement i] else w.log).filter _ =
        if (afterWrite call.expected writing).placed then _ else _
      rw [Writing.placed_iff]
      split
      · rw [List.filter_append, hplaced]
        simp [Call.placement, Phase.placed]
      · rw [hplaced]
        rfl
    · next hne =>
      rw [← hplaced]
      simp only [World.write]
      split
      · rw [List.filter_append]
        simp [Call.placement, hne]
      · rfl
  · intro p hp
    simp only [World.write] at hp
    split at hp
    · rcases List.mem_append.mp hp with hp | hp
      · exact hw.raising p hp
      · rw [List.mem_singleton.mp hp]
        exact (hw.checked i call h).2
    · exact hw.raising p hp

theorem Kept.init (docs₀ : JsString → Documents) : Kept docs₀ (World.init docs₀) where
  chain := .init
  sized := rfl
  callers := fun i call h => by simp [World.init] at h
  checked := fun i call h => by simp [World.init] at h
  matched := fun i call h => by simp [World.init] at h
  history := .nil
  placed := fun i => by simp [World.init, placementsOf]
  raising := fun p h => by simp [World.init] at h

theorem Kept.step {printed : Json → Nat} {v : World} (hw : Kept docs₀ w) (hstep : Step printed w v) : Kept docs₀ v := by
  cases hstep with
  | replace h =>
    obtain ⟨expected, hkey, hdoc, rfl⟩ := replace_ok h
    exact hw.arrive hkey hdoc
  | enter h hphase hcaller hopen => exact hw.enter h hphase hcaller hopen
  | read h hphase hread => exact hw.read h hphase hread
  | write h hphase hwrite => exact hw.write h hphase _
  | leave h hphase hcaller => exact hw.leave h hphase hcaller

theorem Kept.run {printed : Json → Nat} {v : World} (hw : Kept docs₀ w) (hrun : Run printed w v) : Kept docs₀ v := by
  induction hrun with
  | refl => exact hw
  | tail _ hstep ih => exact ih.step hstep

end Files

end Sag
