import Sag.Adapters.Files

/-!
# Replacing a record is a compare-and-swap

What is known of the directories after any run of calls in one process (`replace_linearizable`). One
call at a time has its turn at a record, in the order of arrival, and passes it on however it ends.
So nothing comes between the read and the write of a call, and what is stored is what successive
compare-and-swaps have made of what was there before (`Swaps`), one for each call whose file was
put in place. As each raises the revision it expects, no two of them expect the same
(`Swaps.rising`).
-/

namespace Sag

open ChainLock Slots

namespace Files

variable {printed : Json → Nat} {docs₀ : JsString → Documents} {w : World}

/-! ## Successive swaps -/

/-- Whatever was put in place, the record has gone on from there. -/
theorem Swaps.overtaken {log : List Placement} {docs : JsString → Documents} (h : Swaps docs₀ log docs)
    (hraising : ∀ p ∈ log, revisionOf (some p.doc) = p.expected + 1) :
    ∀ p ∈ log, p.expected < revisionOf (docs p.root p.key) := by
  induction h with
  | nil =>
    intro p hp
    cases hp
  | @snoc log docs docs' p h hswap hothers ih =>
    have hown : revisionOf (some p.doc) = p.expected + 1 :=
      hraising p (List.mem_append_right _ (List.mem_singleton_self p))
    intro q hq
    rcases List.mem_append.mp hq with hq | hq
    · have hbelow := ih (fun x hx => hraising x (List.mem_append_left _ hx)) q hq
      by_cases hroot : q.root = p.root
      · rw [hroot] at hbelow
        rw [hroot, hswap.written, Documents.write]
        split
        · next hkey =>
          have hrevision := hswap.revision
          rw [hkey] at hbelow
          omega
        · exact hbelow
      · rw [hothers q.root hroot]
        exact hbelow
    · rw [List.mem_singleton.mp hq, hswap.written, Documents.write, if_pos rfl, hown]
      exact Nat.lt_succ_self _

/-- The revisions that the swaps of a record expect go up. -/
theorem Swaps.rising {log : List Placement} {docs : JsString → Documents} (h : Swaps docs₀ log docs)
    (hraising : ∀ p ∈ log, revisionOf (some p.doc) = p.expected + 1) :
    log.Pairwise fun p q => p.root = q.root → p.key = q.key → p.expected < q.expected := by
  induction h with
  | nil => exact List.Pairwise.nil
  | @snoc log docs docs' p h hswap hothers ih =>
    have hbefore : ∀ q ∈ log, revisionOf (some q.doc) = q.expected + 1 :=
      fun q hq => hraising q (List.mem_append_left _ hq)
    refine List.pairwise_append.mpr ⟨ih hbefore, List.pairwise_singleton _ _, fun q hq r hr hroot hkey => ?_⟩
    obtain rfl := List.mem_singleton.mp hr
    have hbelow := h.overtaken hbefore q hq
    rw [hroot, hkey, hswap.revision] at hbelow
    exact hbelow

/-- Two swaps of one record that expect the same are one. -/
theorem Swaps.unique {log : List Placement} {docs : JsString → Documents} (h : Swaps docs₀ log docs)
    (hraising : ∀ p ∈ log, revisionOf (some p.doc) = p.expected + 1) {p q : Placement} (hp : p ∈ log) (hq : q ∈ log)
    (hroot : p.root = q.root) (hkey : p.key = q.key) (hexpected : p.expected = q.expected) : p = q := by
  have hrising := List.pairwise_iff_getElem.mp (h.rising hraising)
  obtain ⟨i, hi, rfl⟩ := List.getElem_of_mem hp
  obtain ⟨j, hj, rfl⟩ := List.getElem_of_mem hq
  rcases Nat.lt_trichotomy i j with hlt | heq | hgt
  · have := hrising i j hi hj hlt hroot hkey
    omega
  · subst heq
    rfl
  · have := hrising j i hj hi hgt hroot.symm hkey.symm
    omega

/-! ## Any run -/

/-- What holds after any run of calls. -/
structure Linearizable (printed : Json → Nat) (docs₀ : JsString → Documents) (w : World) : Prop where
  /-- Two calls that have their turn at one record are one call. -/
  exclusive : ∀ (i j : Nat) (a b : Call), w.calls[i]? = some a → w.calls[j]? = some b → a.root = b.root →
    a.key = b.key → a.phase.stage = .holding → b.phase.stage = .holding → i = j
  /-- A call has had its turn only once the earlier calls at its record have settled. -/
  served : ∀ (i j : Nat) (a b : Call), w.calls[i]? = some a → w.calls[j]? = some b → a.root = b.root →
    a.key = b.key → j < i → a.phase ≠ .waiting → ∃ outcome, b.phase = .settled outcome
  /-- The first that has not settled gets its turn, -/
  admitted : ∀ (i : Nat) (a : Call), w.calls[i]? = some a → a.phase = .waiting →
    (∀ (j : Nat) (b : Call), j < i → w.calls[j]? = some b → a.root = b.root → a.key = b.key →
      ∃ outcome, b.phase = .settled outcome) →
    ∃ v, Step printed w v ∧ v.calls[i]? = some { a with phase := .reading }
  /-- and passes it on, also when it throws. -/
  released : ∀ (i : Nat) (a : Call) (outcome : Outcome), w.calls[i]? = some a → a.phase = .ended outcome →
    ∃ v, Step printed w v ∧ v.calls[i]? = some { a with phase := .settled outcome }
  /-- The map of the locks has the last call that has not settled, and nothing besides. -/
  cleaned : ∀ (id : JsString) (t : Nat), w.lock.tail id = some t ↔
    (∃ a, w.calls[t]? = some a ∧ lockId a.root a.key = id ∧ a.phase.stage ≠ .done) ∧
      ∀ (i : Nat) (b : Call), t < i → w.calls[i]? = some b → lockId b.root b.key = id → b.phase.stage = .done
  /-- What is stored is what one swap after the other has made of it, -/
  history : Swaps docs₀ w.log w.docs
  /-- one for each call whose file was put in place: none for a call that has answered `false`, or has
  thrown before. -/
  placed : ∀ i : Nat, w.log.filter (·.caller = i) = placementsOf i w.calls[i]?
  /-- Nothing else is ever written. -/
  untouched : ∀ v, Step printed w v → (v.docs = w.docs ∧ v.log = w.log) ∨
    ∃ (i : Nat) (a : Call), w.calls[i]? = some a ∧ a.phase = .writing ∧ v.log = w.log ++ [a.placement i]
  /-- Of two calls that expect the same revision of one record, only one answers `true`. -/
  unique : ∀ (i j : Nat) (a b : Call), w.calls[i]? = some a → w.calls[j]? = some b → a.root = b.root →
    a.key = b.key → a.expected = b.expected → a.phase = .settled (.returned true) →
    b.phase = .settled (.returned true) → i = j

/-- The place of a record in the map of the locks is its own. -/
theorem lockId_inj {root root' key key' : JsString} (h : lockId root key = lockId root' key')
    (hkey : key.length = 64) (hkey' : key'.length = 64) : root = root' ∧ key = key' := by
  obtain ⟨hroot, htail⟩ := List.append_inj' h (by rw [List.length_cons, List.length_cons, hkey, hkey'])
  exact ⟨hroot, (List.cons.inj htail).2⟩

theorem stage_done {p : Phase} (h : p.stage = .done) : ∃ outcome, p = .settled outcome := by
  cases p with
  | settled outcome => exact ⟨outcome, rfl⟩
  | _ => cases h

/-- A call is pending in the chain until it has settled. -/
theorem Kept.pending_iff (hw : Kept docs₀ w) {i : Nat} {id : JsString} :
    w.lock.Pending i id ↔ ∃ a, w.calls[i]? = some a ∧ lockId a.root a.key = id ∧ a.phase.stage ≠ .done := by
  constructor
  · intro ⟨caller, hcaller, hkey, hstage⟩
    have hlt := (List.getElem?_eq_some_iff.mp hcaller).1
    rw [hw.sized] at hlt
    have ha : w.calls[i]? = some w.calls[i] := List.getElem?_eq_getElem hlt
    obtain ⟨caller', hcaller', hk, hs⟩ := hw.callers i _ ha
    rw [hcaller] at hcaller'
    obtain rfl := Option.some.inj hcaller'
    exact ⟨_, ha, hk.symm.trans hkey, hs ▸ hstage⟩
  · intro ⟨a, ha, hid, hstage⟩
    obtain ⟨caller, hcaller, hk, hs⟩ := hw.callers i a ha
    exact ⟨caller, hcaller, hk.trans hid, hs ▸ hstage⟩

/-- `replace` is a linearizable compare-and-swap within one process. -/
theorem replace_linearizable (hrun : Run printed (World.init docs₀) w) : Linearizable printed docs₀ w := by
  have hw : Kept docs₀ w := (Kept.init docs₀).run hrun
  refine
    { exclusive := fun i j a b ha hb hroot hkey => hw.exclusive ha hb hroot hkey
      served := ?_
      admitted := ?_
      released := ?_
      cleaned := ?_
      history := hw.history
      placed := hw.placed
      untouched := ?_
      unique := ?_ }
  · intro i j a b ha hb hroot hkey hlt hturn
    obtain ⟨caller, hcaller, hk, hs⟩ := hw.callers i a ha
    have hstage : caller.stage ≠ .waiting := by
      rw [hs]
      cases hphase : a.phase with
      | waiting => exact absurd hphase hturn
      | _ => exact fun e => by cases e
    by_cases hdone : b.phase.stage = .done
    · exact stage_done hdone
    · exact absurd (hw.pending_iff.mpr ⟨b, hb, by rw [hk, hroot, hkey], hdone⟩)
        (hw.chain.turn hcaller hstage j hlt)
  · intro i a ha hwaiting hfirst
    obtain ⟨caller, hcaller, hk, hs⟩ := hw.callers i a ha
    have hopen : w.lock.Open caller := by
      refine hw.chain.onward hcaller fun j hj hpending => ?_
      obtain ⟨b, hb, hid, hstage⟩ := hw.pending_iff.mp hpending
      obtain ⟨hroot, hkey⟩ := lockId_inj (hid.trans hk) (hw.checked j b hb).1 (hw.checked i a ha).1
      obtain ⟨outcome, hsettled⟩ := hfirst j b hj hb hroot.symm hkey.symm
      rw [hsettled] at hstage
      exact hstage rfl
    refine ⟨_, .enter ha hwaiting hcaller hopen, ?_⟩
    exact (getElem?_set_of ha i).trans (if_pos rfl)
  · intro i a outcome ha hended
    obtain ⟨caller, hcaller, -, -⟩ := hw.callers i a ha
    exact ⟨_, .leave ha hended hcaller, (getElem?_set_of ha i).trans (if_pos rfl)⟩
  · intro id t
    constructor
    · intro ht
      refine ⟨hw.pending_iff.mp (hw.chain.pending id t ht), fun i b hlt hb hid => ?_⟩
      by_cases hdone : b.phase.stage = .done
      · exact hdone
      · obtain ⟨t', ht', hle⟩ := hw.chain.last id i (hw.pending_iff.mpr ⟨b, hb, hid, hdone⟩)
        rw [ht] at ht'
        obtain rfl := Option.some.inj ht'
        omega
    · intro ⟨hpending, hlast⟩
      obtain ⟨t', ht', hle⟩ := hw.chain.last id t (hw.pending_iff.mpr hpending)
      rcases Nat.lt_or_eq_of_le hle with hlt | heq
      · obtain ⟨b, hb, hid, hstage⟩ := hw.pending_iff.mp (hw.chain.pending id t' ht')
        exact absurd (hlast t' b hlt hb hid) hstage
      · rw [heq]
        exact ht'
  · intro v hstep
    cases hstep with
    | replace h =>
      obtain ⟨expected, _, _, rfl⟩ := replace_ok h
      exact .inl ⟨rfl, rfl⟩
    | enter => exact .inl ⟨rfl, rfl⟩
    | read => exact .inl ⟨rfl, rfl⟩
    | @write i call writing h hphase =>
      cases hplaces : writing.places with
      | false =>
        refine .inl ⟨?_, ?_⟩
        · funext root
          simp [World.write, hplaces]
        · simp [World.write, hplaces]
      | true => exact .inr ⟨i, call, h, hphase, by simp [World.write, hplaces]⟩
    | leave => exact .inl ⟨rfl, rfl⟩
  · intro i j a b ha hb hroot hkey hexpected haphase hbphase
    have hmem : ∀ {k : Nat} {c : Call}, w.calls[k]? = some c → c.phase = .settled (.returned true) →
        c.placement k ∈ w.log := by
      intro k c hc hphase
      have hplaced := hw.placed k
      rw [hc, placementsOf, hphase] at hplaced
      have hin : c.placement k ∈ w.log.filter (·.caller = k) := by
        rw [hplaced]
        exact List.mem_singleton_self _
      exact (List.mem_filter.mp hin).1
    exact congrArg Placement.caller
      (hw.history.unique hw.raising (hmem ha haphase) (hmem hb hbphase) hroot hkey hexpected)

/-! ## Two callers at once -/

namespace Sample

def root : JsString := js "/srv/identities"

def key : JsString := List.replicate 64 48

def created : Json := .obj [(js "revision", .ofNat 1)]

def small : Json → Nat := fun _ => 30

/-- A call that creates the record. -/
def creates : Call := ⟨root, key, 0, created, .waiting⟩

theorem creates_ok (w : World) : w.replace small root key (.ofNat 0) created =
    .ok { w with lock := w.lock.arrive (lockId root key), calls := w.calls ++ [creates] } := by
  have hkey : checkedKey key = .ok key := if_pos (by decide)
  have hexpected : checkedRevision (some (.ofNat 0)) (js "expected revision") 0 = .ok 0 := by
    simp only [checkedRevision, Option.bind_some, Json.safeNat?_ofNat]
    rfl
  have hrevision : checkedRevision (some (.ofNat 1)) (js "record revision") 1 = .ok 1 := by
    simp only [checkedRevision, Option.bind_some, Json.safeNat?_ofNat]
    rfl
  have hmember : Json.member [(js "revision", Json.ofNat 1)] (js "revision") = some (.ofNat 1) := rfl
  have hdoc : checkedDocument small created 0 = .ok () := by
    simp only [checkedDocument, created, Json.object?, hmember, hrevision]
    rfl
  unfold World.replace
  rw [hkey]
  dsimp only
  rw [hexpected]
  dsimp only
  rw [hdoc]
  rfl

/-- Both create the record, and it is the first that has. -/
theorem created_once : ∃ w, Run small (World.init fun _ _ => none) w ∧
    w.calls.map (·.phase) = [.settled (.returned true), .settled (.returned false)] ∧
    Linearizable small (fun _ _ => none) w := by
  have hcalls : Run small (World.init fun _ _ => none) _ :=
    ((Run.refl _).tail (.replace (creates_ok _))).tail (.replace (creates_ok _))
  have hfirst := (((hcalls.tail (@Step.enter _ _ 0 creates _ rfl rfl rfl (fun p hp => by cases hp))).tail
    (@Step.read _ _ 0 _ (.ok none) rfl rfl (.missing rfl))).tail
    (@Step.write _ _ 0 _ .placed rfl rfl fun _ => rfl)).tail (@Step.leave _ _ 0 _ _ _ rfl rfl rfl)
  have hrevision : checkedRevision (some (.ofNat 1)) (js "record revision") 1 = .ok 1 := by
    simp only [checkedRevision, Option.bind_some, Json.safeNat?_ofNat]
    rfl
  have hturn := hfirst.tail (@Step.enter _ _ 1 creates ⟨lockId root key, some 0, .waiting⟩ rfl rfl rfl
    (fun p hp before hbefore => by cases hp; cases hbefore; rfl))
  have hread := hturn.tail (@Step.read _ _ 1 _ (.ok (some created)) rfl rfl (.found rfl rfl hrevision))
  have hone : revisionOf (some created) = 1 := revisionOf_obj (n := 1) rfl
  have hrevisionOf : revisionOf (some created) ≠ 0 := by
    rw [hone]
    decide
  have hended : afterRead 0 (.ok (some created)) = .ended (.returned false) := by
    simp only [afterRead, if_pos hrevisionOf]
  have hlast := hread.tail (@Step.leave _ _ 1 _ _ (.returned false) rfl hended rfl)
  exact ⟨_, hlast, rfl, replace_linearizable hlast⟩

end Sample

end Files

end Sag
