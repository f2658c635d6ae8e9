import Sag.Lib.Slots

/-!
# A lock that is a chain of promises

A caller puts a promise of its own into a map, under its key, in place of the one it finds there. It
waits for the one it found, and resolves its own when it is done; if that is still the one in the
map, it takes it out.

`Chain` is the map and the callers, numbered in the order of their arrival, and `Step` is anything
that can happen to them next. A caller whose promise is not resolved yet is *pending*. The invariant
(`Kept`) is that whoever waits behind a pending caller waits for a pending promise, not before that
caller's, and that the map has the last pending caller of every key. From it: one holder for each key
(`Kept.exclusive`), which is the first that is pending (`Kept.first`), and the first that is pending can
always go on (`Kept.onward`).
-/

namespace ChainLock

open Slots

inductive Stage where
  | waiting
  | holding
  | done
  deriving DecidableEq

structure Caller (κ : Type) where
  key : κ
  /-- The caller whose promise it found in the map. -/
  previous : Option Nat
  stage : Stage

structure Chain (κ : Type) where
  callers : List (Caller κ)
  tail : κ → Option Nat

variable {κ : Type}

namespace Chain

def init : Chain κ := ⟨[], fun _ => none⟩

def arrive [DecidableEq κ] (c : Chain κ) (key : κ) : Chain κ where
  callers := c.callers ++ [⟨key, c.tail key, .waiting⟩]
  tail := fun k => if k = key then some c.callers.length else c.tail k

/-- The promise that the caller waits for has been resolved. -/
def Open (c : Chain κ) (caller : Caller κ) : Prop :=
  ∀ p, caller.previous = some p → ∀ before, c.callers[p]? = some before → before.stage = .done

def enter (c : Chain κ) (i : Nat) (caller : Caller κ) : Chain κ :=
  { c with callers := c.callers.set i { caller with stage := .holding } }

/-- The promise is resolved, and the map cleaned up. -/
def leave [DecidableEq κ] (c : Chain κ) (i : Nat) (caller : Caller κ) : Chain κ where
  callers := c.callers.set i { caller with stage := .done }
  tail := fun k => if k = caller.key ∧ c.tail caller.key = some i then none else c.tail k

def Pending (c : Chain κ) (i : Nat) (key : κ) : Prop :=
  ∃ caller, c.callers[i]? = some caller ∧ caller.key = key ∧ caller.stage ≠ .done

end Chain

inductive Step [DecidableEq κ] : Chain κ → Chain κ → Prop where
  | arrive (c : Chain κ) (key : κ) : Step c (c.arrive key)
  | enter {c : Chain κ} {i : Nat} {caller : Caller κ} (h : c.callers[i]? = some caller)
      (hstage : caller.stage = .waiting) (hopen : c.Open caller) : Step c (c.enter i caller)
  | leave {c : Chain κ} {i : Nat} {caller : Caller κ} (h : c.callers[i]? = some caller)
      (hstage : caller.stage = .holding) : Step c (c.leave i caller)

inductive Run [DecidableEq κ] : Chain κ → Chain κ → Prop where
  | refl (c : Chain κ) : Run c c
  | tail {a b c : Chain κ} (h : Run a b) (hstep : Step b c) : Run a c

/-! ## The invariant -/

structure Kept (c : Chain κ) : Prop where
  /-- A caller waits for an earlier one, of its own key. -/
  earlier : ∀ (i : Nat) (caller : Caller κ) (p : Nat), c.callers[i]? = some caller → caller.previous = some p →
    p < i ∧ ∃ before, c.callers[p]? = some before ∧ before.key = caller.key
  /-- Behind a pending caller one waits for a pending promise. -/
  covered : ∀ (i j : Nat) (caller : Caller κ), c.callers[i]? = some caller → caller.stage ≠ .done → j < i →
    c.Pending j caller.key → ∃ p, caller.previous = some p ∧ j ≤ p ∧ c.Pending p caller.key
  opened : ∀ (i : Nat) (caller : Caller κ), c.callers[i]? = some caller → caller.stage = .holding → c.Open caller
  /-- Callers of one key are done in the order of their arrival. -/
  ordered : ∀ (i : Nat) (caller : Caller κ), c.callers[i]? = some caller → caller.stage = .done →
    ∀ j < i, ¬ c.Pending j caller.key
  pending : ∀ key i, c.tail key = some i → c.Pending i key
  last : ∀ key i, c.Pending i key → ∃ t, c.tail key = some t ∧ i ≤ t

namespace Kept

variable {c : Chain κ} {i : Nat} {caller : Caller κ}

/-- A caller that may go on is the first that is pending. -/
theorem first (hc : Kept c) (h : c.callers[i]? = some caller) (hstage : caller.stage ≠ .done) (hopen : c.Open caller) :
    ∀ j < i, ¬ c.Pending j caller.key := by
  intro j hj hpending
  obtain ⟨p, hp, _, before, hbefore, _, hdone⟩ := hc.covered i j caller h hstage hj hpending
  exact hdone (hopen p hp before hbefore)

/-- Nobody is pending before a caller that has its turn, or has had it. -/
theorem turn (hc : Kept c) (h : c.callers[i]? = some caller) (hstage : caller.stage ≠ .waiting) :
    ∀ j < i, ¬ c.Pending j caller.key := by
  cases hs : caller.stage with
  | waiting => exact absurd hs hstage
  | holding => exact hc.first h (by rw [hs]; exact Stage.noConfusion) (hc.opened i caller h hs)
  | done => exact hc.ordered i caller h hs

/-- There is one holder for each key. -/
theorem exclusive (hc : Kept c) {j : Nat} {other : Caller κ} (h : c.callers[i]? = some caller)
    (h' : c.callers[j]? = some other) (hstage : caller.stage = .holding) (hstage' : other.stage = .holding)
    (hkey : caller.key = other.key) : i = j := by
  have hne : caller.stage ≠ .done := by rw [hstage]; decide
  have hne' : other.stage ≠ .done := by rw [hstage']; decide
  rcases Nat.lt_trichotomy i j with hlt | heq | hgt
  · exact absurd ⟨caller, h, hkey, hne⟩ (hc.first h' hne' (hc.opened j other h' hstage') i hlt)
  · exact heq
  · exact absurd ⟨other, h', hkey.symm, hne'⟩ (hc.first h hne (hc.opened i caller h hstage) j hgt)

/-- The first that is pending can go on. -/
theorem onward (hc : Kept c) (h : c.callers[i]? = some caller) (hfirst : ∀ j < i, ¬ c.Pending j caller.key) :
    c.Open caller := by
  intro p hp before hbefore
  obtain ⟨hlt, before', hbefore', hkey⟩ := hc.earlier i caller p h hp
  rw [hbefore] at hbefore'
  obtain rfl := Option.some.inj hbefore'
  by_cases hdone : before.stage = .done
  · exact hdone
  · exact absurd ⟨before, hbefore, hkey, hdone⟩ (hfirst p hlt)

end Kept

/-! ## What a step keeps -/

namespace Kept

variable {c : Chain κ} {i : Nat} {caller : Caller κ}

theorem init : Kept (Chain.init : Chain κ) where
  earlier := fun i caller p h => by simp [Chain.init] at h
  covered := fun i j caller h => by simp [Chain.init] at h
  opened := fun i caller h => by simp [Chain.init] at h
  ordered := fun i caller h => by simp [Chain.init] at h
  pending := fun key i h => by simp [Chain.init] at h
  last := fun key i h => by
    obtain ⟨caller, h, -⟩ := h
    simp [Chain.init] at h

theorem arrive [DecidableEq κ] (hc : Kept c) (key : κ) : Kept (c.arrive key) := by
  have hget : ∀ j : Nat, (c.arrive key).callers[j]? =
      if j = c.callers.length then some ⟨key, c.tail key, .waiting⟩ else c.callers[j]? :=
    fun j => getElem?_append_one j
  have hold : ∀ {j : Nat} {a : Caller κ}, c.callers[j]? = some a → (c.arrive key).callers[j]? = some a :=
    fun h => getElem?_append_of h
  have hpending : ∀ {j : Nat} {k : κ}, c.Pending j k → (c.arrive key).Pending j k :=
    fun ⟨a, h, hk, hs⟩ => ⟨a, hold h, hk, hs⟩
  -- a caller that is pending now is the one that arrived, or was pending
  have hback : ∀ {j : Nat} {k : κ}, (c.arrive key).Pending j k → (j = c.callers.length ∧ k = key) ∨ c.Pending j k := by
    rintro j k ⟨a, h, hk, hs⟩
    rw [hget] at h
    split at h
    · next heq =>
      obtain rfl := Option.some.inj h
      exact .inl ⟨heq, hk.symm⟩
    · exact .inr ⟨a, h, hk, hs⟩
  constructor
  · intro j a p h hp
    rw [hget] at h
    split at h
    · next heq =>
      obtain rfl := Option.some.inj h
      obtain ⟨before, hbefore, hkey, -⟩ := hc.pending key p hp
      have hlt := (List.getElem?_eq_some_iff.mp hbefore).1
      exact ⟨heq ▸ hlt, before, hold hbefore, hkey⟩
    · obtain ⟨hlt, before, hbefore, hkey⟩ := hc.earlier j a p h hp
      exact ⟨hlt, before, hold hbefore, hkey⟩
  · intro j k a h hs hk hpend
    rw [hget] at h
    split at h
    · next heq =>
      obtain rfl := Option.some.inj h
      rcases hback hpend with ⟨hnew, -⟩ | hwas
      · omega
      · obtain ⟨t, ht, hle⟩ := hc.last key k hwas
        exact ⟨t, ht, hle, hpending (hc.pending key t ht)⟩
    · have hlt := (List.getElem?_eq_some_iff.mp h).1
      rcases hback hpend with ⟨hnew, -⟩ | hwas
      · omega
      · obtain ⟨p, hp, hle, hpp⟩ := hc.covered j k a h hs hk hwas
        exact ⟨p, hp, hle, hpending hpp⟩
  · intro j a h hs p hp before hbefore
    rw [hget] at h
    split at h
    · obtain rfl := Option.some.inj h
      cases hs
    · obtain ⟨-, before', hbefore', -⟩ := hc.earlier j a p h hp
      have hsame := hold hbefore'
      rw [hbefore] at hsame
      exact hc.opened j a h hs p hp before (Option.some.inj hsame ▸ hbefore')
  · intro j a h hs k hk hpend
    rw [hget] at h
    split at h
    · obtain rfl := Option.some.inj h
      cases hs
    · have hlt := (List.getElem?_eq_some_iff.mp h).1
      rcases hback hpend with ⟨hnew, -⟩ | hwas
      · omega
      · exact hc.ordered j a h hs k hk hwas
  · intro k j h
    show (c.arrive key).Pending j k
    simp only [Chain.arrive] at h
    split at h
    · next heq =>
      obtain rfl := Option.some.inj h
      exact ⟨⟨key, c.tail key, .waiting⟩, by rw [hget, if_pos rfl], heq.symm, Stage.noConfusion⟩
    · exact hpending (hc.pending k j h)
  · intro k j h
    rcases hback h with ⟨rfl, rfl⟩ | hwas
    · exact ⟨_, if_pos rfl, Nat.le_refl _⟩
    · by_cases hk : k = key
      · obtain ⟨a, ha, -⟩ := hwas
        exact ⟨_, if_pos hk, Nat.le_of_lt (List.getElem?_eq_some_iff.mp ha).1⟩
      · obtain ⟨t, ht, hle⟩ := hc.last k j hwas
        exact ⟨t, (if_neg hk).trans ht, hle⟩

/-- Who is pending does not change when a caller goes on, -/
theorem pending_enter (h : c.callers[i]? = some caller) (hstage : caller.stage = .waiting) {j : Nat} {key : κ} :
    (c.enter i caller).Pending j key ↔ c.Pending j key := by
  have hne : caller.stage ≠ .done := by rw [hstage]; decide
  unfold Chain.Pending Chain.enter
  dsimp only
  rw [getElem?_set_of h]
  split
  · next heq =>
    subst heq
    constructor
    · rintro ⟨a, ha, hk, -⟩
      obtain rfl := Option.some.inj ha
      exact ⟨caller, h, hk, hne⟩
    · rintro ⟨a, ha, hk, -⟩
      rw [h] at ha
      obtain rfl := Option.some.inj ha
      exact ⟨_, rfl, hk, Stage.noConfusion⟩
  · rfl

/-- and nor does what is resolved. -/
theorem open_enter (h : c.callers[i]? = some caller) (hstage : caller.stage = .waiting) {a : Caller κ} :
    (c.enter i caller).Open a ↔ c.Open a := by
  constructor
  · intro hopen p hp before hbefore
    by_cases heq : i = p
    · subst heq
      have hget : (c.enter i caller).callers[i]? = some { caller with stage := .holding } :=
        (getElem?_set_of h i).trans (if_pos rfl)
      cases hopen i hp _ hget
    · exact hopen p hp before ((getElem?_set_of h p).trans ((if_neg heq).trans hbefore))
  · intro hopen p hp before hbefore
    have hget := (getElem?_set_of h p).symm.trans hbefore
    split at hget
    · next heq =>
      subst heq
      have := hopen i hp caller h
      rw [hstage] at this
      cases this
    · exact hopen p hp before hget

theorem enter (hc : Kept c) (h : c.callers[i]? = some caller) (hstage : caller.stage = .waiting)
    (hopen : c.Open caller) : Kept (c.enter i caller) := by
  have hne : caller.stage ≠ .done := by rw [hstage]; decide
  -- a caller now is the caller it was, but for its stage
  have hback : ∀ {j : Nat} {a : Caller κ}, (c.enter i caller).callers[j]? = some a →
      ∃ b, c.callers[j]? = some b ∧ b.key = a.key ∧ b.previous = a.previous ∧ (a.stage ≠ .done → b.stage ≠ .done) ∧
        (a.stage = .holding → c.Open b) := by
    intro j a ha
    have hget := (getElem?_set_of h j).symm.trans ha
    split at hget
    · next heq =>
      subst heq
      obtain rfl := Option.some.inj hget
      exact ⟨caller, h, rfl, rfl, fun _ => hne, fun _ => hopen⟩
    · exact ⟨a, hget, rfl, rfl, id, hc.opened j a hget⟩
  constructor
  · intro j a p ha hp
    obtain ⟨b, hb, hkey, hprev, -, -⟩ := hback ha
    obtain ⟨hlt, before, hbefore, hk⟩ := hc.earlier j b p hb (hprev.trans hp)
    refine ⟨hlt, ?_⟩
    by_cases heq : i = p
    · subst heq
      rw [h] at hbefore
      obtain rfl := Option.some.inj hbefore
      exact ⟨_, (getElem?_set_of h i).trans (if_pos rfl), hk.trans hkey⟩
    · exact ⟨before, (getElem?_set_of h p).trans ((if_neg heq).trans hbefore), hk.trans hkey⟩
  · intro j k a ha hs hk hpend
    obtain ⟨b, hb, hkey, hprev, hdone, -⟩ := hback ha
    rw [pending_enter h hstage, ← hkey] at hpend
    obtain ⟨p, hp, hle, hpp⟩ := hc.covered j k b hb (hdone hs) hk hpend
    exact ⟨p, hprev.symm.trans hp, hle, (pending_enter h hstage).mpr (hkey ▸ hpp)⟩
  · intro j a ha hs
    obtain ⟨b, hb, -, hprev, -, hopen'⟩ := hback ha
    refine (open_enter h hstage).mpr fun p hp => ?_
    exact hopen' hs p (hprev.trans hp)
  · intro j a ha hs k hk hpend
    have hget := (getElem?_set_of h j).symm.trans ha
    split at hget
    · obtain rfl := Option.some.inj hget
      cases hs
    · exact hc.ordered j a hget hs k hk ((pending_enter h hstage).mp hpend)
  · intro key j ht
    exact (pending_enter h hstage).mpr (hc.pending key j ht)
  · intro key j hpend
    exact hc.last key j ((pending_enter h hstage).mp hpend)

/-- Of those that are pending, one has left. -/
theorem pending_leave [DecidableEq κ] (h : c.callers[i]? = some caller) {j : Nat} {key : κ} :
    (c.leave i caller).Pending j key ↔ j ≠ i ∧ c.Pending j key := by
  unfold Chain.Pending Chain.leave
  dsimp only
  rw [getElem?_set_of h]
  split
  · next heq =>
    constructor
    · rintro ⟨a, ha, -, hs⟩
      obtain rfl := Option.some.inj ha
      exact absurd rfl hs
    · intro hj
      exact absurd heq.symm hj.1
  · next hne => exact ⟨fun hj => ⟨Ne.symm hne, hj⟩, fun hj => hj.2⟩

theorem leave [DecidableEq κ] (hc : Kept c) (h : c.callers[i]? = some caller) (hstage : caller.stage = .holding) :
    Kept (c.leave i caller) := by
  have hne : caller.stage ≠ .done := by rw [hstage]; decide
  have hfirst := hc.first h hne (hc.opened i caller h hstage)
  have hback : ∀ {j : Nat} {a : Caller κ}, (c.leave i caller).callers[j]? = some a → ∃ b, c.callers[j]? = some b ∧ b.key = a.key ∧
      b.previous = a.previous ∧ (a.stage ≠ .done → b = a) := by
    intro j a ha
    have hget := (getElem?_set_of h j).symm.trans ha
    split at hget
    · next heq =>
      subst heq
      obtain rfl := Option.some.inj hget
      exact ⟨caller, h, rfl, rfl, fun hs => absurd rfl hs⟩
    · exact ⟨a, hget, rfl, rfl, fun _ => rfl⟩
  constructor
  · intro j a p ha hp
    obtain ⟨b, hb, hkey, hprev, -⟩ := hback ha
    obtain ⟨hlt, before, hbefore, hk⟩ := hc.earlier j b p hb (hprev.trans hp)
    refine ⟨hlt, ?_⟩
    by_cases heq : i = p
    · subst heq
      rw [h] at hbefore
      obtain rfl := Option.some.inj hbefore
      exact ⟨_, (getElem?_set_of h i).trans (if_pos rfl), hk.trans hkey⟩
    · exact ⟨before, (getElem?_set_of h p).trans ((if_neg heq).trans hbefore), hk.trans hkey⟩
  · intro j k a ha hs hk hpend
    obtain ⟨b, hb, -, -, hsame⟩ := hback ha
    obtain rfl := hsame hs
    obtain ⟨hki, hwas⟩ := (pending_leave h).mp hpend
    obtain ⟨p, hp, hle, hpp⟩ := hc.covered j k b hb hs hk hwas
    refine ⟨p, hp, hle, (pending_leave h).mpr ⟨?_, hpp⟩⟩
    -- the one that leaves had nobody pending before it
    rintro rfl
    obtain ⟨before, hbefore, hkey, -⟩ := hpp
    rw [h] at hbefore
    obtain rfl := Option.some.inj hbefore
    exact hfirst k (by omega) (hkey ▸ hwas)
  · intro j a ha hs p hp before hbefore
    obtain ⟨b, hb, -, -, hsame⟩ := hback ha
    obtain rfl := hsame (by rw [hs]; decide)
    have hget := (getElem?_set_of h p).symm.trans hbefore
    split at hget
    · obtain rfl := Option.some.inj hget
      rfl
    · exact hc.opened j b hb hs p hp before hget
  · intro j a ha hs k hk hpend
    have hget := (getElem?_set_of h j).symm.trans ha
    obtain ⟨_, hwas⟩ := (pending_leave h).mp hpend
    split at hget
    · next heq =>
      subst heq
      obtain rfl := Option.some.inj hget
      exact hfirst k hk hwas
    · exact hc.ordered j a hget hs k hk hwas
  · intro key j ht
    simp only [Chain.leave] at ht
    split at ht
    · cases ht
    · next hkept =>
      refine (pending_leave h).mpr ⟨?_, hc.pending key j ht⟩
      rintro rfl
      obtain ⟨a, ha, hkey, -⟩ := hc.pending key j ht
      rw [h] at ha
      obtain rfl := Option.some.inj ha
      exact hkept ⟨hkey.symm, hkey ▸ ht⟩
  · intro key j hpend
    obtain ⟨hji, hwas⟩ := (pending_leave h).mp hpend
    obtain ⟨t, ht, hle⟩ := hc.last key j hwas
    refine ⟨t, (if_neg ?_).trans ht, hle⟩
    rintro ⟨rfl, htail⟩
    rw [ht] at htail
    obtain rfl := Option.some.inj htail
    exact hfirst j (by omega) hwas

theorem step [DecidableEq κ] {d : Chain κ} (hc : Kept c) (hstep : Step c d) : Kept d := by
  cases hstep with
  | arrive key => exact hc.arrive key
  | enter h hstage hopen => exact hc.enter h hstage hopen
  | leave h hstage => exact hc.leave h hstage

theorem run [DecidableEq κ] {d : Chain κ} (hc : Kept c) (hrun : Run c d) : Kept d := by
  induction hrun with
  | refl => exact hc
  | tail _ hstep ih => exact ih.step hstep

end Kept

end ChainLock
