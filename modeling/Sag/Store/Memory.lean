import Sag.Effects
import Sag.Lib.InsertionMap

/-!
# The in-memory state store

`createMemoryStore` of `store/index.js`: two maps, one of claims and one of
counters, each capped at `maxEntries`. Its methods run to completion, so each is
a function of the instant and the store.

Three facts make it a security control, and they are what the rest of the
development uses:

* a claim is found until its expiry, whatever else happens (`apply_keeps_claim`),
  so a claim answers `true` once in its life;
* a claim that was never made is never found (`apply_claims_origin`);
* a counter that protects an account is never evicted and never restarts before
  its expiry (`apply_keeps_counter`): a full store throws instead.
-/

namespace Sag

structure Counter where
  expiresAt : Nat
  count : Nat
  failClosed : Bool
  deriving DecidableEq

structure MemoryStore where
  claims : InsertionMap JsString Nat
  counters : InsertionMap JsString Counter

namespace MemoryStore

def empty : MemoryStore := ⟨.empty, .empty⟩

/-- `Math.max(1, ttlSeconds)`. -/
def lifetime (ttlSeconds : Int) : Nat := (max 1 ttlSeconds).toNat

def fullMessage (maxEntries : Nat) (what : String) : JsError :=
  .error (js "the in-memory state store is full (" ++ decimal maxEntries ++ js what ++
    js "). Raise STATE_STORE_MAX_ENTRIES, or use a store that is not in-process.")

/-- The claims, swept of what has expired when there are too many. -/
def sweptClaims (maxEntries now : Nat) (claims : InsertionMap JsString Nat) :
    InsertionMap JsString Nat :=
  if maxEntries ≤ claims.size then claims.filter (now ≤ ·.2) else claims

def claim (maxEntries now : Nat) (id : JsString) (ttlSeconds : Int) (s : MemoryStore) :
    Except JsError Bool × MemoryStore :=
  if (s.claims.get? id).any (now ≤ ·) then (.ok false, s)
  else
    let claims := sweptClaims maxEntries now s.claims
    if maxEntries ≤ claims.size then
      (.error (fullMessage maxEntries " live records"), { s with claims })
    else (.ok true, { s with claims := claims.insert id (now + lifetime ttlSeconds) })

def has (now : Nat) (id : JsString) (s : MemoryStore) : Except JsError Bool × MemoryStore :=
  match s.claims.get? id with
  | none => (.ok false, s)
  | some expiry =>
    if expiry < now then (.ok false, { s with claims := s.claims.filter (·.1 ≠ id) })
    else (.ok true, s)

/-- The loop that makes room among the counters: the oldest unprotected ones go
first, at most `drop` of them, and none once there is room. -/
def evict (maxEntries : Nat) : Nat → Nat → List (JsString × Counter) → List (JsString × Counter)
  | _, _, [] => []
  | size, drop, e :: rest =>
    if size < maxEntries then e :: rest
    else if e.2.failClosed then e :: evict maxEntries size drop rest
    else if drop ≤ 1 then rest
    else evict maxEntries (size - 1) (drop - 1) rest

theorem evict_sublist (maxEntries : Nat) (size drop : Nat) (es : List (JsString × Counter)) :
    (evict maxEntries size drop es).Sublist es := by
  induction es generalizing size drop with
  | nil => exact List.Sublist.slnil
  | cons e rest ih =>
    unfold evict
    split
    · exact List.Sublist.refl _
    · split
      · exact (ih size drop).cons_cons e
      · split
        · exact List.sublist_cons_self e rest
        · exact (ih (size - 1) (drop - 1)).cons e

/-- Protected counters are never evicted. -/
theorem mem_evict {maxEntries size drop : Nat} {es : List (JsString × Counter)}
    {e : JsString × Counter} (he : e ∈ es) (hp : e.2.failClosed = true) :
    e ∈ evict maxEntries size drop es := by
  induction es generalizing size drop with
  | nil => cases he
  | cons x rest ih =>
    unfold evict
    split
    · exact he
    · split
      · rcases List.mem_cons.mp he with rfl | he
        · exact List.mem_cons_self
        · exact List.mem_cons_of_mem _ (ih he)
      · next hx =>
        have hrest : e ∈ rest := by
          rcases List.mem_cons.mp he with rfl | he
          · exact absurd hp hx
          · exact he
        split
        · exact hrest
        · exact ih hrest

/-- Sweep the expired counters, then evict. -/
def makeRoom (maxEntries now : Nat) (counters : InsertionMap JsString Counter) :
    InsertionMap JsString Counter :=
  let swept := counters.filter (now ≤ ·.2.expiresAt)
  { entries := evict maxEntries swept.size (max 1 ((maxEntries + 9) / 10)) swept.entries
    nodup := swept.nodup.sublist ((evict_sublist _ _ _ _).map _) }

/-- The counters, with room made when there are too many. -/
def roomyCounters (maxEntries now : Nat) (counters : InsertionMap JsString Counter) :
    InsertionMap JsString Counter :=
  if maxEntries ≤ counters.size then makeRoom maxEntries now counters else counters

def increment (maxEntries now : Nat) (key : JsString) (ttlSeconds : Int) (failClosed : Bool)
    (s : MemoryStore) : Except JsError Nat × MemoryStore :=
  match (s.counters.get? key).filter (now ≤ ·.expiresAt) with
  | some c =>
    let c := { c with failClosed := c.failClosed || failClosed, count := c.count + 1 }
    (.ok c.count, { s with counters := s.counters.insert key c })
  | none =>
    let counters := roomyCounters maxEntries now s.counters
    if maxEntries ≤ counters.size then
      (.error (fullMessage maxEntries " protected counters"), { s with counters })
    else
      (.ok 1, { s with counters := counters.insert key ⟨now + lifetime ttlSeconds, 1, failClosed⟩ })

/-- The store as one function of the operation. -/
def apply (maxEntries now : Nat) (s : MemoryStore) : (op : StoreOp) → op.Ans × MemoryStore
  | .claim id ttl => s.claim maxEntries now id ttl
  | .has id => s.has now id
  | .increment key ttl failClosed => s.increment maxEntries now key ttl failClosed

/-! ## Claims -/

variable {maxEntries now : Nat} {s : MemoryStore} {id : JsString} {e : Nat}

theorem sweptClaims_keeps (h : s.claims.get? id = some e) (he : now ≤ e) :
    (sweptClaims maxEntries now s.claims).get? id = some e := by
  unfold sweptClaims
  split
  · exact InsertionMap.get?_filter_of h (by simpa using he)
  · exact h

theorem sweptClaims_origin (h : (sweptClaims maxEntries now s.claims).get? id = some e) :
    s.claims.get? id = some e := by
  unfold sweptClaims at h
  split at h
  · exact InsertionMap.get?_of_filter h
  · exact h

theorem claim_keeps {id' : JsString} {ttl : Int} (h : s.claims.get? id = some e) (he : now ≤ e) :
    (s.claim maxEntries now id' ttl).2.claims.get? id = some e := by
  unfold claim
  split
  · exact h
  · next hfree =>
    have hne : id ≠ id' := by
      rintro rfl
      simp [h, he] at hfree
    dsimp only
    split
    · exact sweptClaims_keeps h he
    · exact (InsertionMap.get?_insert_of_ne hne).trans (sweptClaims_keeps h he)

/-- A claim is kept until its expiry by every operation. -/
theorem apply_keeps_claim (op : StoreOp) (h : s.claims.get? id = some e) (he : now ≤ e) :
    (s.apply maxEntries now op).2.claims.get? id = some e := by
  cases op with
  | claim id' ttl => exact claim_keeps h he
  | has id' =>
    simp only [apply, has]
    split
    · exact h
    · next expiry hget =>
      split
      · next hexp =>
        have hne : id ≠ id' := by
          rintro rfl
          rw [h, Option.some.injEq] at hget
          omega
        exact InsertionMap.get?_filter_of h (by simpa using hne)
      · exact h
  | increment key ttl failClosed =>
    simp only [apply, increment]
    split
    · exact h
    · split <;> exact h

/-- While it is kept, a claim refuses to be made again. -/
theorem claim_of_live {ttl : Int} (h : s.claims.get? id = some e) (he : now ≤ e) :
    (s.claim maxEntries now id ttl).1 = .ok false := by
  simp [claim, h, he]

/-- While it is kept, a claim is found. -/
theorem has_of_live (h : s.claims.get? id = some e) (he : now ≤ e) : (s.has now id).1 = .ok true := by
  have hlt : ¬ e < now := by omega
  simp [has, h, hlt]

/-- A claim that answers `true` is found from then on, and was free before. -/
theorem claim_true {ttl : Int} (h : (s.claim maxEntries now id ttl).1 = .ok true) :
    (s.claim maxEntries now id ttl).2.claims.get? id = some (now + lifetime ttl) ∧
      ∀ e, s.claims.get? id = some e → e < now := by
  unfold claim at h ⊢
  split at h
  · cases h
  · next hfree =>
    rw [if_neg hfree]
    dsimp only at h ⊢
    split at h
    · cases h
    · next hroom =>
      rw [if_neg hroom]
      refine ⟨InsertionMap.get?_insert_self _ _ _, fun e he => ?_⟩
      simpa [he] using hfree

/-- A claim that was neither there nor made now is not there afterwards. -/
theorem apply_claims_origin (op : StoreOp)
    (h : (s.apply maxEntries now op).2.claims.get? id = some e) :
    s.claims.get? id = some e ∨
      ∃ ttl, op = .claim id ttl ∧ (s.claim maxEntries now id ttl).1 = .ok true ∧
        e = now + lifetime ttl := by
  cases op with
  | claim id' ttl =>
    simp only [apply] at h
    unfold claim at h
    split at h
    · exact Or.inl h
    · next hfree =>
      dsimp only at h
      split at h
      · exact Or.inl (sweptClaims_origin h)
      · next hsize =>
        by_cases hid : id = id'
        · subst hid
          rw [InsertionMap.get?_insert_self, Option.some.injEq] at h
          refine Or.inr ⟨ttl, rfl, ?_, h.symm⟩
          unfold claim
          rw [if_neg hfree]
          exact congrArg Prod.fst (if_neg hsize)
        · rw [InsertionMap.get?_insert_of_ne hid] at h
          exact Or.inl (sweptClaims_origin h)
  | has id' =>
    simp only [apply, has] at h
    split at h
    · exact Or.inl h
    · split at h
      · exact Or.inl (InsertionMap.get?_of_filter h)
      · exact Or.inl h
  | increment key ttl failClosed =>
    simp only [apply, increment] at h
    split at h
    · exact Or.inl h
    · split at h <;> exact Or.inl h

/-- A claim nobody holds succeeds, unless the store is full. -/
theorem claim_of_free {ttl : Int} (h : s.claims.get? id = none) :
    (s.claim maxEntries now id ttl).1 = .ok true ∨
      (s.claim maxEntries now id ttl).1 = .error (fullMessage maxEntries " live records") := by
  simp only [claim, h, Option.any_none, Bool.false_eq_true, if_false]
  split
  · exact Or.inr rfl
  · exact Or.inl rfl

/-- A claim is refused only while it is kept. -/
theorem claim_false {ttl : Int} (h : (s.claim maxEntries now id ttl).1 = .ok false) :
    ∃ e, s.claims.get? id = some e ∧ now ≤ e := by
  unfold claim at h
  split at h
  · next hlive => simpa [Option.any_eq_true] using hlive
  · dsimp only at h
    split at h <;> cases h

/-- A claim fails only in a store that is full. -/
theorem claim_error {ttl : Int} {err : JsError} (h : (s.claim maxEntries now id ttl).1 = .error err) :
    err = fullMessage maxEntries " live records" := by
  unfold claim at h
  split at h
  · cases h
  · dsimp only at h
    split at h
    · exact (Except.error.inj h).symm
    · cases h

/-! ## Counters -/

variable {key : JsString} {c : Counter}

/-- How often `op` increments `key`. -/
def hits (key : JsString) : StoreOp → Nat
  | .increment key' _ _ => if key' = key then 1 else 0
  | _ => 0

/-- Making room costs no live protected counter. -/
theorem roomyCounters_keeps (h : s.counters.get? key = some c) (hc : now ≤ c.expiresAt)
    (hp : c.failClosed = true) : (roomyCounters maxEntries now s.counters).get? key = some c := by
  unfold roomyCounters
  split
  · have hswept : (s.counters.filter (now ≤ ·.2.expiresAt)).get? key = some c :=
      InsertionMap.get?_filter_of h (by simpa using hc)
    exact InsertionMap.get?_eq_some.mpr (mem_evict (InsertionMap.get?_eq_some.mp hswept) hp)
  · exact h

/-- A live counter answers one more than it held, and keeps its expiry. -/
theorem increment_of_live {ttl : Int} {failClosed : Bool} (h : s.counters.get? key = some c)
    (hc : now ≤ c.expiresAt) :
    (s.increment maxEntries now key ttl failClosed).1 = .ok (c.count + 1) ∧
      (s.increment maxEntries now key ttl failClosed).2.counters.get? key =
        some ⟨c.expiresAt, c.count + 1, c.failClosed || failClosed⟩ := by
  have hlive : (s.counters.get? key).filter (now ≤ ·.expiresAt) = some c := by
    rw [h, Option.filter_some, if_pos (by simpa using hc)]
  unfold increment
  rw [hlive]
  exact ⟨rfl, InsertionMap.get?_insert_self _ _ _⟩

/-- An increment leaves another protected counter alone. -/
theorem increment_of_ne {key' : JsString} {ttl : Int} {failClosed : Bool}
    (h : s.counters.get? key = some c) (hc : now ≤ c.expiresAt) (hp : c.failClosed = true)
    (hne : key ≠ key') :
    (s.increment maxEntries now key' ttl failClosed).2.counters.get? key = some c := by
  simp only [increment]
  split
  · exact (InsertionMap.get?_insert_of_ne hne).trans h
  · split
    · exact roomyCounters_keeps h hc hp
    · exact (InsertionMap.get?_insert_of_ne hne).trans (roomyCounters_keeps h hc hp)

/-- A protected counter outlives every operation before its expiry, and counts
the increments of its key. -/
theorem apply_keeps_counter (op : StoreOp) (h : s.counters.get? key = some c)
    (hc : now ≤ c.expiresAt) (hp : c.failClosed = true) :
    (s.apply maxEntries now op).2.counters.get? key =
      some { c with count := c.count + hits key op } := by
  cases op with
  | claim id ttl =>
    simp only [apply, claim, hits]
    split
    · exact h
    · split <;> exact h
  | has id =>
    simp only [apply, has, hits]
    split
    · exact h
    · split <;> exact h
  | increment key' ttl failClosed =>
    simp only [apply, hits]
    by_cases hk : key = key'
    · subst hk
      rw [if_pos rfl, (increment_of_live h hc).2, hp, Bool.true_or]
    · rw [if_neg (Ne.symm hk), increment_of_ne h hc hp hk]
      rfl

end MemoryStore

end Sag
