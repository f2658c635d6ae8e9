import Mathlib.Logic.Basic
import Sag.Lib.InsertionMap

/-!
# Bounded caches whose entries lapse

A cache of at most `limit` entries, each of which is good until an instant of its own. Entries stand
in the order their keys were first written. The bound is part of the type, so a cache that has grown
past it cannot be built.

An entry is only ever removed or replaced as a whole: what stands in a cache was written there
(`get?_put`, `get?_renew`, `get?_of_sweep`, `get?_of_forget`). `liveAt` is what a reader may use of it.

`Within` counts what has been written behind an entry. A cache that is written at the end gives up an
entry that has not lapsed only once `limit` others have been written behind it (`Within.put`,
`Within.renew`).
-/

/-- A value, and the instant from which it is good no longer. -/
structure Dated (ν : Type) where
  value : ν
  expiresAt : Nat

namespace InsertionMap

variable {κ ν : Type}

/-- Without the entry that was written first. -/
def dropOldest (m : InsertionMap κ ν) : InsertionMap κ ν where
  entries := m.entries.tail
  nodup := m.nodup.sublist ((List.tail_sublist _).map _)

theorem size_dropOldest (m : InsertionMap κ ν) : m.dropOldest.size = m.size - 1 := List.length_tail

theorem mem_of_dropOldest {m : InsertionMap κ ν} {e : κ × ν} (h : e ∈ m.dropOldest.entries) : e ∈ m.entries :=
  List.mem_of_mem_tail h

/-- The entry of `k` is there, and at most `n` stand behind it. -/
def Within (m : InsertionMap κ ν) (k : κ) (v : ν) (n : Nat) : Prop :=
  ∃ older newer, m.entries = older ++ (k, v) :: newer ∧ newer.length ≤ n

section
variable {m : InsertionMap κ ν} {k : κ} {v : ν} {n : Nat}

theorem Within.filter (h : m.Within k v n) {p : κ × ν → Bool} (hp : p (k, v) = true) : (m.filter p).Within k v n := by
  obtain ⟨older, newer, hentries, hlen⟩ := h
  refine ⟨older.filter p, newer.filter p, ?_, Nat.le_trans (List.length_filter_le _ _) hlen⟩
  show m.entries.filter p = _
  rw [hentries, List.filter_append, List.filter_cons_of_pos hp]

/-- Only an entry with all others behind it is the oldest. -/
theorem Within.dropOldest (h : m.Within k v n) (hsize : n + 1 < m.size) : m.dropOldest.Within k v n := by
  obtain ⟨older, newer, hentries, hlen⟩ := h
  cases older with
  | nil =>
    have hall : m.size = newer.length + 1 := by rw [size, hentries]; rfl
    omega
  | cons e older =>
    refine ⟨older, newer, ?_, hlen⟩
    show m.entries.tail = _
    rw [hentries]
    rfl

variable [DecidableEq κ]

theorem Within.get? (h : m.Within k v n) : m.get? k = some v := by
  obtain ⟨older, newer, hentries, -⟩ := h
  exact get?_eq_some.mpr (hentries ▸ List.mem_append_right _ List.mem_cons_self)

/-- A key that is new goes to the end. -/
theorem within_insert_self (h : m.get? k = none) : (m.insert k v).Within k v 0 := by
  have hnew : k ∉ m.entries.map (·.1) := by
    intro hmem
    obtain ⟨e, he, rfl⟩ := List.mem_map.mp hmem
    exact get?_eq_none.mp h e.2 he
  refine ⟨m.entries, [], ?_, Nat.le_refl 0⟩
  unfold insert
  rw [dif_neg hnew]

/-- Another key goes in behind it, or changes where it stands. -/
theorem Within.insert (h : m.Within k v n) {k' : κ} (hk : k ≠ k') (v' : ν) : (m.insert k' v').Within k v (n + 1) := by
  obtain ⟨older, newer, hentries, hlen⟩ := h
  unfold InsertionMap.insert
  split
  · refine ⟨overwrite k' v' older, overwrite k' v' newer, ?_, ?_⟩
    · show overwrite k' v' m.entries = _
      rw [hentries]
      unfold overwrite
      rw [List.map_append, List.map_cons, if_neg hk]
    · unfold overwrite
      rw [List.length_map]
      omega
  · refine ⟨older, newer ++ [(k', v')], ?_, ?_⟩
    · show m.entries ++ [(k', v')] = _
      rw [hentries, List.append_assoc, List.cons_append]
    · rw [List.length_append]
      exact Nat.succ_le_succ hlen

end

end InsertionMap

/-- What a reader may use, at `now`, of what a cache has. -/
def liveAt {ν : Type} (now : Nat) (cached : Option (Dated ν)) : Option ν :=
  (cached.filter (now < ·.expiresAt)).map (·.value)

theorem liveAt_eq_some {ν : Type} {now : Nat} {cached : Option (Dated ν)} {v : ν} :
    liveAt now cached = some v ↔ ∃ e, cached = some e ∧ now < e.expiresAt ∧ e.value = v := by
  unfold liveAt
  rw [Option.map_eq_some_iff]
  refine exists_congr fun e => ?_
  rw [Option.filter_eq_some_iff, decide_eq_true_iff, and_assoc]

structure ExpiringCache (κ ν : Type) (limit : Nat) where
  entries : InsertionMap κ (Dated ν)
  bounded : entries.size ≤ limit

namespace ExpiringCache

variable {κ ν : Type} {limit : Nat}

def empty : ExpiringCache κ ν limit := ⟨.empty, Nat.zero_le _⟩

/-- Remove what has lapsed by `now`. -/
def sweep (cache : ExpiringCache κ ν limit) (now : Nat) : ExpiringCache κ ν limit where
  entries := cache.entries.filter fun e => now < e.2.expiresAt
  bounded := Nat.le_trans (InsertionMap.size_filter_le _ _) cache.bounded

/-- A full cache without its oldest entry, and any other as it is. -/
def makeRoom (limit : Nat) (entries : InsertionMap κ (Dated ν)) : InsertionMap κ (Dated ν) :=
  if limit ≤ entries.size then entries.dropOldest else entries

theorem size_makeRoom_lt [Fact (0 < limit)] {entries : InsertionMap κ (Dated ν)} (h : entries.size ≤ limit) :
    (makeRoom limit entries).size < limit := by
  have hpos : 0 < limit := Fact.out
  unfold makeRoom
  split
  · rw [InsertionMap.size_dropOldest]
    omega
  · omega

theorem mem_of_makeRoom {entries : InsertionMap κ (Dated ν)} {e : κ × Dated ν}
    (h : e ∈ (makeRoom limit entries).entries) : e ∈ entries.entries := by
  unfold makeRoom at h
  split at h
  · exact InsertionMap.mem_of_dropOldest h
  · exact h

/-- Without what has lapsed by `now`, or without the oldest entry where nothing has. -/
def evict (now : Nat) (entries : InsertionMap κ (Dated ν)) : InsertionMap κ (Dated ν) :=
  let live := entries.filter fun e => now < e.2.expiresAt
  if live.size < entries.size then live else entries.dropOldest

/-- A full cache with something evicted, and any other as it is. -/
def evictFull (limit now : Nat) (entries : InsertionMap κ (Dated ν)) : InsertionMap κ (Dated ν) :=
  if limit ≤ entries.size then evict now entries else entries

theorem size_evictFull_lt [Fact (0 < limit)] {now : Nat} {entries : InsertionMap κ (Dated ν)}
    (h : entries.size ≤ limit) : (evictFull limit now entries).size < limit := by
  have hpos : 0 < limit := Fact.out
  unfold evictFull evict
  dsimp only
  split
  · split
    · omega
    · rw [InsertionMap.size_dropOldest]
      omega
  · omega

theorem mem_of_evictFull {now : Nat} {entries : InsertionMap κ (Dated ν)} {e : κ × Dated ν}
    (h : e ∈ (evictFull limit now entries).entries) : e ∈ entries.entries := by
  unfold evictFull evict at h
  dsimp only at h
  split at h
  · split at h
    · exact (List.mem_filter.mp h).1
    · exact InsertionMap.mem_of_dropOldest h
  · exact h

variable [DecidableEq κ]

def get? (cache : ExpiringCache κ ν limit) (k : κ) : Option (Dated ν) := cache.entries.get? k

/-- Remove the entry of `k`. -/
def forget (cache : ExpiringCache κ ν limit) (k : κ) : ExpiringCache κ ν limit where
  entries := cache.entries.delete k
  bounded := Nat.le_trans (InsertionMap.size_filter_le _ _) cache.bounded

/-- Write an entry, at the cost of the oldest one where the cache is full. -/
def put [Fact (0 < limit)] (cache : ExpiringCache κ ν limit) (k : κ) (e : Dated ν) : ExpiringCache κ ν limit where
  entries := (makeRoom limit cache.entries).insert k e
  bounded := Nat.le_trans (InsertionMap.size_insert_le _ _ _) (size_makeRoom_lt cache.bounded)

/-- Write an entry at the end, at the cost of what has lapsed where the cache is full, or else of the oldest one. -/
def renew [Fact (0 < limit)] (cache : ExpiringCache κ ν limit) (now : Nat) (k : κ) (e : Dated ν) :
    ExpiringCache κ ν limit where
  entries := (evictFull limit now (cache.forget k).entries).insert k e
  bounded := Nat.le_trans (InsertionMap.size_insert_le _ _ _) (size_evictFull_lt (cache.forget k).bounded)

theorem get?_empty (k : κ) : (empty : ExpiringCache κ ν limit).get? k = none := rfl

theorem get?_of_sweep {cache : ExpiringCache κ ν limit} {now : Nat} {k : κ} {e : Dated ν}
    (h : (cache.sweep now).get? k = some e) : cache.get? k = some e :=
  InsertionMap.get?_of_filter h

theorem get?_of_forget {cache : ExpiringCache κ ν limit} {k k' : κ} {e : Dated ν}
    (h : (cache.forget k).get? k' = some e) : cache.get? k' = some e :=
  InsertionMap.get?_of_filter h

/-- Reading back what was written. -/
theorem get?_put_self [Fact (0 < limit)] (cache : ExpiringCache κ ν limit) (k : κ) (e : Dated ν) :
    (cache.put k e).get? k = some e :=
  InsertionMap.get?_insert_self _ _ _

/-- What stands in the cache after a write has been written now or stood there before. -/
theorem get?_put [Fact (0 < limit)] {cache : ExpiringCache κ ν limit} {k k' : κ} {e e' : Dated ν}
    (h : (cache.put k e).get? k' = some e') : (k' = k ∧ e' = e) ∨ cache.get? k' = some e' := by
  have hmem : (k', e') ∈ ((makeRoom limit cache.entries).insert k e).entries := InsertionMap.get?_eq_some.mp h
  rcases InsertionMap.mem_insert.mp hmem with heq | ⟨-, hold⟩
  · exact Or.inl (Prod.mk.inj heq)
  · exact Or.inr (InsertionMap.get?_eq_some.mpr (mem_of_makeRoom hold))

theorem get?_renew [Fact (0 < limit)] {cache : ExpiringCache κ ν limit} {now : Nat} {k k' : κ} {e e' : Dated ν}
    (h : (cache.renew now k e).get? k' = some e') : (k' = k ∧ e' = e) ∨ cache.get? k' = some e' := by
  have hmem : (k', e') ∈ ((evictFull limit now (cache.forget k).entries).insert k e).entries :=
    InsertionMap.get?_eq_some.mp h
  rcases InsertionMap.mem_insert.mp hmem with heq | ⟨-, hold⟩
  · exact Or.inl (Prod.mk.inj heq)
  · have hkept : (cache.forget k).get? k' = some e' := InsertionMap.get?_eq_some.mpr (mem_of_evictFull hold)
    exact Or.inr (get?_of_forget hkept)

/-! ## How long an entry stays -/

/-- The entry is in the cache, and at most `n` have been written behind it. -/
def Within (cache : ExpiringCache κ ν limit) (k : κ) (e : Dated ν) (n : Nat) : Prop := cache.entries.Within k e n

section
variable {cache : ExpiringCache κ ν limit} {k k' : κ} {e e' : Dated ν} {n now : Nat}

theorem Within.get? (h : cache.Within k e n) : cache.get? k = some e := InsertionMap.Within.get? h

omit [DecidableEq κ] in
theorem Within.sweep (h : cache.Within k e n) (hlive : now < e.expiresAt) : (cache.sweep now).Within k e n :=
  InsertionMap.Within.filter h (decide_eq_true hlive)

theorem Within.forget (h : cache.Within k e n) (hk : k ≠ k') : (cache.forget k').Within k e n :=
  InsertionMap.Within.filter h (decide_eq_true hk)

theorem get?_forget_self (cache : ExpiringCache κ ν limit) (k : κ) : (cache.forget k).get? k = none := by
  show (cache.entries.delete k).get? k = none
  rw [InsertionMap.get?_delete, if_pos rfl]

variable [Fact (0 < limit)]

/-- What is not there is written at the end. -/
theorem within_put_self (h : cache.get? k = none) : (cache.put k e).Within k e 0 := by
  refine InsertionMap.within_insert_self (InsertionMap.get?_eq_none.mpr fun v hv => ?_)
  exact InsertionMap.get?_eq_none.mp h v (mem_of_makeRoom hv)

theorem Within.put (h : cache.Within k e n) (hk : k ≠ k') (hn : n + 1 < limit) :
    (cache.put k' e').Within k e (n + 1) := by
  refine InsertionMap.Within.insert ?_ hk e'
  unfold makeRoom
  split
  · next hfull => exact InsertionMap.Within.dropOldest h (by omega)
  · exact h

theorem within_renew_self : (cache.renew now k e).Within k e 0 := by
  refine InsertionMap.within_insert_self (InsertionMap.get?_eq_none.mpr fun v hv => ?_)
  exact InsertionMap.get?_eq_none.mp (get?_forget_self cache k) v (mem_of_evictFull hv)

theorem Within.renew (h : cache.Within k e n) (hk : k ≠ k') (hn : n + 1 < limit) (hlive : now < e.expiresAt) :
    (cache.renew now k' e').Within k e (n + 1) := by
  have hkept : (cache.forget k').Within k e n := h.forget hk
  refine InsertionMap.Within.insert ?_ hk e'
  unfold evictFull evict
  dsimp only
  split
  · next hfull =>
    split
    · exact InsertionMap.Within.filter hkept (decide_eq_true hlive)
    · exact InsertionMap.Within.dropOldest hkept (by omega)
  · exact hkept

end

end ExpiringCache
