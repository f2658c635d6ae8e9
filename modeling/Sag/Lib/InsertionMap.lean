/-!
# Maps in insertion order

A finite map that remembers the order in which its keys were first inserted:
writing to a key that is present keeps its place, and a new key goes to the
end. Iteration is over `entries`, oldest first.

Keys occur once by construction, so membership of an entry and `get?` are the
same fact (`get?_eq_some`), and every other lemma goes through it.
-/

/-- A map whose entries stand in insertion order. -/
structure InsertionMap (κ ν : Type) where
  entries : List (κ × ν)
  nodup : (entries.map (·.1)).Nodup

namespace InsertionMap

variable {κ ν : Type}

def empty : InsertionMap κ ν := ⟨[], List.nodup_nil⟩

def size (m : InsertionMap κ ν) : Nat := m.entries.length

/-- Keep the entries that satisfy `p`. -/
def filter (m : InsertionMap κ ν) (p : κ × ν → Bool) : InsertionMap κ ν where
  entries := m.entries.filter p
  nodup := m.nodup.sublist (List.filter_sublist.map _)

theorem size_filter_le (m : InsertionMap κ ν) (p : κ × ν → Bool) : (m.filter p).size ≤ m.size :=
  List.length_filter_le _ _

/-- Two entries of one key are one entry. -/
theorem entry_unique {m : InsertionMap κ ν} {e e' : κ × ν} (h : e ∈ m.entries) (h' : e' ∈ m.entries)
    (hk : e.1 = e'.1) : e = e' := by
  have key : ∀ {l : List (κ × ν)}, (l.map (·.1)).Nodup → e ∈ l → e' ∈ l → e = e' := by
    intro l hl he he'
    induction l with
    | nil => cases he
    | cons x l ih =>
      rw [List.map_cons, List.nodup_cons] at hl
      rcases List.mem_cons.mp he with hx | hl₁ <;> rcases List.mem_cons.mp he' with hx' | hl₂
      · rw [hx, hx']
      · exact absurd (List.mem_map.mpr ⟨e', hl₂, by rw [← hk, hx]⟩) hl.1
      · exact absurd (List.mem_map.mpr ⟨e, hl₁, by rw [hk, hx']⟩) hl.1
      · exact ih hl.2 hl₁ hl₂
  exact key m.nodup h h'

variable [DecidableEq κ]

def get? (m : InsertionMap κ ν) (k : κ) : Option ν := (m.entries.find? (·.1 = k)).map (·.2)

/-- The entries with the value of `k`, where it is present, replaced by `v`. -/
def overwrite (k : κ) (v : ν) (entries : List (κ × ν)) : List (κ × ν) :=
  entries.map fun e => if e.1 = k then (k, v) else e

theorem overwrite_keys (k : κ) (v : ν) (entries : List (κ × ν)) :
    (overwrite k v entries).map (·.1) = entries.map (·.1) := by
  rw [overwrite, List.map_map]
  refine List.map_congr_left fun e _ => ?_
  by_cases h : e.1 = k <;> simp [h]

/-- Write `v` under `k`. -/
def insert (m : InsertionMap κ ν) (k : κ) (v : ν) : InsertionMap κ ν :=
  if h : k ∈ m.entries.map (·.1) then ⟨overwrite k v m.entries, (overwrite_keys k v _).symm ▸ m.nodup⟩
  else
    ⟨m.entries ++ [(k, v)], by
      rw [List.map_append, List.nodup_append]
      refine ⟨m.nodup, by simp, fun a ha b hb hab => ?_⟩
      have hbk : b = k := by simpa using hb
      rw [hab, hbk] at ha
      exact h ha⟩

theorem get?_eq_some {m : InsertionMap κ ν} {k : κ} {v : ν} :
    m.get? k = some v ↔ (k, v) ∈ m.entries := by
  constructor
  · intro h
    obtain ⟨e, he, rfl⟩ := Option.map_eq_some_iff.mp h
    have hk : e.1 = k := by simpa using List.find?_some he
    exact hk ▸ List.mem_of_find?_eq_some he
  · intro h
    cases hf : m.entries.find? (·.1 = k) with
    | none => simpa using List.find?_eq_none.mp hf _ h
    | some e =>
      have hk : e.1 = k := by simpa using List.find?_some hf
      have he : e = (k, v) := entry_unique (List.mem_of_find?_eq_some hf) h hk
      rw [get?, hf, he]
      rfl

/-- Writing to a new key makes room for one more. -/
theorem size_insert_le (m : InsertionMap κ ν) (k : κ) (v : ν) : (m.insert k v).size ≤ m.size + 1 := by
  unfold insert size
  split
  · simp [overwrite]
  · simp

/-- Writing to a key that is present needs no room. -/
theorem size_insert_of_get? {m : InsertionMap κ ν} {k : κ} {old : ν} (h : m.get? k = some old) (v : ν) :
    (m.insert k v).size = m.size := by
  have hmem : k ∈ m.entries.map (·.1) := List.mem_map.mpr ⟨_, get?_eq_some.mp h, rfl⟩
  simp [insert, size, hmem, overwrite]

/-- The key is absent when no entry carries it. -/
theorem get?_eq_none {m : InsertionMap κ ν} {k : κ} :
    m.get? k = none ↔ ∀ v, (k, v) ∉ m.entries := by
  rw [Option.eq_none_iff_forall_ne_some]
  exact forall_congr' fun v => not_congr get?_eq_some

@[simp] theorem get?_empty (k : κ) : (empty : InsertionMap κ ν).get? k = none := rfl

/-- Only `k` changes. -/
theorem mem_insert {m : InsertionMap κ ν} {k : κ} {v : ν} {e : κ × ν} :
    e ∈ (m.insert k v).entries ↔ e = (k, v) ∨ (e.1 ≠ k ∧ e ∈ m.entries) := by
  unfold insert
  split
  · next h =>
    obtain ⟨e₀, he₀, hk₀⟩ := List.mem_map.mp h
    simp only [overwrite, List.mem_map]
    constructor
    · rintro ⟨e', he', rfl⟩
      by_cases hk : e'.1 = k
      · exact Or.inl (by rw [if_pos hk])
      · rw [if_neg hk]
        exact Or.inr ⟨hk, he'⟩
    · rintro (rfl | ⟨hk, he⟩)
      · exact ⟨e₀, he₀, by rw [if_pos hk₀]⟩
      · exact ⟨e, he, by rw [if_neg hk]⟩
  · next h =>
    rw [List.mem_append, List.mem_singleton]
    constructor
    · rintro (he | rfl)
      · exact Or.inr ⟨fun hk => h (List.mem_map.mpr ⟨e, he, hk⟩), he⟩
      · exact Or.inl rfl
    · rintro (rfl | ⟨-, he⟩)
      · exact Or.inr rfl
      · exact Or.inl he

theorem get?_insert (m : InsertionMap κ ν) (k : κ) (v : ν) (k' : κ) :
    (m.insert k v).get? k' = if k' = k then some v else m.get? k' := by
  refine Option.ext fun x => ?_
  rw [get?_eq_some, mem_insert]
  split
  · next h => simp [h, eq_comm]
  · next h => simp [h, get?_eq_some]

@[simp] theorem get?_insert_self (m : InsertionMap κ ν) (k : κ) (v : ν) :
    (m.insert k v).get? k = some v := by
  rw [get?_insert, if_pos rfl]

theorem get?_insert_of_ne {m : InsertionMap κ ν} {k k' : κ} {v : ν} (h : k' ≠ k) :
    (m.insert k v).get? k' = m.get? k' := by
  rw [get?_insert, if_neg h]

theorem get?_filter (m : InsertionMap κ ν) (p : κ × ν → Bool) (k : κ) :
    (m.filter p).get? k = (m.get? k).filter fun v => p (k, v) := by
  refine Option.ext fun x => ?_
  rw [get?_eq_some, Option.filter_eq_some_iff, get?_eq_some]
  exact List.mem_filter

/-- A filter keeps what satisfies it. -/
theorem get?_filter_of {m : InsertionMap κ ν} {p : κ × ν → Bool} {k : κ} {v : ν}
    (h : m.get? k = some v) (hp : p (k, v) = true) : (m.filter p).get? k = some v := by
  rw [get?_filter, h, Option.filter_some, if_pos hp]

/-- What a filtered map holds, the map held. -/
theorem get?_of_filter {m : InsertionMap κ ν} {p : κ × ν → Bool} {k : κ} {v : ν}
    (h : (m.filter p).get? k = some v) : m.get? k = some v := by
  rw [get?_filter, Option.filter_eq_some_iff] at h
  exact h.1

/-- Remove `k`. -/
def delete (m : InsertionMap κ ν) (k : κ) : InsertionMap κ ν := m.filter (·.1 ≠ k)

theorem get?_delete (m : InsertionMap κ ν) (k k' : κ) :
    (m.delete k).get? k' = if k' = k then none else m.get? k' := by
  rw [delete, get?_filter]
  split
  · next h =>
    cases m.get? k' with
    | none => rfl
    | some v => simp [h]
  · next h =>
    cases m.get? k' with
    | none => rfl
    | some v => simp [h]

end InsertionMap
