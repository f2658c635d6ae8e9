/-!
# A list of numbered slots

Things that arrive get the next number and keep it: the list grows at its end, and what is under a
number is replaced in place.
-/

namespace Slots

variable {α : Type}

/-- What is found once the slot of `a` holds `b`. -/
theorem getElem?_set_of {l : List α} {i : Nat} {a b : α} (h : l[i]? = some a) (j : Nat) :
    (l.set i b)[j]? = if i = j then some b else l[j]? := by
  have hlt := (List.getElem?_eq_some_iff.mp h).1
  rw [List.getElem?_set]
  split
  · next heq => rfl
  · rfl

/-- What is found once `a` has arrived. -/
theorem getElem?_append_one {l : List α} {a : α} (j : Nat) :
    (l ++ [a])[j]? = if j = l.length then some a else l[j]? := by
  rw [List.getElem?_append]
  split
  · next hlt => rw [if_neg (by omega)]
  · next hge =>
    split
    · next heq => rw [heq, Nat.sub_self]; rfl
    · next hne =>
      have hout : [a].length ≤ j - l.length := by
        rw [List.length_singleton]
        omega
      rw [List.getElem?_eq_none hout, List.getElem?_eq_none (by omega)]

/-- Nothing that was there is lost. -/
theorem getElem?_append_of {l : List α} {a b : α} {j : Nat} (h : l[j]? = some b) : (l ++ [a])[j]? = some b := by
  have hlt := (List.getElem?_eq_some_iff.mp h).1
  rw [getElem?_append_one, if_neg (Nat.ne_of_lt hlt), h]

/-- How many there are of a kind, once the slot of `a` holds `b`, -/
theorem countP_set_of {p : α → Bool} {l : List α} {i : Nat} {a b : α} (h : l[i]? = some a) :
    ((l.set i b).countP p : Int) = l.countP p - (if p a then 1 else 0) + (if p b then 1 else 0) := by
  obtain ⟨hi, rfl⟩ := List.getElem?_eq_some_iff.mp h
  rw [List.countP_set hi]
  by_cases hp : p l[i] = true
  · have hpos : 0 < l.countP p := List.countP_pos_iff.mpr ⟨_, List.getElem_mem hi, hp⟩
    rw [if_pos hp]
    split <;> omega
  · rw [if_neg hp]
    split <;> omega

/-- and once `a` has arrived. -/
theorem countP_append_one {p : α → Bool} {l : List α} {a : α} :
    ((l ++ [a]).countP p : Int) = l.countP p + (if p a then 1 else 0) := by
  rw [List.countP_append, List.countP_singleton]
  split <;> omega

end Slots
