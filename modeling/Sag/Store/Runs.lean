import Sag.Lib.System
import Sag.Store.Memory

/-!
# The memory store over a run

What the single operations of the store come to over any number of them, at
nondecreasing times. A claim that has been won is kept until its expiry, so it is
won once if nobody comes later than that (`wins_once`); and whatever is claimed
was won by somebody (`won_of_claimed`).
-/

namespace Sag

open Resumable

/-- The in-memory state store; nothing else changes it. -/
def memoryEnv (maxEntries : Nat) : Environment effects MemoryStore := fun t s o a s' =>
  match o, a with
  | .store op, a => s.apply maxEntries t op = (a, s')
  | _, _ => s' = s

variable {maxEntries : Nat} {id : JsString} {E : Nat}

/-- A claim won at `t`. -/
def won (id : JsString) (t : Nat) (ttl : Int) : Event effects :=
  ⟨t, .store (.claim id ttl), (.ok true : Except JsError Bool)⟩

def Wins (id : JsString) (e : Event effects) : Prop := ∃ t ttl, e = won id t ttl

theorem memoryEnv_claim {t : Nat} {ttl : Int} {r : Except JsError Bool} {s s' : MemoryStore}
    (h : memoryEnv maxEntries t s (.store (.claim id ttl)) r s') :
    (s.claim maxEntries t id ttl).1 = r ∧ (s.claim maxEntries t id ttl).2 = s' := by
  have heq : s.claim maxEntries t id ttl = (r, s') := h
  rw [heq]
  exact ⟨rfl, rfl⟩

/-- One event keeps a claim that has not expired. -/
theorem memoryEnv_keeps_claim {e : Event effects} {s s' : MemoryStore}
    (h : memoryEnv maxEntries e.time s e.op e.ans s') (hget : s.claims.get? id = some E) (ht : e.time ≤ E) :
    s'.claims.get? id = some E := by
  obtain ⟨t, o, a⟩ := e
  cases o with
  | store op =>
    have heq : s.apply maxEntries t op = (a, s') := h
    have hkeep : (s.apply maxEntries t op).2.claims.get? id = some E := MemoryStore.apply_keeps_claim op hget ht
    rwa [heq] at hkeep
  | _ =>
    have heq : s' = s := h
    rw [heq]
    exact hget

/-- Any number of events keep it, as long as it has not expired. -/
theorem replays_keep_claim {s s' : MemoryStore} {c : Nat} {es : List (Event effects)}
    (h : Replays (memoryEnv maxEntries) s c es s') (hget : s.claims.get? id = some E)
    (ht : ∀ e ∈ es, e.time ≤ E) : s'.claims.get? id = some E := by
  have hinv := h.invariant (I := fun _ s => s.claims.get? id = some E)
    (fun e he _ _ _ _ hget henv => memoryEnv_keeps_claim henv hget (ht e he)) hget
  obtain ⟨_, hget', -, -⟩ := hinv
  exact hget'

/-- Where every winner of the kind `P` comes before the expiry of every earlier one,
there is one winner of that kind. -/
theorem wins_once (id : JsString) {s s' : MemoryStore} {c : Nat} {es : List (Event effects)}
    (h : Replays (memoryEnv maxEntries) s c es s') {P : Event effects → Prop} (hP : ∀ e, P e → Wins id e)
    (hcover : ∀ t ttl t' ttl', won id t ttl ∈ es → won id t' ttl' ∈ es → P (won id t ttl) →
      P (won id t' ttl') → t ≤ t' → t' ≤ t + MemoryStore.lifetime ttl) :
    es.Pairwise fun e e' => ¬ (P e ∧ P e') := by
  refine h.pairwise fun e he mid e' he' s₀ s₁ s₂ s₃ hfirst hmid hbefore hle hsecond => ?_
  rintro ⟨hp, hp'⟩
  obtain ⟨t, ttl, rfl⟩ := hP e hp
  obtain ⟨t', ttl', rfl⟩ := hP e' hp'
  have hwin := memoryEnv_claim hfirst
  have hlive := (MemoryStore.claim_true hwin.1).1
  rw [hwin.2] at hlive
  have hexp := hcover t ttl t' ttl' he he' hp hp' hle
  have hlive' := replays_keep_claim hmid hlive fun x hx => Nat.le_trans (hbefore x hx).2 hexp
  have hrefused : (s₂.claim maxEntries t' id ttl').1 = .ok false := MemoryStore.claim_of_live hlive' hexp
  have hboth := (memoryEnv_claim hsecond).1.symm.trans hrefused
  cases hboth

/-- What is claimed in a store that began empty, somebody has won. -/
theorem won_of_claimed {s' : MemoryStore} {c : Nat} {es : List (Event effects)}
    (h : Replays (memoryEnv maxEntries) .empty c es s') (hget : s'.claims.get? id = some E) :
    ∃ t ttl, won id t ttl ∈ es ∧ E = t + MemoryStore.lifetime ttl := by
  have hinv := h.invariant
    (I := fun _ s => ∀ E, s.claims.get? id = some E →
      ∃ t ttl, won id t ttl ∈ es ∧ E = t + MemoryStore.lifetime ttl) ?_ (by rintro E ⟨⟩)
  · obtain ⟨_, horigin, -, -⟩ := hinv
    exact horigin E hget
  rintro ⟨t, o, a⟩ he _ s s' _ horigin henv E hget
  cases o with
  | store op =>
    have heq : s.apply maxEntries t op = (a, s') := henv
    have hget' : (s.apply maxEntries t op).2.claims.get? id = some E := by rw [heq]; exact hget
    rcases MemoryStore.apply_claims_origin op hget' with hold | ⟨ttl, rfl, hwin, hE⟩
    · exact horigin E hold
    · have ha : a = .ok true := (memoryEnv_claim henv).1.symm.trans hwin
      subst ha
      exact ⟨t, ttl, he, hE⟩
  | _ =>
    have heq : s' = s := henv
    rw [heq] at hget
    exact horigin E hget

end Sag
