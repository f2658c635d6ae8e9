import Sag.Store.Pressure

/-!
# Counting in a window

A protected counter that lasts until `E` counts every increment until `E`: the answers
rise (`counts_rise`), so at most `m` of them are at most `m` (`counts_within`). All that
is asked is that no increment begins a window which is over before `E`.
-/

namespace Sag

open Resumable

variable {maxEntries : Nat} {key : JsString} {E : Nat}

/-- If the event increments `key`, it protects it, and a window that it begins is not over
by `E`. -/
def LastsUntil (key : JsString) (E : Nat) (e : Event effects) : Prop :=
  ∀ ttl failClosed, e.op = .store (.increment key ttl failClosed) →
    failClosed = true ∧ E ≤ e.time + MemoryStore.lifetime ttl

/-- The answer to an increment of `key` by `E`. -/
def countOf (key : JsString) (E : Nat) : Event effects → Option Nat
  | ⟨t, .store (.increment key' _ _), .ok n⟩ => if key' = key ∧ t ≤ E then some n else none
  | _ => none

/-- Whatever counter `key` has, it is protected and lasts until `E`. -/
def Lasting (key : JsString) (E : Nat) (s : MemoryStore) : Prop :=
  ∀ c, s.counters.get? key = some c → c.failClosed = true ∧ E ≤ c.expiresAt

/-- The counter of `key` has come to `n`. -/
def CountedTo (key : JsString) (E n : Nat) (s : MemoryStore) : Prop :=
  ∃ c, s.counters.get? key = some c ∧ c.failClosed = true ∧ E ≤ c.expiresAt ∧ n ≤ c.count

theorem memoryEnv_increment {t : Nat} {ttl : Int} {failClosed : Bool} {r : Except JsError Nat}
    {s s' : MemoryStore} (h : memoryEnv maxEntries t s (.store (.increment key ttl failClosed)) r s') :
    s.increment maxEntries t key ttl failClosed = (r, s') := h

theorem countOf_eq_some {e : Event effects} {n : Nat} (h : countOf key E e = some n) :
    ∃ t ttl failClosed, e = ⟨t, .store (.increment key ttl failClosed), (.ok n : Except JsError Nat)⟩ ∧ t ≤ E := by
  unfold countOf at h
  split at h
  · next t key' ttl failClosed n' =>
    split at h
    · next hkey =>
      obtain ⟨rfl, ht⟩ := hkey
      obtain rfl := Option.some.inj h
      exact ⟨t, ttl, failClosed, rfl, ht⟩
    · cases h
  · cases h

/-- An increment counts in a window that lasts. -/
theorem countedTo_of_increment {s s' : MemoryStore} (hs : Lasting key E s) {t : Nat} {ttl : Int} {n : Nat}
    (hE : E ≤ t + MemoryStore.lifetime ttl) (h : s.increment maxEntries t key ttl true = (.ok n, s')) :
    CountedTo key E n s' ∧ 1 ≤ n := by
  rcases MemoryStore.increment_cases maxEntries t key ttl true s with
    ⟨c, hget, -, heq⟩ | ⟨-, heq⟩ | ⟨-, heq⟩
  · obtain ⟨hanswer, rfl⟩ := Prod.mk.inj (heq.symm.trans h)
    obtain rfl := Except.ok.inj hanswer
    exact ⟨⟨_, InsertionMap.get?_insert_self _ _ _, Bool.or_true _, (hs c hget).2, Nat.le_refl _⟩,
      Nat.le_add_left 1 _⟩
  · obtain ⟨hanswer, rfl⟩ := Prod.mk.inj (heq.symm.trans h)
    obtain rfl := Except.ok.inj hanswer
    exact ⟨⟨_, InsertionMap.get?_insert_self _ _ _, rfl, hE, Nat.le_refl _⟩, Nat.le_refl _⟩
  · obtain ⟨hanswer, -⟩ := Prod.mk.inj (heq.symm.trans h)
    cases hanswer

/-- No counter is given a window that is over by `E`. -/
theorem Lasting.event {e : Event effects} {s s' : MemoryStore} (hs : Lasting key E s) (he : LastsUntil key E e)
    (henv : memoryEnv maxEntries e.time s e.op e.ans s') : Lasting key E s' := by
  obtain ⟨t, o, a⟩ := e
  cases o with
  | store op =>
    have heq : s.apply maxEntries t op = (a, s') := henv
    cases op with
    | claim id ttl =>
      have hcounters : (s.claim maxEntries t id ttl).2.counters = s.counters := by
        simp only [MemoryStore.claim]
        split
        · rfl
        · split <;> rfl
      have hs' : (s.claim maxEntries t id ttl).2 = s' := congrArg Prod.snd heq
      intro c hget
      rw [← hs', hcounters] at hget
      exact hs c hget
    | has id =>
      have hcounters : (s.has t id).2.counters = s.counters := by
        simp only [MemoryStore.has]
        split
        · rfl
        · split <;> rfl
      have hs' : (s.has t id).2 = s' := congrArg Prod.snd heq
      intro c hget
      rw [← hs', hcounters] at hget
      exact hs c hget
    | increment key' ttl failClosed =>
      have heq : s.increment maxEntries t key' ttl failClosed = (a, s') := heq
      intro c hget
      rcases MemoryStore.increment_cases maxEntries t key' ttl failClosed s with
        ⟨c₀, hget₀, -, hcase⟩ | ⟨-, hcase⟩ | ⟨-, hcase⟩ <;>
        obtain ⟨-, rfl⟩ := Prod.mk.inj (hcase.symm.trans heq)
      · by_cases hk : key = key'
        · subst hk
          rw [InsertionMap.get?_insert_self] at hget
          obtain rfl := Option.some.inj hget
          obtain ⟨hp, hE⟩ := hs c₀ hget₀
          exact ⟨by rw [hp, Bool.true_or], hE⟩
        · rw [InsertionMap.get?_insert_of_ne hk] at hget
          exact hs c hget
      · by_cases hk : key = key'
        · subst hk
          rw [InsertionMap.get?_insert_self] at hget
          obtain rfl := Option.some.inj hget
          exact he ttl failClosed rfl
        · rw [InsertionMap.get?_insert_of_ne hk] at hget
          exact hs c (MemoryStore.roomyCounters_origin hget)
      · exact hs c (MemoryStore.roomyCounters_origin hget)
  | _ =>
    have heq : s' = s := henv
    exact heq ▸ hs

/-- Until `E` nothing sets the counter back. -/
theorem CountedTo.event {e : Event effects} {s s' : MemoryStore} {n : Nat} (hs : CountedTo key E n s)
    (he : e.time ≤ E) (henv : memoryEnv maxEntries e.time s e.op e.ans s') : CountedTo key E n s' := by
  obtain ⟨c, hget, hp, hE, hn⟩ := hs
  obtain ⟨t, o, a⟩ := e
  cases o with
  | store op =>
    have heq : s.apply maxEntries t op = (a, s') := henv
    have hs' : (s.apply maxEntries t op).2 = s' := congrArg Prod.snd heq
    have hkept : (s.apply maxEntries t op).2.counters.get? key =
      some { c with count := c.count + MemoryStore.hits key op } :=
      MemoryStore.apply_keeps_counter op hget (Nat.le_trans he hE) hp
    rw [hs'] at hkept
    exact ⟨_, hkept, hp, hE, Nat.le_trans hn (Nat.le_add_right _ _)⟩
  | _ =>
    have heq : s' = s := henv
    exact heq ▸ ⟨c, hget, hp, hE, hn⟩

/-- The same environment, where every counter of `key` lasts. -/
def lastingEnv (maxEntries : Nat) (key : JsString) (E : Nat) : Environment effects MemoryStore := fun t s o a s' =>
  memoryEnv maxEntries t s o a s' ∧ Lasting key E s

section
variable {s : MemoryStore} {c : Nat} {es : List (Event effects)}
variable (h : Replays (memoryEnv maxEntries) .empty c es s) (hlast : ∀ e ∈ es, LastsUntil key E e)
include h hlast

theorem replays_lasting : Replays (lastingEnv maxEntries key E) .empty c es s := by
  refine h.strengthen fun before e after s₁ s₂ hes hbefore henv _ => ⟨henv, ?_⟩
  obtain ⟨_, hs₁, -, -⟩ := hbefore.invariant (I := fun _ s => Lasting key E s)
    (fun x hx _ _ _ _ hs henv => hs.event (hlast x (by rw [hes]; exact List.mem_append_left _ hx)) henv) nofun
  exact hs₁

/-- Each increment until `E` answers more than the ones before it. -/
theorem counts_rise : es.Pairwise fun e e' => ∀ n n',
    countOf key E e = some n → countOf key E e' = some n' → n < n' := by
  refine (replays_lasting h hlast).pairwise
    fun e he mid e' he' s₀ s₁ s₂ s₃ hfirst hmid hbefore hle hsecond n n' hn hn' => ?_
  obtain ⟨t, ttl, failClosed, rfl, ht⟩ := countOf_eq_some hn
  obtain ⟨t', ttl', failClosed', rfl, ht'⟩ := countOf_eq_some hn'
  obtain ⟨rfl, hE⟩ := hlast _ he ttl failClosed rfl
  -- the counter stands at `n` after the first, and has not gone back by the second
  have hstands := (countedTo_of_increment hfirst.2 hE (memoryEnv_increment hfirst.1)).1
  obtain ⟨_, hstill, -, -⟩ := hmid.invariant (I := fun _ s => CountedTo key E n s)
    (fun x hx _ _ _ _ hs henv => hs.event (Nat.le_trans (hbefore x hx).2 ht') henv.1) hstands
  obtain ⟨c', hget, -, hlive, hcount⟩ := hstill
  have hanswer : (s₂.increment maxEntries t' key ttl' failClosed').1 = .ok (c'.count + 1) :=
    (MemoryStore.increment_of_live hget (Nat.le_trans ht' hlive)).1
  rw [memoryEnv_increment hsecond.1] at hanswer
  have hnext : n' = c'.count + 1 := Except.ok.inj hanswer
  omega

/-- And the first answers at least one. -/
theorem count_pos {e : Event effects} (he : e ∈ es) {n : Nat} (hn : countOf key E e = some n) : 1 ≤ n := by
  obtain ⟨pre, post, rfl⟩ := List.append_of_mem he
  obtain ⟨s₁, s₂, -, -, henv, -⟩ := (replays_lasting h hlast).split
  obtain ⟨t, ttl, failClosed, rfl, ht⟩ := countOf_eq_some hn
  obtain ⟨rfl, hE⟩ := hlast _ he ttl failClosed rfl
  exact (countedTo_of_increment henv.2 hE (memoryEnv_increment henv.1)).2

end

/-- Naturals that rise between two bounds are few. -/
theorem length_le_of_rising {m : Nat} : ∀ {l : List Nat} {lo : Nat}, l.Pairwise (· < ·) →
    (∀ n ∈ l, lo < n ∧ n ≤ lo + m) → l.length ≤ m := by
  intro l
  induction l generalizing m with
  | nil => exact fun _ _ => Nat.zero_le m
  | cons x xs ih =>
    intro lo hrise hbounds
    obtain ⟨hx, hxs⟩ := List.pairwise_cons.mp hrise
    obtain ⟨hlo, hhi⟩ := hbounds x List.mem_cons_self
    have habove : ∀ n ∈ xs, x < n ∧ n ≤ x + (lo + m - x) := by
      intro n hn
      have hle := (hbounds n (List.mem_cons_of_mem _ hn)).2
      have hlt := hx n hn
      omega
    have hfew : xs.length ≤ lo + m - x := ih hxs habove
    rw [List.length_cons]
    omega

/-- The answers until `E` that are at most `m`. -/
def countsWithin (key : JsString) (E m : Nat) (es : List (Event effects)) : List Nat :=
  es.filterMap fun e => (countOf key E e).filter (· ≤ m)

/-- There are at most `m` of them. -/
theorem counts_within {s : MemoryStore} {c : Nat} {es : List (Event effects)}
    (h : Replays (memoryEnv maxEntries) .empty c es s) (hlast : ∀ e ∈ es, LastsUntil key E e) (m : Nat) :
    (countsWithin key E m es).length ≤ m := by
  have hrising : (countsWithin key E m es).Pairwise (· < ·) := by
    refine List.pairwise_filterMap.mpr ((counts_rise h hlast).imp fun hrise n hn n' hn' => ?_)
    exact hrise n n' (Option.filter_eq_some_iff.mp hn).1 (Option.filter_eq_some_iff.mp hn').1
  have hbounds : ∀ n ∈ countsWithin key E m es, 0 < n ∧ n ≤ 0 + m := by
    intro n hn
    obtain ⟨e, he, hcount⟩ := List.mem_filterMap.mp hn
    obtain ⟨hcount, hle⟩ := Option.filter_eq_some_iff.mp hcount
    exact ⟨count_pos h hlast he hcount, by simpa using hle⟩
  exact length_le_of_rising hrising hbounds

end Sag
