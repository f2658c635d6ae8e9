import Sag.Lib.Script
import Sag.Store.Windows

/-!
# A store that keeps count

What a state store that neither fails nor evicts does with its counters, whichever store it
is (`Counting`): a counter counts until its window is over, and nothing but that ends it. At
the very instant at which the window is over it may go either way. A counter whose window
outlasts `E` then counts every increment until `E` (`counting_within`).

`Ledger` is the plainest such store.
-/

namespace Sag

open Resumable

/-- A counter, as anybody may see it. -/
structure Tally where
  count : Nat
  expiresAt : Nat

variable {σ : Type}

/-- The store neither fails nor evicts. -/
structure Counting (env : Environment effects σ) (tally : σ → JsString → Option Tally) : Prop where
  /-- An increment counts on, or begins a window where there is none that goes on. -/
  increments : ∀ {t : Nat} {s s' : σ} {key : JsString} {ttl : Nat} {failClosed : Bool} {a : Except JsError Nat},
    env t s (.store (.increment key ttl failClosed)) a s' →
      (∃ c, tally s key = some c ∧ t ≤ c.expiresAt ∧ a = .ok (c.count + 1) ∧
        tally s' key = some ⟨c.count + 1, c.expiresAt⟩) ∨
      ((∀ c, tally s key = some c → c.expiresAt ≤ t) ∧ a = .ok 1 ∧ tally s' key = some ⟨1, t + ttl⟩)
  /-- Nothing else makes a counter, -/
  origin : ∀ {t : Nat} {s s' : σ} {o : Op} {a : o.Ans} {key : JsString} {c : Tally}, env t s o a s' →
    (∀ ttl failClosed, o ≠ .store (.increment key ttl failClosed)) → tally s' key = some c → tally s key = some c
  /-- or ends one whose window goes on. -/
  keeps : ∀ {t : Nat} {s s' : σ} {o : Op} {a : o.Ans} {key : JsString} {c : Tally}, env t s o a s' →
    (∀ ttl failClosed, o ≠ .store (.increment key ttl failClosed)) → tally s key = some c → t < c.expiresAt →
      tally s' key = some c

/-! ## Counting in a window -/

variable {env : Environment effects σ} {tally : σ → JsString → Option Tally} {key : JsString} {E : Nat}

/-- If the event increments `key`, a window that it begins outlasts `E`. -/
def Outlasts (key : JsString) (E : Nat) (e : Event effects) : Prop :=
  ∀ ttl failClosed, e.op = .store (.increment key ttl failClosed) → ∃ n : Nat, ttl = n ∧ E < e.time + n

/-- The counter of `key` goes on after `E`, and has come to `n`. -/
def StandsAt (tally : σ → JsString → Option Tally) (key : JsString) (E n : Nat) (s : σ) : Prop :=
  ∃ c, tally s key = some c ∧ E < c.expiresAt ∧ n ≤ c.count

/-- Whatever counter `key` has, it goes on after `E`. -/
def GoesOn (tally : σ → JsString → Option Tally) (key : JsString) (E : Nat) (s : σ) : Prop :=
  ∀ c, tally s key = some c → E < c.expiresAt

section
variable (hcounting : Counting env tally)
include hcounting

/-- An increment is answered with the place at which the counter then stands. -/
theorem Counting.standsAt {s s' : σ} (hs : GoesOn tally key E s) {t : Nat} {ttl : Nat} {failClosed : Bool}
    {a : Except JsError Nat} (hE : E < t + ttl) (henv : env t s (.store (.increment key ttl failClosed)) a s') :
    ∃ n, a = .ok n ∧ 1 ≤ n ∧ StandsAt tally key E n s' ∧ GoesOn tally key E s' := by
  rcases hcounting.increments henv with ⟨c, hget, -, rfl, hget'⟩ | ⟨-, rfl, hget'⟩
  · have hlate := hs c hget
    refine ⟨_, rfl, Nat.le_add_left 1 _, ⟨_, hget', hlate, Nat.le_refl _⟩, fun c' hc' => ?_⟩
    rw [hget'] at hc'
    rw [← Option.some.inj hc']
    exact hlate
  · refine ⟨1, rfl, Nat.le_refl 1, ⟨_, hget', hE, Nat.le_refl _⟩, fun c' hc' => ?_⟩
    rw [hget'] at hc'
    rw [← Option.some.inj hc']
    exact hE

/-- No counter is given a window that is over by `E`. -/
theorem Counting.goesOn {e : Event effects} {s s' : σ} (hs : GoesOn tally key E s) (he : Outlasts key E e)
    (henv : env e.time s e.op e.ans s') : GoesOn tally key E s' := by
  obtain ⟨t, o, a⟩ := e
  by_cases hincrement : ∃ ttl failClosed, o = .store (.increment key ttl failClosed)
  · obtain ⟨ttl, failClosed, rfl⟩ := hincrement
    obtain ⟨n, rfl, hE⟩ := he ttl failClosed rfl
    obtain ⟨_, _, _, _, hgoes⟩ := hcounting.standsAt hs hE henv
    exact hgoes
  · intro c hget
    refine hs c (hcounting.origin henv (fun ttl failClosed ho => ?_) hget)
    exact hincrement ⟨ttl, failClosed, ho⟩

/-- Until `E` nothing sets the counter back. -/
theorem Counting.stands {e : Event effects} {s s' : σ} {n : Nat} (hs : StandsAt tally key E n s)
    (he : Outlasts key E e) (ht : e.time ≤ E) (henv : env e.time s e.op e.ans s') : StandsAt tally key E n s' := by
  obtain ⟨c, hget, hlate, hn⟩ := hs
  obtain ⟨t, o, a⟩ := e
  have ht : t ≤ E := ht
  by_cases hincrement : ∃ ttl failClosed, o = .store (.increment key ttl failClosed)
  · obtain ⟨ttl, failClosed, rfl⟩ := hincrement
    obtain ⟨m, rfl, hE⟩ := he ttl failClosed rfl
    rcases hcounting.increments henv with ⟨c', hget', -, -, hnext⟩ | ⟨hover, -, -⟩
    · obtain rfl := Option.some.inj (hget'.symm.trans hget)
      exact ⟨_, hnext, hlate, Nat.le_succ_of_le hn⟩
    · have hpast := hover c hget
      omega
  · refine ⟨c, hcounting.keeps henv (fun ttl failClosed ho => ?_) hget (by omega), hlate, hn⟩
    exact hincrement ⟨ttl, failClosed, ho⟩

section
variable {s₀ s : σ} {clock : Nat} {es : List (Event effects)}

/-- The store answers every increment. -/
theorem Counting.answers (h : Replays env s₀ clock es s) {t ttl : Nat} {failClosed : Bool} {a : Except JsError Nat}
    (he : ⟨t, .store (.increment key ttl failClosed), a⟩ ∈ es) : ∃ n, a = .ok n := by
  obtain ⟨before, after, rfl⟩ := List.append_of_mem he
  obtain ⟨s₁, s₂, -, -, henv, -⟩ := h.split
  rcases hcounting.increments henv with ⟨_, _, _, rfl, _⟩ | ⟨_, rfl, _⟩
  · exact ⟨_, rfl⟩
  · exact ⟨_, rfl⟩

variable (hempty : tally s₀ key = none) (hlast : ∀ e ∈ es, Outlasts key E e)
include hempty hlast

/-- Before every event the counter, if there is one, goes on after `E`. -/
theorem Counting.goesOn_before {before after : List (Event effects)} {e : Event effects}
    (hes : es = before ++ e :: after) {s₁ : σ} (hbefore : Replays env s₀ clock before s₁) : GoesOn tally key E s₁ := by
  obtain ⟨_, hs₁, -, -⟩ := hbefore.invariant (I := fun _ s => GoesOn tally key E s)
    (fun x hx _ _ _ _ hs henv =>
      hcounting.goesOn hs (hlast x (by rw [hes]; exact List.mem_append_left _ hx)) henv)
    (fun c hget => by rw [hempty] at hget; cases hget)
  exact hs₁

variable (h : Replays env s₀ clock es s)
include h

/-- Each increment until `E` answers more than the ones before it. -/
theorem Counting.rises : es.Pairwise fun e e' =>
    ∀ n n', countOf key E e = some n → countOf key E e' = some n' → n < n' := by
  -- the same run, with what is known of the counter before each event
  have hknown : Replays (fun t s o a s' => env t s o a s' ∧ GoesOn tally key E s) s₀ clock es s :=
    h.strengthen fun before e after s₁ s₂ hes hbefore henv _ =>
      ⟨henv, hcounting.goesOn_before hempty hlast hes hbefore⟩
  refine hknown.pairwise fun e he mid e' he' s₀ s₁ s₂ s₃ hfirst hmid hbefore hle hsecond n n' hn hn' => ?_
  obtain ⟨t, ttl, failClosed, rfl, ht⟩ := countOf_eq_some hn
  obtain ⟨t', ttl', failClosed', rfl, ht'⟩ := countOf_eq_some hn'
  obtain ⟨m, rfl, hE⟩ := hlast _ he ttl failClosed rfl
  obtain ⟨m', rfl, hE'⟩ := hlast _ he' ttl' failClosed' rfl
  obtain ⟨_, hanswer, -, hstands, -⟩ := hcounting.standsAt hfirst.2 hE hfirst.1
  obtain rfl := Except.ok.inj hanswer
  have hbefore' : ∀ x ∈ mid, x ∈ es ∧ x.time ≤ t' := hbefore
  obtain ⟨_, hstill, -, -⟩ := hmid.invariant (I := fun _ s => StandsAt tally key E n s)
    (fun x hx _ _ _ _ hs henv => hcounting.stands hs (hlast x (hbefore' x hx).1)
      (Nat.le_trans (hbefore' x hx).2 ht') henv.1) hstands
  obtain ⟨c, hget, hlate, hcount⟩ := hstill
  rcases hcounting.increments hsecond.1 with ⟨c', hget', -, hanswer', -⟩ | ⟨hover, -, -⟩
  · obtain rfl := Option.some.inj (hget'.symm.trans hget)
    have hnext : n' = c'.count + 1 := Except.ok.inj hanswer'
    omega
  · have hpast : c.expiresAt ≤ t' := hover c hget
    omega

/-- And the first answers at least one. -/
theorem Counting.pos {e : Event effects} (he : e ∈ es) {n : Nat} (hn : countOf key E e = some n) : 1 ≤ n := by
  obtain ⟨before, after, hes⟩ := List.append_of_mem he
  obtain ⟨s₁, s₂, hbefore, -, henv, -⟩ := (hes ▸ h).split
  have hgoes := hcounting.goesOn_before hempty hlast hes hbefore
  obtain ⟨t, ttl, failClosed, rfl, ht⟩ := countOf_eq_some hn
  obtain ⟨m, rfl, hE⟩ := hlast _ he ttl failClosed rfl
  obtain ⟨_, hanswer, hpos, -⟩ := hcounting.standsAt hgoes hE henv
  obtain rfl := Except.ok.inj hanswer
  exact hpos

/-- So at most `m` of the answers until `E` are at most `m`. -/
theorem Counting.within (m : Nat) : (countsWithin key E m es).length ≤ m := by
  have hrising : (countsWithin key E m es).Pairwise (· < ·) := by
    refine List.pairwise_filterMap.mpr ((hcounting.rises hempty hlast h).imp fun hrise n hn n' hn' => ?_)
    exact hrise n n' (Option.filter_eq_some_iff.mp hn).1 (Option.filter_eq_some_iff.mp hn').1
  have hbounds : ∀ n ∈ countsWithin key E m es, 0 < n ∧ n ≤ 0 + m := by
    intro n hn
    obtain ⟨e, he, hcount⟩ := List.mem_filterMap.mp hn
    obtain ⟨hcount, hle⟩ := Option.filter_eq_some_iff.mp hcount
    exact ⟨hcounting.pos hempty hlast h he hcount, by simpa using hle⟩
  exact length_le_of_rising hrising hbounds

end

end

/-! ## The plainest such store -/

/-- A store with room for everything. -/
abbrev Ledger := JsString → Option Tally

def Ledger.increment (s : Ledger) (t : Nat) (key : JsString) (ttl : Nat) : Tally :=
  match s key with
  | none => ⟨1, t + ttl⟩
  | some c => if t < c.expiresAt then ⟨c.count + 1, c.expiresAt⟩ else ⟨1, t + ttl⟩

def Ledger.enter (s : Ledger) (key : JsString) (c : Tally) : Ledger := fun key' => if key' = key then some c else s key'

/-- The ledger, with `answer` for everything else. -/
def ledgerOracle (answer : (o : Op) → o.Ans) : Oracle effects Ledger := fun t s o =>
  match o with
  | .store (.increment key ttl _) =>
    let c := s.increment t key ttl.toNat
    (.ok c.count, s.enter key c)
  | o => (answer o, s)

theorem ledger_counting (answer : (o : Op) → o.Ans) : Counting (ledgerOracle answer).graph fun s => s := by
  have other : ∀ {t : Nat} {s s' : Ledger} {o : Op} {a : o.Ans} {key : JsString},
    (ledgerOracle answer).graph t s o a s' →
      (∀ ttl failClosed, o ≠ .store (.increment key ttl failClosed)) → s' key = s key := by
    intro t s s' o a key henv hother
    have hstate : (ledgerOracle answer t s o).2 = s' := congrArg Prod.snd henv
    rw [← hstate]
    cases o with
    | store op =>
      cases op with
      | increment key' ttl failClosed =>
        have hne : key ≠ key' := fun heq => hother ttl failClosed (by rw [heq])
        exact if_neg hne
      | _ => rfl
    | _ => rfl
  refine ⟨?_, ?_, ?_⟩
  · intro t s s' key ttl failClosed a henv
    obtain ⟨hanswer, hstate⟩ := Prod.mk.inj henv
    have hget : s' key = some (s.increment t key ttl) := by
      rw [← hstate]
      exact if_pos rfl
    rw [← hanswer, hget]
    unfold Ledger.increment
    cases hs : s key with
    | none => exact Or.inr ⟨nofun, rfl, rfl⟩
    | some c =>
      dsimp only
      by_cases hlive : t < c.expiresAt
      · rw [Int.toNat_natCast]
        rw [if_pos hlive]
        exact Or.inl ⟨c, rfl, Nat.le_of_lt hlive, rfl, rfl⟩
      · rw [Int.toNat_natCast]
        rw [if_neg hlive]
        refine Or.inr ⟨fun c' hc' => ?_, rfl, rfl⟩
        obtain rfl := Option.some.inj hc'
        exact Nat.le_of_not_lt hlive
  · intro t s s' o a key c henv hother hget
    rwa [← other henv hother]
  · intro t s s' o a key c henv hother hget _
    rwa [other henv hother]

end Sag
