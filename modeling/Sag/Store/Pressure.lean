import Sag.Store.Runs

/-!
# The memory store under pressure

Claims, questions and increments come in any order, with any keys and any ttls, at
nondecreasing times, until both maps are full. What the store is then supposed to
say can be read off the answers it has given: a claim is `Claimed` from the one
that won it until its expiry, and `tally` is the counter of a key, with as many
increments as it had since it answered one.

`memory_exact` says that the store agrees: it keeps every unexpired claim and every
protected counter of the tally, at every fill level. Unprotected counters may be
lost, and then start again at one; `tally_of_get?` says that even they are exact as
long as they are there.
-/

namespace Sag

open Resumable

variable {maxEntries : Nat}

/-! ## What the answers say -/

/-- Somebody has won a claim of `id` that is not over at `t`. -/
def Claimed (es : List (Event effects)) (id : JsString) (t : Nat) : Prop :=
  ∃ t₀ ttl, won id t₀ ttl ∈ es ∧ t ≤ t₀ + MemoryStore.lifetime ttl

/-- An increment begins a window if it answers one, else it counts in the one there is. -/
def tallyStep (key : JsString) (window : Option Counter) : Event effects → Option Counter
  | ⟨t, .store (.increment key' ttl failClosed), a⟩ =>
    if key' = key then
      match a with
      | .ok n =>
        if n = 1 then some ⟨t + MemoryStore.lifetime ttl, 1, failClosed⟩
        else window.map fun c => { c with count := c.count + 1, failClosed := c.failClosed || failClosed }
      | .error _ => window
    else window
  | _ => window

/-- The counter of `key` in its latest window. -/
def tally (key : JsString) (es : List (Event effects)) : Option Counter := es.foldl (tallyStep key) none

theorem tally_snoc (key : JsString) (es : List (Event effects)) (e : Event effects) :
    tally key (es ++ [e]) = tallyStep key (tally key es) e := by
  rw [tally, List.foldl_append]
  rfl

/-! ## The size -/

/-- Neither map is larger than it may be. -/
structure Fits (maxEntries : Nat) (s : MemoryStore) : Prop where
  claims : s.claims.size ≤ maxEntries
  counters : s.counters.size ≤ maxEntries

namespace MemoryStore

variable {now : Nat} {s : MemoryStore}

theorem sweptClaims_size (h : s.claims.size ≤ maxEntries) :
    (sweptClaims maxEntries now s.claims).size ≤ maxEntries := by
  unfold sweptClaims
  split
  · exact Nat.le_trans (s.claims.size_filter_le _) h
  · exact h

theorem roomyCounters_size (h : s.counters.size ≤ maxEntries) :
    (roomyCounters maxEntries now s.counters).size ≤ maxEntries := by
  unfold roomyCounters
  split
  · have hevicted := (evict_sublist maxEntries (s.counters.filter (now ≤ ·.2.expiresAt)).size
      (max 1 ((maxEntries + 9) / 10)) (s.counters.filter (now ≤ ·.2.expiresAt)).entries).length_le
    exact Nat.le_trans hevicted (Nat.le_trans (s.counters.size_filter_le _) h)
  · exact h

/-- Room is made before anything is added. -/
theorem apply_fits (op : StoreOp) (h : Fits maxEntries s) : Fits maxEntries (s.apply maxEntries now op).2 := by
  cases op with
  | claim id ttl =>
    simp only [apply, claim]
    split
    · exact h
    · split
      · exact ⟨sweptClaims_size h.claims, h.counters⟩
      · next hroom =>
        exact ⟨Nat.le_trans (InsertionMap.size_insert_le _ _ _) (Nat.lt_of_not_le hroom), h.counters⟩
  | has id =>
    simp only [apply, has]
    split
    · exact h
    · split
      · exact ⟨Nat.le_trans (s.claims.size_filter_le _) h.claims, h.counters⟩
      · exact h
  | increment key ttl failClosed =>
    simp only [apply, increment]
    split
    · next c hlive =>
      obtain ⟨hget, -⟩ := Option.filter_eq_some_iff.mp hlive
      refine ⟨h.claims, ?_⟩
      dsimp only
      rw [InsertionMap.size_insert_of_get? hget]
      exact h.counters
    · split
      · exact ⟨h.claims, roomyCounters_size h.counters⟩
      · next hroom =>
        exact ⟨h.claims, Nat.le_trans (InsertionMap.size_insert_le _ _ _) (Nat.lt_of_not_le hroom)⟩

/-! ## Increments -/

/-- Making room adds no counter. -/
theorem roomyCounters_origin {key : JsString} {c : Counter}
    (h : (roomyCounters maxEntries now s.counters).get? key = some c) : s.counters.get? key = some c := by
  unfold roomyCounters at h
  split at h
  · have hmem := (evict_sublist _ _ _ _).subset (InsertionMap.get?_eq_some.mp h)
    exact InsertionMap.get?_of_filter (InsertionMap.get?_eq_some.mpr hmem)
  · exact h

/-- What an increment can do: count in the window there is, begin another, or find no
room for it. -/
theorem increment_cases (maxEntries now : Nat) (key : JsString) (ttl : Int) (failClosed : Bool) (s : MemoryStore) :
    (∃ c, s.counters.get? key = some c ∧ now ≤ c.expiresAt ∧
      s.increment maxEntries now key ttl failClosed = (.ok (c.count + 1), { s with
        counters := s.counters.insert key ⟨c.expiresAt, c.count + 1, c.failClosed || failClosed⟩ })) ∨
    ((∀ c, s.counters.get? key = some c → c.expiresAt < now) ∧
      s.increment maxEntries now key ttl failClosed = (.ok 1, { s with
        counters := (roomyCounters maxEntries now s.counters).insert key
          ⟨now + lifetime ttl, 1, failClosed⟩ })) ∨
    ((∀ c, s.counters.get? key = some c → c.expiresAt < now) ∧
      s.increment maxEntries now key ttl failClosed =
        (.error (fullMessage maxEntries " protected counters"),
          { s with counters := roomyCounters maxEntries now s.counters })) := by
  unfold increment
  split
  · next c hlive =>
    obtain ⟨hget, hexp⟩ := Option.filter_eq_some_iff.mp hlive
    exact Or.inl ⟨c, hget, by simpa using hexp, rfl⟩
  · next hdead =>
    have hexpired : ∀ c, s.counters.get? key = some c → c.expiresAt < now := by
      intro c hget
      rw [hget] at hdead
      simpa [Option.filter_eq_none_iff] using hdead
    by_cases hfull : maxEntries ≤ (roomyCounters maxEntries now s.counters).size
    · exact Or.inr (Or.inr ⟨hexpired, if_pos hfull⟩)
    · exact Or.inr (Or.inl ⟨hexpired, if_neg hfull⟩)

end MemoryStore

/-! ## The tally -/

/-- The store holds what the answers say. -/
structure Tallied (past : List (Event effects)) (s : MemoryStore) : Prop where
  /-- What it holds is the tally. -/
  origin : ∀ key c, s.counters.get? key = some c → tally key past = some c ∧ 1 ≤ c.count
  /-- What the tally protects, it holds. -/
  kept : ∀ key c, tally key past = some c → c.failClosed = true → (∀ e ∈ past, e.time ≤ c.expiresAt) →
    s.counters.get? key = some c

/-- An event that touches no counter changes no tally. -/
theorem Tallied.quiet {past : List (Event effects)} {e : Event effects} {s s' : MemoryStore} (h : Tallied past s)
    (hstep : ∀ key window, tallyStep key window e = window) (hcounters : s'.counters = s.counters) :
    Tallied (past ++ [e]) s' where
  origin key c hget := by
    rw [tally_snoc, hstep]
    exact h.origin key c (hcounters ▸ hget)
  kept key c htally hp htimes := by
    rw [tally_snoc, hstep] at htally
    rw [hcounters]
    exact h.kept key c htally hp fun x hx => htimes x (List.mem_append_left _ hx)

/-- An event that writes one counter, in a map that has lost nothing protected. -/
theorem Tallied.write {past : List (Event effects)} {s : MemoryStore} (h : Tallied past s) {e : Event effects}
    {key : JsString} {base : InsertionMap JsString Counter}
    (hstep : ∀ k window, k ≠ key → tallyStep k window e = window)
    (horigin : ∀ k c, base.get? k = some c → s.counters.get? k = some c)
    (hkeep : ∀ k c, s.counters.get? k = some c → e.time ≤ c.expiresAt → c.failClosed = true → base.get? k = some c)
    {c' : Counter} (htally : tally key (past ++ [e]) = some c') (hpos : 1 ≤ c'.count) :
    Tallied (past ++ [e]) { s with counters := base.insert key c' } where
  origin k c hget := by
    by_cases hk : k = key
    · subst hk
      rw [InsertionMap.get?_insert_self] at hget
      obtain rfl := Option.some.inj hget
      exact ⟨htally, hpos⟩
    · rw [InsertionMap.get?_insert_of_ne hk] at hget
      rw [tally_snoc, hstep k _ hk]
      exact h.origin k c (horigin k c hget)
  kept k c hc hp htimes := by
    by_cases hk : k = key
    · subst hk
      rw [htally] at hc
      obtain rfl := Option.some.inj hc
      exact InsertionMap.get?_insert_self _ _ _
    · rw [tally_snoc, hstep k _ hk] at hc
      have hget := h.kept k c hc hp fun x hx => htimes x (List.mem_append_left _ hx)
      have hlive := htimes e (List.mem_append_right _ List.mem_cons_self)
      exact (InsertionMap.get?_insert_of_ne hk).trans (hkeep k c hget hlive hp)

/-- An increment keeps the tally right. -/
theorem Tallied.increment {past : List (Event effects)} {s : MemoryStore} (h : Tallied past s) (maxEntries t : Nat)
    (key : JsString) (ttl : Int) (failClosed : Bool) :
    Tallied (past ++ [⟨t, .store (.increment key ttl failClosed),
      ((s.increment maxEntries t key ttl failClosed).1 : Except JsError Nat)⟩])
      (s.increment maxEntries t key ttl failClosed).2 := by
  have hother : ∀ (a : Except JsError Nat) k window, k ≠ key →
      tallyStep k window ⟨t, .store (.increment key ttl failClosed), a⟩ = window := by
    intro a k window hk
    simp only [tallyStep, if_neg (Ne.symm hk)]
  rcases MemoryStore.increment_cases maxEntries t key ttl failClosed s with
    ⟨c, hget, hlive, heq⟩ | ⟨hexpired, heq⟩ | ⟨hexpired, heq⟩
  · -- one more in the window there is
    obtain ⟨htally, hpos⟩ := h.origin key c hget
    have hne : ¬ c.count + 1 = 1 := by omega
    rw [heq]
    refine h.write (hother _) (fun _ _ h => h) (fun _ _ h _ _ => h) ?_ (Nat.le_add_left 1 c.count)
    simp only [tally_snoc, htally, tallyStep, if_pos, if_neg hne, Option.map_some]
  · -- another window
    rw [heq]
    refine h.write (hother _) (fun _ _ => MemoryStore.roomyCounters_origin)
      (fun _ _ h hlive hp => MemoryStore.roomyCounters_keeps h hlive hp) ?_ (Nat.le_refl 1)
    simp only [tally_snoc, tallyStep, if_pos]
  · -- no room for another
    have hstep : ∀ k, tally k (past ++ [⟨t, .store (.increment key ttl failClosed),
        (.error (MemoryStore.fullMessage maxEntries " protected counters") : Except JsError Nat)⟩]) =
          tally k past := by
      intro k
      simp only [tally_snoc, tallyStep, ite_self]
    rw [heq]
    refine ⟨fun k c hget => ?_, fun k c htally hp htimes => ?_⟩
    · rw [hstep]
      exact h.origin k c (MemoryStore.roomyCounters_origin hget)
    · rw [hstep] at htally
      have hget := h.kept k c htally hp fun x hx => htimes x (List.mem_append_left _ hx)
      exact MemoryStore.roomyCounters_keeps hget (htimes _ (List.mem_append_right _ List.mem_cons_self)) hp

/-- So does every event. -/
theorem Tallied.event {past : List (Event effects)} {e : Event effects} {s s' : MemoryStore} (h : Tallied past s)
    (henv : memoryEnv maxEntries e.time s e.op e.ans s') : Tallied (past ++ [e]) s' := by
  obtain ⟨t, o, a⟩ := e
  cases o with
  | store op =>
    have heq : s.apply maxEntries t op = (a, s') := henv
    cases op with
    | claim id ttl =>
      have hcounters : (s.apply maxEntries t (.claim id ttl)).2.counters = s.counters := by
        simp only [MemoryStore.apply, MemoryStore.claim]
        split
        · rfl
        · split <;> rfl
      rw [heq] at hcounters
      exact h.quiet (fun _ _ => rfl) hcounters
    | has id =>
      have hcounters : (s.apply maxEntries t (.has id)).2.counters = s.counters := by
        simp only [MemoryStore.apply, MemoryStore.has]
        split
        · rfl
        · split <;> rfl
      rw [heq] at hcounters
      exact h.quiet (fun _ _ => rfl) hcounters
    | increment key ttl failClosed =>
      have hinc := h.increment maxEntries t key ttl failClosed
      have heq : s.increment maxEntries t key ttl failClosed = (a, s') := heq
      rwa [heq] at hinc
  | _ =>
    have heq : s' = s := henv
    exact h.quiet (fun _ _ => rfl) (congrArg _ heq)

theorem tallied {s : MemoryStore} {c : Nat} {es : List (Event effects)}
    (h : Replays (memoryEnv maxEntries) .empty c es s) : Tallied es s :=
  h.history [] (fun _ _ _ _ hs henv => hs.event henv) ⟨nofun, nofun⟩

theorem fits {s : MemoryStore} {c : Nat} {es : List (Event effects)}
    (h : Replays (memoryEnv maxEntries) .empty c es s) : Fits maxEntries s := by
  refine h.history [] (I := fun _ s => Fits maxEntries s) (fun _ e s s' hs henv => ?_)
    ⟨Nat.zero_le _, Nat.zero_le _⟩
  obtain ⟨t, o, a⟩ := e
  cases o with
  | store op =>
    have heq : s.apply maxEntries t op = (a, s') := henv
    have hfits : Fits maxEntries (s.apply maxEntries t op).2 := MemoryStore.apply_fits op hs
    rwa [heq] at hfits
  | _ =>
    have heq : s' = s := henv
    exact heq ▸ hs

/-! ## Answers -/

/-- The error of a call that throws. -/
def StoreOp.thrown : (op : StoreOp) → op.Ans → Option JsError
  | .claim _ _, .error err => some err
  | .has _, .error err => some err
  | .increment _ _ _, .error err => some err
  | _, _ => none

namespace MemoryStore

variable {now : Nat} {s : MemoryStore} {id key : JsString}

/-- A claim that answers says whether the identifier was free. -/
theorem claim_ok {ttl : Int} {fresh : Bool} (h : (s.claim maxEntries now id ttl).1 = .ok fresh) :
    fresh = true ↔ ¬ ∃ expiry, s.claims.get? id = some expiry ∧ now ≤ expiry := by
  cases fresh with
  | true =>
    refine ⟨fun _ hlive => ?_, fun _ => rfl⟩
    obtain ⟨expiry, hget, hlive⟩ := hlive
    have hdead := (claim_true h).2 expiry hget
    omega
  | false => exact ⟨nofun, fun hfree => absurd (claim_false h) hfree⟩

/-- The question always answers. -/
theorem has_ok (now : Nat) (id : JsString) (s : MemoryStore) : ∃ found, (s.has now id).1 = .ok found ∧
    (found = true ↔ ∃ expiry, s.claims.get? id = some expiry ∧ now ≤ expiry) := by
  unfold has
  split
  · next hnone => exact ⟨false, rfl, by simp [hnone]⟩
  · next expiry hget =>
    split
    · next hdead => exact ⟨false, rfl, by simp [hget, hdead]⟩
    · next hlive => exact ⟨true, rfl, by simp [hget, Nat.le_of_not_lt hlive]⟩

/-- What is found would be refused, and only that. -/
theorem has_iff_claim_false {ttl : Int} :
    (s.has now id).1 = .ok true ↔ (s.claim maxEntries now id ttl).1 = .ok false := by
  obtain ⟨found, hanswer, hfound⟩ := has_ok now id s
  rw [hanswer]
  constructor
  · intro htrue
    obtain ⟨expiry, hget, hlive⟩ := hfound.mp (Except.ok.inj htrue)
    exact claim_of_live hget hlive
  · intro hfalse
    rw [hfound.mpr (claim_false hfalse)]

/-- A call throws only when the store is full. -/
theorem thrown_full {op : StoreOp} {err : JsError} (h : op.thrown (s.apply maxEntries now op).1 = some err) :
    ∃ what, err = fullMessage maxEntries what := by
  cases op with
  | claim id ttl =>
    simp only [apply] at h
    cases hclaim : (s.claim maxEntries now id ttl).1 with
    | ok fresh => rw [hclaim] at h; cases h
    | error err' =>
      rw [hclaim] at h
      cases h
      exact ⟨_, claim_error hclaim⟩
  | has id =>
    obtain ⟨found, hanswer, -⟩ := has_ok now id s
    simp only [apply] at h
    rw [hanswer] at h
    cases h
  | increment key ttl failClosed =>
    simp only [apply] at h
    rcases increment_cases maxEntries now key ttl failClosed s with ⟨c, -, -, heq⟩ | ⟨-, heq⟩ | ⟨-, heq⟩
    all_goals
      rw [heq] at h
      cases h
    exact ⟨_, rfl⟩

/-- A live counter is not what a call throws at. -/
theorem hits_of_thrown {op : StoreOp} {err : JsError} {c : Counter}
    (h : op.thrown (s.apply maxEntries now op).1 = some err) (hget : s.counters.get? key = some c)
    (hlive : now ≤ c.expiresAt) : hits key op = 0 := by
  cases op with
  | claim id ttl => rfl
  | has id => rfl
  | increment key' ttl failClosed =>
    refine if_neg fun hk => ?_
    subst hk
    simp only [apply] at h
    rw [(increment_of_live hget hlive).1] at h
    cases h

end MemoryStore

/-! ## Exactness -/

/-- The store `s`, after the calls of `es`, none of which came after `now`. -/
structure Exact (maxEntries : Nat) (es : List (Event effects)) (now : Nat) (s : MemoryStore) : Prop where
  fits : Fits maxEntries s
  /-- No claim is evicted before it is over. -/
  claims_kept : ∀ id t₀ ttl, won id t₀ ttl ∈ es → now ≤ t₀ + MemoryStore.lifetime ttl →
    s.claims.get? id = some (t₀ + MemoryStore.lifetime ttl)
  /-- A claim that answers says whether the identifier is free. -/
  claim_exact : ∀ t id ttl fresh, now ≤ t → (s.claim maxEntries t id ttl).1 = .ok fresh →
    (fresh = true ↔ ¬ Claimed es id t)
  /-- So does the question, which always answers. -/
  has_exact : ∀ t id, now ≤ t → ∃ found, (s.has t id).1 = .ok found ∧ (found = true ↔ Claimed es id t)
  /-- A claim is found exactly when it would be refused. -/
  has_agrees : ∀ t id ttl, now ≤ t →
    ((s.has t id).1 = .ok true ↔ (s.claim maxEntries t id ttl).1 = .ok false)
  /-- A protected counter is kept, as counted, until its expiry. -/
  counters_kept : ∀ key c, tally key es = some c → c.failClosed = true → now ≤ c.expiresAt →
    s.counters.get? key = some c
  /-- In its window every increment answers one more, and moves nothing else. -/
  counters_exact : ∀ t key c ttl failClosed, now ≤ t → tally key es = some c → c.failClosed = true →
    t ≤ c.expiresAt → (s.increment maxEntries t key ttl failClosed).1 = .ok (c.count + 1) ∧
      tally key (es ++ [⟨t, .store (.increment key ttl failClosed), (.ok (c.count + 1) : Except JsError Nat)⟩]) =
        some { c with count := c.count + 1 }
  /-- A call that throws does so because the store is full, and drops nothing that is
  live. -/
  full : ∀ t op err, now ≤ t → op.thrown (s.apply maxEntries t op).1 = some err →
    (∃ what, err = MemoryStore.fullMessage maxEntries what) ∧
      (∀ id expiry, s.claims.get? id = some expiry → t ≤ expiry →
        (s.apply maxEntries t op).2.claims.get? id = some expiry) ∧
      ∀ key c, s.counters.get? key = some c → c.failClosed = true → t ≤ c.expiresAt →
        (s.apply maxEntries t op).2.counters.get? key = some c

section
variable {es : List (Event effects)} {c₀ now : Nat} {s : MemoryStore}

/-- A won claim that is not over is in the store. -/
theorem get?_of_won (h : Replays (memoryEnv maxEntries) .empty c₀ es s) (hnow : ∀ e ∈ es, e.time ≤ now)
    {id : JsString} {t₀ : Nat} {ttl : Int} (hwon : won id t₀ ttl ∈ es)
    (hlive : now ≤ t₀ + MemoryStore.lifetime ttl) :
    s.claims.get? id = some (t₀ + MemoryStore.lifetime ttl) := by
  obtain ⟨pre, post, rfl⟩ := List.append_of_mem hwon
  obtain ⟨s₁, s₂, -, -, henv, hpost⟩ := h.split
  have hwin := memoryEnv_claim henv
  have hget := (MemoryStore.claim_true hwin.1).1
  rw [hwin.2] at hget
  exact replays_keep_claim hpost hget fun e he => Nat.le_trans (hnow e (by simp [he])) hlive

/-- What is claimed is what the store holds. -/
theorem claimed_iff (h : Replays (memoryEnv maxEntries) .empty c₀ es s) (hnow : ∀ e ∈ es, e.time ≤ now)
    {id : JsString} {t : Nat} (ht : now ≤ t) :
    Claimed es id t ↔ ∃ expiry, s.claims.get? id = some expiry ∧ t ≤ expiry := by
  constructor
  · rintro ⟨t₀, ttl, hwon, hlive⟩
    exact ⟨_, get?_of_won h hnow hwon (Nat.le_trans ht hlive), hlive⟩
  · rintro ⟨expiry, hget, hlive⟩
    obtain ⟨t₀, ttl, hwon, rfl⟩ := won_of_claimed h hget
    exact ⟨t₀, ttl, hwon, hlive⟩

/-- The store is exact at every fill level. -/
theorem memory_exact (h : Replays (memoryEnv maxEntries) .empty c₀ es s) (hnow : ∀ e ∈ es, e.time ≤ now) :
    Exact maxEntries es now s where
  fits := fits h
  claims_kept id t₀ ttl hwon hlive := get?_of_won h hnow hwon hlive
  claim_exact t id ttl fresh ht hanswer := by
    rw [claimed_iff h hnow ht]
    exact MemoryStore.claim_ok hanswer
  has_exact t id ht := by
    obtain ⟨found, hanswer, hfound⟩ := MemoryStore.has_ok t id s
    exact ⟨found, hanswer, by rw [hfound, claimed_iff h hnow ht]⟩
  has_agrees t id ttl ht := MemoryStore.has_iff_claim_false
  counters_kept key c htally hp hlive :=
    (tallied h).kept key c htally hp fun e he => Nat.le_trans (hnow e he) hlive
  counters_exact t key c ttl failClosed ht htally hp hlive := by
    have hget := (tallied h).kept key c htally hp fun e he => Nat.le_trans (hnow e he) (Nat.le_trans ht hlive)
    have hpos := ((tallied h).origin key c hget).2
    have hne : ¬ c.count + 1 = 1 := by omega
    refine ⟨(MemoryStore.increment_of_live hget hlive).1, ?_⟩
    simp only [tally_snoc, htally, tallyStep, if_pos, if_neg hne, Option.map_some, hp, Bool.true_or]
  full t op err _ hthrown := by
    refine ⟨MemoryStore.thrown_full hthrown, fun id expiry hget hlive => MemoryStore.apply_keeps_claim op hget hlive,
      fun key c hget hp hlive => ?_⟩
    rw [MemoryStore.apply_keeps_counter op hget hlive hp, MemoryStore.hits_of_thrown hthrown hget hlive,
      Nat.add_zero]

end

/-- The calls at their instants, as the store answers them. -/
def MemoryStore.calls (maxEntries : Nat) : MemoryStore → List (Nat × StoreOp) → List (Event effects) × MemoryStore
  | s, [] => ([], s)
  | s, (t, op) :: rest =>
    let answered := s.apply maxEntries t op
    let later := calls maxEntries answered.2 rest
    (⟨t, .store op, answered.1⟩ :: later.1, later.2)

/-- Any calls at nondecreasing times are a run of the store. -/
theorem replays_calls (s : MemoryStore) (c₀ : Nat) {calls : List (Nat × StoreOp)}
    (hsorted : (c₀ :: calls.map (·.1)).Pairwise (· ≤ ·)) :
    Replays (memoryEnv maxEntries) s c₀ (s.calls maxEntries calls).1 (s.calls maxEntries calls).2 := by
  induction calls generalizing s c₀ with
  | nil => exact .nil _ _
  | cons call rest ih =>
    obtain ⟨hfirst, hrest⟩ := List.pairwise_cons.mp hsorted
    exact .cons (hfirst _ List.mem_cons_self) rfl (ih _ _ hrest)

/-- Two accounts fill a store with room for two counters: a third is refused, and the
first goes on. -/
def crowded : List (Event effects) × MemoryStore :=
  MemoryStore.empty.calls 2 [(10, .increment (js "a") 600 true), (10, .increment (js "x") 600 false),
    (20, .increment (js "b") 600 true), (20, .claim (js "id") 60), (20, .increment (js "y") 600 false),
    (30, .increment (js "a") 600 false)]

theorem crowded_exact : Exact 2 crowded.1 30 crowded.2 ∧ tally (js "a") crowded.1 = some ⟨610, 2, true⟩ ∧
    tally (js "y") crowded.1 = none := by
  have hrun : (∀ e ∈ crowded.1, e.time ≤ 30) ∧ tally (js "a") crowded.1 = some ⟨610, 2, true⟩ ∧
      tally (js "y") crowded.1 = none := by
    decide +kernel
  exact ⟨memory_exact (replays_calls _ 0 (by decide)) hrun.1, hrun.2⟩

end Sag
