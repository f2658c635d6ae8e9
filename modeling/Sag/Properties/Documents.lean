import Sag.Browser
import Sag.LocalIdentities.Documents

/-!
# The documents of a run

Any number of requests and rekeying runs read records, compute new documents from
them and swap these in, each at a time of its own. What comes of it is as if they
took turns: every swap that succeeds replaces the record that is stored at that
moment by an update of it (`serial`).

For a swap succeeds at the revision of the record that was read, every swap raises
the revision, and so the document is still the one that was read.
-/

namespace Sag

open Resumable

variable {rt : Runtime} {config : Config} {σ : Type}

/-- What the whole log has seen. -/
def inLog (log : List (Event effects)) : Rely effects := ⟨fun _ => True, seen log⟩

/-- The swap of an update, answered with success. -/
def swapped (t : Nat) (record : LocalRecord) (change : Change) : Event effects :=
  ⟨t, replaceOp record change, (.ok true : Except JsError Bool)⟩

/-- The event writes an update of a record that was read. -/
structure Performs (rt : Runtime) (log : List (Event effects)) (record : LocalRecord) (change : Change)
    (e : Event effects) : Prop where
  read : ReadRecord rt (inLog log) record
  update : Update (inLog log) record change
  written : ∃ t, e = swapped t record change

/-- The record is stored under its key. -/
def Stored (rt : Runtime) (docs : Documents) (record : LocalRecord) : Prop :=
  ∃ doc, docs record.key = some doc ∧ parseLocalIdentityRecord rt doc record.key = some record

/-- One record is stored under a key. -/
theorem Stored.unique {docs : Documents} {r r' : LocalRecord} (h : Stored rt docs r) (h' : Stored rt docs r') (hkey : r.key = r'.key) :
    r = r' := by
  obtain ⟨doc, hdoc, hparse⟩ := h
  obtain ⟨doc', hdoc', hparse'⟩ := h'
  rw [← hkey, hdoc] at hdoc'
  obtain rfl := Option.some.inj hdoc'
  rw [hkey, hparse'] at hparse
  exact (Option.some.inj hparse).symm

theorem Stored.valid {docs : Documents} {r : LocalRecord} (h : Stored rt docs r) : r.Valid rt := by
  obtain ⟨doc, -, hparse⟩ := h
  exact (parse_valid hparse).1

theorem Stored.fits {docs : Documents} {r : LocalRecord} (h : Stored rt docs r) : ∀ l ∈ r.upstreams, l.Fits := by
  obtain ⟨doc, -, hparse⟩ := h
  exact (parse_valid hparse).2.1

/-- The stored record is replaced by an update of it. -/
structure Updates (rt : Runtime) (log : List (Event effects)) (record : LocalRecord) (change : Change)
    (docs docs' : Documents) : Prop where
  stored : Stored rt docs record
  update : Update (inLog log) record change
  written : docs' = docs.write record.key (storedRecord (change.next record))

/-- One update at a time: nothing else changes the documents, and an event that writes an
update has updated what is stored. -/
def serialEnv (rt : Runtime) (log : List (Event effects)) : Environment effects Documents :=
  fun t docs o a docs' =>
    (docs' = docs ∨ ∃ record change, Updates rt log record change docs docs') ∧
      (∀ record change, Performs rt log record change ⟨t, o, a⟩ → Updates rt log record change docs docs') ∧
      ∀ key doc, (⟨t, o, a⟩ : Event effects) = ⟨t, .bindingGet key, (.ok doc : Except JsError (Option Json))⟩ →
        doc = docs key ∧ docs' = docs

/-! ## Where a replacement comes from -/

/-- A thread replaces a document by an update of a record that it has read. -/
theorem update_of_replace {env : Environment effects σ} {s : σ} {w : World (gateway rt config) σ}
    (h : Reachable (gateway rt config) env s w) {th : Thread (gateway rt config)} (hth : th ∈ w.threads)
    {pre post : List (Event effects)} {e : Event effects} (htr : th.trace = pre ++ e :: post)
    {key : JsString} {expected : Nat} {doc : Json} (hop : e.op = .bindingReplace key expected doc) :
    ∃ record change, ReadRecord rt (during th.start e.time (seen pre)) record ∧
      Update (during th.start e.time (seen pre)) record change ∧ e.op = replaceOp record change := by
  have hguard := guarantee_of_mem h hth htr
  have served : ∀ {endpoint request}, Guard rt config (during th.start e.time (seen pre)) endpoint request pre
      e.time e.op → ∃ record change, ReadRecord rt (during th.start e.time (seen pre)) record ∧
        Update (during th.start e.time (seen pre)) record change ∧ e.op = replaceOp record change := by
    intro endpoint request hguard
    rw [hop] at hguard ⊢
    generalize ho : Op.bindingReplace key expected doc = o at hguard
    cases hguard with
    | limiting hlimiting =>
      subst ho
      rcases hlimiting with hroutine | ⟨_, _, -, -, heq⟩
      · cases hroutine
      · cases heq
    | consume hpresented hallowed hread hupdate hfactor hlocal => exact ⟨_, _, hread, hupdate, rfl⟩
    | retain hread hupdate hfactor hcallback => exact ⟨_, _, hread, hupdate, rfl⟩
    | _ => cases ho
  cases hreq : th.req with
  | redeem r =>
    rw [hreq, hop] at hguard
    cases hguard
  | rekeyAll keys =>
    rw [hreq] at hguard
    rcases hguard with hroutine | ⟨record, change, hread, hupdate, -, heq⟩
    · rw [hop] at hroutine
      cases hroutine
    · exact ⟨record, change, hread, hupdate, heq⟩
  | _ =>
    rw [hreq] at hguard
    exact served hguard

section
variable {docs : Documents} {w : World (gateway rt config) Documents}
variable (h : Reachable (gateway rt config) documentsEnv docs w)
include h

/-- Every replacement of a run is an update of a record that was read in it. -/
theorem replaced_of_mem {e : Event effects} (he : e ∈ w.log) {key : JsString} {expected : Nat} {doc : Json}
    (hop : e.op = .bindingReplace key expected doc) :
    ∃ record change, ReadRecord rt (inLog w.log) record ∧ Update (inLog w.log) record change ∧
      e.op = replaceOp record change := by
  obtain ⟨th, hth, hmem⟩ := h.exists_thread he
  obtain ⟨pre, post, htr⟩ := List.append_of_mem hmem
  obtain ⟨record, change, hread, hupdate, heq⟩ := update_of_replace h hth htr hop
  have whole : ∀ o a, (during th.start e.time (seen pre)).Saw o a → (inLog w.log).Saw o a := by
    intro o a hsaw
    obtain ⟨t, -, hseen⟩ := hsaw
    exact ⟨t, trivial, h.mem_log hth (by rw [htr]; exact List.mem_append_left _ hseen)⟩
  obtain ⟨doc', hsaw, hparse⟩ := hread
  exact ⟨record, change, ⟨doc', whole _ _ hsaw, hparse⟩, hupdate.mono whole, heq⟩

/-- What an event does to the documents: nothing, or the swap of an update. -/
theorem event_cases {e : Event effects} (he : e ∈ w.log) {before after : Documents}
    (henv : documentsEnv e.time before e.op e.ans after) :
    after = before ∨ ∃ record change, ReadRecord rt (inLog w.log) record ∧ Update (inLog w.log) record change ∧
      e.op = replaceOp record change ∧
      Swap before record.key record.revision (storedRecord (change.next record)) after := by
  obtain ⟨t, o, a⟩ := e
  cases o with
  | bindingReplace key expected doc =>
    obtain ⟨record, change, hread, hupdate, heq⟩ := replaced_of_mem h he rfl
    obtain ⟨rfl, rfl, rfl⟩ := Op.bindingReplace.inj heq
    cases a with
    | error err => exact henv.imp_right fun hswap => ⟨record, change, hread, hupdate, rfl, hswap⟩
    | ok written =>
      cases written with
      | false => exact Or.inl henv
      | true => exact Or.inr ⟨record, change, hread, hupdate, rfl, henv⟩
  | bindingGet key =>
    cases a with
    | error err => exact Or.inl henv
    | ok doc => exact Or.inl henv.2
  | _ => exact Or.inl henv

/-- Every event of the log raises the revision of a document that it changes. -/
theorem raises {e : Event effects} (he : e ∈ w.log) {before after : Documents} (key : JsString)
    (henv : documentsEnv e.time before e.op e.ans after) :
    after key = before key ∨ revisionOf (before key) < revisionOf (after key) := by
  rcases event_cases h he henv with rfl | ⟨record, change, -, -, -, hswap⟩
  · exact Or.inl rfl
  · by_cases hkey : key = record.key
    · subst hkey
      have hmore := hswap.raises
      exact Or.inr (by omega)
    · rw [hswap.written, Documents.write, if_neg hkey]
      exact Or.inl rfl

/-- A swap at the revision of a record that was read finds that record: the document has
not changed in between. -/
theorem stored_of_swap {before after : List (Event effects)} {e : Event effects}
    (hlog : w.log = before ++ e :: after) {d d' : Documents} (hbefore : Replays documentsEnv docs 0 before d)
    (hafter : Replays documentsEnv d' e.time after w.state) {record : LocalRecord} {change : Change}
    (hread : ReadRecord rt (inLog w.log) record) (hop : e.op = replaceOp record change)
    (hswap : Swap d record.key record.revision (storedRecord (change.next record)) d') : Stored rt d record := by
  have step : ∀ x ∈ w.log, ∀ s s', documentsEnv x.time s x.op x.ans s' →
      s' record.key = s record.key ∨ revisionOf (s record.key) < revisionOf (s' record.key) :=
    fun x hx s s' henv => raises h hx record.key henv
  obtain ⟨doc, ⟨t, -, hmem⟩, hparse⟩ := hread
  have hmem : ⟨t, .bindingGet record.key, (.ok (some doc) : Except JsError (Option Json))⟩ ∈ w.log := hmem
  have hrev := revisionOf_parse hparse
  have hold := hswap.revision
  rw [hlog] at hmem
  rcases List.mem_append.mp hmem with hearlier | hlater
  · -- it was read before
    obtain ⟨a, b, rfl⟩ := List.append_of_mem hearlier
    obtain ⟨s₁, s₂, -, -, hget, hrest⟩ := hbefore.split
    obtain ⟨hdoc, rfl⟩ : some doc = s₁ record.key ∧ s₂ = s₁ := hget
    have hsame := hrest.version (fun s => s record.key) fun x hx => step x (by rw [hlog]; simp [hx])
    rcases hsame with hsame | hmore
    · exact ⟨doc, hsame.trans hdoc.symm, hparse⟩
    · rw [← hdoc] at hmore
      omega
  · rcases List.mem_cons.mp hlater with heq | hlater
    · rw [← heq] at hop
      cases hop
    · -- it cannot have been read afterwards, for the revision had gone up
      obtain ⟨a, b, rfl⟩ := List.append_of_mem hlater
      obtain ⟨s₁, s₂, hrest, -, hget, -⟩ := hafter.split
      obtain ⟨hdoc, -⟩ : some doc = s₁ record.key ∧ s₂ = s₁ := hget
      have hmore := hswap.raises
      have hsame := hrest.version (fun s => s record.key) fun x hx => step x (by rw [hlog]; simp [hx])
      rcases hsame with hsame | hmore'
      · rw [← hsame, ← hdoc] at hmore
        omega
      · rw [← hdoc] at hmore'
        omega

/-- The updates of a run take effect one at a time, each on the record that is stored. -/
theorem serial : Replays (serialEnv rt w.log) docs 0 w.log w.state := by
  refine h.replays.strengthen fun before e after s₁ s₂ hlog hbefore henv hafter => ?_
  have hmem : e ∈ w.log := by rw [hlog]; simp
  refine ⟨?_, fun record change hperforms => ?_, fun key doc heq => ?_⟩
  · refine (event_cases h hmem henv).imp_right fun hcases => ?_
    obtain ⟨record, change, hread, hupdate, hop, hswap⟩ := hcases
    exact ⟨record, change, stored_of_swap h hlog hbefore hafter hread hop hswap, hupdate, hswap.written⟩
  · obtain ⟨t, heq⟩ := hperforms.written
    obtain rfl : e = swapped t record change := heq
    exact ⟨stored_of_swap h hlog hbefore hafter hperforms.read rfl henv, hperforms.update, henv.written⟩
  · obtain ⟨t, o, a⟩ := e
    cases heq
    exact henv

end

/-! ## An account -/

/-- The binding with `docs` in it, with `answer` for everything else. -/
def documentsOracle (answer : (o : Op) → o.Ans) : Oracle effects Documents := fun _ docs o =>
  match o with
  | .bindingGet key => (.ok (docs key), docs)
  | .bindingReplace key expected doc =>
    if revisionOf (docs key) = expected then (.ok true, docs.write key doc) else (.ok false, docs)
  | o => (answer o, docs)

theorem documentsOracle_within (answer : (o : Op) → o.Ans) : (documentsOracle answer).Within documentsEnv := by
  intro t docs o
  cases o with
  | bindingGet key => exact ⟨rfl, rfl⟩
  | bindingReplace key expected doc =>
    by_cases hrev : revisionOf (docs key) = expected
    · simp only [documentsOracle, if_pos hrev, documentsEnv]
      exact ⟨hrev, rfl⟩
    · simp only [documentsOracle, if_neg hrev, documentsEnv]
  | _ => rfl

namespace Sample

/-- Bob signs in with a password and a backup code. -/
def bob : LocalRecord where
  id := js "bob"
  revision := 1
  securityVersion := 1
  disabled := false
  mfaRequired := true
  password := js "$argon2id$v=19$m=65536,t=3,p=1$c2FsdA$aGFzaA"
  totp := []
  backupCodes := [⟨js "AAAA", js "$argon2id$v=19$m=65536,t=3,p=1$c2FsdA$Y29kZQ"⟩]
  upstreams := []
  claims := none
  key := indexKey runtime Sample.config (js "bob@local.test")

/-- The document of a record is all there is. -/
def only (record : LocalRecord) : Documents := fun key =>
  if key = record.key then some (storedRecord record) else none

/-- Every password and every backup code is right. -/
def trusting : (o : Op) → o.Ans
  | .verifyArgon2id _ _ => .ok true
  | o => answer o

/-- Bob's password and one backup code, submitted twice. -/
def bobTwice : World (gateway runtime Sample.config) Documents :=
  browse (documentsOracle trusting) (only bob)
    [authorize 1000 "notes" "urn:sag:acr:local-mfa" "" [], submit 1010 .email 0 [("email", "bob@local.test")],
      submit 1020 .localPassword 1 [("password", "secret")], submit 1030 .localMfa 2 [("code", "aaaa-1")],
      submit 1040 .localMfa 2 [("code", "aaaa-1")]]

theorem bobTwice_reachable :
    Reachable (gateway runtime Sample.config) documentsEnv (only bob) bobTwice :=
  browse_reachable (documentsOracle_within trusting) _ _

end Sample

end Sag
