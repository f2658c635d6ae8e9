import Sag.Properties.Documents

/-!
# Second factors

A second factor is accepted by the swap that uses it up: the removal of a backup code
or a TOTP step. Since updates take effect one at a time (`serial`), whatever is
updated later starts from a later state of the account (`later_of_performs`), in which
a removed code is not there any more and a step is not above the last one.
-/

namespace Sag

open Resumable

variable {rt : Runtime} {config : Config}

/-- The event accepts the backup code `id` of the record under `key`. -/
def AcceptsBackup (rt : Runtime) (log : List (Event effects)) (key id : JsString) (e : Event effects) : Prop :=
  ∃ record, record.key = key ∧ Performs rt log record (.removeBackup id) e

/-- The event accepts `step` of the TOTP credential `id` of the record under `key`. -/
def AcceptsStep (rt : Runtime) (log : List (Event effects)) (key id : JsString) (step : Nat) (e : Event effects) :
    Prop :=
  ∃ record, record.key = key ∧ Performs rt log record (.totpStep id step) e

/-- Second factors are used once, and no update is lost. -/
structure ConsumedOnce (rt : Runtime) (config : Config) (docs : Documents)
    (w : World (gateway rt config) Documents) : Prop where
  /-- Every update that succeeds is one of the record that is stored at that moment, and
  nothing else changes a document. -/
  serial : Replays (serialEnv rt w.log) docs 0 w.log w.state
  /-- Every swap that succeeds is such an update. -/
  performed : ∀ t key expected doc,
    ⟨t, .bindingReplace key expected doc, (.ok true : Except JsError Bool)⟩ ∈ w.log →
      ∃ record change, Performs rt w.log record change
        ⟨t, .bindingReplace key expected doc, (.ok true : Except JsError Bool)⟩
  /-- It raises the stored revision by one. -/
  revision : ∀ record change d d', Updates rt w.log record change d d' →
    revisionOf (d' record.key) = revisionOf (d record.key) + 1
  /-- It is computed from what the updates before it have led to. -/
  kept : w.log.Pairwise fun e e' => ∀ record change record' change', Performs rt w.log record change e →
    Performs rt w.log record' change' e' → record.key = record'.key → Later (change.next record) record'
  backups : w.log.Pairwise fun e e' => ∀ key id,
    ¬ (AcceptsBackup rt w.log key id e ∧ AcceptsBackup rt w.log key id e')
  steps : w.log.Pairwise fun e e' => ∀ key id n n', AcceptsStep rt w.log key id n e →
    AcceptsStep rt w.log key id n' e' → n < n'
  /-- A submission that leads to a code has itself used a factor up. -/
  paid : ∀ th ∈ w.threads, ∀ request, th.req.served = some (.localMfa, request) → ∀ e ∈ th.trace, ∀ tx payload,
    e.op = .note (.codeIssued tx payload) → ∃ record change, change.isFactor = true ∧
      addressKey? rt config tx.email = some record.key ∧ ∃ e' ∈ th.trace, Performs rt w.log record change e'
  /-- And no two submissions use one backup code. -/
  submissions : w.threads.Pairwise fun th th' => ∀ key id, ∀ e ∈ th.trace, ∀ e' ∈ th'.trace,
    ¬ (AcceptsBackup rt w.log key id e ∧ AcceptsBackup rt w.log key id e')

section
variable {log : List (Event effects)} {record : LocalRecord} {change : Change} {d d' : Documents}

/-- After an update its record is stored, if anything readable is. -/
theorem Updates.next_stored (h : Updates rt log record change d d') {r : LocalRecord} (hkey : r.key = record.key)
    (hr : Stored rt d' r) : r = change.next record := by
  obtain ⟨doc, hdoc, hparse⟩ := h.stored
  obtain ⟨doc', hdoc', hparse'⟩ := hr
  rw [hkey] at hdoc' hparse'
  rw [h.written, Documents.write, if_pos rfl] at hdoc'
  obtain rfl := Option.some.inj hdoc'
  exact eq_of_parse_next hparse h.update hparse'

theorem Updates.raises (h : Updates rt log record change d d') :
    revisionOf (d' record.key) = revisionOf (d record.key) + 1 := by
  obtain ⟨doc, hdoc, hparse⟩ := h.stored
  have hswap : Swap d record.key record.revision (storedRecord (change.next record)) d' :=
    ⟨by rw [hdoc, revisionOf_parse hparse], h.written⟩
  exact hswap.raises

/-- What is stored under a key is a later state of `r`. -/
def StoredLater (rt : Runtime) (r : LocalRecord) (docs : Documents) : Prop :=
  ∀ r', r'.key = r.key → Stored rt docs r' → Later r r'

theorem Stored.later {r : LocalRecord} (h : Stored rt d r) : StoredLater rt r d := by
  intro r' hkey hr'
  rw [hr'.unique h hkey]
  exact .refl _

/-- One event keeps it that way. -/
theorem StoredLater.step {r : LocalRecord} {t : Nat} {o : Op} {a : o.Ans} (h : StoredLater rt r d)
    (henv : serialEnv rt log t d o a d') : StoredLater rt r d' := by
  intro r' hkey hr'
  rcases henv.1 with rfl | ⟨record, change, hupdates⟩
  · exact h r' hkey hr'
  · by_cases hrecord : record.key = r.key
    · obtain rfl := hupdates.next_stored (hkey.trans hrecord.symm) hr'
      exact (h record hrecord hupdates.stored).trans (hupdates.update.later hupdates.stored.valid)
    · -- a document of another account
      refine h r' hkey ?_
      obtain ⟨doc, hdoc, hparse⟩ := hr'
      rw [hupdates.written, Documents.write, if_neg (by rw [hkey]; exact Ne.symm hrecord)] at hdoc
      exact ⟨doc, hdoc, hparse⟩

/-- So do any number of them. -/
theorem StoredLater.run {r : LocalRecord} {c : Nat} {es : List (Event effects)} (h : StoredLater rt r d)
    (hes : Replays (serialEnv rt log) d c es d') : StoredLater rt r d' := by
  obtain ⟨_, hend, -, -⟩ := hes.invariant (I := fun _ s => StoredLater rt r s)
    (fun _ _ _ _ _ _ hs henv => hs.step henv) h
  exact hend

end

section
variable {docs : Documents} {w : World (gateway rt config) Documents}
variable (h : Reachable (gateway rt config) documentsEnv docs w)
include h

/-- An update starts from a later state than every update before it has led to. -/
theorem later_of_performs : w.log.Pairwise fun e e' => ∀ record change record' change',
    Performs rt w.log record change e → Performs rt w.log record' change' e' → record.key = record'.key →
      Later (change.next record) record' := by
  refine (serial h).pairwise fun e he mid e' he' s₀ s₁ s₂ s₃ hfirst hmid _ _ hsecond => ?_
  intro record change record' change' hperforms hperforms' hkey
  have hupdates := hfirst.2.1 record change hperforms
  have hstored := (hsecond.2.1 record' change' hperforms').stored
  have hnext : (change.next record).key = record.key := (change.next_sameAccount record).key
  have hbegin : StoredLater rt (change.next record) s₁ := by
    intro r hr hr'
    rw [hupdates.next_stored (hr.trans hnext) hr']
    exact .refl _
  exact hbegin.run hmid record' (hkey.symm.trans hnext.symm) hstored

/-- Every document of the run holds a later state of the record that was stored at first. -/
theorem stored_later {r : LocalRecord} (hr : Stored rt docs r) : StoredLater rt r w.state :=
  hr.later.run (serial h)

/-- So does every document that is read. -/
theorem read_later {r : LocalRecord} (hr : Stored rt docs r) {r' : LocalRecord}
    (hread : ReadRecord rt (inLog w.log) r') (hkey : r'.key = r.key) : Later r r' := by
  obtain ⟨doc, ⟨t, -, hmem⟩, hparse⟩ := hread
  have hmem : ⟨t, .bindingGet r'.key, (.ok (some doc) : Except JsError (Option Json))⟩ ∈ w.log := hmem
  obtain ⟨before, after, hlog⟩ := List.append_of_mem hmem
  have hserial := serial h
  rw [hlog] at hserial
  obtain ⟨s₁, s₂, hbefore, -, henv, -⟩ := hserial.split
  obtain ⟨hdoc, -⟩ := henv.2.2 r'.key (some doc) rfl
  exact hr.later.run hbefore r' hkey ⟨doc, hdoc.symm, hparse⟩

theorem backups_once : w.log.Pairwise fun e e' => ∀ key id,
    ¬ (AcceptsBackup rt w.log key id e ∧ AcceptsBackup rt w.log key id e') := by
  refine (later_of_performs h).imp fun hlater key id haccepted => ?_
  obtain ⟨⟨record, hkey, hfirst⟩, ⟨record', hkey', hsecond⟩⟩ := haccepted
  have hbackups := (hlater record _ record' _ hfirst hsecond (hkey.trans hkey'.symm)).backups
  cases hsecond.update with
  | removeBackup hmem =>
    obtain ⟨b, hb, hid⟩ := hbackups _ hmem
    exact removed_backup record _ b hb hid

theorem steps_increase : w.log.Pairwise fun e e' => ∀ key id n n', AcceptsStep rt w.log key id n e →
    AcceptsStep rt w.log key id n' e' → n < n' := by
  refine (later_of_performs h).imp fun hlater key id n n' hfirst hsecond => ?_
  obtain ⟨record, hkey, hfirst⟩ := hfirst
  obtain ⟨record', hkey', hsecond⟩ := hsecond
  have hsteps := (hlater record _ record' _ hfirst hsecond (hkey.trans hkey'.symm)).steps
  have hvalid : record.Valid rt := by
    obtain ⟨doc, -, hparse⟩ := hfirst.read
    exact (parse_valid hparse).1
  cases hsecond.update with
  | @totpStep credential step hmem habove hsafe =>
    obtain ⟨last, hlast, hle⟩ := hsteps _ n (written_step hvalid _ n) credential hmem rfl
    exact Nat.lt_of_le_of_lt hle (habove last hlast)

/-- A code is issued at the second factor for a factor that the request has used up. -/
theorem factor_of_issued {th : Thread (gateway rt config)} (hth : th ∈ w.threads) {request : Request}
    (hserved : th.req.served = some (.localMfa, request)) {e : Event effects} (he : e ∈ th.trace) {tx : Transaction}
    {payload : CodePayload} (hop : e.op = .note (.codeIssued tx payload)) :
    ∃ record change, change.isFactor = true ∧ addressKey? rt config tx.email = some record.key ∧
      ∃ e' ∈ th.trace, Performs rt w.log record change e' := by
  obtain ⟨pre, post, htr⟩ := List.append_of_mem he
  obtain ⟨endpoint, request', hserved', hguard⟩ :=
    guard_relying h hth htr (by rw [hop]; rfl) (R := seen pre) fun _ hx => hx
  obtain ⟨rfl, rfl⟩ := Prod.mk.inj (Option.some.inj (hserved.symm.trans hserved'))
  rw [hop] at hguard
  have own : ∀ o a, (during th.start e.time (seen pre)).Saw o a → ∃ t, ⟨t, o, a⟩ ∈ th.trace := by
    intro o a hsaw
    obtain ⟨t, -, hseen⟩ := hsaw
    exact ⟨t, by rw [htr]; exact List.mem_append_left _ hseen⟩
  have whole : ∀ o a, (during th.start e.time (seen pre)).Saw o a → (inLog w.log).Saw o a := by
    intro o a hsaw
    obtain ⟨t, hmem⟩ := own o a hsaw
    exact ⟨t, trivial, h.mem_log hth hmem⟩
  cases hguard with
  | limiting hlimiting => exact absurd hlimiting (not_limiting rfl)
  | issued hcompletion hminted =>
    cases hcompletion with
    | signedIn hsign _ =>
      cases hsign with
      | @factor _ _ record next hpresented hstage hallowed hfound hconsumed hnames hunproved hacr =>
        obtain ⟨change, hupdate, hfactor, -, hsaw⟩ := hconsumed
        obtain ⟨t, hmem⟩ := own _ _ hsaw
        obtain ⟨doc, hget, hparse⟩ := hfound.read
        exact ⟨record, change, hfactor, hfound.key, _, hmem, ⟨doc, whole _ _ hget, hparse⟩, hupdate.mono whole, t, rfl⟩

/-- Second factors are consumed exactly once, whatever is submitted, retained and
rekeyed at the same time. -/
theorem consumed_once : ConsumedOnce rt config docs w where
  serial := serial h
  performed t key expected doc he := by
    obtain ⟨record, change, hread, hupdate, heq⟩ := replaced_of_mem h he rfl
    obtain ⟨rfl, rfl, rfl⟩ := Op.bindingReplace.inj heq
    exact ⟨record, change, hread, hupdate, t, rfl⟩
  revision _ _ _ _ hupdates := hupdates.raises
  kept := later_of_performs h
  backups := backups_once h
  steps := steps_increase h
  paid _ hth _ hserved _ he _ _ hop := factor_of_issued h hth hserved he hop
  submissions := by
    refine (h.threads_pairwise (fun hr key id hboth => hr key id hboth.symm) (backups_once h)).imp ?_
    exact fun hr key id e he e' he' => hr e he e' he' key id

end

/-- Of Bob's two submissions of a backup code one leads to a code. -/
theorem bob_consumes_once : (issued Sample.bobTwice.log).length = 1 ∧
    ConsumedOnce Sample.runtime Sample.config (Sample.only Sample.bob) Sample.bobTwice :=
  ⟨by decide +kernel, consumed_once Sample.bobTwice_reachable⟩

end Sag
