import Sag.Properties.Rekeying

/-!
# Runs of rekeying

A run of `rekeyAll` that stops anywhere leaves every document as it was or with its record
rekeyed (`aftermath_of_replays`), and nothing that was ready for rekeying is lost; so a later run in
which nothing fails finishes the work, and from then on nothing changes (`rekeyAll_resumes`).
-/

namespace Sag

open Resumable

section
variable {K : Type} [DecidableEq K] {hkdf : Bytes → Bytes → K} {rt : Runtime} {new : JsString} {older : List JsString}
variable {others fails spare calm : Prop} {s s₁ s₂ s' : Custody K}

/-! ## What rekeying leads to -/

theorem Custody.Holds.mono {secrets secrets' : List JsString} {record : LocalRecord}
    (h : s.Holds hkdf rt secrets record.id record.upstreams) (hs : s.Legit hkdf rt) (hs' : s'.Legit hkdf rt)
    (hdone : ∀ call ∈ s.done, call ∈ s'.done) (hkeys : Keyring hkdf rt new older)
    (hsub : ∀ secret ∈ secrets, secret ∈ secrets') (hsecrets : ∀ secret ∈ secrets', secret ∈ new :: older)
    (hv : record.Valid rt) : s'.Holds hkdf rt secrets' record.id record.upstreams := by
  intro link hlink stored hstored
  obtain ⟨token, hopens⟩ := h link hlink stored hstored
  exact ⟨token, hopens.mono hs hs' hdone hkeys hsub hsecrets ⟨hv.id, (hv.upstreams link hlink).id⟩⟩

/-- The new secret opens every token of a rekeyed record. -/
theorem FullyRekeyed.current {record next : LocalRecord} (h : FullyRekeyed hkdf rt new older s record next) :
    s.Holds hkdf rt [new] next.id next.upstreams := by
  intro link' hlink' stored' hstored'
  obtain ⟨link, hlink, hsame⟩ := exists_of_forall₂ h.links hlink'
  cases hheld : link.held with
  | none =>
    rw [hsame.without hheld, hheld] at hstored'
    cases hstored'
  | some stored =>
    obtain ⟨stored'', token, hheld', -, hnew⟩ := hsame.opens stored hheld
    obtain rfl : stored' = stored'' := Option.some.inj (hstored'.symm.trans hheld')
    have hid : next.id = record.id := by rw [h.rest]
    refine ⟨token, ?_⟩
    rw [hid, hsame.rest]
    exact hnew

/-- A record whose tokens the new secret opens already is rekeyed as it stands. -/
theorem FullyRekeyed.refl {record : LocalRecord} (hs : s.Legit hkdf rt) (hkeys : Keyring hkdf rt new older)
    (hv : record.Valid rt) (h : s.Holds hkdf rt [new] record.id record.upstreams) :
    FullyRekeyed hkdf rt new older s record record := by
  refine ⟨rfl, List.forall₂_same.mpr fun link hlink => ?_⟩
  cases hheld : link.held with
  | none => exact .keep hheld
  | some stored =>
    obtain ⟨token, hopens⟩ := h link hlink stored hheld
    exact .current hs hkeys ⟨hv.id, (hv.upstreams link hlink).id⟩ hheld hopens

/-- Under the key there is a record with tokens that the new secret opens. -/
def Renewed (hkdf : Bytes → Bytes → K) (rt : Runtime) (new : JsString) (s : Custody K) (key : JsString) : Prop :=
  ∃ record, record.key = key ∧ Stored rt s.docs record ∧ s.Holds hkdf rt [new] record.id record.upstreams

/-- Under the key there is a record with tokens that open. -/
def Ready (hkdf : Bytes → Bytes → K) (rt : Runtime) (new : JsString) (older : List JsString) (s : Custody K)
    (key : JsString) : Prop :=
  ∃ record, record.key = key ∧ Stored rt s.docs record ∧ s.Holds hkdf rt (new :: older) record.id record.upstreams

/-- A record under the key needs no rekeying, or there is room for it. -/
def Spare (hkdf : Bytes → Bytes → K) (rt : Runtime) (new : JsString) (s : Custody K) (key : JsString) : Prop :=
  ∀ record, record.key = key → Stored rt s.docs record →
    s.Holds hkdf rt [new] record.id record.upstreams ∨ Roomy record

omit [DecidableEq K] in
theorem stored_write_ne {docs : Documents} {key : JsString} {doc : Json} {record : LocalRecord} (h : record.key ≠ key) :
    Stored rt (docs.write key doc) record ↔ Stored rt docs record := by
  rw [Stored, Documents.write, if_neg h]
  rfl

/-- What is known of a key is known while its document stays. -/
structure Keeps (hkdf : Bytes → Bytes → K) (rt : Runtime) (new : JsString) (older : List JsString) (s s' : Custody K)
    (key : JsString) : Prop where
  ready : Ready hkdf rt new older s key → Ready hkdf rt new older s' key
  spare : Spare hkdf rt new s key → Spare hkdf rt new s' key
  renewed : Renewed hkdf rt new s key → Renewed hkdf rt new s' key

theorem Keeps.of_stored (hkeys : Keyring hkdf rt new older) (hs : s.Legit hkdf rt) (hs' : s'.Legit hkdf rt)
    (hdone : ∀ call ∈ s.done, call ∈ s'.done) {key : JsString}
    (hsame : ∀ record, record.key = key → (Stored rt s'.docs record ↔ Stored rt s.docs record)) :
    Keeps hkdf rt new older s s' key := by
  have more : ∀ {secrets : List JsString} {r : LocalRecord}, (∀ secret ∈ secrets, secret ∈ new :: older) →
      r.Valid rt → s.Holds hkdf rt secrets r.id r.upstreams → s'.Holds hkdf rt secrets r.id r.upstreams :=
    fun hsecrets hv hholds => hholds.mono hs hs' hdone hkeys (fun _ hsecret => hsecret) hsecrets hv
  refine ⟨fun hready => ?_, fun hsp record hrecord hstored => ?_, fun hrenewed => ?_⟩
  · obtain ⟨record, hrecord, hstored, hholds⟩ := hready
    exact ⟨record, hrecord, (hsame record hrecord).mpr hstored, more (heldSecrets_sub false) hstored.valid hholds⟩
  · have hbefore := (hsame record hrecord).mp hstored
    exact (hsp record hrecord hbefore).imp_left (more (heldSecrets_sub true) hbefore.valid)
  · obtain ⟨record, hrecord, hstored, hholds⟩ := hrenewed
    exact ⟨record, hrecord, (hsame record hrecord).mpr hstored, more (heldSecrets_sub true) hstored.valid hholds⟩

theorem Keeps.trans {key : JsString} (h : Keeps hkdf rt new older s s₁ key) (h' : Keeps hkdf rt new older s₁ s₂ key) :
    Keeps hkdf rt new older s s₂ key :=
  ⟨fun hready => h'.ready (h.ready hready), fun hspare => h'.spare (h.spare hspare),
    fun hrenewed => h'.renewed (h.renewed hrenewed)⟩

/-- After a record has been rekeyed it is renewed, and nothing is lost of the others. -/
theorem RecordRekeyed.after {record : LocalRecord} {r : LocalRecord × Bool}
    (h : RecordRekeyed hkdf rt new older others s record s' r) (halone : ¬others) (hkeys : Keyring hkdf rt new older)
    (hs : s.Legit hkdf rt) (hstored : Stored rt s.docs record)
    (hspare : s.Holds hkdf rt [new] record.id record.upstreams ∨ Roomy record) :
    Renewed hkdf rt new s' record.key ∧ ∀ key, Keeps hkdf rt new older s s' key := by
  have keep : ∀ key, (∀ record', record'.key = key → (Stored rt s'.docs record' ↔ Stored rt s.docs record')) →
      Keeps hkdf rt new older s s' key := fun _ hsame => Keeps.of_stored hkeys hs h.legit h.done hsame
  cases hchanged : r.2 with
  | false =>
    obtain ⟨-, hnew, hdocs⟩ := h.unchanged hchanged
    have hdocs := hdocs halone
    refine ⟨⟨record, rfl, ?_, hnew⟩, fun key => keep key fun record' _ => by rw [hdocs]⟩
    rw [hdocs]
    exact hstored
  | true =>
    obtain ⟨upstreams, hnext, hrekeyed, -, hreadable, hdocs⟩ := h.changed hchanged
    have hdocs := hdocs halone
    have hkey : r.1.key = record.key := by rw [hnext]; rfl
    have hroom : Roomy record := by
      refine hspare.resolve_left fun hnew => ?_
      rw [h.current hnew] at hchanged
      cases hchanged
    have hnext := hreadable.mpr hroom
    refine ⟨⟨r.1, hkey, hnext, hrekeyed.current⟩, fun key => ?_⟩
    by_cases heq : key = record.key
    · subst heq
      refine ⟨fun _ => ⟨r.1, hkey, hnext, ?_⟩, fun _ record' hrecord' hstored' => ?_,
        fun _ => ⟨r.1, hkey, hnext, hrekeyed.current⟩⟩
      · exact hrekeyed.current.mono h.legit h.legit (fun _ hcall => hcall) hkeys (heldSecrets_sub true)
          (heldSecrets_sub false) hnext.valid
      · obtain rfl := hstored'.unique hnext (hrecord'.trans hkey.symm)
        exact Or.inl hrekeyed.current
    · refine keep key fun record' hrecord' => ?_
      rw [hdocs, stored_write_ne (by rw [hrecord']; exact heq)]

/-! ## All records -/

/-- What rekeying all records comes to: with nothing going wrong, every record is renewed, and no
record is written that was renewed before. -/
structure AllRekeyed (hkdf : Bytes → Bytes → K) (rt : Runtime) (new : JsString) (calm : Prop) (s : Custody K)
    (keys : List JsString) (s' : Custody K) (r : Nat × Nat) : Prop where
  legit : s'.Legit hkdf rt
  count : r.1 + r.2 = keys.length
  renewed : calm → ∀ key ∈ keys, Renewed hkdf rt new s' key
  kept : calm → ∀ key, Renewed hkdf rt new s key → Renewed hkdf rt new s' key
  idle : calm → (∀ key ∈ keys, Renewed hkdf rt new s key) → r.1 = 0 ∧ s'.docs = s.docs

/-- What is left of the loop once a document has been read. -/
def rekeyDocument (rt : Runtime) (key : JsString) (keys : List JsString) (doc : Option Json) : M (Nat × Nat) :=
  match doc.bind fun doc => parseLocalIdentityRecord rt doc key with
  | none => fail (.error (js "local identity record " ++ key ++ js ".json is malformed"))
  | some record => do
    let (_, changed) ← rekeyRecord record
    let (changes, rest) ← rekeyAll rt keys
    pure (if changed then (changes + 1, rest) else (changes, rest + 1))

theorem rekeyAll_meets (hkeys : Keyring hkdf rt new older) (hcalm : calm → spare ∧ ¬fails) (halone : spare → ¬others)
    {keys : List JsString} (hs : s.Legit hkdf rt) (hready : calm → ∀ key ∈ keys, Ready hkdf rt new older s key)
    (hspare : spare → ∀ key ∈ keys, Spare hkdf rt new s key) :
    (rekeyAll rt keys).Meets (custodyEnv hkdf rt new older others fails) (rekeyEnv hkdf rt new older others spare)
      (fun _ _ => ¬calm) (AllRekeyed hkdf rt new calm s keys) s := by
  induction keys generalizing s with
  | nil => exact ⟨hs, rfl, fun _ => (fun _ hmem => by cases hmem), fun _ _ hrenewed => hrenewed, fun _ _ => ⟨rfl, rfl⟩⟩
  | cons key keys ih =>
    intro t a s₁ henv
    obtain ⟨s₀, hmeanwhile, ⟨hget, hvault, hdone⟩, hworks⟩ := henv
    have hdocs : s₁.docs = s₀.docs := by
      cases a with
      | error err => exact hget
      | ok doc => exact hget.2
    have hlegit : s₁.Legit hkdf rt :=
      ⟨by rw [hvault, hdone]; exact hmeanwhile.legit.run, by rw [hdone]; exact hmeanwhile.legit.calls⟩
    have hkept : ∀ call ∈ s₀.done, call ∈ s₁.done := fun call hcall => by rw [hdone]; exact hcall
    obtain ⟨hgrows, hstep⟩ := hmeanwhile.rekeyStep hlegit hkept hdocs
    refine ⟨hstep, ?_⟩
    -- alone, the documents are those there were
    have hquiet : ¬others → s₁.docs = s.docs := fun hnot => by rw [hdocs, hmeanwhile.alone hnot]
    have keep : ¬others → ∀ key, Keeps hkdf rt new older s s₁ key := fun hnot key =>
      Keeps.of_stored hkeys hs hlegit hgrows.done fun record _ => by rw [hquiet hnot]
    cases a with
    | error err =>
      intro hyes
      obtain ⟨doc, hdoc⟩ := hworks (hcalm hyes).2
      cases hdoc
    | ok doc =>
      show (rekeyDocument rt key keys doc).Meets _ _ _ _ s₁
      have hdoc : doc = s₁.docs key := by rw [hdocs]; exact hget.1
      unfold rekeyDocument
      split
      · next hnone =>
        intro hyes
        obtain ⟨record, hkey, ⟨d, hd, hparse⟩, -⟩ := (keep (halone (hcalm hyes).1) key).ready
          (hready hyes key List.mem_cons_self)
        rw [hkey] at hd hparse
        rw [hdoc, hd, Option.bind_some, hparse] at hnone
        cases hnone
      · next record hrecord =>
        obtain ⟨d, hd, hparse⟩ := Option.bind_eq_some_iff.mp hrecord
        have hkey := parse_key hparse
        have hstored : Stored rt s₁.docs record := ⟨d, by rw [hkey, ← hdoc, hd], by rw [hkey]; exact hparse⟩
        have hroom : spare → s₁.Holds hkdf rt [new] record.id record.upstreams ∨ Roomy record := fun hsp =>
          (keep (halone hsp) key).spare (hspare hsp key List.mem_cons_self) record hkey hstored
        refine Prog.Meets.bind (rekeyRecord_meets hkeys (fun hyes => ⟨halone (hcalm hyes).1, (hcalm hyes).2⟩)
          hstored.valid hstored.fits hlegit (Or.inl hstored) (fun hyes => ⟨hstored, ?_⟩) hroom) fun s₂ r hr => ?_
        · obtain ⟨record', hkey', hstored', hholds⟩ := (keep (halone (hcalm hyes).1) key).ready
            (hready hyes key List.mem_cons_self)
          obtain rfl := hstored'.unique hstored (hkey'.trans hkey.symm)
          exact hholds
        · have after := fun hsp => hr.after (halone hsp) hkeys hlegit hstored (hroom hsp)
          have through : spare → ∀ k, Keeps hkdf rt new older s s₂ k := fun hsp k =>
            ((keep (halone hsp) k).trans ((after hsp).2 k))
          refine Prog.Meets.bind (ih hr.legit (fun hyes k hk => ?_) fun hsp k hk => ?_) fun s₃ counts hcounts => ?_
          · exact (through (hcalm hyes).1 k).ready (hready hyes k (List.mem_cons_of_mem _ hk))
          · exact (through hsp k).spare (hspare hsp k (List.mem_cons_of_mem _ hk))
          refine ⟨hcounts.legit, ?_, fun hyes k hk => ?_, fun hyes k hk => ?_, fun hyes hall => ?_⟩
          · have hcount := hcounts.count
            split
            · rw [List.length_cons, ← hcount]
              omega
            · rw [List.length_cons, ← hcount]
              omega
          · rcases List.mem_cons.mp hk with rfl | hk
            · have hrenewed := (after (hcalm hyes).1).1
              rw [hkey] at hrenewed
              exact hcounts.kept hyes _ hrenewed
            · exact hcounts.renewed hyes k hk
          · exact hcounts.kept hyes k ((through (hcalm hyes).1 k).renewed hk)
          · -- the record is renewed already, so it is left as it is
            have hsp := (hcalm hyes).1
            obtain ⟨record', hkey', hstored', hnew⟩ := (keep (halone hsp) key).renewed (hall key List.mem_cons_self)
            obtain rfl := hstored'.unique hstored (hkey'.trans hkey.symm)
            have hsame := hr.current hnew
            obtain ⟨hzero, hdocs'⟩ := hcounts.idle hyes fun k hk =>
              (through hsp k).renewed (hall k (List.mem_cons_of_mem _ hk))
            obtain ⟨-, -, hdocs₂⟩ := hr.unchanged hsame
            rw [if_neg (by rw [hsame]; decide)]
            exact ⟨hzero, by rw [hdocs', hdocs₂ (halone hsp), hquiet (halone hsp)]⟩

/-! ## Whole runs -/

/-- A token that is sealed twice is the one there was. -/
theorem SameToken.trans {identityId : JsString} {link link' link'' : UpstreamLink}
    (h : SameToken hkdf rt new older s identityId link link')
    (h' : SameToken hkdf rt new older s identityId link' link'')
    (hs : s.Legit hkdf rt) (hkeys : Keyring hkdf rt new older) (hsafe : (Use.refresh identityId link.id).Safe) :
    SameToken hkdf rt new older s identityId link link'' := by
  have hrest := h.rest
  generalize link'.refreshToken = refreshToken at hrest
  cases hheld : link.held with
  | none =>
    obtain rfl := h.without hheld
    exact h'
  | some stored =>
    obtain ⟨stored', token, hheld', hold, hmiddle⟩ := h.opens stored hheld
    obtain ⟨stored'', token', hheld'', hmiddle', hnew⟩ := h'.opens stored' hheld'
    subst hrest
    -- the text in the middle opens to one token
    have hmiddle := hmiddle.mono hs hs (fun _ hcall => hcall) hkeys (heldSecrets_sub true) (heldSecrets_sub false) hsafe
    have hsame := refreshJson_inj.mp (Except.ok.inj ((hmiddle 0).symm.trans (hmiddle' 0)))
    obtain rfl : token = token' := hsame.2.2.2.2.2
    refine ⟨h'.rest, fun hnone => ?_, fun stored₀ hstored₀ => ?_⟩
    · rw [hnone] at hheld
      cases hheld
    · obtain rfl : stored = stored₀ := Option.some.inj (hheld.symm.trans hstored₀)
      exact ⟨stored'', token, hheld'', hold, hnew⟩

theorem FullyRekeyed.trans {record next next' : LocalRecord} (h : FullyRekeyed hkdf rt new older s record next)
    (h' : FullyRekeyed hkdf rt new older s next next') (hs : s.Legit hkdf rt) (hkeys : Keyring hkdf rt new older)
    (hv : record.Valid rt) : FullyRekeyed hkdf rt new older s record next' := by
  have hid : next.id = record.id := by rw [h.rest]
  have hlinks' := h'.links
  rw [hid] at hlinks'
  have hall : ∀ {links links' links'' : List UpstreamLink}, (∀ l ∈ links, (Use.refresh record.id l.id).Safe) →
      List.Forall₂ (SameToken hkdf rt new older s record.id) links links' →
        List.Forall₂ (SameToken hkdf rt new older s record.id) links' links'' →
          List.Forall₂ (SameToken hkdf rt new older s record.id) links links'' := by
    intro links links' links'' hsafe hfirst
    induction hfirst generalizing links'' with
    | nil => exact fun hsecond => hsecond
    | cons hl _ ih =>
      intro hsecond
      cases hsecond with
      | cons hl' hsecond =>
        exact .cons (hl.trans hl' hs hkeys (hsafe _ List.mem_cons_self))
          (ih (fun l hl => hsafe l (List.mem_cons_of_mem _ hl)) hsecond)
  refine ⟨?_, hall (fun l hl => ⟨hv.id, (hv.upstreams l hl).id⟩) h.links hlinks'⟩
  rw [h'.rest, h.rest]

theorem FullyRekeyed.onward {record next : LocalRecord} (h : FullyRekeyed hkdf rt new older s record next)
    (hs : s.Legit hkdf rt) (honward : s.Onward hkdf rt s') (hkeys : Keyring hkdf rt new older)
    (hv : record.Valid rt) : FullyRekeyed hkdf rt new older s' record next := by
  have hsafe : ∀ l ∈ record.upstreams, (Use.refresh record.id l.id).Safe := fun l hl => ⟨hv.id, (hv.upstreams l hl).id⟩
  exact ⟨h.rest, ((List.forall₂_and_left _ _).mpr ⟨hsafe, h.links⟩).imp fun _ _ hl => hl.2.onward hs honward hkeys hl.1⟩

/-- What has become of the document under a key: it is as it was, or its record has been rekeyed. -/
def Aftermath (hkdf : Bytes → Bytes → K) (rt : Runtime) (new : JsString) (older : List JsString) (s s' : Custody K)
    (key : JsString) : Prop :=
  s'.docs key = s.docs key ∨ ∃ record next, record.key = key ∧ Stored rt s.docs record ∧ next.key = key ∧
    Stored rt s'.docs next ∧ FullyRekeyed hkdf rt new older s' record next

/-- One step, alone. -/
theorem RekeyStep.aftermath {s₀ : Custody K} (hkeys : Keyring hkdf rt new older) (hs : s.Legit hkdf rt) {o : Op}
    (h : RekeyStep hkdf rt new older False True s o s') (hall : ∀ key, Aftermath hkdf rt new older s₀ s key) :
    (∀ call ∈ s.done, call ∈ s'.done) ∧ ∀ key, Aftermath hkdf rt new older s₀ s' key := by
  obtain ⟨s₁, hmeanwhile, hdone, hcases⟩ := h.step
  obtain rfl := hmeanwhile.alone not_false
  refine ⟨hdone, fun key => ?_⟩
  -- where the document stays, so does what is known of it
  have stays : s'.docs key = s₁.docs key → Aftermath hkdf rt new older s₀ s' key := by
    intro hsame
    rcases hall key with hkept | ⟨record, next, hkey, hstored, hkey', hnext, hrekeyed⟩
    · exact Or.inl (hsame.trans hkept)
    · refine Or.inr ⟨record, next, hkey, hstored, hkey', ?_, ?_⟩
      · rw [Stored, hkey', hsame, ← hkey']
        exact hnext
      · exact hrekeyed.onward hs ⟨h.legit, hdone⟩ hkeys hstored.valid
  rcases hcases with hsame | ⟨record, upstreams, hrewrites, hroom⟩
  · exact stays (by rw [hsame])
  · by_cases heq : key = record.key
    · subst heq
      have hnext := hrewrites.readable.mpr (hroom trivial)
      rcases hall record.key with hkept | ⟨record₀, next₀, hkey, hstored, hkey', hnext₀, hrekeyed⟩
      · refine Or.inr ⟨record, (Change.rekey upstreams).next record, rfl, ?_, rfl, hnext, hrewrites.rekeyed⟩
        rw [Stored, ← hkept]
        exact hrewrites.stored
      · -- the record that is replaced has been rekeyed before
        obtain rfl := hrewrites.stored.unique hnext₀ hkey'.symm
        refine Or.inr ⟨record₀, (Change.rekey upstreams).next record, hkey, hstored, rfl, hnext, ?_⟩
        exact (hrekeyed.onward hs ⟨h.legit, hdone⟩ hkeys hstored.valid).trans hrewrites.rekeyed h.legit hkeys
          hstored.valid
    · refine stays ?_
      rw [hrewrites.written, Documents.write, if_neg heq]

/-- A run that nobody disturbs leaves every document as it was or rekeyed. -/
theorem aftermath_of_replays (hkeys : Keyring hkdf rt new older) (hs : s.Legit hkdf rt) {c : Nat}
    {es : List (Event effects)} (h : Replays (rekeyEnv hkdf rt new older False True) s c es s') :
    s.Onward hkdf rt s' ∧ ∀ key, Aftermath hkdf rt new older s s' key := by
  have step : ∀ e ∈ es, ∀ (c : Nat) s₁ s₂, c ≤ e.time →
      (s.Onward hkdf rt s₁ ∧ ∀ key, Aftermath hkdf rt new older s s₁ key) →
        RekeyStep hkdf rt new older False True s₁ e.op s₂ →
          s.Onward hkdf rt s₂ ∧ ∀ key, Aftermath hkdf rt new older s s₂ key := by
    intro e _ c s₁ s₂ _ hI hstep
    obtain ⟨hdone, hkept⟩ := hstep.aftermath hkeys hI.1.legit hI.2
    exact ⟨⟨hstep.legit, fun call hcall => hdone call (hI.1.done call hcall)⟩, hkept⟩
  obtain ⟨_, hall, -⟩ := h.invariant step ⟨⟨hs, fun _ hcall => hcall⟩, fun _ => Or.inl rfl⟩
  exact hall

/-- What was ready or spare is so after the run. -/
theorem Aftermath.keeps (hkeys : Keyring hkdf rt new older) (hs : s.Legit hkdf rt) (honward : s.Onward hkdf rt s')
    {key : JsString} (h : Aftermath hkdf rt new older s s' key) : Keeps hkdf rt new older s s' key := by
  rcases h with hsame | ⟨record, next, -, -, hkey, hnext, hrekeyed⟩
  · refine Keeps.of_stored hkeys hs honward.legit honward.done fun record hrecord => ?_
    rw [Stored, Stored, hrecord, hsame]
  · have hnew := hrekeyed.current
    refine ⟨fun _ => ⟨next, hkey, hnext, ?_⟩, fun _ record' hrecord' hstored' => ?_, fun _ => ⟨next, hkey, hnext, hnew⟩⟩
    · exact hnew.mono honward.legit honward.legit (fun _ hcall => hcall) hkeys (heldSecrets_sub true)
        (heldSecrets_sub false) hnext.valid
    · obtain rfl := hstored'.unique hnext (hrecord'.trans hkey.symm)
      exact Or.inl hnew

/-- Rekeying a record loses nothing, whatever others do and whichever calls fail, and the record it
leads to needs no rekeying. What it has written can be read back exactly when there is room. -/
theorem rekeyRecord_lossless (hkeys : Keyring hkdf rt new older) (hs : s.Legit hkdf rt) {record : LocalRecord}
    (hstored : Stored rt s.docs record) {es : List (Event effects)} {c : Nat} {r : LocalRecord × Bool}
    (hsteps : Prog.Steps (rekeyRecord record) es (.pure r))
    (hreplays : Replays (custodyEnv hkdf rt new older others fails) s c es s') :
    FullyRekeyed hkdf rt new older s' record r.1 ∧ (r.2 = false → r.1 = record) ∧
      (r.2 = true → r.1.revision = record.revision + 1 ∧ s'.docs record.key = some (storedRecord r.1) ∧
        (Stored rt s'.docs r.1 ↔ Roomy record)) ∧
      ∀ {others fails : Prop} {es' : List (Event effects)} {c' : Nat} {r' : LocalRecord × Bool} {s'' : Custody K},
        Stored rt s'.docs r.1 → Prog.Steps (rekeyRecord r.1) es' (.pure r') →
          Replays (custodyEnv hkdf rt new older others fails) s' c' es' s'' → r' = (r.1, false) := by
  have meets : ∀ {others fails : Prop} {s : Custody K} {record : LocalRecord}, s.Legit hkdf rt →
      Stored rt s.docs record → (rekeyRecord record).Meets (custodyEnv hkdf rt new older others fails)
        (rekeyEnv hkdf rt new older others False) (fun _ _ => ¬False)
        (RecordRekeyed hkdf rt new older others s record) s := fun hs hstored =>
    rekeyRecord_meets hkeys False.elim hstored.valid hstored.fits hs (Or.inl hstored) False.elim False.elim
  obtain ⟨-, hr⟩ := (meets hs hstored).steps hsteps hreplays
  have hr : RecordRekeyed hkdf rt new older others s record s' r := hr
  have hrekeyed : FullyRekeyed hkdf rt new older s' record r.1 := by
    cases hchanged : r.2 with
    | false =>
      obtain ⟨hsame, hnew, -⟩ := hr.unchanged hchanged
      rw [hsame]
      exact .refl hr.legit hkeys hstored.valid hnew
    | true =>
      obtain ⟨_, -, hrekeyed, -⟩ := hr.changed hchanged
      exact hrekeyed
  refine ⟨hrekeyed, fun hchanged => (hr.unchanged hchanged).1, fun hchanged => ?_, fun hstored' hsteps' hreplays' => ?_⟩
  · obtain ⟨upstreams, hnext, -, hwritten, hreadable, -⟩ := hr.changed hchanged
    exact ⟨by rw [hnext]; rfl, hwritten, hreadable⟩
  · obtain ⟨-, hr'⟩ := (meets hr.legit hstored').steps hsteps' hreplays'
    have hsame := hr'.current hrekeyed.current
    exact Prod.ext (hr'.unchanged hsame).1 hsame

/-- In every run of `rekeyAll`, to wherever it has got, each step leaves the documents to the others, or
replaces the stored record by itself, rekeyed. -/
theorem rekeyAll_steps (hkeys : Keyring hkdf rt new older) (hs : s.Legit hkdf rt) {keys : List JsString}
    {es : List (Event effects)} {c : Nat} {p : M (Nat × Nat)} (hsteps : Prog.Steps (rekeyAll rt keys) es p)
    (hreplays : Replays (custodyEnv hkdf rt new older others fails) s c es s') :
    Replays (rekeyEnv hkdf rt new older others False) s c es s' := by
  have hmeets : (rekeyAll rt keys).Meets (custodyEnv hkdf rt new older others fails)
      (rekeyEnv hkdf rt new older others False) (fun _ _ => ¬False) (AllRekeyed hkdf rt new False s keys) s :=
    rekeyAll_meets hkeys False.elim False.elim hs False.elim False.elim
  exact (hmeets.steps hsteps hreplays).1

/-- The calls that rekey a record with one link, whose token an older secret has sealed. -/
def rekeyEvents (record : LocalRecord) (link : UpstreamLink) (stored token : JsString) (iv ct : Bytes) :
    List (Event effects) :=
  let purpose := REFRESH_PURPOSE record.id link.id
  [⟨0, .openRefresh true purpose stored,
      (.error (.sealError (js "could not decrypt token")) : Except JsError Json)⟩,
    ⟨0, .openRefresh false purpose stored, (.ok (refreshJson record.id link token) : Except JsError Json)⟩,
    ⟨0, .encrypt purpose (utf8 (refreshPayload record.id link token)), (iv, ct)⟩,
    ⟨0, replaceOp record (.rekey [{ link with refreshToken := some (sealedText purpose iv ct) }]),
      (.ok true : Except JsError Bool)⟩]

theorem rekeyEvents_steps {record : LocalRecord} {link : UpstreamLink} {stored : JsString}
    (hlinks : record.upstreams = [link]) (hheld : link.held = some stored) (token : JsString) (iv ct : Bytes) :
    ∃ next, Prog.Steps (rekeyRecord record) (rekeyEvents record link stored token iv ct) (.pure (next, true)) := by
  have hopen : Prog.Steps (openRefreshToken record link stored)
      [⟨0, .openRefresh true (REFRESH_PURPOSE record.id link.id) stored,
          (.error (.sealError (js "could not decrypt token")) : Except JsError Json)⟩,
        ⟨0, .openRefresh false (REFRESH_PURPOSE record.id link.id) stored,
          (.ok (refreshJson record.id link token) : Except JsError Json)⟩] (.pure (token, false)) := by
    have hchecked : checkedBinding record link (refreshJson record.id link token) false = .pure (token, false) := by
      rw [checkedBinding, boundTo_refreshJson.mpr rfl]
      rfl
    rw [← hchecked]
    exact .cons rfl (.cons rfl (.nil _))
  let text := sealedText (REFRESH_PURPOSE record.id link.id) iv ct
  have hall : Prog.Steps (rekeyLinks record record.upstreams)
      [⟨0, .openRefresh true (REFRESH_PURPOSE record.id link.id) stored,
          (.error (.sealError (js "could not decrypt token")) : Except JsError Json)⟩,
        ⟨0, .openRefresh false (REFRESH_PURPOSE record.id link.id) stored,
          (.ok (refreshJson record.id link token) : Except JsError Json)⟩,
        ⟨0, .encrypt (REFRESH_PURPOSE record.id link.id) (utf8 (refreshPayload record.id link token)), (iv, ct)⟩]
      (.pure ([{ link with refreshToken := some text }], true)) := by
    have hheld : link.refreshToken.filter (· ≠ []) = some stored := hheld
    rw [hlinks, rekeyLinks, hheld]
    exact hopen.bind (.cons rfl (.nil _))
  exact ⟨_, hall.bind (.cons rfl (.nil _))⟩

theorem Meanwhile.refl (hs : s.Legit hkdf rt) : Meanwhile hkdf rt others s s :=
  ⟨hs, fun _ hcall => hcall, fun _ => Or.inl rfl, fun _ => rfl⟩

/-- They are calls of an undisturbed run. -/
theorem rekeyEvents_replays (hkeys : Keyring hkdf rt new older) (hs : s.Legit hkdf rt) {record : LocalRecord}
    {link : UpstreamLink} {stored token : JsString} (hstored : Stored rt s.docs record)
    (hlink : link ∈ record.upstreams) (hopens : s.Opens hkdf rt (new :: older) record.id link stored token)
    (hold : ∀ call ∈ s.done, call.masterSecret ≠ new) {iv ct : Bytes} (hfresh : ∀ call ∈ s.done, call.iv ≠ iv)
    (hiv : iv.length = 12) (hct : ct.length = (utf8 (refreshPayload record.id link token)).length + 16) :
    ∃ s', Replays (custodyEnv hkdf rt new older False False) s 0 (rekeyEvents record link stored token iv ct) s' := by
  have hsafe : (Use.refresh record.id link.id).Safe := ⟨hstored.valid.id, (hstored.valid.upstreams link hlink).id⟩
  obtain ⟨call, hcall, -, hpurpose, -, -, hpayload⟩ := (hs.opens_iff hkeys (heldSecrets_sub false) hsafe).mp hopens
  have hproper := (hs.calls call hcall).proper
  have hversion : WellFormedText (js "k1") := by
    have hascii : ∀ u ∈ js "k1", u < 128 := by decide
    exact WellFormedText.ascii hascii
  let again : SealCall :=
    ⟨new, REFRESH_PURPOSE record.id link.id, refreshJson record.id link token, none, iv, ct⟩
  have htext : again.text rt = refreshPayload record.id link token := refreshJson_text hkeys.one _ _ _
  have hagain : again.Proper rt := by
    have htexts := hproper.purpose
    rw [hpurpose] at htexts
    refine ⟨hkeys.texts new List.mem_cons_self, htexts, hversion, ?_⟩
    have hparse := hproper.payload
    rw [SealCall.text, hpayload] at hparse
    exact hparse
  -- the vault after each call
  let v₁ := (s.vault.unseal hkdf rt [new] (REFRESH_PURPOSE record.id link.id) stored 0 none).1
  have hs₁ : Custody.Legit hkdf rt ⟨s.docs, v₁, s.done⟩ := ⟨.unsealing hs.run _ _ _ _ _, hs.calls⟩
  let v₂ := (v₁.unseal hkdf rt (new :: older) (REFRESH_PURPOSE record.id link.id) stored 0 none).1
  have hs₂ : Custody.Legit hkdf rt ⟨s.docs, v₂, s.done⟩ := ⟨.unsealing hs₁.run _ _ _ _ _, hs.calls⟩
  have hagree : ∀ e ∈ v₂.encrypted,
      (again.encryption rt (aesKey hkdf new (REFRESH_PURPOSE record.id link.id) v₂.aesCache).1).Agrees e := by
    intro e he hsame
    obtain ⟨call', hcall', key, -, rfl⟩ := hs₂.run.sound.made e he
    exact absurd hsame.symm (hfresh call' hcall')
  have hprogram : again.OfProgram rt := by
    refine ⟨hagain, rfl, .refresh record.id link.id, hsafe, rfl, fun identityId linkId heq => ?_⟩
    obtain ⟨rfl, rfl⟩ := Use.refresh.inj heq
    exact ⟨⟨link, token, rfl, rfl⟩, hiv, by rw [htext]; exact hct⟩
  have hs₃ : Custody.Legit hkdf rt ⟨s.docs, (v₂.seal hkdf rt again).1, again :: s.done⟩ := by
    refine ⟨.sealing hs₂.run again hagree, fun c hc => ?_⟩
    rcases List.mem_cons.mp hc with rfl | hc
    · exact hprogram
    · exact hs.calls c hc
  have hfirst : custodyEnv hkdf rt new older False False 0 s
      (.openRefresh true (REFRESH_PURPOSE record.id link.id) stored)
      (.error (.sealError (js "could not decrypt token")) : Except JsError Json) ⟨s.docs, v₁, s.done⟩ := by
    refine ⟨s, .refl hs, ⟨fun x => ⟨(fun hno => by cases hno), fun hreturns => ?_⟩, rfl⟩, fun _ => trivial⟩
    obtain ⟨call', hcall', -, -, hmem, -⟩ := (hs.returns_iff hkeys (heldSecrets_sub true) hsafe).mp hreturns
    exact absurd (List.mem_singleton.mp hmem) (hold call' hcall')
  have hsecond : custodyEnv hkdf rt new older False False 0 ⟨s.docs, v₁, s.done⟩
      (.openRefresh false (REFRESH_PURPOSE record.id link.id) stored)
      (.ok (refreshJson record.id link token) : Except JsError Json) ⟨s.docs, v₂, s.done⟩ := by
    refine ⟨_, .refl hs₁, ⟨fun x => ?_, rfl⟩, fun _ => trivial⟩
    have hopened : (v₁.unseal hkdf rt (new :: older) (REFRESH_PURPOSE record.id link.id) stored 0 none).2 =
        .ok (refreshJson record.id link token) :=
      hopens.onward hs ⟨hs₁, fun _ hc => hc⟩ hkeys (heldSecrets_sub false) hsafe 0
    show _ ↔ (v₁.unseal hkdf rt (new :: older) (REFRESH_PURPOSE record.id link.id) stored 0 none).2 = .ok x
    rw [hopened, Except.ok.injEq, Except.ok.injEq]
  have hthird : custodyEnv hkdf rt new older False False 0 ⟨s.docs, v₂, s.done⟩
      (.encrypt (REFRESH_PURPOSE record.id link.id) (utf8 (refreshPayload record.id link token))) (iv, ct)
      ⟨s.docs, (v₂.seal hkdf rt again).1, again :: s.done⟩ :=
    ⟨_, .refl hs₂, ⟨_, hagain, congrArg utf8 htext, hiv, hct, hagree, rfl⟩, fun _ => trivial⟩
  let text := sealedText (REFRESH_PURPOSE record.id link.id) iv ct
  let next := (Change.rekey [{ link with refreshToken := some text }]).next record
  have hfourth : custodyEnv hkdf rt new older False False 0 ⟨s.docs, (v₂.seal hkdf rt again).1, again :: s.done⟩
      (replaceOp record (.rekey [{ link with refreshToken := some text }])) (.ok true : Except JsError Bool)
      ⟨s.docs.write record.key (storedRecord next), (v₂.seal hkdf rt again).1, again :: s.done⟩ :=
    ⟨_, .refl hs₃, ⟨⟨revisionOf_stored hstored, rfl⟩, rfl, rfl⟩, fun _ _ => rfl⟩
  have hle := Nat.le_refl 0
  exact ⟨_, .cons hle hfirst (.cons hle hsecond (.cons hle hthird (.cons hle hfourth (.nil _ _))))⟩

/-- The same, from the document of the record. -/
theorem rekeyEvents_all {record next : LocalRecord} {doc : Json} {es : List (Event effects)}
    (hparse : parseLocalIdentityRecord rt doc record.key = some record)
    (hsteps : Prog.Steps (rekeyRecord record) es (.pure (next, true))) :
    Prog.Steps (rekeyAll rt [record.key])
      (⟨0, .bindingGet record.key, (.ok (some doc) : Except JsError (Option Json))⟩ :: es) (.pure (1, 0)) := by
  have hdocument : rekeyDocument rt record.key [] (some doc) =
      rekeyRecord record >>= fun r => pure (if r.2 then (0 + 1, 0) else (0, 0 + 1)) := by
    unfold rekeyDocument
    rw [Option.bind_some, hparse]
    rfl
  refine .cons rfl ?_
  show Prog.Steps (rekeyDocument rt record.key [] (some doc)) es _
  rw [hdocument, ← List.append_nil es]
  exact hsteps.bind (.nil _)

end

namespace Sample

/-- Carol's refresh token. -/
def refresh : JsString := refreshPayload carol.id carolLink (js "token")

/-- A platform that prints and reads it. -/
def rekeying : Runtime :=
  { runtime with
    stringOf := fun
      | .num _ => js "1"
      | _ => []
    parseJson := fun text => if text = refresh then some (refreshJson carol.id carolLink (js "token")) else none }

/-- It is sealed under a secret. -/
def refreshCall (masterSecret : JsString) (byte : UInt8) : SealCall where
  masterSecret := masterSecret
  purpose := REFRESH_PURPOSE carol.id carolLink.id
  payload := refreshJson carol.id carolLink (js "token")
  keyVersion := none
  iv := List.replicate 12 byte
  ct := List.replicate ((utf8 refresh).length + 16) byte

def doraLink : UpstreamLink := { carolLink with refreshToken := some (refreshCall (js "old") 0).token }

/-- The record with the token of the old secret, -/
def dora : LocalRecord := { carol with upstreams := [doraLink] }

/-- and where it is stored. -/
def doraStored : Custody (Bytes × Bytes) :=
  ⟨only dora, (Vault.seal pairing rekeying ⟨[], []⟩ (refreshCall (js "old") 0)).1, [refreshCall (js "old") 0]⟩

theorem rekeying_keys : Keyring pairing rekeying (js "new") [js "old"] := by
  have hascii : (∀ u ∈ js "1", u < 128) ∧ (∀ u ∈ js "new", u < 128) ∧ ∀ u ∈ js "old", u < 128 := by decide
  refine ⟨pairing_ideal, fun _ => hascii.1, rfl, fun secret hsecret => ?_, by decide⟩
  rcases List.mem_cons.mp hsecret with rfl | hsecret
  · exact WellFormedText.ascii hascii.2.1
  · rw [List.mem_singleton.mp hsecret]
    exact WellFormedText.ascii hascii.2.2

theorem refreshCall_text (masterSecret : JsString) (byte : UInt8) :
    (refreshCall masterSecret byte).text rekeying = refresh :=
  refreshJson_text rekeying_keys.one _ _ _

theorem refreshCall_proper {masterSecret : JsString} (h : WellFormedText masterSecret) (byte : UInt8) :
    (refreshCall masterSecret byte).Proper rekeying := by
  have hascii : (∀ u ∈ (refreshCall (js "old") 0).purpose, u < 128) ∧ ∀ u ∈ js "k1", u < 128 := by decide
  refine ⟨h, WellFormedText.ascii hascii.1, WellFormedText.ascii hascii.2, ?_⟩
  rw [refreshCall_text]
  show (if refresh = refresh then some (refreshJson carol.id carolLink (js "token")) else none) = _
  exact if_pos rfl

theorem refreshCall_program {masterSecret : JsString} (h : WellFormedText masterSecret) (byte : UInt8) :
    (refreshCall masterSecret byte).OfProgram rekeying := by
  refine ⟨refreshCall_proper h byte, rfl, .refresh carol.id carolLink.id, ⟨by decide, by decide⟩, rfl,
    fun _ _ heq => ?_⟩
  obtain ⟨rfl, rfl⟩ := Use.refresh.inj heq
  refine ⟨⟨carolLink, js "token", rfl, rfl⟩, List.length_replicate, ?_⟩
  have hct : (refreshCall masterSecret byte).ct.length = (utf8 refresh).length + 16 := by
    simp only [refreshCall, List.length_replicate]
  rw [refreshCall_text]
  exact hct

theorem doraStored_legit : doraStored.Legit pairing rekeying := by
  have hold := rekeying_keys.texts (js "old") (List.mem_cons_of_mem _ (List.mem_singleton_self _))
  refine ⟨.sealing .start _ (fun _ hmem => by cases hmem), fun call hcall => ?_⟩
  rw [List.mem_singleton.mp hcall]
  exact refreshCall_program hold 0

theorem dora_stored : Stored rekeying doraStored.docs dora := by
  refine ⟨storedRecord dora, ?_, by decide +kernel⟩
  show (if dora.key = dora.key then some (storedRecord dora) else none) = _
  exact if_pos rfl

theorem dora_roomy : Roomy dora := ⟨(fun _ hmem => by cases hmem), by decide⟩

theorem doraLink_held : doraLink.held = some (refreshCall (js "old") 0).token :=
  Option.filter_eq_some_iff.mpr ⟨rfl, decide_eq_true (fun hno => by cases hno)⟩

theorem dora_opens : doraStored.Opens pairing rekeying [js "new", js "old"] dora.id doraLink
    (refreshCall (js "old") 0).token (js "token") := by
  refine (doraStored_legit.opens_iff rekeying_keys (heldSecrets_sub false) ⟨by decide, by decide⟩).mpr ?_
  refine ⟨_, List.mem_singleton_self _, SealCall.token_parts (by decide) (by decide), rfl, ?_, by decide, rfl⟩
  exact List.mem_cons_of_mem _ (List.mem_singleton_self _)

/-- A run that rekeys her. -/
theorem dora_replays : ∃ s', Replays (custodyEnv pairing rekeying (js "new") [js "old"] False False) doraStored 0
    (rekeyEvents dora doraLink (refreshCall (js "old") 0).token (js "token") (refreshCall (js "new") 1).iv
      (refreshCall (js "new") 1).ct) s' := by
  have hct : (refreshCall (js "new") 1).ct.length =
      (utf8 (refreshPayload dora.id doraLink (js "token"))).length + 16 := by
    show (refreshCall (js "new") 1).ct.length = (utf8 refresh).length + 16
    simp only [refreshCall, List.length_replicate]
  refine rekeyEvents_replays rekeying_keys doraStored_legit dora_stored (List.mem_singleton_self _) dora_opens
    (fun call hcall => ?_) (fun call hcall => ?_) (by decide) hct
  · rw [List.mem_singleton.mp hcall]
    decide
  · rw [List.mem_singleton.mp hcall]
    decide

theorem dora_steps : ∃ next, Prog.Steps (rekeyRecord dora)
    (rekeyEvents dora doraLink (refreshCall (js "old") 0).token (js "token") (refreshCall (js "new") 1).iv
      (refreshCall (js "new") 1).ct) (.pure (next, true)) :=
  rekeyEvents_steps rfl doraLink_held _ _ _

/-- Her token is under the new secret then, and the record can be read. -/
theorem dora_rekeyed : ∃ s' next, s'.docs dora.key = some (storedRecord next) ∧
    FullyRekeyed pairing rekeying (js "new") [js "old"] s' dora next ∧ Stored rekeying s'.docs next := by
  obtain ⟨next, hsteps⟩ := dora_steps
  obtain ⟨s', hreplays⟩ := dora_replays
  obtain ⟨hrekeyed, -, hchanged, -⟩ :=
    rekeyRecord_lossless rekeying_keys doraStored_legit dora_stored hsteps hreplays
  obtain ⟨-, hwritten, hreadable⟩ := hchanged rfl
  exact ⟨s', next, hwritten, hrekeyed, hreadable.mpr dora_roomy⟩

theorem dora_run : ∃ es s', Prog.Steps (rekeyAll rekeying [dora.key]) es (.pure (1, 0)) ∧
    Replays (custodyEnv pairing rekeying (js "new") [js "old"] False False) doraStored 0 es s' := by
  obtain ⟨next, hsteps⟩ := dora_steps
  obtain ⟨s', hreplays⟩ := dora_replays
  obtain ⟨doc, hdoc, hparse⟩ := dora_stored
  refine ⟨_, s', rekeyEvents_all hparse hsteps, .cons (Nat.le_refl _) ⟨_, .refl doraStored_legit, ?_, ?_⟩ hreplays⟩
  · exact ⟨⟨hdoc.symm, rfl⟩, rfl, rfl⟩
  · exact fun _ => ⟨_, rfl⟩

/-- The run of all records is made of such steps, -/
theorem dora_run_steps : ∃ es s', Prog.Steps (rekeyAll rekeying [dora.key]) es (.pure (1, 0)) ∧
    Replays (rekeyEnv pairing rekeying (js "new") [js "old"] False False) doraStored 0 es s' := by
  obtain ⟨es, s', hsteps, hreplays⟩ := dora_run
  exact ⟨es, s', hsteps, rekeyAll_steps rekeying_keys doraStored_legit hsteps hreplays⟩

end Sample

end Sag
