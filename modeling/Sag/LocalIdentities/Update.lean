import Mathlib.Data.List.Forall2
import Sag.LocalIdentities.Store

/-!
# What the identity service writes

Every write swaps in a record computed from one that was read, at the revision
it was read at. `Update` lists the changes that can be made to a record, with
what each of them knows of it: a TOTP step lies above the last one used, a
backup code that is removed was there, a refresh token comes from the sealing of
one, and rekeying leaves everything but the refresh tokens alone.
-/

namespace Sag

open Resumable

variable (rt : Runtime) (config : Config)

/-- The record stands in a document that was read under its key. -/
def ReadRecord (C : Rely effects) (record : LocalRecord) : Prop :=
  ∃ doc, C.Saw (.bindingGet record.key) (.ok (some doc)) ∧
    parseLocalIdentityRecord rt doc record.key = some record

/-- The key of the record an address leads to. -/
def addressKey? (email : Option JsString) : Option JsString := (normaliseEmail rt email).map (indexKey rt config)

/-- The key of the record behind a session: its own, or that of its address. -/
def sessionKey? (session : Session) : Option JsString :=
  session.localIdentityKey.filter isRecordKey <|> addressKey? rt config (some session.email)

/-- The record behind a session that names a local account is there, is enabled and
has not been changed since. -/
def Standing (C : Rely effects) (session : Session) : Prop :=
  ∃ key doc record, sessionKey? rt config session = some key ∧ C.Saw (.bindingGet key) (.ok (some doc)) ∧
    parseLocalIdentityRecord rt doc key = some record ∧ record.disabled = false ∧
      session.localIdentityId = some record.id ∧ session.localSecurityVersion = some record.securityVersion

/-- The swap that writes a change. -/
def replaceOp (record : LocalRecord) (change : Change) : Op :=
  .bindingReplace record.key record.revision (storedRecord (change.next record))

/-- The text that sealing a refresh token for a link has given. -/
def SealedFor (C : Rely effects) (record : LocalRecord) (link : UpstreamLink)
    (token text : JsString) : Prop :=
  ∃ iv ct, C.Saw (.encrypt (REFRESH_PURPOSE record.id link.id)
      (utf8 (refreshPayload record.id link token))) (iv, ct) ∧
    text = sealedText (REFRESH_PURPOSE record.id link.id) iv ct

/-- A link after rekeying: as it was, or with its token sealed again. -/
def Rekeyed (C : Rely effects) (record : LocalRecord) (link link' : UpstreamLink) : Prop :=
  link' = link ∨ ∃ token text, SealedFor C record link token text ∧
    link' = { link with refreshToken := some text }

/-- The changes that can be made to a record. -/
inductive Update (C : Rely effects) (record : LocalRecord) : Change → Prop where
  | totpStep {credential : TotpCredential} {step : Nat} (mem : credential ∈ record.totp)
      (above : ∀ last, credential.lastUsedStep = some last → last < step)
      (safe : step ≤ Json.maxSafeInteger) : Update C record (.totpStep credential.id step)
  | removeBackup {backup : BackupCode} (mem : backup ∈ record.backupCodes) :
      Update C record (.removeBackup backup.id)
  | refreshToken {link : UpstreamLink} {token text : JsString} (mem : link ∈ record.upstreams)
      (size : token.length ≤ 16384) (sealed : SealedFor C record link token text) :
      Update C record (.refreshToken link.id text)
  | rekey {upstreams : List UpstreamLink}
      (links : List.Forall₂ (Rekeyed C record) record.upstreams upstreams) :
      Update C record (.rekey upstreams)

/-- What has been seen in a part has been seen in the whole. -/
theorem Update.mono {C C' : Rely effects} (hC : ∀ o a, C.Saw o a → C'.Saw o a) {record : LocalRecord}
    {change : Change} (h : Update C record change) : Update C' record change := by
  have seals : ∀ {link token text}, SealedFor C record link token text → SealedFor C' record link token text := by
    intro link token text hsealed
    obtain ⟨iv, ct, hsaw, htext⟩ := hsealed
    exact ⟨iv, ct, hC _ _ hsaw, htext⟩
  cases h with
  | totpStep hmem habove hsafe => exact .totpStep hmem habove hsafe
  | removeBackup hmem => exact .removeBackup hmem
  | refreshToken hmem hsize hsealed => exact .refreshToken hmem hsize (seals hsealed)
  | rekey hlinks =>
    refine .rekey (hlinks.imp fun link link' hlink => ?_)
    rcases hlink with rfl | ⟨token, text, hsealed, rfl⟩
    · exact Or.inl rfl
    · exact Or.inr ⟨token, text, seals hsealed, rfl⟩

/-- What no change touches. -/
structure SameAccount (record next : LocalRecord) : Prop where
  id : next.id = record.id
  key : next.key = record.key
  securityVersion : next.securityVersion = record.securityVersion
  disabled : next.disabled = record.disabled
  mfaRequired : next.mfaRequired = record.mfaRequired

theorem SameAccount.refl (record : LocalRecord) : SameAccount record record := ⟨rfl, rfl, rfl, rfl, rfl⟩

theorem SameAccount.trans {r r' r'' : LocalRecord} (h : SameAccount r r') (h' : SameAccount r' r'') :
    SameAccount r r'' :=
  ⟨h'.id.trans h.id, h'.key.trans h.key, h'.securityVersion.trans h.securityVersion,
    h'.disabled.trans h.disabled, h'.mfaRequired.trans h.mfaRequired⟩

theorem Change.next_sameAccount (change : Change) (record : LocalRecord) :
    SameAccount record (change.next record) := by
  cases change <;> exact ⟨rfl, rfl, rfl, rfl, rfl⟩

/-- The changes that consume a second factor. -/
def Change.isFactor : Change → Bool
  | .totpStep _ _ | .removeBackup _ => true
  | _ => false

variable {rt config} {C : Contract effects}

theorem parse_key {doc : Json} {key : JsString} {record : LocalRecord}
    (h : parseLocalIdentityRecord rt doc key = some record) : record.key = key := by
  obtain ⟨_, _, _, _, _, _, hr⟩ := reads_of_parse h
  exact hr.key.symm

theorem parse_id {doc : Json} {key : JsString} {record : LocalRecord}
    (h : parseLocalIdentityRecord rt doc key = some record) : record.id ≠ [] := by
  obtain ⟨_, _, _, _, _, _, hr⟩ := reads_of_parse h
  obtain ⟨_, hid⟩ := required_some hr.id
  intro hnil
  have hsafe := (string_filter hid).2
  rw [hnil] at hsafe
  cases hsafe

theorem ReadRecord.id_ne {C : Rely effects} {record : LocalRecord} (h : ReadRecord rt C record) :
    record.id ≠ [] := by
  obtain ⟨doc, -, hparse⟩ := h
  exact parse_id hparse

/-! ## Reading -/

theorem localIdentityKey_ensures (hC : Routine C) (email : Option JsString) :
    Ensures C (localIdentityKey rt config email) fun key => addressKey? rt config email = some key := by
  unfold localIdentityKey
  split
  · exact fail_ensures
  · next canonical hcanonical =>
    split
    · exact fail_ensures
    · exact suspend_then_ensures hC (suspend_then_ensures hC (pure_ensures (by simp [addressKey?, hcanonical])))

/-- What is found was read, under the key of the address. -/
theorem find_ensures (hC : Routine C) (email : Option JsString) :
    Ensures C (find rt config email) fun found =>
      ∀ record, found.record = some record →
        ReadRecord rt C record ∧ addressKey? rt config email = some record.key := by
  refine andThen_ensures (localIdentityKey_ensures hC email) fun key hindex => ?_
  refine andThen_ensures (perform_ensures hC rfl) fun r hr => ?_
  cases r with
  | error e => exact pure_ensures (by rintro record ⟨⟩)
  | ok doc =>
    refine pure_ensures fun record hrecord => ?_
    obtain ⟨d, hd, hparse⟩ := Option.bind_eq_some_iff.mp hrecord
    have hkey := parse_key hparse
    exact ⟨⟨d, by rw [hkey, ← hd]; exact hr, by rw [hkey]; exact hparse⟩, by rw [hkey]; exact hindex⟩

theorem verifyOrDummy_ensures (hC : Routine C) (hash submitted : JsString) :
    Ensures C (verifyOrDummy hash submitted) fun _ => True := by
  refine andThen_ensures (perform_ensures hC rfl) fun r _ => ?_
  cases r with
  | ok ok => exact pure_ensures trivial
  | error e => exact ensures_imp (attempt_ensures (perform_ensures hC rfl)) fun _ _ => trivial

theorem verifyPassword_ensures (hC : Routine C) (found : Found) (password : Option JsString) :
    Ensures C (verifyPassword config found password) fun _ => True :=
  andThen_ensures (verifyOrDummy_ensures hC _ _) fun _ _ => pure_ensures trivial

/-- The record of a session was read under the key of the session. -/
theorem sessionRecord_ensures (hC : Routine C) (session : Session) :
    Ensures C (sessionRecord rt config session) fun r => ∀ record, r = some record →
      ReadRecord rt C record ∧ sessionKey? rt config session = some record.key := by
  unfold sessionRecord
  split
  · next key hkey =>
    refine andThen_ensures (attempt_ensures (perform_ensures hC rfl)) fun doc hdoc => pure_ensures ?_
    intro record hrecord
    obtain ⟨d, rfl, hparse⟩ := Option.bind_eq_some_iff.mp hrecord
    have heq := parse_key hparse
    exact ⟨⟨d, by rw [heq]; exact hdoc, by rw [heq]; exact hparse⟩, by simp [sessionKey?, hkey, heq]⟩
  · next hnone =>
    refine andThen_ensures (find_ensures hC _) fun found hfound => pure_ensures fun record hrecord => ?_
    obtain ⟨hread, hkey⟩ := hfound record hrecord
    exact ⟨hread, by simp [sessionKey?, hnone, hkey]⟩

/-- A valid session names no local account, or one that stands. -/
theorem validateSession_ensures (hC : Routine C) (session : Session) :
    Ensures C (validateSession rt config session) fun valid => valid = true →
      session.localIdentityId.getD [] ≠ [] → Standing rt config C session := by
  unfold validateSession
  split
  · next hnone =>
    refine pure_ensures fun _ hnamed => ?_
    cases hid : session.localIdentityId with
    | none => rw [hid] at hnamed; exact absurd rfl hnamed
    | some id => simp [hid] at hnone hnamed; exact absurd hnone hnamed
  · next id hid =>
    refine andThen_ensures (sessionRecord_ensures hC session) fun r hr => pure_ensures fun hvalid _ => ?_
    obtain ⟨record, rfl, hmatch⟩ : ∃ record, r = some record ∧ (!record.disabled && record.id = id &&
        session.localSecurityVersion = some record.securityVersion) = true := by
      cases r with
      | none => cases hvalid
      | some record => exact ⟨record, rfl, hvalid⟩
    obtain ⟨⟨doc, hsaw, hparse⟩, hkey⟩ := hr record rfl
    simp only [Bool.and_eq_true, Bool.not_eq_true', decide_eq_true_eq] at hmatch
    obtain ⟨⟨henabled, hsame⟩, hversion⟩ := hmatch
    refine ⟨record.key, doc, record, hkey, hsaw, hparse, henabled, ?_, hversion⟩
    rw [hsame]
    exact (Option.filter_eq_some_iff.mp hid).1

/-- A linked record was read under the key of the address, and the link is one of
its own. -/
theorem linked_ensures (hC : Routine C) (email : Option JsString) (upstream : JsString)
    (issuer subject : Option Json) :
    Ensures C (linked rt config email upstream issuer subject) fun r =>
      ∀ record link, r = some (record, link) →
        (ReadRecord rt C record ∧ addressKey? rt config email = some record.key) ∧ link ∈ record.upstreams := by
  refine andThen_ensures (find_ensures hC email) fun found hfound => ?_
  split
  · exact fail_ensures
  · split
    · exact pure_ensures (by rintro record link ⟨⟩)
    · next record hrecord =>
      obtain ⟨hrec, -⟩ := Option.filter_eq_some_iff.mp hrecord
      refine pure_ensures fun record' link hlink => ?_
      obtain ⟨l, hl, hpair⟩ := Option.map_eq_some_iff.mp hlink
      obtain ⟨rfl, rfl⟩ := Prod.mk.inj hpair
      exact ⟨hfound record hrec, List.mem_of_find?_eq_some hl⟩

/-! ## Writing -/

/-- A successful replacement swapped the changed record in. -/
theorem replace_ensures {record : LocalRecord} {change : Change}
    (hissue : ∀ h t, C.issue h t (replaceOp record change)) :
    Ensures C (replace record change) fun r => ∀ next, r = some next →
      next = change.next record ∧ C.Saw (replaceOp record change) (.ok true) := by
  refine andThen_ensures (attempt_ensures (issue_ensures fun h t _ => hissue h t)) fun written hsaw => ?_
  refine pure_ensures fun next hnext => ?_
  cases written with
  | false => cases hnext
  | true => exact ⟨(Option.some.inj hnext).symm, hsaw⟩

/-- An update of this record has been swapped in. -/
def Consumed (C : Rely effects) (record next : LocalRecord) : Prop :=
  ∃ change, Update C record change ∧ change.isFactor = true ∧ next = change.next record ∧
    C.Saw (replaceOp record change) (.ok true)

theorem Consumed.sameAccount {C : Rely effects} {record next : LocalRecord} (h : Consumed C record next) :
    SameAccount record next := by
  obtain ⟨change, -, -, rfl, -⟩ := h
  exact change.next_sameAccount record

theorem verifyTotpCredentials_ensures (hC : Routine C) {record : LocalRecord} (code : Option JsString)
    (now : Nat) {consume : Bool}
    (hissue : consume = true → ∀ change, Update C record change → change.isFactor = true →
      ∀ h t, C.issue h t (replaceOp record change)) :
    ∀ credentials, (∀ c ∈ credentials, c ∈ record.totp) →
      Ensures C (verifyTotpCredentials rt config record code now consume credentials) fun r =>
        consume = true → ∀ result, r = some result → Consumed C record result.record := by
  intro credentials
  induction credentials with
  | nil => exact fun _ => pure_ensures (by rintro _ result ⟨⟩)
  | cons credential rest ih =>
    intro hmem
    refine andThen_ensures (verifyTotp_ensures hC _ _ _ _ _ _ _ _) fun step hstep => ?_
    cases step with
    | none => exact ih fun c hc => hmem c (List.mem_cons_of_mem _ hc)
    | some step =>
      cases consume with
      | false => exact pure_ensures (by rintro ⟨⟩)
      | true =>
        obtain ⟨hsafe, habove⟩ := hstep step rfl
        have hupdate : Update C record (.totpStep credential.id step) :=
          .totpStep (hmem _ List.mem_cons_self) habove hsafe
        refine andThen_ensures (replace_ensures (hissue rfl _ hupdate rfl)) fun updated hupdated => ?_
        refine pure_ensures fun _ result hresult => ?_
        obtain ⟨next, hnext, rfl⟩ := Option.map_eq_some_iff.mp hresult
        obtain ⟨heq, hsaw⟩ := hupdated next hnext
        exact ⟨_, hupdate, rfl, heq, hsaw⟩

theorem verifyBackup_ensures (hC : Routine C) {record : LocalRecord} {backup : BackupCode}
    (hmem : backup ∈ record.backupCodes) (code : JsString) {consume : Bool}
    (hissue : consume = true → ∀ change, Update C record change → change.isFactor = true →
      ∀ h t, C.issue h t (replaceOp record change)) :
    Ensures C (verifyBackup record backup code consume) fun r =>
      consume = true → ∀ result, r = some result → Consumed C record result.record := by
  refine andThen_ensures (perform_ensures hC rfl) fun ok _ => ?_
  split
  · exact pure_ensures (by rintro _ result ⟨⟩)
  · cases consume with
    | false => exact pure_ensures (by rintro ⟨⟩)
    | true =>
      have hupdate : Update C record (.removeBackup backup.id) := .removeBackup hmem
      refine andThen_ensures (replace_ensures (hissue rfl _ hupdate rfl)) fun updated hupdated => ?_
      refine pure_ensures fun _ result hresult => ?_
      obtain ⟨next, hnext, rfl⟩ := Option.map_eq_some_iff.mp hresult
      obtain ⟨heq, hsaw⟩ := hupdated next hnext
      exact ⟨_, hupdate, rfl, heq, hsaw⟩

/-- A second factor that is consumed is gone from the record it is accepted
with. -/
theorem verifySecondFactor_ensures (hC : Routine C) {record : LocalRecord} (code : Option JsString)
    (now : Nat) {consume : Bool}
    (hissue : consume = true → ∀ change, Update C record change → change.isFactor = true →
      ∀ h t, C.issue h t (replaceOp record change)) :
    Ensures C (verifySecondFactor rt config record code now consume) fun r =>
      consume = true → ∀ result, r = some result → Consumed C record result.record := by
  unfold verifySecondFactor
  split
  · next backup normalised hfound =>
    obtain ⟨s, -, hmap⟩ := Option.bind_eq_some_iff.mp hfound
    obtain ⟨b, hfind, hpair⟩ := Option.map_eq_some_iff.mp hmap
    obtain ⟨rfl, rfl⟩ := Prod.mk.inj hpair
    exact verifyBackup_ensures hC (List.mem_of_find?_eq_some hfind) _ hissue
  · exact verifyTotpCredentials_ensures hC code now hissue _ fun _ h => h

theorem sealUpstreamRefreshToken_ensures (hC : Routine C) (record : LocalRecord) (link : UpstreamLink)
    (token : JsString) :
    Ensures C (sealUpstreamRefreshToken record.id link token) fun text =>
      SealedFor C record link token text :=
  andThen_ensures (perform_ensures hC rfl) fun r hr => pure_ensures ⟨r.1, r.2, hr, rfl⟩

/-- The record with the sealed `token` stored for `link`; a token that is no token leaves
it as it was. -/
def Retained (C : Rely effects) (record : LocalRecord) (link : UpstreamLink) (token : JsString)
    (next : LocalRecord) : Prop :=
  (token = [] ∧ next = record) ∨ ∃ text, Update C record (.refreshToken link.id text) ∧
    SealedFor C record link token text ∧ next = (Change.refreshToken link.id text).next record ∧
      C.Saw (replaceOp record (.refreshToken link.id text)) (.ok true)

theorem Retained.sameAccount {C : Rely effects} {record next : LocalRecord} {link : UpstreamLink} {token : JsString}
    (h : Retained C record link token next) : SameAccount record next := by
  rcases h with ⟨-, rfl⟩ | ⟨text, -, -, rfl, -⟩
  · exact .refl next
  · exact Change.next_sameAccount _ record

theorem storeRefreshToken_ensures (hC : Routine C) {record : LocalRecord} {link : UpstreamLink}
    (hmem : link ∈ record.upstreams) (token : JsString)
    (hissue : ∀ change, Update C record change → change.isFactor = false →
      ∀ h t, C.issue h t (replaceOp record change)) :
    Ensures C (storeRefreshToken record link token) fun r => ∀ next, r = some next →
      Retained C record link token next := by
  unfold storeRefreshToken
  split
  · next hempty => exact pure_ensures fun next hnext => Or.inl ⟨hempty, (Option.some.inj hnext).symm⟩
  · split
    · exact fail_ensures
    · next hsize =>
      refine andThen_ensures (sealUpstreamRefreshToken_ensures hC record link token) fun text htext => ?_
      have hupdate : Update C record (.refreshToken link.id text) := .refreshToken hmem (by omega) htext
      refine ensures_imp (replace_ensures (hissue _ hupdate rfl)) fun r hr next hnext => ?_
      obtain ⟨heq, hsaw⟩ := hr next hnext
      exact Or.inr ⟨text, hupdate, htext, heq, hsaw⟩

theorem openRefreshToken_ensures (hC : Routine C) (record : LocalRecord) (link : UpstreamLink)
    (stored : JsString) : Ensures C (openRefreshToken record link stored) fun _ => True := by
  have hopen : Ensures C (openPayload (REFRESH_PURPOSE record.id link.id) stored) fun _ => True := by
    refine andThen_ensures (perform_ensures hC rfl) fun r _ => ?_
    cases r with
    | ok payload => exact pure_ensures trivial
    | error e =>
      exact andThen_ensures (attempt_ensures (perform_ensures hC rfl)) fun _ _ => pure_ensures trivial
  refine andThen_ensures hopen fun r _ => ?_
  dsimp only
  split
  · exact fail_ensures
  · exact pure_ensures trivial

/-- Rekeying touches nothing of a link but its token. -/
theorem rekeyLinks_ensures (hC : Routine C) (record : LocalRecord) :
    ∀ links, Ensures C (rekeyLinks record links) fun r => List.Forall₂ (Rekeyed C record) links r.1 := by
  intro links
  induction links with
  | nil => exact pure_ensures .nil
  | cons link links ih =>
    unfold rekeyLinks
    split
    · exact andThen_ensures ih fun r hr => pure_ensures (.cons (Or.inl rfl) hr)
    · refine andThen_ensures (openRefreshToken_ensures hC record link _) fun r _ => ?_
      obtain ⟨token, current⟩ := r
      cases current with
      | true => exact andThen_ensures ih fun r hr => pure_ensures (.cons (Or.inl rfl) hr)
      | false =>
        refine andThen_ensures (sealUpstreamRefreshToken_ensures hC record link token) fun text ht => ?_
        exact andThen_ensures ih fun r hr => pure_ensures (.cons (Or.inr ⟨token, text, ht, rfl⟩) hr)

/-- A record that is reported as changed has its links rekeyed. -/
theorem rekeyRecord_ensures (hC : Routine C) {record : LocalRecord}
    (hissue : ∀ change, Update C record change → change.isFactor = false →
      ∀ h t, C.issue h t (replaceOp record change)) :
    Ensures C (rekeyRecord record) fun r => r.2 = true → ∃ upstreams,
      List.Forall₂ (Rekeyed C record) record.upstreams upstreams ∧ r.1 = (Change.rekey upstreams).next record ∧
        C.Saw (replaceOp record (.rekey upstreams)) (.ok true) := by
  refine andThen_ensures (rekeyLinks_ensures hC record record.upstreams) fun r hr => ?_
  obtain ⟨upstreams, changed⟩ := r
  cases changed with
  | false => exact pure_ensures nofun
  | true =>
    have hupdate : Update C record (.rekey upstreams) := .rekey hr
    refine andThen_ensures (replace_ensures (hissue _ hupdate rfl)) fun updated hupdated => ?_
    split
    · exact fail_ensures
    · next next =>
      obtain ⟨heq, hsaw⟩ := hupdated next rfl
      exact pure_ensures fun _ => ⟨upstreams, hr, heq, hsaw⟩

theorem rekeyAll_ensures (hC : Routine C)
    (hissue : ∀ record change, ReadRecord rt C record → Update C record change →
      change.isFactor = false → ∀ h t, C.issue h t (replaceOp record change)) :
    ∀ keys, Ensures C (rekeyAll rt keys) fun _ => True := by
  intro keys
  induction keys with
  | nil => exact pure_ensures trivial
  | cons key keys ih =>
    refine andThen_ensures (attempt_ensures (perform_ensures hC rfl)) fun doc hsaw => ?_
    split
    · exact fail_ensures
    · next record hrecord =>
      obtain ⟨d, hd, hparse⟩ := Option.bind_eq_some_iff.mp hrecord
      have hkey := parse_key hparse
      have hread : ReadRecord rt C record :=
        ⟨d, by rw [hkey, ← hd]; exact hsaw, by rw [hkey]; exact hparse⟩
      refine andThen_ensures (rekeyRecord_ensures hC fun change => hissue record change hread) fun _ _ => ?_
      exact andThen_ensures ih fun _ _ => pure_ensures trivial

end Sag
