import Mathlib.Data.List.Nodup
import Sag.LocalIdentities.Update

/-!
# The stored documents

The binding of the identity service keeps one document under each key. It is read at
once, and `replace` is a compare-and-swap: it writes if the revision is the expected
one, and answers whether it has.

`documentsEnv` is such a binding, and nothing else writes to it. A change is computed
from a record that was read, and raises its revision by one; so every change raises
the revision of the document (`Swap.raises`), and a document of an unchanged revision
is unchanged. What a change has written can be read back as the record it led to, or
not at all (`eq_of_parse_next`).
-/

namespace Sag

open Resumable

/-- The documents of the binding, by key. -/
abbrev Documents := JsString → Option Json

/-- A number that is natural. -/
def Json.natural? : Json → Option Nat
  | .num x => if x.den = 1 ∧ 0 ≤ x.num then some x.num.toNat else none
  | _ => none

/-- `current?.revision ?? 0`. -/
def revisionOf (doc : Option Json) : Nat :=
  ((doc.bind Json.object?).bind fun m => (Json.member m (js "revision")).bind Json.natural?).getD 0

/-- Put a document under its key. -/
def Documents.write (docs : Documents) (key : JsString) (doc : Json) : Documents :=
  fun k => if k = key then some doc else docs k

/-- The document is swapped in at the revision that is expected. -/
structure Swap (docs : Documents) (key : JsString) (expected : Nat) (doc : Json) (docs' : Documents) :
    Prop where
  revision : revisionOf (docs key) = expected
  written : docs' = docs.write key doc

/-- A binding with atomic reads and an atomic compare-and-swap. A call that throws may
have written before it did. -/
def documentsEnv : Environment effects Documents := fun _ docs o a docs' =>
  match o, a with
  | .bindingGet key, .ok doc => doc = docs key ∧ docs' = docs
  | .bindingReplace key expected doc, .ok true => Swap docs key expected doc docs'
  | .bindingReplace key expected doc, .error _ => docs' = docs ∨ Swap docs key expected doc docs'
  | _, _ => docs' = docs

variable {rt : Runtime} {C : Rely effects}

/-! ## Revisions -/

theorem Json.natural?_ofNat (n : Nat) : (Json.ofNat n).natural? = some n := by
  simp [Json.ofNat, Json.natural?]

theorem revisionOf_obj {m : Members} {n : Nat} (h : Json.member m (js "revision") = some (.ofNat n)) :
    revisionOf (some (.obj m)) = n := by
  simp [revisionOf, h, Json.natural?_ofNat]

/-- A record has the revision of its document. -/
theorem revisionOf_parse {doc : Json} {key : JsString} {r : LocalRecord}
    (h : parseLocalIdentityRecord rt doc key = some r) : revisionOf (some doc) = r.revision := by
  obtain ⟨m, _, _, _, _, _, hr⟩ := reads_of_parse h
  have hm := hr.document
  have hrev := hr.revision
  obtain ⟨v, hmember⟩ : ∃ v, Json.member m (js "revision") = some v := by
    cases hv : Json.member m (js "revision") with
    | none => rw [required, hv] at hrev; cases hrev
    | some v => exact ⟨v, rfl⟩
  rw [required, hmember] at hrev
  obtain ⟨hsafe, -⟩ := Option.filter_eq_some_iff.mp hrev
  obtain ⟨rfl, -⟩ := Json.safeNat?_eq_some hsafe
  cases doc with
  | obj m' =>
    obtain rfl : m' = m := Option.some.inj hm
    exact revisionOf_obj hmember
  | _ => cases hm

theorem revisionOf_storedRecord (r : LocalRecord) : revisionOf (some (storedRecord r)) = r.revision := by
  obtain ⟨m, hm, -, -, -, hrev, -⟩ := record_members r
  rw [hm]
  exact revisionOf_obj hrev

/-- A change raises the revision of its document. -/
theorem Swap.raises {docs docs' : Documents} {record : LocalRecord} {change : Change}
    (h : Swap docs record.key record.revision (storedRecord (change.next record)) docs') :
    revisionOf (docs' record.key) = revisionOf (docs record.key) + 1 := by
  rw [h.revision, h.written, Documents.write, if_pos rfl, revisionOf_storedRecord]
  cases change <;> rfl

/-! ## Reading back -/

section
variable {α : Type} {p : α → Bool} {f : α → α}

/-- What stands in a list after an update of its first match. -/
theorem mem_updateFirst {x : α} {xs : List α} (h : x ∈ updateFirst p f xs) :
    x ∈ xs ∨ ∃ y ∈ xs, p y = true ∧ x = f y := by
  induction xs with
  | nil => exact Or.inl h
  | cons y ys ih =>
    unfold updateFirst at h
    split at h
    · next hp =>
      rcases List.mem_cons.mp h with rfl | h
      · exact Or.inr ⟨y, List.mem_cons_self, hp, rfl⟩
      · exact Or.inl (List.mem_cons_of_mem _ h)
    · rcases List.mem_cons.mp h with rfl | h
      · exact Or.inl List.mem_cons_self
      · rcases ih h with h | ⟨z, hz, hp, rfl⟩
        · exact Or.inl (List.mem_cons_of_mem _ h)
        · exact Or.inr ⟨z, List.mem_cons_of_mem _ hz, hp, rfl⟩

/-- What the update leaves alone, it leaves alone everywhere. -/
theorem map_updateFirst {β : Type} {g : α → β} (hg : ∀ x, g (f x) = g x) (xs : List α) :
    (updateFirst p f xs).map g = xs.map g := by
  induction xs with
  | nil => rfl
  | cons y ys ih =>
    unfold updateFirst
    split
    · rw [List.map_cons, List.map_cons, hg]
    · rw [List.map_cons, List.map_cons, ih]

theorem nodup_updateFirst {β : Type} {g : α → β} {xs : List α} (h : (xs.map g).Nodup)
    (hg : ∀ x, g (f x) = g x) : ((updateFirst p f xs).map g).Nodup := by
  rw [map_updateFirst hg]
  exact h

theorem length_updateFirst_le {xs : List α} {n : Nat} (h : xs.length ≤ n) : (updateFirst p f xs).length ≤ n := by
  have hmap := congrArg List.length (map_updateFirst (p := p) (f := f) (g := fun _ => ()) (fun _ => rfl) xs)
  rw [List.length_map, List.length_map] at hmap
  omega

end

/-- Links of which only the refresh tokens have changed keep what the parser guarantees. -/
theorem rekeyed_valid {links links' : List UpstreamLink}
    (h : List.Forall₂ (fun l l' : UpstreamLink => l' = { l with refreshToken := l'.refreshToken }) links links')
    (hv : ∀ l ∈ links, l.Valid rt) :
    (∀ l ∈ links', l.Valid rt) ∧ links'.map (·.id) = links.map (·.id) ∧ links'.length = links.length := by
  induction h with
  | nil => exact ⟨nofun, rfl, rfl⟩
  | @cons l l' ls ls' hl _ ih =>
    obtain ⟨hvalid, hids, hlength⟩ := ih fun x hx => hv x (List.mem_cons_of_mem _ hx)
    have hold := hv l List.mem_cons_self
    have hnew : l'.Valid rt ∧ l'.id = l.id := by
      rw [hl]
      exact ⟨⟨hold.id, hold.upstream, hold.issuer, hold.subject⟩, rfl⟩
    refine ⟨fun x hx => ?_, ?_, ?_⟩
    · rcases List.mem_cons.mp hx with rfl | hx
      · exact hnew.1
      · exact hvalid x hx
    · rw [List.map_cons, List.map_cons, hids, hnew.2]
    · rw [List.length_cons, List.length_cons, hlength]

/-- So does a record with them, while there are revisions left. -/
theorem rekeyed_record_valid {record : LocalRecord} {upstreams : List UpstreamLink}
    (h : List.Forall₂ (fun l l' : UpstreamLink => l' = { l with refreshToken := l'.refreshToken }) record.upstreams
      upstreams)
    (hv : record.Valid rt) (hrev : record.revision < Json.maxSafeInteger) :
    ((Change.rekey upstreams).next record).Valid rt := by
  obtain ⟨hvalid, hids, hlength⟩ := rekeyed_valid h hv.upstreams
  refine { hv with revision := ⟨Nat.le_add_left _ _, hrev⟩, upstreams := hvalid, counts := ?_, linkIds := ?_ }
  · exact ⟨hv.counts.1, hv.counts.2.1, Nat.le_trans (Nat.le_of_eq hlength) hv.counts.2.2⟩
  · show (List.map (·.id) upstreams).Nodup
    rw [hids]
    exact hv.linkIds

/-- Every change keeps what the parser guarantees, while there are revisions left. -/
theorem Update.next_valid {record : LocalRecord} {change : Change} (h : Update C record change)
    (hv : record.Valid rt) (hrev : record.revision < Json.maxSafeInteger) : (change.next record).Valid rt := by
  have hrevision : 1 ≤ record.revision + 1 ∧ record.revision + 1 ≤ Json.maxSafeInteger :=
    ⟨Nat.le_add_left _ _, hrev⟩
  cases h with
  | @totpStep credential step hmem habove hsafe =>
    refine { hv with revision := hrevision, totp := fun t ht => ?_, counts := ?_, totpIds := ?_,
                     totpSecrets := ?_, factors := fun hne => hv.factors ?_ }
    · rcases mem_updateFirst ht with ht | ⟨y, hy, -, rfl⟩
      · exact hv.totp t ht
      · refine { hv.totp y hy with lastUsedStep := fun n hn => ?_ }
        obtain rfl := Option.some.inj hn
        exact hsafe
    · exact ⟨length_updateFirst_le hv.counts.1, hv.counts.2⟩
    · exact nodup_updateFirst hv.totpIds fun _ => rfl
    · exact nodup_updateFirst hv.totpSecrets fun _ => rfl
    · refine hne.imp_left fun h hnil => h ?_
      show updateFirst _ _ record.totp = []
      rw [hnil]
      rfl
  | @removeBackup backup hmem =>
    refine { hv with revision := hrevision, backupCodes := fun b hb => hv.backupCodes b ?_, counts := ?_,
                     backupIds := ?_, factors := fun hne => hv.factors ?_ }
    · exact List.mem_of_mem_filter hb
    · exact ⟨hv.counts.1, Nat.le_trans (List.length_filter_le _ _) hv.counts.2.1, hv.counts.2.2⟩
    · exact hv.backupIds.sublist (List.filter_sublist.map _)
    · refine hne.imp_right fun h hnil => h ?_
      show record.backupCodes.filter _ = []
      rw [hnil]
      rfl
  | @refreshToken link token text hmem hsize hsealed =>
    refine { hv with revision := hrevision, upstreams := fun l hl => ?_, counts := ?_, linkIds := ?_ }
    · rcases mem_updateFirst hl with hl | ⟨y, hy, -, rfl⟩
      · exact hv.upstreams l hl
      · have hold := hv.upstreams y hy
        exact ⟨hold.id, hold.upstream, hold.issuer, hold.subject⟩
    · exact ⟨hv.counts.1, hv.counts.2.1, length_updateFirst_le hv.counts.2.2⟩
    · exact nodup_updateFirst hv.linkIds fun _ => rfl
  | rekey hlinks =>
    refine rekeyed_record_valid (hlinks.imp fun l l' hl => ?_) hv hrev
    rcases hl with rfl | ⟨token, text, -, rfl⟩
    · rfl
    · rfl

/-- What a change has written is read back as the record it led to, if it is at all. -/
theorem eq_of_parse_next {doc : Json} {key : JsString} {record r : LocalRecord} {change : Change}
    (hparse : parseLocalIdentityRecord rt doc key = some record) (hupdate : Update C record change)
    (h : parseLocalIdentityRecord rt (storedRecord (change.next record)) key = some r) :
    r = change.next record := by
  obtain ⟨hv, -, hkey⟩ := parse_valid hparse
  have hsame := change.next_sameAccount record
  have hrev : record.revision < Json.maxSafeInteger := by
    have hread := revisionOf_parse h
    rw [revisionOf_storedRecord] at hread
    have hnext : (change.next record).revision = record.revision + 1 := by cases change <;> rfl
    have hle := (parse_valid h).1.revision.2
    omega
  have hback := parse_storedRecord (hupdate.next_valid hv hrev) (fits_of_parse h)
  rw [hsame.key, hkey, h] at hback
  exact Option.some.inj hback

/-! ## What is used up -/

/-- The steps of a TOTP credential are used up to `n`. -/
def UsedTo (r : LocalRecord) (id : JsString) (n : Nat) : Prop :=
  ∀ t ∈ r.totp, t.id = id → ∃ last, t.lastUsedStep = some last ∧ n ≤ last

/-- The record is a later state of the same account. -/
structure Later (r r' : LocalRecord) : Prop where
  account : SameAccount r r'
  revision : r.revision ≤ r'.revision
  backups : ∀ b' ∈ r'.backupCodes, ∃ b ∈ r.backupCodes, b.id = b'.id
  steps : ∀ id n, UsedTo r id n → UsedTo r' id n

theorem Later.refl (r : LocalRecord) : Later r r := ⟨.refl r, Nat.le_refl _, fun b hb => ⟨b, hb, rfl⟩, fun _ _ h => h⟩

theorem Later.trans {r r' r'' : LocalRecord} (h : Later r r') (h' : Later r' r'') : Later r r'' where
  account := h.account.trans h'.account
  revision := Nat.le_trans h.revision h'.revision
  backups b hb := by
    obtain ⟨b', hb', hid'⟩ := h'.backups b hb
    obtain ⟨b₀, hb₀, hid⟩ := h.backups b' hb'
    exact ⟨b₀, hb₀, hid.trans hid'⟩
  steps id n hused := h'.steps id n (h.steps id n hused)

theorem Change.next_revision (change : Change) (r : LocalRecord) : (change.next r).revision = r.revision + 1 := by
  cases change <;> rfl

/-- The credentials of a record are told apart by their names. -/
theorem LocalRecord.Valid.totp_unique {r : LocalRecord} (hv : r.Valid rt) {t t' : TotpCredential}
    (ht : t ∈ r.totp) (ht' : t' ∈ r.totp) (hid : t.id = t'.id) : t = t' :=
  List.inj_on_of_nodup_map hv.totpIds ht ht' hid

/-- An update leads to a later state. -/
theorem Update.later {record : LocalRecord} {change : Change} (h : Update C record change) (hv : record.Valid rt) :
    Later record (change.next record) where
  account := change.next_sameAccount record
  revision := by rw [change.next_revision]; exact Nat.le_succ _
  backups b hb := by
    cases h with
    | removeBackup hmem => exact ⟨b, List.mem_of_mem_filter hb, rfl⟩
    | _ => exact ⟨b, hb, rfl⟩
  steps id n hused := by
    cases h with
    | @totpStep credential step hmem habove hsafe =>
      intro t ht hid
      rcases mem_updateFirst ht with ht | ⟨y, hy, hnamed, rfl⟩
      · exact hused t ht hid
      · -- the step that is written lies above the last one
        obtain rfl := hv.totp_unique hy hmem (by simpa using hnamed)
        obtain ⟨last, hlast, hle⟩ := hused y hy hid
        exact ⟨step, rfl, Nat.le_of_lt (Nat.lt_of_le_of_lt hle (habove last hlast))⟩
    | _ => exact hused

/-- A backup code that is removed is gone. -/
theorem removed_backup (record : LocalRecord) (id : JsString) :
    ∀ b ∈ ((Change.removeBackup id).next record).backupCodes, b.id ≠ id := by
  intro b hb
  have hfilter : b ∈ record.backupCodes.filter (·.id ≠ id) := hb
  simpa using (List.mem_filter.mp hfilter).2

/-- A step that is written is used. -/
theorem written_step {record : LocalRecord} (hv : record.Valid rt) (id : JsString) (step : Nat) :
    UsedTo ((Change.totpStep id step).next record) id step := by
  have hall : ∀ ts : List TotpCredential, (ts.map (·.id)).Nodup →
      ∀ t ∈ updateFirst (·.id = id) (fun t => { t with lastUsedStep := some step }) ts, t.id = id →
        t.lastUsedStep = some step := by
    intro ts
    induction ts with
    | nil => exact fun _ t ht => absurd ht (List.not_mem_nil)
    | cons x xs ih =>
      intro hnodup t ht hid
      obtain ⟨hx, hxs⟩ := List.nodup_cons.mp hnodup
      unfold updateFirst at ht
      split at ht
      · next hnamed =>
        rcases List.mem_cons.mp ht with rfl | ht
        · rfl
        · have hsame : x.id = id := by simpa using hnamed
          exact absurd (List.mem_map.mpr ⟨t, ht, hid.trans hsame.symm⟩) hx
      · next hother =>
        rcases List.mem_cons.mp ht with rfl | ht
        · exact absurd (by simpa using hid) hother
        · exact ih hxs t ht hid
  exact fun t ht hid => ⟨step, hall _ hv.totpIds t ht hid, Nat.le_refl _⟩

end Sag
