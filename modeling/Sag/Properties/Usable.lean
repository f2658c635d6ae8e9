import Sag.Lib.Machine
import Sag.Properties.Documents

/-!
# Factors that can be used

What is submitted as a second factor goes to a recovery code if what stands before its first
hyphen is the id of one, and to the TOTP credentials otherwise. The parser lets an id be any
word of letters, digits, underscores and hyphens. So a recovery code is within reach only if
its id has no hyphen, and the code of a TOTP credential only if it is the id of no recovery
code; `factors_usable` says that nothing else is in the way.
-/

namespace Sag

open Resumable

/-! ## Blanks -/

/-- White space, as a code point. -/
def isSpacePoint (p : Nat) : Bool := p < 0x10000 && isSpace (UInt16.ofNat p)

/-- What is known of white space in the tables: it is in no case, and nothing else becomes it. -/
structure CaseTables.Blanks (T : CaseTables) : Prop where
  range : ∀ p, p ≤ 0x10FFFF → ∀ q ∈ T.upper p, q ≤ 0x10FFFF
  blank : ∀ p, p ≤ 0x10FFFF → ∀ q ∈ T.upper p, isSpacePoint q = isSpacePoint p

/-- A text that is typed for a code: the code in any case, with any white space between its
characters. -/
def Submits (T : CaseTables) (submitted code : JsString) : Prop :=
  ∃ text, (codePoints submitted).filter (fun p => !isSpacePoint p) = codePoints text ∧ T.toUpperCase text = code

theorem isSpace_surrogate {u : CodeUnit} (hlow : 0xD800 ≤ u.toNat) (hhigh : u.toNat ≤ 0xDFFF) :
    isSpace u = false := by
  rw [Bool.eq_false_iff]
  intro h
  simp only [isSpace, Bool.or_eq_true, Bool.and_eq_true, decide_eq_true_eq, beq_iff_eq, UInt16.le_iff_toNat_le] at h
  rcases h with (((((((((⟨-, h⟩ | h) | h) | h) | ⟨-, h⟩) | h) | h) | h) | h) | h) | h
  all_goals first
    | (rw [h] at hlow hhigh; revert hlow hhigh; decide)
    | (revert h; simp; omega)

theorem filter_encodePoint {p : Nat} (hp : p ≤ 0x10FFFF) :
    (encodePoint p).filter (fun u => !isSpace u) = if isSpacePoint p then [] else encodePoint p := by
  unfold encodePoint isSpacePoint
  by_cases hsmall : p < 0x10000
  · rw [if_pos hsmall, decide_eq_true hsmall, Bool.true_and]
    cases hspace : isSpace (UInt16.ofNat p) <;> simp [hspace]
  · have hhigh : isSpace (UInt16.ofNat (0xD800 + (p - 0x10000) / 0x400)) = false := by
      have hnat : (UInt16.ofNat (0xD800 + (p - 0x10000) / 0x400)).toNat = 0xD800 + (p - 0x10000) / 0x400 :=
        UInt16.toNat_ofNat_of_lt' (by simp [UInt16.size]; omega)
      exact isSpace_surrogate (by omega) (by omega)
    have hlow : isSpace (UInt16.ofNat (0xDC00 + (p - 0x10000) % 0x400)) = false := by
      have hnat : (UInt16.ofNat (0xDC00 + (p - 0x10000) % 0x400)).toNat = 0xDC00 + (p - 0x10000) % 0x400 :=
        UInt16.toNat_ofNat_of_lt' (by simp [UInt16.size]; omega)
      exact isSpace_surrogate (by omega) (by omega)
    rw [if_neg hsmall, decide_eq_false hsmall, Bool.false_and, if_neg Bool.false_ne_true]
    simp only [List.filter_cons, List.filter_nil, hhigh, hlow, Bool.not_false, if_true]

variable {T : CaseTables}

theorem filter_points (hT : T.Blanks) {p : Nat} (hp : p ≤ 0x10FFFF) :
    (ofCodePoints (T.upper p)).filter (fun u => !isSpace u) =
      if isSpacePoint p then [] else ofCodePoints (T.upper p) := by
  have hrange := hT.range p hp
  have hblank := hT.blank p hp
  unfold ofCodePoints
  generalize T.upper p = points at hrange hblank ⊢
  induction points with
  | nil => simp
  | cons q qs ih =>
    have hqs := ih (fun r hr => hrange r (List.mem_cons_of_mem _ hr)) fun r hr => hblank r (List.mem_cons_of_mem _ hr)
    rw [List.flatMap_cons, List.filter_append, hqs, filter_encodePoint (hrange q List.mem_cons_self),
      hblank q List.mem_cons_self]
    cases isSpacePoint p <;> simp

/-- White space goes before or after the case is changed. -/
theorem filter_toUpperCase (hT : T.Blanks) (s : JsString) :
    (T.toUpperCase s).filter (fun u => !isSpace u) =
      ofCodePoints (((codePoints s).filter fun p => !isSpacePoint p).flatMap T.upper) := by
  have hrange := codePoints_le (s := s)
  rw [CaseTables.toUpperCase]
  generalize codePoints s = points at hrange ⊢
  induction points with
  | nil => rfl
  | cons p ps ih =>
    have hps := ih fun q hq => hrange q (List.mem_cons_of_mem _ hq)
    have hp := filter_points hT (hrange p List.mem_cons_self)
    unfold ofCodePoints at hps hp ⊢
    rw [List.flatMap_cons, List.flatMap_append, List.filter_append, hps, hp]
    cases hspace : isSpacePoint p <;> simp [hspace]

theorem Submits.normalised (hT : T.Blanks) {submitted code : JsString} (h : Submits T submitted code) :
    (T.toUpperCase submitted).filter (fun u => !isSpace u) = code := by
  obtain ⟨text, htext, hcode⟩ := h
  rw [filter_toUpperCase hT, htext]
  exact hcode

/-! ## A binding without faults -/

section

variable {σ : Type} {rt : Runtime} {config : Config} {m : Machine effects σ} {stored : σ → Documents}
variable {hashed : JsString → Option JsString} {s : σ} {record : LocalRecord}

/-- A verifier that tells of every hash whether it is one of a text, and a binding that swaps a
document in whenever the revision is the expected one. `stored` is what the binding holds. -/
structure Faultless (m : Machine effects σ) (stored : σ → Documents) (hashed : JsString → Option JsString) :
    Prop where
  verify : ∀ s hash text, (m.answer s (.verifyArgon2id hash text)).1 = .ok (decide (hashed hash = some text))
  swap : ∀ s key expected doc, revisionOf (stored s key) = expected →
    (m.answer s (.bindingReplace key expected doc)).1 = .ok true ∧
      stored (m.answer s (.bindingReplace key expected doc)).2 = (stored s).write key doc
  kept : ∀ s o, (∀ key expected doc, o ≠ .bindingReplace key expected doc) → stored (m.answer s o).2 = stored s

/-- A second factor is accepted as one of this kind, and the record becomes `next`. -/
def Honoured (m : Machine effects σ) (stored : σ → Documents) (p : M (Option FactorResult)) (s : σ)
    (method : FactorMethod) (next : LocalRecord) : Prop :=
  p.Yields m s fun result s' =>
    result = some ⟨method, next⟩ ∧ stored s' = (stored s).write next.key (storedRecord next)

/-- The document of a record is the one it was read from. -/
def Stands (stored : σ → Documents) (s : σ) (record : LocalRecord) : Prop :=
  revisionOf (stored s record.key) = record.revision

theorem replace_yields (hm : Faultless m stored hashed) (hstands : Stands stored s record) (change : Change) :
    (replace record change).Yields m s fun updated s' =>
      updated = some (change.next record) ∧
        stored s' = (stored s).write record.key (storedRecord (change.next record)) := by
  obtain ⟨hwritten, hstored⟩ := hm.swap s record.key record.revision (storedRecord (change.next record)) hstands
  refine Prog.yields_bind (Prog.yields_bind (Prog.yields_await ?_))
  rw [hwritten]
  exact Prog.yields_pure (Prog.yields_pure ⟨rfl, hstored⟩)

theorem Change.next_key (change : Change) (record : LocalRecord) : (change.next record).key = record.key := by
  cases change <;> rfl

theorem verifyBackup_honoured (hm : Faultless m stored hashed) (hstands : Stands stored s record) {backup : BackupCode}
    {code : JsString} (hcode : hashed backup.hash = some code) :
    Honoured m stored (verifyBackup record backup code true) s .recovery
      ((Change.removeBackup backup.id).next record) := by
  have hkept := hm.kept s (.verifyArgon2id backup.hash code) nofun
  refine Prog.yields_bind (Prog.yields_await ?_)
  rw [hm.verify, decide_eq_true hcode]
  have hreplace := replace_yields (s := (m.answer s (.verifyArgon2id backup.hash code)).2) hm
    (by rw [Stands, hkept]; exact hstands) (.removeBackup backup.id)
  refine Prog.yields_bind (hreplace.mono fun updated s' h => Prog.yields_pure ?_)
  rw [h.1, Change.next_key]
  exact ⟨rfl, by rw [h.2, hkept]⟩

/-! ## Recovery codes -/

/-- What stands before the first hyphen. -/
theorem backupSelector_eq (hT : rt.cases.Blanks) {submitted id body : JsString} {rest : List JsString}
    (hsubmits : Submits rt.cases submitted (id ++ hyphen :: body)) {selector : JsString}
    (hselector : split hyphen id = selector :: rest) :
    backupSelector rt (some submitted) =
      if safeId selector then some (selector, id ++ hyphen :: body) else none := by
  have hnormalised := hsubmits.normalised hT
  unfold backupSelector
  dsimp only
  rw [Option.getD_some, hnormalised, split_append, hselector]
  rfl

theorem find?_id {α : Type} {f : α → JsString} {xs : List α} (hnodup : (xs.map f).Nodup) {x : α} (hx : x ∈ xs) :
    xs.find? (f · = f x) = some x := by
  induction xs with
  | nil => cases hx
  | cons y ys ih =>
    rw [List.map_cons, List.nodup_cons] at hnodup
    rcases List.mem_cons.mp hx with rfl | hx
    · exact List.find?_cons_of_pos (decide_eq_true rfl)
    · have hne : f y ≠ f x := fun heq => hnodup.1 (heq ▸ List.mem_map_of_mem hx)
      rw [List.find?_cons_of_neg (by simpa using hne), ih hnodup.2 hx]

/-- The record with one recovery code less. -/
def LocalRecord.without (record : LocalRecord) (backup : BackupCode) : LocalRecord :=
  { record with backupCodes := record.backupCodes.filter (· ≠ backup), revision := record.revision + 1 }

theorem removeBackup_next (hids : (record.backupCodes.map (·.id)).Nodup) {backup : BackupCode}
    (hmem : backup ∈ record.backupCodes) :
    (Change.removeBackup backup.id).next record = record.without backup := by
  have hfilter : record.backupCodes.filter (·.id ≠ backup.id) = record.backupCodes.filter (· ≠ backup) := by
    refine List.filter_congr fun other hother => ?_
    have hiff : other.id ≠ backup.id ↔ other ≠ backup :=
      not_congr ⟨fun heq => List.inj_on_of_nodup_map hids hother hmem heq, fun heq => congrArg _ heq⟩
    simp only [hiff]
  rw [LocalRecord.without, ← hfilter]
  rfl

/-- Nothing is relied on, and nothing is guaranteed. -/
def anything : Contract effects := ⟨⟨fun _ => True, fun _ _ _ => True⟩, fun _ _ _ => True⟩

theorem within_anything (m : Machine effects σ) : m.Within anything := ⟨fun _ => trivial, fun _ _ => trivial⟩

theorem verifyTotpCredentials_method (code : Option JsString) (now : Nat) (consume : Bool) :
    ∀ credentials, Ensures anything (verifyTotpCredentials rt config record code now consume credentials) fun r =>
      ∀ result, r = some result → result.method = .totp := by
  intro credentials
  induction credentials with
  | nil => exact pure_ensures nofun
  | cons credential rest ih =>
    refine andThen_ensures (verifyTotp_ensures (fun _ _ _ _ => trivial) _ _ _ _ _ _ _ _) fun step _ => ?_
    cases step with
    | none => exact ih
    | some step =>
      cases consume with
      | false => exact pure_ensures fun result hresult => by rw [← Option.some.inj hresult]
      | true =>
        refine andThen_ensures (replace_ensures fun _ _ => trivial) fun updated _ => pure_ensures ?_
        intro result hresult
        obtain ⟨next, -, rfl⟩ := Option.map_eq_some_iff.mp hresult
        rfl

theorem verifyBackup_record (backup : BackupCode) (code : JsString) :
    Ensures anything (verifyBackup record backup code true) fun r => ∀ result, r = some result →
      result.method = .recovery ∧ result.record = (Change.removeBackup backup.id).next record := by
  refine andThen_ensures (issue_ensures fun _ _ _ => trivial) fun ok _ => ?_
  split
  · exact pure_ensures nofun
  · refine andThen_ensures (replace_ensures fun _ _ => trivial) fun updated hupdated => pure_ensures ?_
    intro result hresult
    obtain ⟨next, hnext, rfl⟩ := Option.map_eq_some_iff.mp hresult
    exact ⟨rfl, (hupdated next hnext).1⟩

/-- What a program never returns is not honoured. -/
theorem not_honoured {p : M (Option FactorResult)} {method : FactorMethod} {next : LocalRecord}
    (h : Ensures anything p fun r => r ≠ some ⟨method, next⟩) : ¬ Honoured m stored p s method next := by
  intro ⟨result, hresult, hnext, _⟩
  exact (h.eval (within_anything m) s).1 result hresult hnext

theorem recovery_honoured (hm : Faultless m stored hashed) (hT : rt.cases.Blanks) (hvalid : record.Valid rt)
    (hstands : Stands stored s record) {backup : BackupCode} (hmem : backup ∈ record.backupCodes) {body : JsString}
    (hhash : hashed backup.hash = some (backup.id ++ hyphen :: body)) {submitted : JsString}
    (hsubmits : Submits rt.cases submitted (backup.id ++ hyphen :: body)) (now : Nat) :
    Honoured m stored (verifySecondFactor rt config record (some submitted) now true) s .recovery
      (record.without backup) ↔ hyphen ∉ backup.id := by
  constructor
  · intro hhonoured hmem'
    obtain ⟨selector, rest, hid, hselector⟩ := List.eq_append_cons_of_mem hmem'
    have hsplit : split hyphen backup.id = selector :: split hyphen rest := by
      rw [hid, split_append, split_of_notMem hselector]
      rfl
    have hne : backup.id ≠ selector := fun heq => hselector (heq ▸ hmem')
    revert hhonoured
    refine not_honoured ?_
    unfold verifySecondFactor
    rw [backupSelector_eq hT hsubmits hsplit]
    split
    · next other normalised hfound =>
      -- the code goes to another entry, and this one stays
      obtain ⟨hother, hotherId⟩ : other ∈ record.backupCodes ∧ other.id = selector := by
        split at hfound
        · obtain ⟨found, hfind, heq⟩ := Option.map_eq_some_iff.mp hfound
          obtain ⟨rfl, -⟩ := Prod.mk.inj heq
          exact ⟨List.mem_of_find?_eq_some hfind, by simpa using List.find?_some hfind⟩
        · cases hfound
      refine ensures_imp (verifyBackup_record other normalised) fun r hr heq => ?_
      have hrecord := (hr _ heq).2
      rw [removeBackup_next hvalid.backupIds hother] at hrecord
      have hcodes : record.backupCodes.filter (· ≠ backup) = record.backupCodes.filter (· ≠ other) :=
        congrArg LocalRecord.backupCodes hrecord
      have hkept : backup ∈ record.backupCodes.filter (· ≠ other) :=
        List.mem_filter.mpr ⟨hmem, decide_eq_true fun hsame => hne (by rw [hsame, hotherId])⟩
      rw [← hcodes] at hkept
      exact of_decide_eq_true (List.mem_filter.mp hkept).2 rfl
    · refine ensures_imp (verifyTotpCredentials_method _ now true _) fun r hr heq => ?_
      cases hr _ heq
  · intro hno
    have hselected : (backupSelector rt (some submitted)).bind (fun found =>
        (record.backupCodes.find? (·.id = found.1)).map fun b => (b, found.2)) =
          some (backup, backup.id ++ hyphen :: body) := by
      rw [backupSelector_eq hT hsubmits (split_of_notMem hno), if_pos (hvalid.backupCodes backup hmem).id,
        Option.bind_some, find?_id hvalid.backupIds hmem]
      rfl
    unfold verifySecondFactor
    rw [hselected, ← removeBackup_next hvalid.backupIds hmem]
    exact verifyBackup_honoured hm hstands hhash

/-! ## TOTP -/

/-- The code of a credential for a step. -/
def TotpCredential.codeAt (rt : Runtime) (t : TotpCredential) (step : Nat) : JsString :=
  let mac := rt.totpMac t.algorithm ((decodeBase32 rt t.secret).getD []) (counterBytes step)
  padStart t.digits (decimal (truncate mac % 10 ^ t.digits))

/-- A code that a credential takes at this instant. -/
def TotpCredential.Takes (rt : Runtime) (config : Config) (t : TotpCredential) (now : Nat) (code : JsString) : Prop :=
  ∃ step ∈ candidateSteps (now / t.period) config.localIdentities.totpSkew,
    t.codeAt rt step = code ∧ t.lastUsedStep.all (· < step) = true

/-- The latest instant of a `Date`, in seconds. -/
def LATEST_INSTANT : Nat := 8640000000000

/-- The latest of the steps that are accepted. -/
def latest (accept : Nat → Bool) : List Nat → Option Nat → Option Nat
  | [], matched => matched
  | step :: steps, matched =>
    latest accept steps (if accept step then some ((matched.map (max · step)).getD step) else matched)

theorem latest_none {accept : Nat → Bool} {steps : List Nat} (h : ∀ step ∈ steps, accept step = false) :
    latest accept steps none = none := by
  induction steps with
  | nil => rfl
  | cons step steps ih =>
    rw [latest, h step List.mem_cons_self, if_neg Bool.false_ne_true]
    exact ih fun x hx => h x (List.mem_cons_of_mem _ hx)

/-- A step that was matched is not lost again. -/
theorem latest_keeps {accept : Nat → Bool} {steps : List Nat} : ∀ {j k : Nat}, j ≤ k →
    ∃ k', latest accept steps (some k) = some k' ∧ j ≤ k' := by
  induction steps with
  | nil => exact fun {j k} hle => ⟨k, rfl, hle⟩
  | cons step steps ih =>
    intro j k hle
    rw [latest]
    by_cases haccept : accept step = true
    · rw [if_pos haccept]
      exact ih (Nat.le_trans hle (Nat.le_max_left k step))
    · rw [if_neg haccept]
      exact ih hle

theorem latest_some {accept : Nat → Bool} {steps : List Nat} {step : Nat} (hmem : step ∈ steps)
    (haccept : accept step = true) : ∀ matched, ∃ k, latest accept steps matched = some k ∧ step ≤ k := by
  induction steps with
  | nil => cases hmem
  | cons first steps ih =>
    intro matched
    rw [latest]
    rcases List.mem_cons.mp hmem with rfl | hmem
    · rw [if_pos haccept]
      cases matched with
      | none => exact latest_keeps (Nat.le_refl step)
      | some k => exact latest_keeps (Nat.le_max_right k step)
    · exact ih hmem _

theorem codeAt_spec {t : TotpCredential} (ht : t.Valid rt) (step : Nat) :
    (t.codeAt rt step).length = t.digits ∧ ∀ u ∈ t.codeAt rt step, isDigit u = true := by
  have hpos : 0 < t.digits := by
    have hdigits := ht.digits
    omega
  have hlength := decimal_length hpos (Nat.mod_lt (truncate (rt.totpMac t.algorithm
    ((decodeBase32 rt t.secret).getD []) (counterBytes step))) (Nat.pow_pos (by omega : 0 < 10)))
  refine ⟨?_, fun u hu => ?_⟩
  · rw [TotpCredential.codeAt, padStart, List.length_append, List.length_replicate]
    omega
  · rcases List.mem_append.mp hu with hu | hu
    · rw [(List.mem_replicate.mp hu).2]
      rfl
    · exact decimal_digit u hu

theorem digit_ascii {u : CodeUnit} (h : isDigit u = true) :
    u < 128 ∧ isLower u = false ∧ isSpace u = false ∧ u ≠ hyphen := by
  have hall : ∀ n : Fin 128, isDigit (UInt16.ofNat n) = true → isLower (UInt16.ofNat n) = false ∧
      isSpace (UInt16.ofNat n) = false ∧ UInt16.ofNat n ≠ hyphen := by
    decide +kernel
  have hlt : u.toNat < 128 := by
    simp only [isDigit, Bool.and_eq_true, decide_eq_true_eq, UInt16.le_iff_toNat_le] at h
    have hhigh : u.toNat ≤ 57 := h.2
    omega
  have hunit := hall ⟨u.toNat, hlt⟩
  rw [UInt16.ofNat_toNat] at hunit
  exact ⟨hlt, hunit h⟩

/-- A code of digits equals only itself. -/
theorem timingSafeEqual_digits {a b : JsString} (ha : ∀ u ∈ a, isDigit u = true) :
    timingSafeEqual a b = true ↔ a = b := by
  constructor
  · exact timingSafeEqual_ascii fun u hu => (digit_ascii (ha u hu)).1
  · intro heq
    rw [heq]
    exact decide_eq_true rfl

theorem totpForStep_yields (hm : Faultless m stored hashed) {t : TotpCredential} (ht : t.Valid rt) {step : Nat}
    (hstep : step ≤ Json.maxSafeInteger) :
    (totpForStep rt t.secret step t.algorithm t.digits).Yields m s fun code s' =>
      code = t.codeAt rt step ∧ stored s' = stored s := by
  have hdigits : ¬ (t.digits ≠ 6 ∧ t.digits ≠ 8) := by
    have hvalid := ht.digits
    omega
  obtain ⟨bytes, hbytes, -⟩ := Option.map_eq_some_iff.mp ht.secret
  have hkept : ∀ s, stored (m.answer s .suspend).2 = stored s := fun s => hm.kept s .suspend nofun
  unfold totpForStep
  rw [if_neg (Nat.not_lt.mpr hstep), if_neg hdigits, hbytes]
  refine Prog.yields_bind (Prog.yields_await (Prog.yields_bind (Prog.yields_await (Prog.yields_pure ⟨?_, ?_⟩))))
  · rw [TotpCredential.codeAt, hbytes]
    rfl
  · rw [hkept, hkept]

theorem matchSteps_yields (hm : Faultless m stored hashed) {t : TotpCredential} (ht : t.Valid rt)
    (presented : JsString) {steps : List Nat} (hsteps : ∀ step ∈ steps, step ≤ Json.maxSafeInteger) :
    ∀ {matched : Option Nat} {s : σ},
      (matchSteps rt t.secret presented t.algorithm t.digits t.lastUsedStep steps matched).Yields m s fun r s' =>
        r = latest (fun step => timingSafeEqual (t.codeAt rt step) presented && t.lastUsedStep.all (· < step))
          steps matched ∧ stored s' = stored s := by
  induction steps with
  | nil => exact fun {matched s} => Prog.yields_pure ⟨rfl, rfl⟩
  | cons step steps ih =>
    intro matched s
    have hcode := totpForStep_yields (s := s) hm ht (hsteps step List.mem_cons_self)
    unfold matchSteps
    refine Prog.yields_bind (hcode.mono fun code s' h => ?_)
    dsimp only
    rw [h.1, ← h.2, latest]
    exact ih fun x hx => hsteps x (List.mem_cons_of_mem _ hx)

theorem candidateSteps_le {now period skew : Nat} (hnow : now ≤ LATEST_INSTANT) (hskew : skew ≤ 5) :
    ∀ step ∈ candidateSteps (now / period) skew, step ≤ Json.maxSafeInteger := by
  intro step hstep
  obtain ⟨i, hi, hsome⟩ := List.mem_filterMap.mp hstep
  have hle : now / period ≤ now := Nat.div_le_self now period
  have hi := List.mem_range.mp hi
  split at hsome
  · rw [← Option.some.inj hsome]
    unfold LATEST_INSTANT at hnow
    unfold Json.maxSafeInteger
    omega
  · cases hsome

theorem current_mem {current skew : Nat} : current ∈ candidateSteps current skew := by
  refine List.mem_filterMap.mpr ⟨skew, List.mem_range.mpr (by omega), ?_⟩
  rw [if_pos (Nat.le_add_left skew current), Nat.add_sub_cancel]

/-- A code of digits is verified against the steps of the window. -/
theorem verifyTotp_yields (hm : Faultless m stored hashed) (hskew : config.localIdentities.totpSkew ≤ 5) {now : Nat}
    (hnow : now ≤ LATEST_INSTANT) {t : TotpCredential} (ht : t.Valid rt) {code : JsString} (hne : code ≠ [])
    (hdigits : ∀ u ∈ code, isDigit u = true) :
    (verifyTotp rt t.secret (some code) now t.algorithm t.digits t.period config.localIdentities.totpSkew
      t.lastUsedStep).Yields m s fun r s' => stored s' = stored s ∧ (¬ t.Takes rt config now code → r = none) ∧
        (t.codeAt rt (now / t.period) = code → t.lastUsedStep.all (· < now / t.period) = true →
          ∃ step, r = some step ∧ now / t.period ≤ step) := by
  have hpresented : ((some code).getD []).filter (fun u => !(isSpace u || u = hyphen)) = code := by
    refine List.filter_eq_self.mpr fun u hu => ?_
    obtain ⟨-, -, hspace, hhyphen⟩ := digit_ascii (hdigits u hu)
    simp [hspace, hhyphen]
  have hall : code.all isDigit = true := List.all_eq_true.mpr hdigits
  have hequal : ∀ step, timingSafeEqual (t.codeAt rt step) code = true ↔ t.codeAt rt step = code :=
    fun step => timingSafeEqual_digits (codeAt_spec ht step).2
  unfold verifyTotp
  simp only [hpresented, hall]
  by_cases hlength : code.length = t.digits
  · have hperiod : ¬ (t.period < 15 ∨ 120 < t.period) := by
      have hvalid := ht.period
      omega
    rw [if_neg (by simp [hlength, hne]), if_neg hperiod, if_neg (Nat.not_lt.mpr hskew)]
    refine (matchSteps_yields hm ht code (candidateSteps_le hnow hskew)).mono fun r s' h => ⟨h.2, ?_, ?_⟩
    · intro hno
      rw [h.1]
      refine latest_none fun step hstep => Bool.eq_false_iff.mpr fun haccept => hno ?_
      obtain ⟨hcode, hlast⟩ := Bool.and_eq_true_iff.mp haccept
      exact ⟨step, hstep, (hequal step).mp hcode, hlast⟩
    · intro hcode hlast
      rw [h.1]
      refine latest_some current_mem ?_ none
      rw [(hequal _).mpr hcode, hlast]
      rfl
  · rw [if_pos (by simp [hlength])]
    refine Prog.yields_pure ⟨rfl, fun _ => rfl, fun hcode _ => ?_⟩
    exact absurd (hcode ▸ (codeAt_spec ht _).1) hlength

/-- The record with the marker of one credential moved. -/
def LocalRecord.stepped (record : LocalRecord) (pre : List TotpCredential) (credential : TotpCredential)
    (post : List TotpCredential) (step : Nat) : LocalRecord :=
  { record with
    totp := pre ++ { credential with lastUsedStep := some step } :: post
    revision := record.revision + 1 }

variable {pre post : List TotpCredential} {credential : TotpCredential}

theorem updateFirst_append {α : Type} {p : α → Bool} {f : α → α} {x : α} {xs ys : List α} (hx : p x = true)
    (hxs : ∀ y ∈ xs, p y = false) : updateFirst p f (xs ++ x :: ys) = xs ++ f x :: ys := by
  induction xs with
  | nil => exact if_pos hx
  | cons y xs ih =>
    rw [List.cons_append, updateFirst, hxs y List.mem_cons_self, if_neg Bool.false_ne_true,
      ih fun z hz => hxs z (List.mem_cons_of_mem _ hz)]
    rfl

theorem totpStep_next (hids : (record.totp.map (·.id)).Nodup) (htotp : record.totp = pre ++ credential :: post)
    (step : Nat) :
    (Change.totpStep credential.id step).next record = record.stepped pre credential post step := by
  have hother : ∀ earlier ∈ pre, (earlier.id = credential.id : Bool) = false := by
    intro earlier hearlier
    rw [htotp, List.map_append, List.nodup_append] at hids
    exact decide_eq_false (hids.2.2 _ (List.mem_map_of_mem hearlier) _ (List.mem_map_of_mem List.mem_cons_self))
  have hupdate : updateFirst (·.id = credential.id) (fun t => { t with lastUsedStep := some step }) record.totp =
      pre ++ { credential with lastUsedStep := some step } :: post := by
    rw [htotp]
    exact updateFirst_append (decide_eq_true rfl) hother
  rw [LocalRecord.stepped, ← hupdate]
  rfl

/-- A code of digits is looked up as the id of a recovery code. -/
theorem backupSelector_digits {code : JsString} (hdigits : ∀ u ∈ code, isDigit u = true) (hne : code ≠ [])
    (hlength : code.length ≤ 128) : backupSelector rt (some code) = some (code, code) := by
  have hupper : rt.cases.toUpperCase code = code := CaseTables.toUpperCase_ascii _ fun u hu =>
    ⟨(digit_ascii (hdigits u hu)).1, (digit_ascii (hdigits u hu)).2.1⟩
  have hfilter : code.filter (fun u => !isSpace u) = code := by
    refine List.filter_eq_self.mpr fun u hu => ?_
    rw [(digit_ascii (hdigits u hu)).2.2.1]
    rfl
  have hhyphen : hyphen ∉ code := fun hmem => (digit_ascii (hdigits hyphen hmem)).2.2.2 rfl
  have hsafe : safeId code = true := by
    simp only [safeId, Bool.and_eq_true, decide_eq_true_eq, List.all_eq_true]
    refine ⟨⟨List.length_pos_iff.mpr hne, hlength⟩, fun u hu => ?_⟩
    simp [isAlnum, hdigits u hu]
  unfold backupSelector
  dsimp only
  rw [Option.getD_some, hupper, hfilter, split_of_notMem hhyphen, List.headD_cons, if_pos hsafe]

theorem verifyTotpCredentials_yields (hm : Faultless m stored hashed) (hskew : config.localIdentities.totpSkew ≤ 5)
    {now : Nat} (hnow : now ≤ LATEST_INSTANT) {code : JsString} (hne : code ≠ [])
    (hdigits : ∀ u ∈ code, isDigit u = true) (hvalid : credential.Valid rt)
    (hcode : credential.codeAt rt (now / credential.period) = code)
    (hlast : credential.lastUsedStep.all (· < now / credential.period) = true)
    (hpre : ∀ earlier ∈ pre, earlier.Valid rt ∧ ¬ earlier.Takes rt config now code) :
    ∀ {s : σ}, Stands stored s record →
      (verifyTotpCredentials rt config record (some code) now true (pre ++ credential :: post)).Yields m s
        fun result s' => ∃ step, now / credential.period ≤ step ∧
          result = some ⟨.totp, (Change.totpStep credential.id step).next record⟩ ∧
          stored s' = (stored s).write record.key
            (storedRecord ((Change.totpStep credential.id step).next record)) := by
  induction pre with
  | nil =>
    intro s hstands
    refine Prog.yields_bind ((verifyTotp_yields hm hskew hnow hvalid hne hdigits).mono fun r s' h => ?_)
    obtain ⟨hstored, -, hsome⟩ := h
    obtain ⟨step, rfl, hle⟩ := hsome hcode hlast
    have hreplace := replace_yields (s := s') hm (by rw [Stands, hstored]; exact hstands)
      (.totpStep credential.id step)
    refine Prog.yields_bind (hreplace.mono fun updated s'' h => Prog.yields_pure ⟨step, hle, ?_, ?_⟩)
    · rw [h.1]
      rfl
    · rw [h.2, hstored]
  | cons earlier pre ih =>
    intro s hstands
    obtain ⟨hearlier, hno⟩ := hpre earlier List.mem_cons_self
    refine Prog.yields_bind ((verifyTotp_yields hm hskew hnow hearlier hne hdigits).mono fun r s' h => ?_)
    obtain ⟨hstored, hnone, -⟩ := h
    rw [hnone hno, ← hstored]
    exact ih (fun other hother => hpre other (List.mem_cons_of_mem _ hother)) (by rw [Stands, hstored]; exact hstands)

/-- Digits that are the id of no recovery code go to the TOTP credentials. -/
theorem verifySecondFactor_totp {code : JsString} (hselector : backupSelector rt (some code) = some (code, code))
    (hids : ∀ backup ∈ record.backupCodes, backup.id ≠ code) (now : Nat) :
    verifySecondFactor rt config record (some code) now true =
      verifyTotpCredentials rt config record (some code) now true record.totp := by
  have hnone : record.backupCodes.find? (·.id = code) = none := by
    rw [List.find?_eq_none]
    exact fun backup hbackup => by simpa using hids backup hbackup
  unfold verifySecondFactor
  rw [hselector, Option.bind_some, hnone, Option.map_none]

/-- A code that is the id of a recovery code is taken for one. -/
theorem totp_shadowed {code : JsString} (hselector : backupSelector rt (some code) = some (code, code))
    {backup : BackupCode} (hbackup : backup ∈ record.backupCodes) (hid : backup.id = code) (now : Nat)
    (next : LocalRecord) :
    ¬ Honoured m stored (verifySecondFactor rt config record (some code) now true) s .totp next := by
  refine not_honoured ?_
  unfold verifySecondFactor
  rw [hselector]
  split
  · refine ensures_imp (verifyBackup_record _ _) fun r hr heq => ?_
    cases (hr _ heq).1
  · next hnone =>
    rw [Option.bind_some, Option.map_eq_none_iff, List.find?_eq_none] at hnone
    exact absurd (decide_eq_true hid) (hnone backup hbackup)

theorem totp_honoured (hm : Faultless m stored hashed) (hskew : config.localIdentities.totpSkew ≤ 5)
    (hvalid : record.Valid rt) (hstands : Stands stored s record) {now : Nat} (hnow : now ≤ LATEST_INSTANT)
    (htotp : record.totp = pre ++ credential :: post)
    (hlast : credential.lastUsedStep.all (· < now / credential.period) = true) {code : JsString}
    (hcode : credential.codeAt rt (now / credential.period) = code)
    (hpre : ∀ earlier ∈ pre, ¬ earlier.Takes rt config now code) :
    (∃ step, now / credential.period ≤ step ∧
      Honoured m stored (verifySecondFactor rt config record (some code) now true) s .totp
        (record.stepped pre credential post step)) ↔
      ∀ backup ∈ record.backupCodes, backup.id ≠ code := by
  have hmem : ∀ t ∈ pre ++ credential :: post, t.Valid rt := fun t ht => hvalid.totp t (htotp ▸ ht)
  have hcredential : credential.Valid rt := hmem credential (by simp)
  have hspec := codeAt_spec hcredential (now / credential.period)
  rw [hcode] at hspec
  have hsize := hcredential.digits
  have hne : code ≠ [] := by
    intro hnil
    have hlength := hspec.1
    rw [hnil, List.length_nil] at hlength
    omega
  have hselector : backupSelector rt (some code) = some (code, code) := by
    have hlength := hspec.1
    exact backupSelector_digits hspec.2 hne (by omega)
  constructor
  · intro ⟨step, _, hhonoured⟩ backup hbackup hid
    exact totp_shadowed hselector hbackup hid now _ hhonoured
  · intro hids
    have hvalids : ∀ earlier ∈ pre, earlier.Valid rt ∧ ¬ earlier.Takes rt config now code :=
      fun earlier hearlier => ⟨hmem earlier (by simp [hearlier]), hpre earlier hearlier⟩
    obtain ⟨result, hresult, step, hle, heq, hstored⟩ :=
      verifyTotpCredentials_yields hm hskew hnow hne hspec.2 hcredential hcode hlast hvalids hstands
    rw [totpStep_next hvalid.totpIds htotp] at heq hstored
    refine ⟨step, hle, ?_⟩
    rw [verifySecondFactor_totp hselector hids, htotp]
    exact ⟨result, hresult, heq, hstored⟩

/-- Every factor of an accepted record can be used, unless the id of a recovery code has a hyphen or is the code
of a TOTP credential. -/
theorem factors_usable (hm : Faultless m stored hashed) (hT : rt.cases.Blanks)
    (hskew : config.localIdentities.totpSkew ≤ 5) {doc : Json} {key : JsString}
    (hparse : parseLocalIdentityRecord rt doc key = some record) (hdoc : stored s key = some doc) {now : Nat}
    (hnow : now ≤ LATEST_INSTANT) :
    (∀ backup ∈ record.backupCodes, ∀ body, hashed backup.hash = some (backup.id ++ hyphen :: body) →
      ∀ submitted, Submits rt.cases submitted (backup.id ++ hyphen :: body) →
        (Honoured m stored (verifySecondFactor rt config record (some submitted) now true) s .recovery
          (record.without backup) ↔ hyphen ∉ backup.id)) ∧
      ∀ pre credential post, record.totp = pre ++ credential :: post →
        credential.lastUsedStep.all (· < now / credential.period) = true →
        (∀ earlier ∈ pre, ¬ earlier.Takes rt config now (credential.codeAt rt (now / credential.period))) →
          ((∃ step, now / credential.period ≤ step ∧
            Honoured m stored
              (verifySecondFactor rt config record (some (credential.codeAt rt (now / credential.period))) now true) s
              .totp (record.stepped pre credential post step)) ↔
            ∀ backup ∈ record.backupCodes, backup.id ≠ credential.codeAt rt (now / credential.period)) := by
  obtain ⟨hvalid, -, hkey⟩ := parse_valid hparse
  have hstands : Stands stored s record := by
    rw [Stands, hkey, hdoc]
    exact revisionOf_parse hparse
  exact ⟨fun backup hmem body hhash submitted hsubmits =>
      recovery_honoured hm hT hvalid hstands hmem hhash hsubmits now,
    fun pre credential post htotp hlast hpre => totp_honoured hm hskew hvalid hstands hnow htotp hlast rfl hpre⟩

end

namespace Sample

/-- The texts of two hashes. -/
def hashed (hash : JsString) : Option JsString :=
  if hash = js "$argon2id$v=19$m=65536,t=3,p=1$c2FsdA$Y29kZQ" then some (js "AAAA-1")
  else if hash = js "$argon2id$v=19$m=65536,t=3,p=1$c2FsdA$b3RoZXI" then some (js "A-B-1")
  else none

def knowing : (o : Op) → o.Ans
  | .verifyArgon2id hash text => .ok (decide (hashed hash = some text))
  | o => answer o

def faultless : Machine effects Documents := ⟨fun _ => 0, documentsOracle knowing 0⟩

theorem faultless_spec : Faultless faultless id hashed where
  verify _ _ _ := rfl
  swap docs key expected doc h := by
    have hanswer : faultless.answer docs (.bindingReplace key expected doc) = (.ok true, docs.write key doc) := if_pos h
    rw [hanswer]
    exact ⟨rfl, rfl⟩
  kept docs o h := by
    cases o with
    | bindingReplace key expected doc => exact absurd rfl (h key expected doc)
    | _ => rfl

/-- Erin has a backup code like Bob's, and one whose id has a hyphen. -/
def spare : BackupCode := ⟨js "AAAA", js "$argon2id$v=19$m=65536,t=3,p=1$c2FsdA$Y29kZQ"⟩

def hyphenated : BackupCode := ⟨js "A-B", js "$argon2id$v=19$m=65536,t=3,p=1$c2FsdA$b3RoZXI"⟩

def erin : LocalRecord := { bob with id := js "erin", backupCodes := [spare, hyphenated] }

theorem erin_parses : parseLocalIdentityRecord runtime (storedRecord erin) erin.key = some erin := by decide +kernel

theorem runtime_blanks : runtime.cases.Blanks where
  range p hp q hq := by
    have hqp : q = asciiUpper p := List.mem_singleton.mp hq
    rw [hqp]
    unfold asciiUpper
    split <;> omega
  blank p hp q hq := by
    have hqp : q = asciiUpper p := List.mem_singleton.mp hq
    by_cases hlower : 97 ≤ p ∧ p ≤ 122
    · have hall : ∀ n : Fin 128, 97 ≤ n.val ∧ n.val ≤ 122 → isSpacePoint (n.val - 32) = isSpacePoint n.val := by
        decide +kernel
      rw [hqp, asciiUpper, if_pos hlower]
      exact hall ⟨p, by omega⟩ hlower
    · rw [hqp, asciiUpper, if_neg hlower]

theorem submits_lower : Submits runtime.cases (js "aaaa - 1") (js "AAAA-1") ∧
    Submits runtime.cases (js "a-b-1") (js "A-B-1") :=
  ⟨⟨js "aaaa-1", by decide +kernel⟩, ⟨js "a-b-1", by decide +kernel⟩⟩

theorem erin_stored : id (only erin) erin.key = some (storedRecord erin) := by
  rw [id_eq, only, if_pos rfl]

/-- One of Erin's codes can be used. -/
theorem spare_honoured :
    Honoured faultless id (verifySecondFactor runtime Sample.config erin (some (js "aaaa - 1")) 0 true) (only erin)
      .recovery (erin.without spare) :=
  ((factors_usable faultless_spec runtime_blanks (by decide) erin_parses erin_stored (Nat.zero_le _)).1 spare
    (by decide) (js "1") (by decide +kernel) (js "aaaa - 1") submits_lower.1).mpr (by decide)

/-- The other cannot. -/
theorem hyphenated_unusable :
    parseLocalIdentityRecord runtime (storedRecord erin) erin.key = some erin ∧ Faultless faultless id hashed ∧
      hyphenated ∈ erin.backupCodes ∧ hashed hyphenated.hash = some (hyphenated.id ++ hyphen :: js "1") ∧
      Submits runtime.cases (js "a-b-1") (hyphenated.id ++ hyphen :: js "1") ∧
      ¬ Honoured faultless id (verifySecondFactor runtime Sample.config erin (some (js "a-b-1")) 0 true) (only erin)
        .recovery (erin.without hyphenated) := by
  have hmem : hyphenated ∈ erin.backupCodes := by decide
  have hhash : hashed hyphenated.hash = some (hyphenated.id ++ hyphen :: js "1") := by decide +kernel
  refine ⟨erin_parses, faultless_spec, hmem, hhash, submits_lower.2, fun hhonoured => ?_⟩
  have hstands : Stands id (only erin) erin := by
    rw [Stands, erin_stored]
    exact revisionOf_storedRecord erin
  have hno := (recovery_honoured faultless_spec runtime_blanks (parse_valid erin_parses).1 hstands hmem hhash
    submits_lower.2 0).mp hhonoured
  exact hno (by decide)

end Sample

end Sag
