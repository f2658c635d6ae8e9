import Sag.LocalIdentities.Record

/-!
# What is written can be read

The parser and the serialiser of `LocalIdentities.Record` list their fields and
limits separately; this file is their agreement. `Valid` says what the parser
guarantees of each part of a record, whatever document it came from, and the
parser reads a valid part back as itself exactly when the text it has to measure
is within its limit (`normaliseTotp_toJson`, `normaliseLink_toJson`).

Two texts are longer after parsing than they were before. A TOTP secret is
measured as it was typed and kept in its canonical form, and upper-casing can
lengthen it; a refresh token is sealed, and the seal is longer than the token.
`Record.Fits` bounds those two and nothing else, and `parse_storedRecord_iff` is
the whole law.
-/

namespace Sag

variable {rt : Runtime}

/-! ## Members -/

theorem required_of {α : Type} {m : Members} {name : JsString} {f : Json → Option α} {v : Json} {x : α}
    (hm : Json.member m name = some v) (hf : f v = some x) : required m name f = some x := by
  rw [required, hm]
  exact hf

theorem optional_of {α β : Type} {m : Members} {name : JsString} {f : Json → Option β} {g : α → Json}
    {k : α → β} {o : Option α} (hm : Json.member m name = o.map g)
    (hf : ∀ x, o = some x → f (g x) = some (k x)) : optional m name f = some (o.map k) := by
  cases o with
  | none => rw [optional, hm]; rfl
  | some x => rw [optional, hm, Option.map_some]; simp only [hf x rfl, Option.map_some]

theorem required_some {α : Type} {m : Members} {name : JsString} {f : Json → Option α} {x : α}
    (h : required m name f = some x) : ∃ v, f v = some x := by
  obtain ⟨v, -, hv⟩ := Option.bind_eq_some_iff.mp h
  exact ⟨v, hv⟩

theorem optional_some {α : Type} {m : Members} {name : JsString} {f : Json → Option α}
    {o : Option α} (h : optional m name f = some o) : ∀ x, o = some x → ∃ v, f v = some x := by
  rintro x rfl
  unfold optional at h
  split at h
  · cases h
  · next v _ =>
    obtain ⟨y, hy, hyx⟩ := Option.map_eq_some_iff.mp h
    exact ⟨v, hy.trans (congrArg some (Option.some.inj hyx))⟩

theorem string_filter {v : Json} {p : JsString → Bool} {s : JsString}
    (h : v.string?.filter p = some s) : v = .str s ∧ p s = true := by
  obtain ⟨hs, hp⟩ := Option.filter_eq_some_iff.mp h
  cases v <;> simp [Json.string?] at hs
  exact ⟨by rw [hs], hp⟩

theorem integer_some {min max n : Nat} {v : Json} (h : integer min max v = some n) :
    min ≤ n ∧ n ≤ max ∧ n ≤ Json.maxSafeInteger := by
  obtain ⟨hn, hb⟩ := Option.filter_eq_some_iff.mp h
  have hbounds : min ≤ n ∧ n ≤ max := by simpa using hb
  exact ⟨hbounds.1, hbounds.2, (Json.safeNat?_eq_some hn).2⟩

theorem integer_ofNat {min max n : Nat} (hmin : min ≤ n) (hmax : n ≤ max)
    (hsafe : n ≤ Json.maxSafeInteger) : integer min max (.ofNat n) = some n := by
  simp [integer, hsafe, hmin, hmax]

theorem guard_of {p : Prop} [Decidable p] (h : p) : (guard p : Option Unit) = some () := if_pos h

theorem of_guard {p : Prop} [Decidable p] {u : Unit} (h : (guard p : Option Unit) = some u) : p := by
  unfold guard at h
  split at h
  · assumption
  · cases h

theorem mapM_map_some {α β : Type} {f : β → Option α} {g : α → β} :
    ∀ {l : List α}, (∀ x ∈ l, f (g x) = some x) → (l.map g).mapM f = some l := by
  intro l
  induction l with
  | nil => intro _; rfl
  | cons x l ih =>
    intro h
    rw [List.map_cons, List.mapM_cons, h x List.mem_cons_self, ih fun y hy => h y (List.mem_cons_of_mem _ hy)]
    rfl

/-- What a list parses to, piece by piece. -/
theorem mapM_some {α β : Type} {f : β → Option α} :
    ∀ {l : List β} {r : List α}, l.mapM f = some r →
      r.length = l.length ∧ (∀ y ∈ r, ∃ x ∈ l, f x = some y) ∧ ∀ x ∈ l, ∃ y ∈ r, f x = some y := by
  intro l
  induction l with
  | nil =>
    intro r h
    obtain rfl : [] = r := by simpa using h
    simp
  | cons x l ih =>
    intro r h
    rw [List.mapM_cons] at h
    obtain ⟨y, hy, h⟩ := Option.bind_eq_some_iff.mp h
    obtain ⟨ys, hys, h⟩ := Option.bind_eq_some_iff.mp h
    obtain rfl : y :: ys = r := by simpa using h
    obtain ⟨hlen, hback, hforth⟩ := ih hys
    refine ⟨by simp [hlen], ?_, ?_⟩
    · intro z hz
      rcases List.mem_cons.mp hz with rfl | hz
      · exact ⟨x, List.mem_cons_self, hy⟩
      · obtain ⟨w, hw, hwz⟩ := hback z hz
        exact ⟨w, List.mem_cons_of_mem _ hw, hwz⟩
    · intro w hw
      rcases List.mem_cons.mp hw with rfl | hw
      · exact ⟨y, List.mem_cons_self, hy⟩
      · obtain ⟨z, hz, hwz⟩ := hforth w hw
        exact ⟨z, List.mem_cons_of_mem _ hz, hwz⟩

/-! ## TOTP credentials -/

/-- What the parser guarantees of a TOTP credential. -/
structure TotpCredential.Valid (rt : Runtime) (t : TotpCredential) : Prop where
  id : safeId t.id = true
  label : ∀ l, t.label = some l → l.length ≤ 128
  secret : canonicalSecret rt t.secret = some t.secret
  digits : t.digits = 6 ∨ t.digits = 8
  period : 15 ≤ t.period ∧ t.period ≤ 120
  lastUsedStep : ∀ n, t.lastUsedStep = some n → n ≤ Json.maxSafeInteger

/-- A canonical secret is its own canonical form. -/
theorem canonicalSecret_idem {s c : JsString} (h : canonicalSecret rt s = some c) :
    canonicalSecret rt c = some c := by
  obtain ⟨bytes, hbytes, rfl⟩ := Option.map_eq_some_iff.mp h
  rw [canonicalSecret, decodeBase32_encodeBase32 rt (decodeBase32_length rt hbytes)]
  rfl

theorem hashName_text (h : HashName) : hashName? rt h.text = some h := by
  have hup : ∀ s : JsString, (∀ u ∈ s, u < 128 ∧ isLower u = false) → rt.cases.toUpperCase s = s :=
    fun s hs => CaseTables.toUpperCase_ascii _ hs
  cases h
  · rw [hashName?, hup _ (by decide)]; decide
  · rw [hashName?, hup _ (by decide)]; decide
  · rw [hashName?, hup _ (by decide)]; decide

theorem normaliseTotp_valid {v : Json} {t : TotpCredential} (h : normaliseTotp rt v = some t) :
    t.Valid rt ∧ (∀ m, v = .obj m → ∀ s, Json.member m (js "secret") = some (.str s) → s.length ≤ 256) := by
  simp only [normaliseTotp, Option.bind_eq_bind, Option.bind_eq_some_iff] at h
  obtain ⟨m, hm, id, hid, _, -, algorithm, -, digits, hdigits, period, hperiod, label, -, secret,
    hsecret, last, hlast, ht⟩ := h
  obtain rfl := Option.some.inj ht
  obtain ⟨vs, hvs, hraw⟩ := Option.bind_eq_some_iff.mp hsecret
  obtain ⟨s, hs, hcanon⟩ := Option.bind_eq_some_iff.mp hraw
  obtain ⟨rfl, hlen⟩ := string_filter hs
  refine ⟨⟨?_, ?_, canonicalSecret_idem hcanon, ?_, ?_, ?_⟩, ?_⟩
  · obtain ⟨_, hv⟩ := required_some hid
    exact (string_filter hv).2
  · intro l hl
    obtain ⟨l', -, rfl⟩ := Option.map_eq_some_iff.mp hl
    exact List.length_take_le _ _
  · cases digits with
    | none => exact Or.inl rfl
    | some d =>
      obtain ⟨_, hv⟩ := optional_some hdigits d rfl
      simpa using (Option.filter_eq_some_iff.mp hv).2
  · cases period with
    | none =>
      show 15 ≤ 30 ∧ 30 ≤ 120
      decide
    | some p =>
      obtain ⟨_, hv⟩ := optional_some hperiod p rfl
      exact ⟨(integer_some hv).1, (integer_some hv).2.1⟩
  · intro n hn
    obtain ⟨_, hv⟩ := optional_some hlast n hn
    exact (integer_some hv).2.2
  · rintro m' rfl s' hs'
    obtain rfl : m' = m := Option.some.inj hm
    rw [hvs] at hs'
    obtain rfl : s = s' := by simpa using hs'
    simpa using hlen

theorem totp_hasOnlyFields (t : TotpCredential) :
    ∃ m, t.toJson = .obj m ∧ hasOnlyFields m TOTP_FIELDS = true ∧
      Json.member m (js "id") = some (.str t.id) ∧ Json.member m (js "label") = t.label.map .str ∧
      Json.member m (js "secret") = some (.str t.secret) ∧
      Json.member m (js "algorithm") = (some t.algorithm).map (.str ·.text) ∧
      Json.member m (js "digits") = (some t.digits).map .ofNat ∧
      Json.member m (js "period") = (some t.period).map .ofNat ∧
      Json.member m (js "last_used_step") = t.lastUsedStep.map .ofNat := by
  obtain ⟨id, label, secret, algorithm, digits, period, last⟩ := t
  refine ⟨_, rfl, ?_⟩
  cases label <;> cases last <;> exact ⟨rfl, rfl, rfl, rfl, rfl, rfl, rfl, rfl⟩

/-- A valid credential is read back exactly when its secret is short enough. -/
theorem normaliseTotp_toJson {t : TotpCredential} (hv : t.Valid rt) :
    normaliseTotp rt t.toJson = some t ↔ t.secret.length ≤ 256 := by
  obtain ⟨m, hm, hfields, hid, hlabel, hsecret, halg, hdigits, hperiod, hlast⟩ := totp_hasOnlyFields t
  constructor
  · intro h
    exact (normaliseTotp_valid h).2 m hm t.secret hsecret
  · intro hlen
    have r₁ : required m (js "id") (fun v => v.string?.filter safeId) = some t.id :=
      required_of hid (by simp [Json.string?, hv.id])
    have r₂ : optional m (js "algorithm") (fun v => v.string?.bind (hashName? rt)) =
        some ((some t.algorithm).map id) :=
      optional_of halg fun x _ => hashName_text x
    have r₃ : optional m (js "digits") (fun v => v.safeNat?.filter fun n => n = 6 ∨ n = 8) =
        some ((some t.digits).map id) := by
      refine optional_of hdigits fun x hx => ?_
      obtain rfl := Option.some.inj hx
      rcases hv.digits with h | h <;> rw [h] <;> decide
    have r₄ : optional m (js "period") (integer 15 120) = some ((some t.period).map id) := by
      refine optional_of hperiod fun x hx => ?_
      obtain rfl := Option.some.inj hx
      exact integer_ofNat hv.period.1 hv.period.2 (Nat.le_trans hv.period.2 (by decide))
    have r₅ : optional m (js "label") Json.string? = some (t.label.map id) :=
      optional_of hlabel fun x _ => rfl
    have r₆ : required m (js "secret")
        (fun v => (v.string?.filter (·.length ≤ 256)).bind (canonicalSecret rt)) = some t.secret :=
      required_of hsecret (by
        show ((some t.secret).filter (·.length ≤ 256)).bind (canonicalSecret rt) = some t.secret
        rw [Option.filter_some, if_pos (by simpa using hlen)]
        exact hv.secret)
    have r₇ : optional m (js "last_used_step") (integer 0 Json.maxSafeInteger) =
        some (t.lastUsedStep.map id) :=
      optional_of hlast fun x hx =>
        integer_ofNat (Nat.zero_le _) (hv.lastUsedStep x hx) (hv.lastUsedStep x hx)
    have hlabel' : (t.label.map id).map (·.take 128) = t.label := by
      cases hl : t.label with
      | none => rfl
      | some l => simp [List.take_of_length_le (hv.label l hl)]
    rw [hm]
    simp only [normaliseTotp, Json.object?, Option.bind_eq_bind, Option.bind_some, r₁, r₂, r₃, r₄, r₅,
      r₆, r₇, guard_of hfields, hlabel']
    simp

/-! ## Backup codes -/

/-- What the parser guarantees of a backup code. -/
structure BackupCode.Valid (rt : Runtime) (b : BackupCode) : Prop where
  id : safeId b.id = true
  upper : rt.cases.toUpperCase b.id = b.id
  hash : approvedArgon2id b.hash = true

/-- An identifier in upper case is one, and is its own upper case. -/
theorem safeId_upper {id : JsString} (h : safeId id = true) :
    safeId (rt.cases.toUpperCase id) = true ∧
      rt.cases.toUpperCase (rt.cases.toUpperCase id) = rt.cases.toUpperCase id := by
  have unit : ∀ n : Fin 128, (isAlnum (UInt16.ofNat n) || UInt16.ofNat n = 95 || UInt16.ofNat n = hyphen) = true →
      upperUnit (UInt16.ofNat n) < 128 ∧ isLower (upperUnit (UInt16.ofNat n)) = false ∧
        (isAlnum (upperUnit (UInt16.ofNat n)) || upperUnit (UInt16.ofNat n) = 95 ||
          upperUnit (UInt16.ofNat n) = hyphen) = true := by
    decide +kernel
  simp only [safeId, Bool.and_eq_true, List.all_eq_true, decide_eq_true_eq] at h
  have hascii : ∀ u ∈ id, u < 128 := by
    intro u hu
    have := h.2 u hu
    simp only [isAlnum, isDigit, isUpper, isLower, Bool.or_eq_true, Bool.and_eq_true, decide_eq_true_eq,
      UInt16.le_iff_toNat_le] at this
    show u.toNat < 128
    rcases this with (((⟨-, hx⟩ | ⟨-, hx⟩) | ⟨-, hx⟩) | hx) | hx
    · exact Nat.lt_of_le_of_lt hx (by decide)
    · exact Nat.lt_of_le_of_lt hx (by decide)
    · exact Nat.lt_of_le_of_lt hx (by decide)
    · rw [hx]; decide
    · rw [hx]; decide
  have hunit : ∀ u ∈ id, upperUnit u < 128 ∧ isLower (upperUnit u) = false ∧
      (isAlnum (upperUnit u) || upperUnit u = 95 || upperUnit u = hyphen) = true := by
    intro u hu
    have hlt : u.toNat < 128 := hascii u hu
    have := unit ⟨u.toNat, hlt⟩
    simp only [UInt16.ofNat_toNat] at this
    exact this (h.2 u hu)
  have hmap := CaseTables.toUpperCase_map rt.cases hascii
  constructor
  · simp only [hmap, safeId, Bool.and_eq_true, List.all_eq_true, decide_eq_true_eq, List.length_map]
    refine ⟨h.1, fun u hu => ?_⟩
    obtain ⟨v, hv, rfl⟩ := List.mem_map.mp hu
    exact (hunit v hv).2.2
  · rw [hmap]
    refine CaseTables.toUpperCase_ascii _ fun u hu => ?_
    obtain ⟨v, hv, rfl⟩ := List.mem_map.mp hu
    exact ⟨(hunit v hv).1, (hunit v hv).2.1⟩

theorem normaliseBackup_valid {v : Json} {b : BackupCode} (h : normaliseBackup rt v = some b) :
    b.Valid rt := by
  simp only [normaliseBackup, Option.bind_eq_bind, Option.bind_eq_some_iff] at h
  obtain ⟨m, -, id, hid, _, -, hash, hhash, hb⟩ := h
  obtain rfl := Option.some.inj hb
  obtain ⟨_, hid⟩ := required_some hid
  obtain ⟨_, hhash⟩ := required_some hhash
  have hsafe : safeId (rt.cases.toUpperCase _) = true ∧ _ := safeId_upper (string_filter hid).2
  exact ⟨hsafe.1, hsafe.2, (string_filter hhash).2⟩

/-- A valid backup code is read back as itself. -/
theorem normaliseBackup_toJson {b : BackupCode} (hv : b.Valid rt) :
    normaliseBackup rt b.toJson = some b := by
  obtain ⟨id, hash⟩ := b
  have r₁ : required [(js "id", .str id), (js "hash", .str hash)] (js "id")
      (fun v => v.string?.filter safeId) = some id :=
    required_of rfl (by rw [Json.string?, Option.filter_some, if_pos hv.id])
  have r₂ : required [(js "id", .str id), (js "hash", .str hash)] (js "hash")
      (fun v => v.string?.filter approvedArgon2id) = some hash :=
    required_of rfl (by rw [Json.string?, Option.filter_some, if_pos hv.hash])
  have r₃ : hasOnlyFields [(js "id", .str id), (js "hash", .str hash)] BACKUP_FIELDS = true := rfl
  have hupper : rt.cases.toUpperCase id = id := hv.upper
  simp only [normaliseBackup, BackupCode.toJson, Json.object?, Option.bind_eq_bind, Option.bind_some,
    r₁, r₂, guard_of r₃, hupper]
  rfl

/-! ## Upstream links -/

/-- What the parser guarantees of a link, the length of its token apart. -/
structure UpstreamLink.Valid (rt : Runtime) (l : UpstreamLink) : Prop where
  id : safeId l.id = true
  upstream : safeUpstream l.upstream = true
  issuer : approvedIssuer rt l.issuer = true
  subject : 1 ≤ l.subject.length ∧ l.subject.length ≤ 512

/-- The limit on a stored refresh token. -/
def UpstreamLink.Fits (l : UpstreamLink) : Prop :=
  ∀ token, l.refreshToken = some token → token.length ≤ MAX_REFRESH_TOKEN

theorem normaliseLink_valid {v : Json} {i : Nat} {l : UpstreamLink}
    (h : normaliseLocalUpstreamLink rt v i = some l) : l.Valid rt ∧ l.Fits := by
  simp only [normaliseLocalUpstreamLink, Option.bind_eq_bind, Option.bind_eq_some_iff] at h
  obtain ⟨m, -, _, -, upstream, hup, issuer, hiss, subject, hsub, id, -, token, htok, _, hid, hl⟩ := h
  obtain rfl := Option.some.inj hl
  obtain ⟨_, hup⟩ := required_some hup
  obtain ⟨_, hiss⟩ := required_some hiss
  obtain ⟨_, hsub⟩ := required_some hsub
  refine ⟨⟨of_guard hid, (string_filter hup).2, (string_filter hiss).2, ?_⟩, ?_⟩
  · simpa using (string_filter hsub).2
  · intro t ht
    obtain ⟨_, hv⟩ := optional_some htok t ht
    simpa using (string_filter hv).2

theorem link_members (l : UpstreamLink) :
    ∃ m, l.toJson = .obj m ∧ hasOnlyFields m UPSTREAM_FIELDS = true ∧
      Json.member m (js "id") = (some l.id).map .str ∧
      Json.member m (js "upstream") = some (.str l.upstream) ∧
      Json.member m (js "issuer") = some (.str l.issuer) ∧
      Json.member m (js "subject") = some (.str l.subject) ∧
      Json.member m (js "refresh_token") = l.refreshToken.map .str := by
  obtain ⟨id, upstream, issuer, subject, token⟩ := l
  refine ⟨_, rfl, ?_⟩
  cases token <;> exact ⟨rfl, rfl, rfl, rfl, rfl, rfl⟩

/-- A valid link is read back, at any place of the list, exactly when its token
is short enough. -/
theorem normaliseLink_toJson {l : UpstreamLink} (hv : l.Valid rt) (i : Nat) :
    normaliseLocalUpstreamLink rt l.toJson i = some l ↔ l.Fits := by
  constructor
  · exact fun h => (normaliseLink_valid h).2
  · intro hfits
    obtain ⟨m, hm, hfields, hid, hup, hiss, hsub, htok⟩ := link_members l
    have r₁ : required m (js "upstream") (fun v => v.string?.filter safeUpstream) = some l.upstream :=
      required_of hup (by rw [Json.string?, Option.filter_some, if_pos hv.upstream])
    have r₂ : required m (js "issuer") (fun v => v.string?.filter (approvedIssuer rt)) = some l.issuer :=
      required_of hiss (by rw [Json.string?, Option.filter_some, if_pos hv.issuer])
    have r₃ : required m (js "subject")
        (fun v => v.string?.filter fun s => 1 ≤ s.length ∧ s.length ≤ 512) = some l.subject :=
      required_of hsub (by rw [Json.string?, Option.filter_some, if_pos (by simpa using hv.subject)])
    have r₄ : optional m (js "id") Json.string? = some ((some l.id).map id) :=
      optional_of hid fun x _ => rfl
    have r₅ : optional m (js "refresh_token")
        (fun v => v.string?.filter (·.length ≤ MAX_REFRESH_TOKEN)) = some (l.refreshToken.map id) :=
      optional_of htok fun x hx => by
        rw [Json.string?, Option.filter_some, if_pos (by simpa using hfits x hx)]
        rfl
    rw [hm]
    simp only [normaliseLocalUpstreamLink, Json.object?, Option.bind_eq_bind, Option.bind_some, r₁, r₂,
      r₃, r₄, r₅, guard_of hfields, Option.map_some, Option.getD_some, id, guard_of hv.id]
    simp

/-! ## Records -/

/-- What the parser guarantees of a record, the two measured texts apart. -/
structure LocalRecord.Valid (rt : Runtime) (r : LocalRecord) : Prop where
  id : safeId r.id = true
  revision : 1 ≤ r.revision ∧ r.revision ≤ Json.maxSafeInteger
  securityVersion : 1 ≤ r.securityVersion ∧ r.securityVersion ≤ Json.maxSafeInteger
  password : approvedArgon2id r.password = true
  totp : ∀ t ∈ r.totp, t.Valid rt
  backupCodes : ∀ b ∈ r.backupCodes, b.Valid rt
  upstreams : ∀ l ∈ r.upstreams, l.Valid rt
  counts : r.totp.length ≤ MAX_TOTP ∧ r.backupCodes.length ≤ MAX_BACKUP_CODES ∧
    r.upstreams.length ≤ MAX_UPSTREAMS
  totpIds : (r.totp.map (·.id)).Nodup
  totpSecrets : (r.totp.map (·.secret)).Nodup
  backupIds : (r.backupCodes.map (·.id)).Nodup
  linkIds : (r.upstreams.map (·.id)).Nodup
  factors : r.totp ≠ [] ∨ r.backupCodes ≠ [] → r.mfaRequired = true
  claims : ∀ cs, r.claims = some cs → ∀ c ∈ cs, approvedClaim (c.1, .str c.2) = some c

/-- The two texts the parser measures after having lengthened them. -/
structure LocalRecord.Fits (r : LocalRecord) : Prop where
  totp : ∀ t ∈ r.totp, t.secret.length ≤ 256
  upstreams : ∀ l ∈ r.upstreams, l.Fits

theorem approvedClaim_str {c : JsString × Json} {d : JsString × JsString}
    (h : approvedClaim c = some d) : approvedClaim (d.1, .str d.2) = some d := by
  obtain ⟨v, hv, rfl⟩ := Option.map_eq_some_iff.mp h
  have hcond := (string_filter hv).2
  simp only [approvedClaim, Json.string?, Option.filter_some] at hcond ⊢
  rw [if_pos hcond]
  rfl

theorem optionalArray_length {m : Members} {name : JsString} {max : Nat} {items : List Json}
    (h : optionalArray m name max = some items) : items.length ≤ max := by
  unfold optionalArray at h
  split at h
  · obtain rfl := Option.some.inj h
    exact Nat.zero_le _
  · split at h
    · next hle => exact Option.some.inj h ▸ hle
    · cases h
  · cases h

/-- What a document that can be read says, part by part. -/
structure Reads (rt : Runtime) (doc : Json) (key : JsString) (r : LocalRecord) (m : Members)
    (disabled mfaRequired : Option Bool) (totpItems backupItems linkItems : List Json) : Prop where
  document : doc.object? = some m
  version : (Json.member m (js "v")).bind Json.safeNat? = some 1
  fields : hasOnlyFields m RECORD_FIELDS = true
  id : required m (js "id") (fun v => v.string?.filter safeId) = some r.id
  revision : required m (js "revision") (integer 1 Json.maxSafeInteger) = some r.revision
  securityVersion : required m (js "security_version") (integer 1 Json.maxSafeInteger) = some r.securityVersion
  password : required m (js "password") (fun v => v.string?.filter approvedArgon2id) = some r.password
  rawDisabled : optional m (js "disabled") Json.bool? = some disabled
  rawMfaRequired : optional m (js "mfa_required") Json.bool? = some mfaRequired
  rawTotp : optionalArray m (js "totp") MAX_TOTP = some totpItems
  rawBackup : optionalArray m (js "backup_codes") MAX_BACKUP_CODES = some backupItems
  rawUpstreams : optionalArray m (js "upstreams") MAX_UPSTREAMS = some linkItems
  totp : totpItems.mapM (normaliseTotp rt) = some r.totp
  backupCodes : backupItems.mapM (normaliseBackup rt) = some r.backupCodes
  upstreams : linkItems.zipIdx.mapM (fun p => normaliseLocalUpstreamLink rt p.1 p.2) = some r.upstreams
  totpIds : (r.totp.map (·.id)).Nodup
  totpSecrets : (r.totp.map (·.secret)).Nodup
  backupIds : (r.backupCodes.map (·.id)).Nodup
  linkIds : (r.upstreams.map (·.id)).Nodup
  factors : (!(mfaRequired = some false && (r.totp ≠ [] || r.backupCodes ≠ [] : Bool))) = true
  claims : optional m (js "claims") (fun v => v.object?.bind fun entries => entries.mapM approvedClaim) = some r.claims
  disabled : (disabled = some true : Bool) = r.disabled
  mfaRequired : ((mfaRequired = some true : Bool) || (r.totp ≠ [] || r.backupCodes ≠ [] : Bool)) = r.mfaRequired
  key : key = r.key

theorem reads_of_parse {doc : Json} {key : JsString} {r : LocalRecord}
    (h : parseLocalIdentityRecord rt doc key = some r) :
    ∃ m disabled mfaRequired totpItems backupItems linkItems,
      Reads rt doc key r m disabled mfaRequired totpItems backupItems linkItems := by
  unfold parseLocalIdentityRecord at h
  -- one part after the other
  obtain ⟨m, document, h⟩ := Option.bind_eq_some_iff.mp h
  obtain ⟨_, version, h⟩ := Option.bind_eq_some_iff.mp h
  obtain ⟨_, fields, h⟩ := Option.bind_eq_some_iff.mp h
  obtain ⟨_, id, h⟩ := Option.bind_eq_some_iff.mp h
  obtain ⟨_, revision, h⟩ := Option.bind_eq_some_iff.mp h
  obtain ⟨_, securityVersion, h⟩ := Option.bind_eq_some_iff.mp h
  obtain ⟨_, password, h⟩ := Option.bind_eq_some_iff.mp h
  obtain ⟨_, rawDisabled, h⟩ := Option.bind_eq_some_iff.mp h
  obtain ⟨_, rawMfaRequired, h⟩ := Option.bind_eq_some_iff.mp h
  obtain ⟨_, rawTotp, h⟩ := Option.bind_eq_some_iff.mp h
  obtain ⟨_, rawBackup, h⟩ := Option.bind_eq_some_iff.mp h
  obtain ⟨_, rawUpstreams, h⟩ := Option.bind_eq_some_iff.mp h
  obtain ⟨_, totp, h⟩ := Option.bind_eq_some_iff.mp h
  obtain ⟨_, backupCodes, h⟩ := Option.bind_eq_some_iff.mp h
  obtain ⟨_, upstreams, h⟩ := Option.bind_eq_some_iff.mp h
  obtain ⟨_, totpIds, h⟩ := Option.bind_eq_some_iff.mp h
  obtain ⟨_, totpSecrets, h⟩ := Option.bind_eq_some_iff.mp h
  obtain ⟨_, backupIds, h⟩ := Option.bind_eq_some_iff.mp h
  obtain ⟨_, linkIds, h⟩ := Option.bind_eq_some_iff.mp h
  obtain ⟨_, factors, h⟩ := Option.bind_eq_some_iff.mp h
  obtain ⟨_, claims, h⟩ := Option.bind_eq_some_iff.mp h
  obtain rfl := Option.some.inj h
  exact ⟨m, _, _, _, _, _,
    { document, version := of_guard version, fields := of_guard fields, id, revision, securityVersion, password,
      rawDisabled, rawMfaRequired, rawTotp, rawBackup, rawUpstreams, totp, backupCodes, upstreams,
      totpIds := of_guard totpIds, totpSecrets := of_guard totpSecrets, backupIds := of_guard backupIds,
      linkIds := of_guard linkIds, factors := of_guard factors, claims, disabled := rfl, mfaRequired := rfl,
      key := rfl }⟩

theorem Reads.parse {doc : Json} {key : JsString} {r : LocalRecord} {m : Members}
    {disabled mfaRequired : Option Bool} {totpItems backupItems linkItems : List Json}
    (h : Reads rt doc key r m disabled mfaRequired totpItems backupItems linkItems) :
    parseLocalIdentityRecord rt doc key = some r := by
  unfold parseLocalIdentityRecord
  refine Option.bind_eq_some_iff.mpr ⟨m, h.document, ?_⟩
  refine Option.bind_eq_some_iff.mpr ⟨(), guard_of h.version, ?_⟩
  refine Option.bind_eq_some_iff.mpr ⟨(), guard_of h.fields, ?_⟩
  refine Option.bind_eq_some_iff.mpr ⟨_, h.id, ?_⟩
  refine Option.bind_eq_some_iff.mpr ⟨_, h.revision, ?_⟩
  refine Option.bind_eq_some_iff.mpr ⟨_, h.securityVersion, ?_⟩
  refine Option.bind_eq_some_iff.mpr ⟨_, h.password, ?_⟩
  refine Option.bind_eq_some_iff.mpr ⟨_, h.rawDisabled, ?_⟩
  refine Option.bind_eq_some_iff.mpr ⟨_, h.rawMfaRequired, ?_⟩
  refine Option.bind_eq_some_iff.mpr ⟨_, h.rawTotp, ?_⟩
  refine Option.bind_eq_some_iff.mpr ⟨_, h.rawBackup, ?_⟩
  refine Option.bind_eq_some_iff.mpr ⟨_, h.rawUpstreams, ?_⟩
  refine Option.bind_eq_some_iff.mpr ⟨_, h.totp, ?_⟩
  refine Option.bind_eq_some_iff.mpr ⟨_, h.backupCodes, ?_⟩
  refine Option.bind_eq_some_iff.mpr ⟨_, h.upstreams, ?_⟩
  refine Option.bind_eq_some_iff.mpr ⟨(), guard_of h.totpIds, ?_⟩
  refine Option.bind_eq_some_iff.mpr ⟨(), guard_of h.totpSecrets, ?_⟩
  refine Option.bind_eq_some_iff.mpr ⟨(), guard_of h.backupIds, ?_⟩
  refine Option.bind_eq_some_iff.mpr ⟨(), guard_of h.linkIds, ?_⟩
  refine Option.bind_eq_some_iff.mpr ⟨(), guard_of h.factors, ?_⟩
  refine Option.bind_eq_some_iff.mpr ⟨_, h.claims, ?_⟩
  rw [h.disabled, h.mfaRequired, h.key]
  rfl

theorem parse_valid {doc : Json} {key : JsString} {r : LocalRecord}
    (h : parseLocalIdentityRecord rt doc key = some r) :
    r.Valid rt ∧ (∀ l ∈ r.upstreams, l.Fits) ∧ r.key = key := by
  obtain ⟨m, disabled, mfa, rawT, rawB, rawU, hr⟩ := reads_of_parse h
  obtain ⟨_, hid⟩ := required_some hr.id
  obtain ⟨_, hrev⟩ := required_some hr.revision
  obtain ⟨_, hsv⟩ := required_some hr.securityVersion
  obtain ⟨_, hpw⟩ := required_some hr.password
  obtain ⟨hlenT, hmemT, -⟩ := mapM_some hr.totp
  obtain ⟨hlenB, hmemB, -⟩ := mapM_some hr.backupCodes
  obtain ⟨hlenU, hmemU, -⟩ := mapM_some hr.upstreams
  have hlinks : ∀ l ∈ r.upstreams, l.Valid rt ∧ l.Fits := by
    intro l hl
    obtain ⟨⟨v, i⟩, -, hv⟩ := hmemU l hl
    exact normaliseLink_valid hv
  have hcountT := optionalArray_length hr.rawTotp
  have hcountB := optionalArray_length hr.rawBackup
  have hcountU := optionalArray_length hr.rawUpstreams
  rw [List.length_zipIdx] at hlenU
  refine ⟨?_, fun l hl => (hlinks l hl).2, hr.key.symm⟩
  exact
    { id := (string_filter hid).2
      revision := ⟨(integer_some hrev).1, (integer_some hrev).2.2⟩
      securityVersion := ⟨(integer_some hsv).1, (integer_some hsv).2.2⟩
      password := (string_filter hpw).2
      totp := fun t ht => by
        obtain ⟨v, -, hv⟩ := hmemT t ht
        exact (normaliseTotp_valid hv).1
      backupCodes := fun b hb => by
        obtain ⟨v, -, hv⟩ := hmemB b hb
        exact normaliseBackup_valid hv
      upstreams := fun l hl => (hlinks l hl).1
      counts := ⟨Nat.le_trans (Nat.le_of_eq hlenT) hcountT, Nat.le_trans (Nat.le_of_eq hlenB) hcountB,
        Nat.le_trans (Nat.le_of_eq hlenU) hcountU⟩
      totpIds := hr.totpIds
      totpSecrets := hr.totpSecrets
      backupIds := hr.backupIds
      linkIds := hr.linkIds
      factors := fun hne => by
        rw [← hr.mfaRequired]
        simp [hne]
      claims := fun cs hcs c hc => by
        obtain ⟨v, hv⟩ := optional_some hr.claims cs hcs
        obtain ⟨entries, -, hentries⟩ := Option.bind_eq_some_iff.mp hv
        obtain ⟨e, -, he⟩ := (mapM_some hentries).2.1 c hc
        exact approvedClaim_str he }

@[simp] theorem object?_obj (m : Members) : (Json.obj m).object? = some m := rfl

theorem record_members (r : LocalRecord) :
    ∃ m, storedRecord r = .obj m ∧ hasOnlyFields m RECORD_FIELDS = true ∧
      Json.member m (js "v") = some (.ofNat 1) ∧ Json.member m (js "id") = some (.str r.id) ∧
      Json.member m (js "revision") = some (.ofNat r.revision) ∧
      Json.member m (js "security_version") = some (.ofNat r.securityVersion) ∧
      Json.member m (js "disabled") = (if r.disabled then some true else none).map .bool ∧
      Json.member m (js "mfa_required") = (if r.mfaRequired then some true else none).map .bool ∧
      Json.member m (js "password") = some (.str r.password) ∧
      Json.member m (js "claims") = r.claims.map claimsJson ∧
      Json.member m (js "totp") = some (.arr (r.totp.map (·.toJson))) ∧
      Json.member m (js "backup_codes") = some (.arr (r.backupCodes.map (·.toJson))) ∧
      Json.member m (js "upstreams") = some (.arr (r.upstreams.map (·.toJson))) := by
  obtain ⟨id, revision, sv, disabled, mfa, password, totp, backups, upstreams, claims, key⟩ := r
  refine ⟨_, rfl, ?_⟩
  cases disabled <;> cases mfa <;> cases claims <;>
    exact ⟨rfl, rfl, rfl, rfl, rfl, rfl, rfl, rfl, rfl, rfl, rfl, rfl⟩

theorem optionalArray_of {m : Members} {name : JsString} {max : Nat} {items : List Json}
    (h : Json.member m name = some (.arr items)) (hmax : items.length ≤ max) :
    optionalArray m name max = some items := by
  simp [optionalArray, h, hmax]

/-- The index of a link only matters for a link without an identifier. -/
theorem mapM_links {ls : List UpstreamLink}
    (h : ∀ l ∈ ls, ∀ i, normaliseLocalUpstreamLink rt l.toJson i = some l) :
    ∀ n, ((ls.map (·.toJson)).zipIdx n).mapM (fun p => normaliseLocalUpstreamLink rt p.1 p.2) = some ls := by
  induction ls with
  | nil => intro n; rfl
  | cons l ls ih =>
    intro n
    rw [List.map_cons, List.zipIdx_cons, List.mapM_cons, h l List.mem_cons_self n,
      ih (fun x hx => h x (List.mem_cons_of_mem _ hx)) (n + 1)]
    rfl

/-- A valid record that fits is read back as itself. -/
theorem parse_storedRecord {r : LocalRecord} (hv : r.Valid rt) (hfits : r.Fits) :
    parseLocalIdentityRecord rt (storedRecord r) r.key = some r := by
  obtain ⟨m, hm, hfields, hver, hid, hrev, hsv, hdis, hmfa, hpw, hclaims, htotp, hbackup, hups⟩ :=
    record_members r
  have r₁ : required m (js "id") (fun v => v.string?.filter safeId) = some r.id :=
    required_of hid (by rw [Json.string?, Option.filter_some, if_pos hv.id])
  have r₂ : required m (js "revision") (integer 1 Json.maxSafeInteger) = some r.revision :=
    required_of hrev (integer_ofNat hv.revision.1 hv.revision.2 hv.revision.2)
  have r₃ : required m (js "security_version") (integer 1 Json.maxSafeInteger) =
      some r.securityVersion :=
    required_of hsv (integer_ofNat hv.securityVersion.1 hv.securityVersion.2 hv.securityVersion.2)
  have r₄ : required m (js "password") (fun v => v.string?.filter approvedArgon2id) = some r.password :=
    required_of hpw (by rw [Json.string?, Option.filter_some, if_pos hv.password])
  have r₅ := optional_of (f := Json.bool?) (k := id) hdis fun x _ => rfl
  have r₆ := optional_of (f := Json.bool?) (k := id) hmfa fun x _ => rfl
  have r₇ : optionalArray m (js "totp") MAX_TOTP = some (r.totp.map (·.toJson)) :=
    optionalArray_of htotp (by simpa using hv.counts.1)
  have r₈ : optionalArray m (js "backup_codes") MAX_BACKUP_CODES =
      some (r.backupCodes.map (·.toJson)) :=
    optionalArray_of hbackup (by simpa using hv.counts.2.1)
  have r₉ : optionalArray m (js "upstreams") MAX_UPSTREAMS = some (r.upstreams.map (·.toJson)) :=
    optionalArray_of hups (by simpa using hv.counts.2.2)
  have s₁ : (r.totp.map (·.toJson)).mapM (normaliseTotp rt) = some r.totp :=
    mapM_map_some fun t ht => (normaliseTotp_toJson (hv.totp t ht)).mpr (hfits.totp t ht)
  have s₂ : (r.backupCodes.map (·.toJson)).mapM (normaliseBackup rt) = some r.backupCodes :=
    mapM_map_some fun b hb => normaliseBackup_toJson (hv.backupCodes b hb)
  have s₃ : (r.upstreams.map (·.toJson)).zipIdx.mapM
      (fun p => normaliseLocalUpstreamLink rt p.1 p.2) = some r.upstreams :=
    mapM_links (fun l hl i => (normaliseLink_toJson (hv.upstreams l hl) i).mpr (hfits.upstreams l hl)) 0
  have s₄ : optional m (js "claims")
      (fun v => v.object?.bind fun entries => entries.mapM approvedClaim) = some (r.claims.map id) := by
    refine optional_of hclaims fun cs hcs => ?_
    exact mapM_map_some fun c hc => hv.claims cs hcs c hc
  have hversion : (Json.member m (js "v")).bind Json.safeNat? = some 1 := by
    rw [hver]
    decide
  have hfactors : (!(decide (((if r.mfaRequired then some true else none).map id) = some false) &&
      (decide (r.totp ≠ []) || decide (r.backupCodes ≠ [])))) = true := by
    cases r.mfaRequired <;> simp
  have hdisabled : decide (((if r.disabled then some true else none).map id) = some true) = r.disabled := by
    cases r.disabled <;> rfl
  have hrequired : (decide (((if r.mfaRequired then some true else none).map id) = some true) ||
      (decide (r.totp ≠ []) || decide (r.backupCodes ≠ []))) = r.mfaRequired := by
    have hf := hv.factors
    cases hmr : r.mfaRequired with
    | true => rfl
    | false =>
      rw [hmr] at hf
      have hnone : r.totp = [] ∧ r.backupCodes = [] := by
        constructor
        · exact Classical.byContradiction fun h => by simpa using hf (Or.inl h)
        · exact Classical.byContradiction fun h => by simpa using hf (Or.inr h)
      simp [hnone]
  rw [hm]
  exact Reads.parse
    { document := rfl, version := hversion, fields := hfields, id := r₁, revision := r₂, securityVersion := r₃
      password := r₄, rawDisabled := r₅, rawMfaRequired := r₆, rawTotp := r₇, rawBackup := r₈, rawUpstreams := r₉
      totp := s₁, backupCodes := s₂, upstreams := s₃, totpIds := hv.totpIds, totpSecrets := hv.totpSecrets
      backupIds := hv.backupIds, linkIds := hv.linkIds, factors := hfactors, claims := by simpa using s₄
      disabled := hdisabled, mfaRequired := hrequired, key := rfl }

/-- A link that is read back at all has a token that is short enough. -/
theorem fits_of_normaliseLink {l l' : UpstreamLink} {i : Nat}
    (h : normaliseLocalUpstreamLink rt l.toJson i = some l') : l.Fits := by
  obtain ⟨m, hm, -, -, -, -, -, htok⟩ := link_members l
  rw [hm] at h
  simp only [normaliseLocalUpstreamLink, object?_obj, Option.bind_eq_bind, Option.bind_some,
    Option.bind_eq_some_iff] at h
  obtain ⟨_, -, _, -, _, -, _, -, _, -, _, hread, -⟩ := h
  intro token hl
  rw [optional, htok, hl] at hread
  obtain ⟨kept, hkept, -⟩ := Option.map_eq_some_iff.mp hread
  obtain ⟨heq, hlength⟩ := string_filter hkept
  obtain rfl : token = kept := Json.str.inj heq
  simpa using hlength

/-- A stored record that is read back at all is one that fits. -/
theorem fits_of_parse {r r' : LocalRecord} {key : JsString}
    (h : parseLocalIdentityRecord rt (storedRecord r) key = some r') : r.Fits := by
  obtain ⟨m, hm, -, -, -, -, -, -, -, -, -, htotp, -, hups⟩ := record_members r
  rw [hm] at h
  obtain ⟨_, _, _, _, _, _, hr⟩ := reads_of_parse h
  obtain rfl := Option.some.inj hr.document
  have items : ∀ {name : JsString} {max : Nat} {items raw : List Json},
      Json.member m name = some (.arr items) → optionalArray m name max = some raw → raw = items := by
    intro name max items raw hmember hraw
    rw [optionalArray, hmember] at hraw
    dsimp only at hraw
    split at hraw
    · exact (Option.some.inj hraw).symm
    · cases hraw
  obtain rfl := items htotp hr.rawTotp
  obtain rfl := items hups hr.rawUpstreams
  refine ⟨fun t ht => ?_, fun l hl => ?_⟩
  · obtain ⟨t', -, hread⟩ := (mapM_some hr.totp).2.2 t.toJson (List.mem_map.mpr ⟨t, ht, rfl⟩)
    obtain ⟨mt, hmt, -, -, -, hsecret, -⟩ := totp_hasOnlyFields t
    exact (normaliseTotp_valid hread).2 mt hmt t.secret hsecret
  · obtain ⟨i, hi⟩ := List.mem_iff_getElem?.mp (List.mem_map.mpr ⟨l, hl, rfl⟩ : l.toJson ∈ r.upstreams.map (·.toJson))
    have hindexed : (l.toJson, i) ∈ (r.upstreams.map (·.toJson)).zipIdx := List.mem_zipIdx_iff_getElem?.mpr hi
    obtain ⟨l', -, hread⟩ := (mapM_some hr.upstreams).2.2 _ hindexed
    exact fits_of_normaliseLink hread

/-- A record of that kind is readable exactly when it fits. -/
theorem parse_storedRecord_iff {r : LocalRecord} (hv : r.Valid rt) :
    parseLocalIdentityRecord rt (storedRecord r) r.key = some r ↔ r.Fits :=
  ⟨fits_of_parse, parse_storedRecord hv⟩

end Sag
