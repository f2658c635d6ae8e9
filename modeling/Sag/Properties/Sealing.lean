import Sag.Browser
import Sag.Crypto.Secrets

/-!
# Sealing under rotation

A run is any sequence of calls of `seal` and `unseal` that share the cache. Its entries are
never changed, and each holds the key that some secret and purpose derive whose joined names
are the name of the entry (`Vault.Sound`); so two entries hold two keys, and what opens a
token is what sealed it (`unseal_iff`), whichever calls came before.

Strings are told apart by their UTF-8, so this holds of those without lone surrogates, and of
secrets that are not empty: `unseal` leaves empty ones out of its list.
-/

namespace Sag

variable {K : Type} {hkdf : Bytes → Bytes → K} {rt : Runtime}

/-! ## Calls -/

/-- A ciphertext that is met again belongs to the same key and the same plaintext. -/
def Encryption.Agrees (e e' : Encryption K) : Prop :=
  e.iv = e'.iv → e.additionalData = e'.additionalData → e.ct = e'.ct → e.key = e'.key ∧ e.plaintext = e'.plaintext

/-- Any sequence of calls, with the calls of `seal` among them, the last first. -/
inductive Vault.Run [DecidableEq K] (hkdf : Bytes → Bytes → K) (rt : Runtime) : Vault K → List SealCall → Prop where
  | start : Vault.Run hkdf rt ⟨[], []⟩ []
  | sealing {v : Vault K} {done : List SealCall} (h : Vault.Run hkdf rt v done) (call : SealCall)
      (hideal : ∀ e ∈ v.encrypted,
        (call.encryption rt (aesKey hkdf call.masterSecret call.purpose v.aesCache).1).Agrees e) :
      Vault.Run hkdf rt (v.seal hkdf rt call).1 (call :: done)
  | unsealing {v : Vault K} {done : List SealCall} (h : Vault.Run hkdf rt v done) (secrets : List JsString)
      (purpose token : JsString) (now : Nat) (maxAgeSeconds : Option Rat) :
      Vault.Run hkdf rt (v.unseal hkdf rt secrets purpose token now maxAgeSeconds).1 done

/-- The strings of a call are texts, and its payload is read back as it was printed. -/
structure SealCall.Proper (rt : Runtime) (call : SealCall) : Prop where
  secret : WellFormedText call.masterSecret
  purpose : WellFormedText call.purpose
  version : WellFormedText call.version
  payload : rt.parseJson (call.text rt) = some call.payload

/-- The parts of the token are those of the call, the binary ones once they are decoded. -/
def SealCall.Parts (call : SealCall) (token : JsString) : Prop :=
  ∃ ivPart ctPart, split dot token = [call.version, call.purpose, ivPart, ctPart] ∧
    unb64u ivPart = some call.iv ∧ unb64u ctPart = some call.ct

/-- The expiry of a payload, if it has one, has passed. -/
def Expired (payload : Json) (now : Nat) : Prop := ∃ exp, payload.get (js "exp") = some (.num exp) ∧ exp < now

/-! ## The cache -/

/-- Nothing is changed. -/
def Extends (cache cache' : List (JsString × K)) : Prop :=
  ∀ name key, cache.lookup name = some key → cache'.lookup name = some key

theorem Extends.refl (cache : List (JsString × K)) : Extends cache cache := fun _ _ h => h

theorem Extends.trans {cache cache' cache'' : List (JsString × K)} (h : Extends cache cache')
    (h' : Extends cache' cache'') : Extends cache cache'' := fun name key hkey => h' name key (h name key hkey)

/-- Every key is derived from a secret and a purpose that make up its name. -/
def Stretched (hkdf : Bytes → Bytes → K) (cache : List (JsString × K)) : Prop :=
  ∀ name key, cache.lookup name = some key →
    ∃ secret purpose, name = cacheKey secret purpose ∧ key = derive hkdf secret (js "aead/" ++ purpose)

/-- The key of a secret is in the cache from then on, and nothing else has changed. -/
theorem aesKey_spec {cache : List (JsString × K)} (h : Stretched hkdf cache) (secret purpose : JsString) :
    Extends cache (aesKey hkdf secret purpose cache).2 ∧ Stretched hkdf (aesKey hkdf secret purpose cache).2 ∧
      (aesKey hkdf secret purpose cache).2.lookup (cacheKey secret purpose) =
        some (aesKey hkdf secret purpose cache).1 := by
  unfold aesKey
  split
  · next key hkey => exact ⟨Extends.refl cache, h, hkey⟩
  · next hnone =>
    dsimp only
    have hlookup : ∀ name key, ((cacheKey secret purpose, derive hkdf secret (js "aead/" ++ purpose)) :: cache).lookup
        name = some key ↔ name = cacheKey secret purpose ∧ derive hkdf secret (js "aead/" ++ purpose) = key ∨
          name ≠ cacheKey secret purpose ∧ cache.lookup name = some key := by
      intro name key
      by_cases hname : name = cacheKey secret purpose
      · rw [hname, List.lookup_cons_self]
        simp only [Option.some_inj, true_and, ne_eq, not_true_eq_false, false_and, or_false]
      · rw [List.lookup_cons, beq_false_of_ne hname]
        simp only [hname, false_and, ne_eq, not_false_eq_true, true_and, false_or]
    refine ⟨fun name key hkey => ?_, fun name key hkey => ?_, List.lookup_cons_self⟩
    · -- a name that is found is not the new one
      refine (hlookup name key).mpr (Or.inr ⟨fun heq => ?_, hkey⟩)
      rw [heq, hnone] at hkey
      cases hkey
    · rcases (hlookup name key).mp hkey with ⟨hname, hkey⟩ | ⟨-, hkey⟩
      · exact ⟨secret, purpose, hname, hkey.symm⟩
      · exact h name key hkey

/-- Two names hold two keys. -/
theorem Stretched.name_unique {cache : List (JsString × K)} (h : Stretched hkdf cache) (hideal : IdealHkdf hkdf)
    {name name' : JsString} {key : K} (hname : WellFormedText name) (hname' : WellFormedText name')
    (hkey : cache.lookup name = some key) (hkey' : cache.lookup name' = some key) : name = name' := by
  have hfixed : ∀ u ∈ HKDF_INFO_PREFIX ++ js "aead/", u < 128 := by decide
  obtain ⟨secret, purpose, rfl, hderived⟩ := h name key hkey
  obtain ⟨secret', purpose', rfl, hderived'⟩ := h name' key hkey'
  have hparts := (wellFormedText_join (by decide)).mp hname
  have hparts' := (wellFormedText_join (by decide)).mp hname'
  have hinfo : ∀ {p : JsString}, WellFormedText p → WellFormedText (HKDF_INFO_PREFIX ++ (js "aead/" ++ p)) := by
    intro p hp
    rw [← List.append_assoc]
    exact WellFormedText.append (Whole.ascii hfixed) (WellFormedText.ascii hfixed) hp
  obtain ⟨hikm, hinfos⟩ := hideal _ _ _ _ (hderived.symm.trans hderived')
  have hsecret := utf8_injective hparts.2 hparts'.2 hikm
  have hpurpose := utf8_injective (hinfo hparts.1) (hinfo hparts'.1) hinfos
  rw [hsecret, List.append_cancel_left (List.append_cancel_left hpurpose)]

theorem cacheKey_text {secret purpose : JsString} (hsecret : WellFormedText secret)
    (hpurpose : WellFormedText purpose) :
    WellFormedText (cacheKey secret purpose) := (wellFormedText_join (by decide)).mpr ⟨hpurpose, hsecret⟩

/-! ## What a run keeps -/

/-- What is known of the cache and of what has been encrypted. -/
structure Vault.Sound (hkdf : Bytes → Bytes → K) (rt : Runtime) (v : Vault K) (done : List SealCall) : Prop where
  stretched : Stretched hkdf v.aesCache
  made : ∀ e ∈ v.encrypted, ∃ call ∈ done, ∃ key,
    v.aesCache.lookup (cacheKey call.masterSecret call.purpose) = some key ∧ e = call.encryption rt key
  kept : ∀ call ∈ done, ∃ key,
    v.aesCache.lookup (cacheKey call.masterSecret call.purpose) = some key ∧ call.encryption rt key ∈ v.encrypted
  agree : ∀ e ∈ v.encrypted, ∀ e' ∈ v.encrypted, e.Agrees e'

theorem Encryption.Agrees.symm {e e' : Encryption K} (h : e.Agrees e') : e'.Agrees e := by
  intro hiv haad hct
  obtain ⟨hkey, hplaintext⟩ := h hiv.symm haad.symm hct.symm
  exact ⟨hkey.symm, hplaintext.symm⟩

/-- A cache that has grown. -/
theorem Vault.Sound.extend {v : Vault K} {done : List SealCall} (h : v.Sound hkdf rt done)
    {cache : List (JsString × K)} (hext : Extends v.aesCache cache) (hstretched : Stretched hkdf cache) :
    Vault.Sound hkdf rt ⟨cache, v.encrypted⟩ done where
  stretched := hstretched
  made e he := by
    obtain ⟨call, hcall, key, hkey, heq⟩ := h.made e he
    exact ⟨call, hcall, key, hext _ _ hkey, heq⟩
  kept call hcall := by
    obtain ⟨key, hkey, he⟩ := h.kept call hcall
    exact ⟨key, hext _ _ hkey, he⟩
  agree := h.agree

theorem Vault.Sound.seal {v : Vault K} {done : List SealCall} (h : v.Sound hkdf rt done) (call : SealCall)
    (hideal : ∀ e ∈ v.encrypted,
      (call.encryption rt (aesKey hkdf call.masterSecret call.purpose v.aesCache).1).Agrees e) :
    (v.seal hkdf rt call).1.Sound hkdf rt (call :: done) := by
  obtain ⟨hext, hstretched, hkey⟩ := aesKey_spec h.stretched call.masterSecret call.purpose
  have hgrown := h.extend hext hstretched
  refine ⟨hstretched, fun e he => ?_, fun c hc => ?_, fun e he e' he' => ?_⟩
  · rcases List.mem_cons.mp he with rfl | he
    · exact ⟨call, List.mem_cons_self, _, hkey, rfl⟩
    · obtain ⟨c, hc, key, hc', heq⟩ := hgrown.made e he
      exact ⟨c, List.mem_cons_of_mem _ hc, key, hc', heq⟩
  · rcases List.mem_cons.mp hc with rfl | hc
    · exact ⟨_, hkey, List.mem_cons_self⟩
    · obtain ⟨key, hc', he⟩ := hgrown.kept c hc
      exact ⟨key, hc', List.mem_cons_of_mem _ he⟩
  · rcases List.mem_cons.mp he with rfl | he
    · rcases List.mem_cons.mp he' with rfl | he'
      · exact fun _ _ _ => ⟨rfl, rfl⟩
      · exact hideal e' he'
    · rcases List.mem_cons.mp he' with rfl | he'
      · exact (hideal e he).symm
      · exact h.agree e he e' he'

/-- One plaintext is the text of one payload. -/
theorem SealCall.Proper.payload_unique (hnumber : ∀ x, ∀ u ∈ rt.stringOf (.num x), u < 128) {call call' : SealCall}
    (hcall : call.Proper rt) (hcall' : call'.Proper rt) (h : utf8 (call.text rt) = utf8 (call'.text rt)) :
    call.payload = call'.payload := by
  have htext : call.text rt = call'.text rt :=
    (fromUtf8_text hnumber call.payload).symm.trans ((congrArg fromUtf8 h).trans (fromUtf8_text hnumber call'.payload))
  have hpayload := hcall.payload
  rw [htext, hcall'.payload] at hpayload
  exact (Option.some.inj hpayload).symm

/-- The secret and the payload of a token are those of one call. -/
theorem Vault.Sound.unique (hideal : IdealHkdf hkdf) (hnumber : ∀ x, ∀ u ∈ rt.stringOf (.num x), u < 128)
    {done : List SealCall} (hproper : ∀ call ∈ done, call.Proper rt) {v : Vault K} (hv : v.Sound hkdf rt done)
    {token : JsString} {call call' : SealCall} (hcall : call ∈ done) (hcall' : call' ∈ done) (h : call.Parts token)
    (h' : call'.Parts token) : call.masterSecret = call'.masterSecret ∧ call.payload = call'.payload := by
  obtain ⟨ivPart, ctPart, hsplit, hiv, hct⟩ := h
  obtain ⟨ivPart', ctPart', hsplit', hiv', hct'⟩ := h'
  rw [hsplit] at hsplit'
  simp only [List.cons.injEq, and_true] at hsplit'
  obtain ⟨hversion, hpurpose, rfl, rfl⟩ := hsplit'
  obtain ⟨key, hkey, he⟩ := hv.kept call hcall
  obtain ⟨key', hkey', he'⟩ := hv.kept call' hcall'
  have hdata : additionalData call.version call.purpose = additionalData call'.version call'.purpose := by
    rw [hversion, hpurpose]
  obtain ⟨hsame, hplaintext⟩ := hv.agree _ he _ he' (Option.some.inj (hiv.symm.trans hiv')) hdata
    (Option.some.inj (hct.symm.trans hct'))
  have hsame : key = key' := hsame
  rw [← hsame] at hkey'
  have hname := hv.stretched.name_unique hideal (cacheKey_text (hproper call hcall).secret (hproper call hcall).purpose)
    (cacheKey_text (hproper call' hcall').secret (hproper call' hcall').purpose) hkey hkey'
  rw [cacheKey, cacheKey, hpurpose] at hname
  exact ⟨(List.cons.inj (List.append_cancel_left hname)).2,
    (hproper call hcall).payload_unique hnumber (hproper call' hcall') hplaintext⟩

section

variable [DecidableEq K]

/-- Trying secrets only adds keys to the cache. -/
theorem unsealLoop_cache (purpose : JsString) (iv aad ct : Bytes) (now : Nat) (maxAgeSeconds : Option Rat)
    (list : List JsString) {v : Vault K} (h : Stretched hkdf v.aesCache) :
    ∃ cache, (unsealLoop hkdf rt purpose iv aad ct now maxAgeSeconds list v).1 = ⟨cache, v.encrypted⟩ ∧
      Extends v.aesCache cache ∧ Stretched hkdf cache := by
  induction list generalizing v with
  | nil => exact ⟨v.aesCache, rfl, Extends.refl _, h⟩
  | cons secret list ih =>
    obtain ⟨hext, hstretched, -⟩ := aesKey_spec h secret purpose
    rw [unsealLoop]
    dsimp only
    split
    · obtain ⟨cache, heq, hext', hstretched'⟩ := ih (v := ⟨_, v.encrypted⟩) hstretched
      exact ⟨cache, heq, hext.trans hext', hstretched'⟩
    · exact ⟨_, rfl, hext, hstretched⟩

theorem Vault.Sound.unseal {v : Vault K} {done : List SealCall} (h : v.Sound hkdf rt done) (secrets : List JsString)
    (purpose token : JsString) (now : Nat) (maxAgeSeconds : Option Rat) :
    (v.unseal hkdf rt secrets purpose token now maxAgeSeconds).1.Sound hkdf rt done := by
  unfold Vault.unseal
  split
  · next keyVersion tokenPurpose ivPart ctPart hsplit =>
    split
    · exact h
    · split
      · next iv ct _ _ =>
        obtain ⟨cache, heq, hext, hstretched⟩ := unsealLoop_cache purpose iv
          (additionalData keyVersion purpose) ct now maxAgeSeconds (secrets.filter (· ≠ [])) h.stretched
        rw [heq]
        exact h.extend hext hstretched
      · exact h
  · exact h

theorem Vault.Run.sound {v : Vault K} {done : List SealCall} (h : Vault.Run hkdf rt v done) :
    v.Sound hkdf rt done := by
  induction h with
  | start => exact ⟨nofun, nofun, nofun, nofun⟩
  | sealing _ call hideal ih => exact ih.seal call hideal
  | unsealing _ secrets purpose token now maxAgeSeconds ih => exact ih.unseal secrets purpose token now maxAgeSeconds

/-! ## What opens -/

theorem Vault.decrypt_none {v : Vault K} {key : K} {iv aad ct : Bytes} (h : v.decrypt key iv aad ct = none) :
    ∀ e ∈ v.encrypted, ¬ (e.key = key ∧ e.iv = iv ∧ e.additionalData = aad ∧ e.ct = ct) := by
  intro e he hmatch
  rw [Vault.decrypt, Option.map_eq_none_iff, List.find?_eq_none] at h
  exact h e he (decide_eq_true hmatch)

theorem Vault.decrypt_some {v : Vault K} {key : K} {iv aad ct pt : Bytes} (h : v.decrypt key iv aad ct = some pt) :
    ∃ e ∈ v.encrypted, e.key = key ∧ e.iv = iv ∧ e.additionalData = aad ∧ e.ct = ct ∧ e.plaintext = pt := by
  rw [Vault.decrypt, Option.map_eq_some_iff] at h
  obtain ⟨e, hfound, hpt⟩ := h
  have hmatch := List.find?_some hfound
  rw [decide_eq_true_eq] at hmatch
  obtain ⟨hkey, hiv, haad, hct⟩ := hmatch
  exact ⟨e, List.mem_of_find?_eq_some hfound, hkey, hiv, haad, hct, hpt⟩

/-- What was printed is read back as the payload, and checked. -/
theorem readPayload_text (hnumber : ∀ x, ∀ u ∈ rt.stringOf (.num x), u < 128) {call : SealCall}
    (hcall : call.Proper rt) (now : Nat) (maxAgeSeconds : Option Rat) :
    readPayload rt (utf8 (call.text rt)) now maxAgeSeconds = checkTimes call.payload now maxAgeSeconds := by
  have htext : fromUtf8 (utf8 (call.text rt)) = call.text rt := fromUtf8_text hnumber call.payload
  rw [readPayload, htext, hcall.payload]

/-- The secrets are tried in their order, and the one that sealed the ciphertext opens it. -/
theorem unsealLoop_ok (hideal : IdealHkdf hkdf) (hnumber : ∀ x, ∀ u ∈ rt.stringOf (.num x), u < 128)
    {done : List SealCall} (hproper : ∀ call ∈ done, call.Proper rt) {purpose : JsString} {iv aad ct : Bytes}
    (haad : ∀ call ∈ done, additionalData call.version call.purpose = aad → call.purpose = purpose)
    {now : Nat} {maxAgeSeconds : Option Rat} {x : Json} {list : List JsString}
    (hlist : ∀ secret ∈ list, WellFormedText secret) {v : Vault K} (hv : v.Sound hkdf rt done) :
    (unsealLoop hkdf rt purpose iv aad ct now maxAgeSeconds list v).2 = .ok x ↔
      ∃ call ∈ done, call.masterSecret ∈ list ∧ additionalData call.version call.purpose = aad ∧ call.iv = iv ∧
        call.ct = ct ∧ checkTimes call.payload now maxAgeSeconds = .ok x := by
  induction list generalizing v with
  | nil =>
    constructor
    · exact nofun
    · rintro ⟨call, -, hmem, -⟩
      cases hmem
  | cons secret list ih =>
    have hlist' := fun s hs => hlist s (List.mem_cons_of_mem _ hs)
    obtain ⟨hext, hstretched, hlookup⟩ := aesKey_spec hv.stretched secret purpose
    rw [unsealLoop]
    dsimp only
    generalize (aesKey hkdf secret purpose v.aesCache).1 = key at hlookup
    generalize (aesKey hkdf secret purpose v.aesCache).2 = cache at hext hstretched hlookup
    have hv' := hv.extend hext hstretched
    split
    · next hnone =>
      rw [ih hlist' hv']
      -- what this secret has sealed would have opened
      have hother : ∀ call ∈ done, additionalData call.version call.purpose = aad → call.iv = iv → call.ct = ct →
          call.masterSecret ≠ secret := by
        intro call hcall hdata hiv hct hsecret
        obtain ⟨key', hkey', he⟩ := hv'.kept call hcall
        rw [hsecret, haad call hcall hdata, hlookup] at hkey'
        exact Vault.decrypt_none hnone _ he ⟨(Option.some.inj hkey').symm, hiv, hdata, hct⟩
      constructor
      · intro ⟨call, hcall, hmem, h⟩
        exact ⟨call, hcall, List.mem_cons_of_mem _ hmem, h⟩
      · intro ⟨call, hcall, hmem, hdata, hiv, hct, h⟩
        rcases List.mem_cons.mp hmem with hsecret | hmem
        · exact absurd hsecret (hother call hcall hdata hiv hct)
        · exact ⟨call, hcall, hmem, hdata, hiv, hct, h⟩
    · next pt hsome =>
      obtain ⟨e, he, hkey, hiv, hdata, hct, hpt⟩ := Vault.decrypt_some hsome
      obtain ⟨call, hcall, key', hkey', rfl⟩ := hv'.made e he
      have hpurpose := haad call hcall hdata
      have hkey' : cache.lookup (cacheKey call.masterSecret call.purpose) = some key := hkey'.trans (congrArg some hkey)
      -- the key is found under both names, so they are one
      have hname := hstretched.name_unique hideal
        (cacheKey_text (hproper call hcall).secret (hproper call hcall).purpose)
        (cacheKey_text (hlist secret List.mem_cons_self) (hpurpose ▸ (hproper call hcall).purpose)) hkey' hlookup
      rw [cacheKey, cacheKey, hpurpose] at hname
      have hsecret := (List.cons.inj (List.append_cancel_left hname)).2
      rw [← hpt]
      show readPayload rt (utf8 (call.text rt)) now maxAgeSeconds = _ ↔ _
      rw [readPayload_text hnumber (hproper call hcall)]
      constructor
      · intro h
        exact ⟨call, hcall, hsecret ▸ List.mem_cons_self, hdata, hiv, hct, h⟩
      · intro ⟨other, hother, _, hdata', hiv', hct', h⟩
        obtain ⟨key'', -, he'⟩ := hv'.kept other hother
        obtain ⟨-, hplaintext⟩ := hv'.agree _ he _ he' (hiv.trans hiv'.symm) (hdata.trans hdata'.symm)
          (hct.trans hct'.symm)
        rw [(hproper call hcall).payload_unique hnumber (hproper other hother) hplaintext]
        exact h

/-- The first part of a token ends at its first dot. -/
theorem split_cons {c : CodeUnit} {s w next : JsString} {ws : List JsString} (h : split c s = w :: next :: ws) :
    c ∉ w ∧ ∃ rest, s = w ++ c :: rest ∧ split c rest = next :: ws := by
  by_cases hc : c ∈ s
  · obtain ⟨a, b, rfl, ha⟩ := List.eq_append_cons_of_mem hc
    rw [split_append, split_of_notMem ha, List.singleton_append] at h
    obtain ⟨rfl, hrest⟩ := List.cons.inj h
    exact ⟨ha, b, rfl, hrest⟩
  · rw [split_of_notMem hc] at h
    cases h

/-- The additional data of two calls with dots nowhere else are those of one. -/
theorem additionalData_unique {version purpose version' purpose' : JsString} (hversion : WellFormedText version)
    (hpurpose : WellFormedText purpose) (hversion' : WellFormedText version') (hpurpose' : WellFormedText purpose')
    (hdot : dot ∉ version) (hdot' : dot ∉ purpose)
    (h : additionalData version' purpose' = additionalData version purpose) :
    version' = version ∧ purpose' = purpose := by
  have hjoined := utf8_injective ((wellFormedText_join (by decide)).mpr ⟨hversion', hpurpose'⟩)
    ((wellFormedText_join (by decide)).mpr ⟨hversion, hpurpose⟩) h
  obtain ⟨hv, -, hp⟩ := (List.append_cons_inj_of_notMem hdot hdot').mp hjoined.symm
  exact ⟨hv.symm, hp.symm⟩

theorem checkTimes_ok {payload x : Json} {now : Nat} :
    checkTimes payload now none = .ok x ↔ payload = x ∧ x ≠ .null ∧ ¬ Expired x now := by
  have hpassed : ∀ payload : Json, passed (payload.get (js "exp")) now 0 = true ↔ Expired payload now := by
    intro payload
    unfold passed Expired
    cases hexp : payload.get (js "exp") with
    | none => exact ⟨nofun, nofun⟩
    | some v =>
      cases v with
      | num exp =>
        simp only [Option.bind_some, Json.num?, Rat.add_zero, decide_eq_true_eq, Option.some.injEq, Json.num.injEq,
          exists_eq_left']
      | _ => exact ⟨nofun, nofun⟩
  unfold checkTimes
  split
  · constructor
    · exact nofun
    · rintro ⟨rfl, hne, -⟩
      exact absurd rfl hne
  · next hne =>
    by_cases hexp : passed (payload.get (js "exp")) now 0 = true
    · rw [if_pos hexp]
      constructor
      · exact nofun
      · rintro ⟨rfl, -, hlive⟩
        exact absurd ((hpassed payload).mp hexp) hlive
    · rw [if_neg hexp]
      constructor
      · intro h
        cases h
        exact ⟨rfl, hne, fun h => hexp ((hpassed payload).mpr h)⟩
      · intro ⟨heq, _⟩
        exact congrArg Except.ok heq

/-- A token opens exactly where it was sealed under one of the secrets, as long as what is
authenticated with it tells its parts from those of every other call. -/
theorem returns_iff (hideal : IdealHkdf hkdf) (hnumber : ∀ x, ∀ u ∈ rt.stringOf (.num x), u < 128)
    {done : List SealCall} (hproper : ∀ call ∈ done, call.Proper rt) {v : Vault K} (hv : v.Sound hkdf rt done)
    {secrets : List JsString} (hsecrets : ∀ secret ∈ secrets, WellFormedText secret) {purpose token : JsString}
    (haad : ∀ keyVersion rest, token = keyVersion ++ dot :: rest → dot ∉ keyVersion → dot ∉ purpose →
      ∀ call ∈ done, additionalData call.version call.purpose = additionalData keyVersion purpose →
        call.version = keyVersion ∧ call.purpose = purpose) {now : Nat} {x : Json} :
    v.Returns hkdf rt secrets purpose token now none x ↔
      ∃ call ∈ done, call.Parts token ∧ call.purpose = purpose ∧ call.masterSecret ∈ secrets ∧
        call.masterSecret ≠ [] ∧ call.payload = x ∧ x ≠ .null ∧ ¬ Expired x now := by
  have hfilter : ∀ {secret}, secret ∈ secrets.filter (· ≠ []) ↔ secret ∈ secrets ∧ secret ≠ [] := by
    intro secret
    rw [List.mem_filter, decide_eq_true_eq]
  unfold Vault.Returns Vault.unseal
  split
  · next keyVersion tokenPurpose ivPart ctPart hsplit =>
    obtain ⟨hdot, rest, htokens, hrest⟩ := split_cons hsplit
    obtain ⟨hdot', -⟩ := split_cons hrest
    have hparts : ∀ {call : SealCall}, call.Parts token ↔ keyVersion = call.version ∧ tokenPurpose = call.purpose ∧
        unb64u ivPart = some call.iv ∧ unb64u ctPart = some call.ct := by
      intro call
      unfold SealCall.Parts
      rw [hsplit]
      simp only [List.cons.injEq, and_true]
      constructor
      · rintro ⟨_, _, ⟨hv, hp, rfl, rfl⟩, hiv, hct⟩
        exact ⟨hv, hp, hiv, hct⟩
      · intro ⟨hv, hp, hiv, hct⟩
        exact ⟨ivPart, ctPart, ⟨hv, hp, rfl, rfl⟩, hiv, hct⟩
    split
    · next hne =>
      constructor
      · exact nofun
      · rintro ⟨call, -, hcall, rfl, -⟩
        exact absurd (hparts.mp hcall).2.1 hne
    · next hsame =>
      have hsame := Decidable.not_not.mp hsame
      subst hsame
      split
      · next iv ct hiv hct =>
        have haad := haad keyVersion rest htokens hdot hdot'
        rw [unsealLoop_ok hideal hnumber hproper (fun call hcall h => (haad call hcall h).2)
          (fun secret hsecret => hsecrets secret (hfilter.mp hsecret).1) hv]
        constructor
        · intro ⟨call, hcall, hmem, hdata, hciv, hcct, hcheck⟩
          obtain ⟨hcversion, hcpurpose⟩ := haad call hcall hdata
          exact ⟨call, hcall, hparts.mpr ⟨hcversion.symm, hcpurpose.symm, hciv ▸ hiv, hcct ▸ hct⟩, hcpurpose,
            (hfilter.mp hmem).1, (hfilter.mp hmem).2, checkTimes_ok.mp hcheck⟩
        · intro ⟨call, hcall, hpart, hcpurpose, hmem, hne, hcheck⟩
          obtain ⟨hcversion, -, hciv, hcct⟩ := hparts.mp hpart
          refine ⟨call, hcall, hfilter.mpr ⟨hmem, hne⟩, ?_, ?_, ?_, checkTimes_ok.mpr hcheck⟩
          · rw [hcversion, hcpurpose]
          · exact Option.some.inj (hciv.symm.trans hiv)
          · exact Option.some.inj (hcct.symm.trans hct)
      · next hnot =>
        constructor
        · exact nofun
        · intro ⟨call, _, hpart, _⟩
          obtain ⟨-, -, hiv, hct⟩ := hparts.mp hpart
          exact absurd hct (hnot _ _ hiv)
  · next hnot =>
    constructor
    · exact nofun
    · intro ⟨call, _, ⟨ivPart, ctPart, hsplit, _⟩, _⟩
      exact absurd hsplit (hnot _ _ _ _)

/-- A token that is a text opens exactly where it was sealed under one of the secrets. -/
theorem unseal_iff (hideal : IdealHkdf hkdf) (hnumber : ∀ x, ∀ u ∈ rt.stringOf (.num x), u < 128)
    {done : List SealCall} (hproper : ∀ call ∈ done, call.Proper rt) {v : Vault K} (hv : v.Sound hkdf rt done)
    {secrets : List JsString} (hsecrets : ∀ secret ∈ secrets, WellFormedText secret) {purpose token : JsString}
    (hpurpose : WellFormedText purpose) (htoken : WellFormedText token) {now : Nat} {x : Json} :
    v.Returns hkdf rt secrets purpose token now none x ↔
      ∃ call ∈ done, call.Parts token ∧ call.purpose = purpose ∧ call.masterSecret ∈ secrets ∧
        call.masterSecret ≠ [] ∧ call.payload = x ∧ x ≠ .null ∧ ¬ Expired x now := by
  refine returns_iff hideal hnumber hproper hv hsecrets fun keyVersion rest htokens hdot hdot' call hcall h => ?_
  rw [htokens] at htoken
  have hversion := ((wellFormedText_join (by decide)).mp htoken).1
  exact additionalData_unique hversion hpurpose (hproper call hcall).version (hproper call hcall).purpose hdot hdot' h

/-! ## Tokens -/

theorem b64u_no_dot (bytes : Bytes) : dot ∉ b64u bytes := by
  have hall : ∀ i : Fin 64, b64Char i ≠ dot := by decide +kernel
  intro hmem
  exact b64u_forall (p := (· ≠ dot)) (fun i hi => hall ⟨i, hi⟩) bytes dot hmem rfl

/-- The token of a call has its parts, where neither the version nor the purpose has a dot. -/
theorem SealCall.token_parts {call : SealCall} (hversion : dot ∉ call.version) (hpurpose : dot ∉ call.purpose) :
    call.Parts call.token := by
  refine ⟨b64u call.iv, b64u call.ct, ?_, unb64u_b64u call.iv, unb64u_b64u call.ct⟩
  rw [SealCall.token, split_append, split_append, split_append, split_of_notMem hversion, split_of_notMem hpurpose,
    split_of_notMem (b64u_no_dot _), split_of_notMem (b64u_no_dot _)]
  rfl

theorem SealCall.Proper.token {call : SealCall} (h : call.Proper rt) : WellFormedText call.token :=
  (wellFormedText_join (by decide)).mpr ⟨h.version, (wellFormedText_join (by decide)).mpr
    ⟨h.purpose, (wellFormedText_join (by decide)).mpr
      ⟨WellFormedText.ascii (b64u_ascii _), WellFormedText.ascii (b64u_ascii _)⟩⟩⟩

/-! ## The purposes of the program -/

/-- A safe identifier has no unit but letters, digits, underscores and hyphens. -/
theorem safeId_notMem {id : JsString} (h : safeId id = true) {c : CodeUnit}
    (hc : (isAlnum c || c = 95 || c = hyphen) = false) : c ∉ id := by
  simp only [safeId, Bool.and_eq_true, List.all_eq_true] at h
  intro hmem
  have hsafe := h.2 c hmem
  rw [hc] at hsafe
  cases hsafe

theorem safeId_text {id : JsString} (h : safeId id = true) : ∀ u ∈ id, u < 128 := by
  have hall : ∀ u : CodeUnit, (isAlnum u || u = 95 || u = hyphen) = true → u < 128 := by
    intro u hu
    simp only [isAlnum, isDigit, isUpper, isLower, hyphen, Bool.or_eq_true, Bool.and_eq_true, decide_eq_true_eq] at hu
    rcases hu with (((hu | hu) | hu) | hu) | hu
    · exact UInt16.lt_of_le_of_lt hu.2 (by decide)
    · exact UInt16.lt_of_le_of_lt hu.2 (by decide)
    · exact UInt16.lt_of_le_of_lt hu.2 (by decide)
    · rw [hu]
      decide
    · rw [of_decide_eq_true hu]
      decide
  simp only [safeId, Bool.and_eq_true, List.all_eq_true] at h
  exact fun u hu => hall u (h.2 u hu)

/-- No purpose has a blank, and each is plain. -/
theorem Use.purpose_plain {use : Use} (h : use.Safe) : 32 ∉ use.purpose ∧ ∀ u ∈ use.purpose, u < 128 := by
  cases use with
  | refresh identityId linkId =>
    obtain ⟨hidentity, hlink⟩ := h
    have hfront : 32 ∉ js "local-identity-refresh/" ∧ ∀ u ∈ js "local-identity-refresh/", u < 128 := by decide
    have hslash : 32 ∉ js "/" ∧ ∀ u ∈ js "/", u < 128 := by decide
    show 32 ∉ REFRESH_PURPOSE identityId linkId ∧ ∀ u ∈ REFRESH_PURPOSE identityId linkId, u < 128
    simp only [REFRESH_PURPOSE, List.mem_append, not_or]
    refine ⟨⟨⟨⟨hfront.1, safeId_notMem hidentity (by decide)⟩, hslash.1⟩, safeId_notMem hlink (by decide)⟩, ?_⟩
    rintro u (((hu | hu) | hu) | hu)
    · exact hfront.2 u hu
    · exact safeId_text hidentity u hu
    · exact hslash.2 u hu
    · exact safeId_text hlink u hu
  | _ =>
    constructor
    · decide
    · decide

/-- Two uses have two purposes. -/
theorem Use.purpose_injective {use use' : Use} (h : use.Safe) (h' : use'.Safe) (heq : use.purpose = use'.purpose) :
    use = use' := by
  have hrefresh : ∀ {use : Use}, 47 ∉ use.purpose → ∀ identityId linkId,
    use.purpose ≠ REFRESH_PURPOSE identityId linkId := by
    intro use hslash identityId linkId heq
    rw [heq, REFRESH_PURPOSE] at hslash
    exact hslash (List.mem_append_left _ (List.mem_append_right _ (by decide)))
  cases use with
  | refresh identityId linkId =>
    cases use' with
    | refresh identityId' linkId' =>
      have hcancel : identityId ++ 47 :: linkId = identityId' ++ 47 :: linkId' := by
        have heq : REFRESH_PURPOSE identityId linkId = REFRESH_PURPOSE identityId' linkId' := heq
        rw [REFRESH_PURPOSE, REFRESH_PURPOSE, List.append_assoc, List.append_assoc, List.append_assoc,
          List.append_assoc] at heq
        exact List.append_cancel_left heq
      obtain ⟨rfl, -, rfl⟩ := (List.append_cons_inj_of_notMem (safeId_notMem h.1 (by decide))
        (safeId_notMem h.2 (by decide))).mp hcancel
      rfl
    | _ => exact absurd heq.symm (hrefresh (by decide) _ _)
  | _ =>
    cases use' with
    | refresh identityId' linkId' => exact absurd heq (hrefresh (by decide) _ _)
    | _ => first | rfl | exact absurd heq (by decide)

/-! ## The run -/

/-- What sealing promises after a run. -/
structure Vault.Exact (hkdf : Bytes → Bytes → K) (rt : Runtime) (v : Vault K) (done : List SealCall) : Prop where
  /-- What opens has been sealed for the purpose, under a secret of the list. -/
  opens {secrets : List JsString} {purpose token : JsString} {now : Nat} {x : Json}
    (hsecrets : ∀ secret ∈ secrets, WellFormedText secret) (hpurpose : WellFormedText purpose)
    (htoken : WellFormedText token) (hx : x ≠ .null) :
    v.Returns hkdf rt secrets purpose token now none x ↔
      ∃ call ∈ done, call.Parts token ∧ call.purpose = purpose ∧ call.masterSecret ∈ secrets ∧
        call.masterSecret ≠ [] ∧ call.payload = x ∧ ¬ Expired x now
  /-- The token of a call is one of them. -/
  own {call : SealCall} (hcall : call ∈ done) (hversion : dot ∉ call.version) (hpurpose : dot ∉ call.purpose)
    (hsecret : call.masterSecret ≠ []) (hpayload : call.payload ≠ .null) {secrets : List JsString}
    (hsecrets : ∀ secret ∈ secrets, WellFormedText secret) (hmem : call.masterSecret ∈ secrets) {now : Nat}
    (hlive : ¬ Expired call.payload now) :
    v.Returns hkdf rt secrets call.purpose call.token now none call.payload
  /-- More secrets, in any order, lose nothing. -/
  more {secrets secrets' : List JsString} {purpose token : JsString} {now : Nat} {x : Json}
    (hsecrets' : ∀ secret ∈ secrets', WellFormedText secret) (hpurpose : WellFormedText purpose)
    (htoken : WellFormedText token) (hsub : ∀ secret ∈ secrets, secret ∈ secrets')
    (h : v.Returns hkdf rt secrets purpose token now none x) : v.Returns hkdf rt secrets' purpose token now none x
  /-- Without a secret, its tokens are refused and no others. -/
  fewer {secrets : List JsString} {purpose token : JsString} {now : Nat} {x : Json}
    (hsecrets : ∀ secret ∈ secrets, WellFormedText secret) (hpurpose : WellFormedText purpose)
    (htoken : WellFormedText token) (h : v.Returns hkdf rt secrets purpose token now none x) (removed : JsString) :
    (∀ y, ¬ v.Returns hkdf rt (secrets.filter (· ≠ removed)) purpose token now none y) ↔
      ∃ call ∈ done, call.Parts token ∧ call.masterSecret = removed
  /-- What opens for one purpose opens for no other. -/
  apart {secrets secrets' : List JsString} {purpose purpose' token : JsString} {now now' : Nat}
    {maxAgeSeconds maxAgeSeconds' : Option Rat} {x y : Json}
    (h : v.Returns hkdf rt secrets purpose token now maxAgeSeconds x)
    (h' : v.Returns hkdf rt secrets' purpose' token now' maxAgeSeconds' y) : purpose = purpose'
  /-- No two uses of the program share a key. -/
  keys {use use' : Use} (hsafe : use.Safe) (hsafe' : use'.Safe) {secret secret' : JsString}
    (hsecret : WellFormedText secret) (hsecret' : WellFormedText secret') {key : K}
    (hkey : v.aesCache.lookup (cacheKey secret use.purpose) = some key)
    (hkey' : v.aesCache.lookup (cacheKey secret' use'.purpose) = some key) : secret = secret' ∧ use = use'

/-- The purpose of a token that opens is its second part. -/
theorem Vault.Returns.purpose {v : Vault K} {secrets : List JsString} {purpose token : JsString} {now : Nat}
    {maxAgeSeconds : Option Rat} {x : Json} (h : v.Returns hkdf rt secrets purpose token now maxAgeSeconds x) :
    (split dot token)[1]? = some purpose := by
  unfold Vault.Returns Vault.unseal at h
  split at h
  · next hsplit =>
    split at h
    · cases h
    · next hsame =>
      rw [hsplit, Decidable.not_not.mp hsame]
      rfl
  · cases h

/-- After any sequence of calls, sealing is exact. -/
theorem sealing_exact (hideal : IdealHkdf hkdf) (hnumber : ∀ x, ∀ u ∈ rt.stringOf (.num x), u < 128) {v : Vault K}
    {done : List SealCall} (hrun : Vault.Run hkdf rt v done) (hproper : ∀ call ∈ done, call.Proper rt) :
    v.Exact hkdf rt done := by
  have hv := hrun.sound
  refine ⟨?_, ?_, ?_, ?_, ?_, ?_⟩
  · intro secrets purpose token now x hsecrets hpurpose htoken hx
    rw [unseal_iff hideal hnumber hproper hv hsecrets hpurpose htoken]
    simp only [ne_eq, hx, not_false_eq_true, true_and]
  · intro call hcall hversion hpurpose hsecret hpayload secrets hsecrets hmem now hlive
    refine (unseal_iff hideal hnumber hproper hv hsecrets (hproper call hcall).purpose
      (hproper call hcall).token).mpr ?_
    exact ⟨call, hcall, SealCall.token_parts hversion hpurpose, rfl, hmem, hsecret, rfl, hpayload, hlive⟩
  · intro secrets secrets' purpose token now x hsecrets' hpurpose htoken hsub h
    obtain ⟨call, hcall, hparts, hcpurpose, hmem, hne, hx⟩ :=
      (unseal_iff hideal hnumber hproper hv (fun secret hs => hsecrets' secret (hsub secret hs)) hpurpose htoken).mp h
    exact (unseal_iff hideal hnumber hproper hv hsecrets' hpurpose htoken).mpr
      ⟨call, hcall, hparts, hcpurpose, hsub _ hmem, hne, hx⟩
  · intro secrets purpose token now x hsecrets hpurpose htoken h removed
    have hfilter : ∀ {secret}, secret ∈ secrets.filter (· ≠ removed) ↔ secret ∈ secrets ∧ secret ≠ removed := by
      intro secret
      rw [List.mem_filter, decide_eq_true_eq]
    have hsecrets' : ∀ secret ∈ secrets.filter (· ≠ removed), WellFormedText secret :=
      fun secret hs => hsecrets secret (hfilter.mp hs).1
    obtain ⟨call, hcall, hparts, hcpurpose, hmem, hne, hx⟩ :=
      (unseal_iff hideal hnumber hproper hv hsecrets hpurpose htoken).mp h
    constructor
    · intro hrefused
      refine ⟨call, hcall, hparts, Decidable.not_not.mp fun hother => hrefused x ?_⟩
      exact (unseal_iff hideal hnumber hproper hv hsecrets' hpurpose htoken).mpr
        ⟨call, hcall, hparts, hcpurpose, hfilter.mpr ⟨hmem, hother⟩, hne, hx⟩
    · intro ⟨call', hcall', hparts', hremoved⟩ y hy
      obtain ⟨other, hother, hpartsOther, -, hmemOther, -⟩ :=
        (unseal_iff hideal hnumber hproper hv hsecrets' hpurpose htoken).mp hy
      obtain ⟨hsame, -⟩ := hv.unique hideal hnumber hproper hother hcall' hpartsOther hparts'
      exact (hfilter.mp hmemOther).2 (hsame.trans hremoved)
  · intro secrets secrets' purpose purpose' token now now' maxAgeSeconds maxAgeSeconds' x y h h'
    exact Option.some.inj (h.purpose.symm.trans h'.purpose)
  · intro use use' hsafe hsafe' secret secret' hsecret hsecret' key hkey hkey'
    have hplain := Use.purpose_plain hsafe
    have hplain' := Use.purpose_plain hsafe'
    have hname := hv.stretched.name_unique hideal (cacheKey_text hsecret (WellFormedText.ascii hplain.2))
      (cacheKey_text hsecret' (WellFormedText.ascii hplain'.2)) hkey hkey'
    -- a purpose ends at the first blank
    have hbreak := breakFirst_eq_some_iff.mpr ⟨(rfl : cacheKey secret use.purpose = _), hplain.1⟩
    have hbreak' := breakFirst_eq_some_iff.mpr ⟨(rfl : cacheKey secret' use'.purpose = _), hplain'.1⟩
    rw [hname, hbreak'] at hbreak
    obtain ⟨hpurpose, hsecrets⟩ := Prod.mk.inj (Option.some.inj hbreak)
    exact ⟨hsecrets.symm, Use.purpose_injective hsafe hsafe' hpurpose.symm⟩

end

namespace Sample

/-- Key derivation that keeps what it was asked. -/
def pairing (ikm info : Bytes) : Bytes × Bytes := (ikm, info)

theorem pairing_ideal : IdealHkdf pairing := fun _ _ _ _ h => Prod.mk.inj h

/-- A payload that expires at 2000, and a platform that prints and reads it. -/
def expiring : Json := .obj [(js "exp", .num 2000)]

def reading : Runtime :=
  { runtime with
    stringOf := fun
      | .num _ => js "2000"
      | _ => []
    parseJson := fun text => if text = js "\x7b\"exp\":2000\x7d" then some expiring else none }

/-- It is sealed under a secret. -/
def sealUnder (masterSecret : JsString) : SealCall where
  masterSecret := masterSecret
  purpose := js "tx"
  payload := expiring
  keyVersion := none
  iv := [1, 2, 3]
  ct := [4, 5, 6]

def sealedUnder (masterSecret : JsString) : Vault (Bytes × Bytes) :=
  (Vault.seal pairing reading ⟨[], []⟩ (sealUnder masterSecret)).1

theorem sealedUnder_run (masterSecret : JsString) :
    Vault.Run pairing reading (sealedUnder masterSecret) [sealUnder masterSecret] :=
  .sealing .start (sealUnder masterSecret) nofun

theorem reading_numbers : ∀ x, ∀ u ∈ reading.stringOf (.num x), u < 128 := by
  intro x
  show ∀ u ∈ js "2000", u < 128
  decide

theorem sealUnder_text (masterSecret : JsString) :
    reading.parseJson ((sealUnder masterSecret).text reading) = some expiring := by
  have htext : (sealUnder masterSecret).text reading = js "\x7b\"exp\":2000\x7d" := by
    show Json.text _ expiring = _
    decide
  rw [htext]
  show (if js "\x7b\"exp\":2000\x7d" = js "\x7b\"exp\":2000\x7d" then some expiring else none) = _
  exact if_pos rfl

end Sample

/-- What was sealed under the secret before the last opens while that secret is listed. -/
theorem rotated_opens : IdealHkdf Sample.pairing ∧
    Vault.Run Sample.pairing Sample.reading (Sample.sealedUnder (js "old")) [Sample.sealUnder (js "old")] ∧
    (Sample.sealedUnder (js "old")).Returns Sample.pairing Sample.reading [js "new", js "old"] (js "tx")
      (Sample.sealUnder (js "old")).token 1999 none Sample.expiring := by
  have htexts : (∀ u ∈ js "new", u < 128) ∧ (∀ u ∈ js "old", u < 128) ∧ (∀ u ∈ js "tx", u < 128) ∧
      ∀ u ∈ js "k1", u < 128 := by decide
  obtain ⟨hnew, hold, htx, hversion⟩ := htexts
  have hproper : ∀ call ∈ [Sample.sealUnder (js "old")], call.Proper Sample.reading := by
    intro call hcall
    rw [List.mem_singleton.mp hcall]
    exact ⟨WellFormedText.ascii hold, WellFormedText.ascii htx, WellFormedText.ascii hversion,
      Sample.sealUnder_text _⟩
  have hexact := sealing_exact Sample.pairing_ideal Sample.reading_numbers (Sample.sealedUnder_run (js "old")) hproper
  refine ⟨Sample.pairing_ideal, Sample.sealedUnder_run _, ?_⟩
  refine hexact.own List.mem_cons_self (by decide) (by decide) (by decide) nofun ?_
    (List.mem_cons_of_mem _ List.mem_cons_self) ?_
  · intro secret hsecret
    rcases List.mem_cons.mp hsecret with rfl | hsecret
    · exact WellFormedText.ascii hnew
    · rw [List.mem_singleton.mp hsecret]
      exact WellFormedText.ascii hold
  · intro ⟨exp, hget, hlt⟩
    have hexp : (2000 : Rat) = exp := Json.num.inj (Option.some.inj hget)
    rw [← hexp] at hlt
    exact absurd hlt (by decide)

/-- An empty secret seals what it does not open, and two lone surrogates are one secret. -/
theorem secrets_confused :
    (Vault.Run Sample.pairing Sample.reading (Sample.sealedUnder []) [Sample.sealUnder []] ∧
      ¬ ((Sample.sealedUnder []).Returns Sample.pairing Sample.reading [[]] (js "tx") (Sample.sealUnder []).token 1999
          none Sample.expiring ↔
        ∃ call ∈ [Sample.sealUnder []], call.Parts (Sample.sealUnder []).token ∧ call.purpose = js "tx" ∧
          call.masterSecret ∈ ([[]] : List JsString) ∧ call.payload = Sample.expiring ∧
            ¬ Expired Sample.expiring 1999)) ∧
    (Vault.Run Sample.pairing Sample.reading (Sample.sealedUnder [0xD800]) [Sample.sealUnder [0xD800]] ∧
      ¬ ((Sample.sealedUnder [0xD800]).Returns Sample.pairing Sample.reading [[0xD801]] (js "tx")
          (Sample.sealUnder [0xD800]).token 1999 none Sample.expiring ↔
        ∃ call ∈ [Sample.sealUnder [0xD800]], call.Parts (Sample.sealUnder [0xD800]).token ∧ call.purpose = js "tx" ∧
          call.masterSecret ∈ ([[0xD801]] : List JsString) ∧ call.payload = Sample.expiring ∧
          ¬ Expired Sample.expiring 1999)) := by
  have hlive : ¬ Expired Sample.expiring 1999 := by
    intro ⟨exp, hget, hlt⟩
    have hexp : (2000 : Rat) = exp := Json.num.inj (Option.some.inj hget)
    rw [← hexp] at hlt
    exact absurd hlt (by decide)
  refine ⟨⟨Sample.sealedUnder_run _, fun hiff => ?_⟩, Sample.sealedUnder_run _, fun hiff => ?_⟩
  · have hreturns := hiff.mpr ⟨Sample.sealUnder [], List.mem_cons_self,
    SealCall.token_parts (by decide) (by decide), rfl,
      List.mem_cons_self, rfl, hlive⟩
    have hrefused : ((Sample.sealedUnder []).unseal Sample.pairing Sample.reading [[]] (js "tx")
        (Sample.sealUnder []).token 1999 none).2 = .error (.sealError (js "could not decrypt token")) := rfl
    rw [Vault.Returns, hrefused] at hreturns
    cases hreturns
  · -- the key is derived from the same bytes
    have hread : readPayload Sample.reading (utf8 ((Sample.sealUnder [0xD800]).text Sample.reading)) 1999 none =
        .ok Sample.expiring := by
      have htext : fromUtf8 (utf8 ((Sample.sealUnder [0xD800]).text Sample.reading)) =
          (Sample.sealUnder [0xD800]).text Sample.reading := fromUtf8_text Sample.reading_numbers _
      rw [readPayload, htext, Sample.sealUnder_text]
      exact checkTimes_ok.mpr ⟨rfl, nofun, hlive⟩
    have hreturns : ((Sample.sealedUnder [0xD800]).unseal Sample.pairing Sample.reading [[0xD801]] (js "tx")
        (Sample.sealUnder [0xD800]).token 1999 none).2 =
          readPayload Sample.reading (utf8 ((Sample.sealUnder [0xD800]).text Sample.reading)) 1999 none := rfl
    obtain ⟨call, hcall, -, -, hmem, -⟩ := hiff.mp (hreturns.trans hread)
    rw [List.mem_singleton.mp hcall] at hmem
    exact absurd hmem (by decide)

end Sag
