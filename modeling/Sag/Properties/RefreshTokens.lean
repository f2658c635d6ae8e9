import Sag.Properties.Codecs
import Sag.Properties.Readable
import Sag.Properties.Sealing

/-!
# What a stored refresh token opens to

The documents of the identity service and the vault that its tokens are sealed in, together
(`Custody`). All that the program seals is sealed without a version of its own and for one of
its uses, and for the use of a link it seals the payload of a refresh token
(`SealCall.OfProgram`); so a text that opens for a link opens to such a payload
(`Custody.Legit.returns_iff`), and sealing the payload again makes no longer text
(`resealed_length`).
-/

namespace Sag

open Resumable

variable {K : Type} {hkdf : Bytes → Bytes → K} {rt : Runtime}

/-- The value that is sealed for a refresh token, and `refreshPayload` is its text. -/
def refreshJson (identityId : JsString) (link : UpstreamLink) (token : JsString) : Json :=
  .obj [(js "v", .num 1), (js "identity_id", .str identityId), (js "link_id", .str link.id),
    (js "upstream", .str link.upstream), (js "issuer", .str link.issuer), (js "subject", .str link.subject),
    (js "token", .str token)]

/-- What the program seals for a link. -/
structure SealCall.ForLink (rt : Runtime) (call : SealCall) (identityId linkId : JsString) : Prop where
  payload : ∃ link token, link.id = linkId ∧ call.payload = refreshJson identityId link token
  iv : call.iv.length = 12
  ct : call.ct.length = (utf8 (call.text rt)).length + 16

/-- A call of `seal` that the program makes. -/
structure SealCall.OfProgram (rt : Runtime) (call : SealCall) : Prop where
  proper : call.Proper rt
  version : call.keyVersion = none
  use : ∃ use : Use, use.Safe ∧ call.purpose = use.purpose ∧
    ∀ identityId linkId, use = .refresh identityId linkId → call.ForLink rt identityId linkId

/-- What is assumed of the platform, and of the secrets that are held, the new one first. -/
structure Keyring (hkdf : Bytes → Bytes → K) (rt : Runtime) (new : JsString) (older : List JsString) : Prop where
  ideal : IdealHkdf hkdf
  numbers : ∀ x, ∀ u ∈ rt.stringOf (.num x), u < 128
  one : rt.stringOf (.num 1) = js "1"
  texts : ∀ secret ∈ new :: older, WellFormedText secret
  named : new ≠ []

/-- The stored documents, the vault, and all that has been sealed. -/
structure Custody (K : Type) where
  docs : Documents
  vault : Vault K
  done : List SealCall

variable [DecidableEq K]

/-- The vault is the program's. -/
structure Custody.Legit (hkdf : Bytes → Bytes → K) (rt : Runtime) (s : Custody K) : Prop where
  run : Vault.Run hkdf rt s.vault s.done
  calls : ∀ call ∈ s.done, call.OfProgram rt

/-- One of the secrets opens the text that is stored for the link, and the token is in it, bound
to the identity and to the link, its upstream, issuer and subject. -/
def Custody.Opens (hkdf : Bytes → Bytes → K) (rt : Runtime) (s : Custody K) (secrets : List JsString)
    (identityId : JsString) (link : UpstreamLink) (stored token : JsString) : Prop :=
  ∀ now, s.vault.Returns hkdf rt secrets (REFRESH_PURPOSE identityId link.id) stored now none
    (refreshJson identityId link token)

/-! ## Payloads -/

omit [DecidableEq K] in
theorem refreshJson_inj {identityId identityId' : JsString} {link link' : UpstreamLink} {token token' : JsString} :
    refreshJson identityId link token = refreshJson identityId' link' token' ↔
      identityId = identityId' ∧ link.id = link'.id ∧ link.upstream = link'.upstream ∧ link.issuer = link'.issuer ∧
        link.subject = link'.subject ∧ token = token' := by
  simp only [refreshJson, Json.obj.injEq, List.cons.injEq, Prod.mk.injEq, Json.str.injEq, true_and, and_true]

/-- A payload of the program belongs to the link if it is the payload of the link. -/
theorem boundTo_refreshJson {record : LocalRecord} {link link' : UpstreamLink} {identityId token token' : JsString} :
    boundTo record link (refreshJson identityId link' token') = some token ↔
      refreshJson identityId link' token' = refreshJson record.id link token := by
  have hv : (Json.num 1).safeNat? = some 1 := by decide
  have hmembers : boundTo record link (refreshJson identityId link' token') = (do
      guard ((Json.num 1).safeNat? = some 1)
      guard (some identityId = some record.id)
      guard (some link'.id = some link.id)
      guard (some link'.upstream = some link.upstream)
      guard (some link'.issuer = some link.issuer)
      guard (some link'.subject = some link.subject)
      some token') := rfl
  rw [hmembers, refreshJson_inj, hv]
  simp only [Option.bind_eq_bind, Option.bind_eq_some_iff, Option.some_inj]
  constructor
  · intro ⟨_, _, _, hid, _, hlink, _, hupstream, _, hissuer, _, hsubject, htoken⟩
    exact ⟨of_guard hid, of_guard hlink, of_guard hupstream, of_guard hissuer, of_guard hsubject, htoken⟩
  · intro ⟨hid, hlink, hupstream, hissuer, hsubject, htoken⟩
    exact ⟨(), rfl, (), if_pos hid, (), if_pos hlink, (), if_pos hupstream, (), if_pos hissuer, (), if_pos hsubject,
      htoken⟩

theorem refreshJson_text (hone : rt.stringOf (.num 1) = js "1") (identityId : JsString) (link : UpstreamLink)
    (token : JsString) :
    Json.text (fun x => rt.stringOf (.num x)) (refreshJson identityId link token) =
      refreshPayload identityId link token := by
  have hdecimal : decimal 1 = js "1" := by decide
  rw [refreshPayload, stringifyFlat_eq, refreshJson, Json.text]
  simp only [Json.memberTexts, Json.text, List.map_cons, List.map_nil, Scalar.text, hone, hdecimal]

/-! ## What opens -/

omit [DecidableEq K] in
/-- What is authenticated with an ASCII version and purpose is authenticated with no others. -/
theorem additionalData_ascii {version purpose version' purpose' : JsString}
    (hascii : ∀ u ∈ version' ++ dot :: purpose', u < 128)
    (h : additionalData version' purpose' = additionalData version purpose) :
    version' ++ dot :: purpose' = version ++ dot :: purpose :=
  timingSafeEqual_ascii hascii (decide_eq_true h)

omit [DecidableEq K] in
theorem SealCall.OfProgram.version_eq {call : SealCall} (h : call.OfProgram rt) : call.version = js "k1" := by
  rw [SealCall.version, h.version, Option.getD_none]

omit [DecidableEq K] in
theorem SealCall.OfProgram.ascii {call : SealCall} (h : call.OfProgram rt) :
    ∀ u ∈ call.version ++ dot :: call.purpose, u < 128 := by
  have hk1 : ∀ u ∈ js "k1", u < 128 := by decide
  obtain ⟨use, hsafe, hpurpose, -⟩ := h.use
  rw [h.version_eq, hpurpose]
  intro u hu
  rcases List.mem_append.mp hu with hu | hu
  · exact hk1 u hu
  · rcases List.mem_cons.mp hu with rfl | hu
    · decide
    · exact (Use.purpose_plain hsafe).2 u hu

omit [DecidableEq K] in
/-- What is sealed for the purpose of a link is sealed for the link. -/
theorem SealCall.OfProgram.forLink {call : SealCall} (h : call.OfProgram rt) {identityId linkId : JsString}
    (hsafe : (Use.refresh identityId linkId).Safe) (hpurpose : call.purpose = REFRESH_PURPOSE identityId linkId) :
    call.ForLink rt identityId linkId := by
  obtain ⟨use, huse, heq, hlink⟩ := h.use
  exact hlink _ _ (Use.purpose_injective huse hsafe (heq.symm.trans hpurpose))

variable {new : JsString} {older : List JsString}

/-- What opens for a link has been sealed for it under one of the secrets. -/
theorem Custody.Legit.returns_iff {s : Custody K} (h : s.Legit hkdf rt) (hkeys : Keyring hkdf rt new older)
    {secrets : List JsString} (hsecrets : ∀ secret ∈ secrets, secret ∈ new :: older) {identityId linkId : JsString}
    (hsafe : (Use.refresh identityId linkId).Safe) {stored : JsString} {now : Nat} {x : Json} :
    s.vault.Returns hkdf rt secrets (REFRESH_PURPOSE identityId linkId) stored now none x ↔
      ∃ call ∈ s.done, call.Parts stored ∧ call.purpose = REFRESH_PURPOSE identityId linkId ∧
        call.masterSecret ∈ secrets ∧ call.masterSecret ≠ [] ∧ call.payload = x := by
  have hproper : ∀ call ∈ s.done, call.Proper rt := fun call hcall => (h.calls call hcall).proper
  rw [Sag.returns_iff hkeys.ideal hkeys.numbers hproper h.run.sound fun secret hs =>
    hkeys.texts secret (hsecrets secret hs)]
  · constructor
    · intro ⟨call, hcall, hparts, hpurpose, hmem, hne, hx, _⟩
      exact ⟨call, hcall, hparts, hpurpose, hmem, hne, hx⟩
    · intro ⟨call, hcall, hparts, hpurpose, hmem, hne, hx⟩
      -- a payload of the program is an object, and does not expire
      obtain ⟨link, token, -, hpayload⟩ := ((h.calls call hcall).forLink hsafe hpurpose).payload
      refine ⟨call, hcall, hparts, hpurpose, hmem, hne, hx, ?_, ?_⟩
      · rw [← hx, hpayload]
        exact nofun
      · rw [← hx, hpayload]
        intro ⟨exp, hexp, _⟩
        have hnone : (refreshJson identityId link token).get (js "exp") = none := rfl
        cases hexp
  · intro keyVersion rest _ hdot hdot' call hcall hdata
    have hjoined := additionalData_ascii (h.calls call hcall).ascii hdata
    obtain ⟨hversion, -, hpurpose⟩ := (List.append_cons_inj_of_notMem hdot hdot').mp hjoined.symm
    exact ⟨hversion.symm, hpurpose.symm⟩

variable {s s' : Custody K} {secrets secrets' : List JsString} {identityId stored token : JsString} {link : UpstreamLink}

/-- The payload that a call of the program has sealed for the link. -/
theorem Custody.Legit.opens_iff (h : s.Legit hkdf rt) (hkeys : Keyring hkdf rt new older)
    (hsecrets : ∀ secret ∈ secrets, secret ∈ new :: older) (hsafe : (Use.refresh identityId link.id).Safe) :
    s.Opens hkdf rt secrets identityId link stored token ↔
      ∃ call ∈ s.done, call.Parts stored ∧ call.purpose = REFRESH_PURPOSE identityId link.id ∧
        call.masterSecret ∈ secrets ∧ call.masterSecret ≠ [] ∧ call.payload = refreshJson identityId link token :=
  ⟨fun hopens => (h.returns_iff hkeys hsecrets hsafe).mp (hopens 0),
    fun hcall _ => (h.returns_iff hkeys hsecrets hsafe).mpr hcall⟩

/-- What a text has opened to is bound to the link, or it is refused. -/
theorem Custody.Legit.opens_of_bound (h : s.Legit hkdf rt) (hkeys : Keyring hkdf rt new older)
    (hsecrets : ∀ secret ∈ secrets, secret ∈ new :: older) {record : LocalRecord}
    (hsafe : (Use.refresh record.id link.id).Safe) {now : Nat} {x : Json}
    (hx : s.vault.Returns hkdf rt secrets (REFRESH_PURPOSE record.id link.id) stored now none x)
    (hbound : boundTo record link x = some token) : s.Opens hkdf rt secrets record.id link stored token := by
  obtain ⟨call, hcall, hparts, hpurpose, hmem, hne, rfl⟩ := (h.returns_iff hkeys hsecrets hsafe).mp hx
  obtain ⟨link', token', -, hpayload⟩ := ((h.calls call hcall).forLink hsafe hpurpose).payload
  rw [hpayload] at hbound
  refine (h.opens_iff hkeys hsecrets hsafe).mpr ⟨call, hcall, hparts, hpurpose, hmem, hne, ?_⟩
  exact hpayload.trans (boundTo_refreshJson.mp hbound)

/-- What opens goes on opening, and opens with more secrets. -/
theorem Custody.Opens.mono (h : s.Opens hkdf rt secrets identityId link stored token) (hs : s.Legit hkdf rt)
    (hs' : s'.Legit hkdf rt) (hdone : ∀ call ∈ s.done, call ∈ s'.done) (hkeys : Keyring hkdf rt new older)
    (hsub : ∀ secret ∈ secrets, secret ∈ secrets') (hsecrets : ∀ secret ∈ secrets', secret ∈ new :: older)
    (hsafe : (Use.refresh identityId link.id).Safe) : s'.Opens hkdf rt secrets' identityId link stored token := by
  obtain ⟨call, hcall, hparts, hpurpose, hmem, hne, hpayload⟩ :=
    (hs.opens_iff hkeys (fun secret hsecret => hsecrets secret (hsub secret hsecret)) hsafe).mp h
  exact (hs'.opens_iff hkeys hsecrets hsafe).mpr
    ⟨call, hdone call hcall, hparts, hpurpose, hsub _ hmem, hne, hpayload⟩

/-! ## Sizes -/

omit [DecidableEq K] in
/-- Nothing shorter decodes to as many bytes. -/
theorem length_of_unb64u {part : JsString} {bytes : Bytes} (h : unb64u part = some bytes) :
    (4 * bytes.length + 2) / 3 ≤ part.length := by
  have hbytes := (unb64u_unpack h).2
  have hpadding : (dropPadding (part.map urlUnsafe)).length ≤ part.length := by
    have hdrop := (List.dropWhile_suffix (· = 61) (l := (part.map urlUnsafe).reverse)).length_le
    rw [List.length_reverse, List.length_map] at hdrop
    rw [dropPadding, List.length_reverse]
    exact hdrop
  omega

omit [DecidableEq K] in
theorem split_singleton {c : CodeUnit} {t w : JsString} (h : split c t = [w]) : t = w := by
  by_cases hc : c ∈ t
  · obtain ⟨a, b, rfl, ha⟩ := List.eq_append_cons_of_mem hc
    rw [split_append, split_of_notMem ha, List.singleton_append] at h
    exact absurd (List.cons.inj h).2 (splitWhere_ne_nil _ b)
  · rw [split_of_notMem hc] at h
    exact (List.cons.inj h).1

omit [DecidableEq K] in
/-- The length of a text with the parts of a call. -/
theorem SealCall.Parts.length {call : SealCall} (h : call.Parts stored) :
    call.version.length + call.purpose.length + (4 * call.iv.length + 2) / 3 + (4 * call.ct.length + 2) / 3 + 3 ≤
      stored.length := by
  obtain ⟨ivPart, ctPart, hsplit, hiv, hct⟩ := h
  obtain ⟨-, rest, rfl, hrest⟩ := split_cons hsplit
  obtain ⟨-, rest', rfl, hrest'⟩ := split_cons hrest
  obtain ⟨-, rest'', rfl, hrest''⟩ := split_cons hrest'
  obtain rfl := split_singleton hrest''
  have hivPart := length_of_unb64u hiv
  have hctPart := length_of_unb64u hct
  simp only [List.length_append, List.length_cons]
  omega

/-- A token that is sealed again needs no more room than it had. -/
theorem Custody.Opens.size (h : s.Opens hkdf rt secrets identityId link stored token) (hs : s.Legit hkdf rt)
    (hkeys : Keyring hkdf rt new older) (hsecrets : ∀ secret ∈ secrets, secret ∈ new :: older)
    (hsafe : (Use.refresh identityId link.id).Safe) : refreshSize identityId link token ≤ stored.length := by
  obtain ⟨call, hcall, hparts, hpurpose, -, -, hpayload⟩ := (hs.opens_iff hkeys hsecrets hsafe).mp h
  have hprogram := hs.calls call hcall
  have hlink := hprogram.forLink hsafe hpurpose
  have htext : call.text rt = refreshPayload identityId link token := by
    rw [SealCall.text, hpayload, refreshJson_text hkeys.one]
  have hlength := hparts.length
  have hk1 : (js "k1").length = 2 := rfl
  rw [hprogram.version_eq, hpurpose, hlink.iv, hlink.ct, htext] at hlength
  simp only [refreshSize]
  omega

omit [DecidableEq K] in
theorem refreshPurpose_no_dot {identityId linkId : JsString} (hsafe : (Use.refresh identityId linkId).Safe) :
    dot ∉ REFRESH_PURPOSE identityId linkId := by
  obtain ⟨hidentity, hlink⟩ := hsafe
  have hfront : dot ∉ js "local-identity-refresh/" ∧ dot ∉ js "/" := by decide
  rw [REFRESH_PURPOSE]
  simp only [List.mem_append, not_or]
  exact ⟨⟨⟨hfront.1, safeId_notMem hidentity (by decide)⟩, hfront.2⟩, safeId_notMem hlink (by decide)⟩

omit [DecidableEq K] in
/-- The token of a call is the text that is stored. -/
theorem SealCall.OfProgram.token_eq {call : SealCall} (h : call.OfProgram rt) :
    call.token = sealedText call.purpose call.iv call.ct := by
  have hdot : js "k1." = js "k1" ++ [dot] := by decide
  have hone : js "." = [dot] := by decide
  rw [SealCall.token, h.version_eq, sealedText, hdot, hone]
  simp only [List.append_assoc, List.cons_append, List.nil_append]

/-- What has been sealed under the new secret opens under it alone. -/
theorem Custody.Legit.opens_own (h : s.Legit hkdf rt) (hkeys : Keyring hkdf rt new older)
    (hsafe : (Use.refresh identityId link.id).Safe) {call : SealCall} (hcall : call ∈ s.done)
    (hsecret : call.masterSecret = new) (hpurpose : call.purpose = REFRESH_PURPOSE identityId link.id)
    (hpayload : call.payload = refreshJson identityId link token) :
    s.Opens hkdf rt [new] identityId link (sealedText call.purpose call.iv call.ct) token := by
  have hprogram := h.calls call hcall
  have hversion : dot ∉ call.version := by
    rw [hprogram.version_eq]
    decide
  have hdot : dot ∉ call.purpose := by
    rw [hpurpose]
    exact refreshPurpose_no_dot hsafe
  have hnew : ∀ secret ∈ [new], secret ∈ new :: older := by
    intro secret hmem
    rw [List.mem_singleton.mp hmem]
    exact List.mem_cons_self
  refine (h.opens_iff hkeys hnew hsafe).mpr ⟨call, hcall, ?_, hpurpose, ?_, ?_, hpayload⟩
  · rw [← hprogram.token_eq]
    exact SealCall.token_parts hversion hdot
  · rw [hsecret]
    exact List.mem_singleton_self _
  · rw [hsecret]
    exact hkeys.named

end Sag
