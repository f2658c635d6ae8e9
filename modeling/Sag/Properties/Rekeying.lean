import Sag.Lib.Triple
import Sag.Properties.RefreshTokens

/-!
# Rekeying

`rekeyRecord` reads the refresh tokens of a record, seals those again that an older secret has
sealed, and swaps the record in at the revision it was read at; `rekeyAll` does so for one record
after another. Between two of their calls others may change any document and seal what they
like, and any call of the binding may fail (`custodyEnv`).

Each step of such a run leaves the documents alone, or replaces the stored record by one with
the same tokens under the new secret (`rekeyAll_meets`). The record it has written can be read
back exactly when its second factors fit the limit they are read with and there is a revision
left.
-/

namespace Sag

open Resumable

variable {K : Type} [DecidableEq K] (hkdf : Bytes → Bytes → K) (rt : Runtime) (new : JsString) (older : List JsString)

/-! ## The environment -/

/-- What others have done since: they have changed documents, raising their revisions, and have
sealed more. -/
structure Meanwhile (others : Prop) (s s₁ : Custody K) : Prop where
  legit : s₁.Legit hkdf rt
  done : ∀ call ∈ s.done, call ∈ s₁.done
  docs : ∀ key, s₁.docs key = s.docs key ∨ revisionOf (s.docs key) < revisionOf (s₁.docs key)
  alone : ¬others → s₁ = s

/-- The secrets that are tried: the current one, or all. -/
def heldSecrets (current : Bool) : List JsString := if current then [new] else new :: older

/-- A call is served: the vault seals and opens, and the binding has the documents. -/
def Serves (t : Nat) (s : Custody K) (o : Op) (a : o.Ans) (s' : Custody K) : Prop :=
  match o, a with
  | .openRefresh current purpose stored, a =>
    let opened := s.vault.unseal hkdf rt (heldSecrets new older current) purpose stored t none
    (∀ x, a = .ok x ↔ opened.2 = .ok x) ∧ s' = ⟨s.docs, opened.1, s.done⟩
  | .encrypt purpose plaintext, (iv, ct) =>
    ∃ payload,
      let call : SealCall := ⟨new, purpose, payload, none, iv, ct⟩
      call.Proper rt ∧ utf8 (call.text rt) = plaintext ∧ iv.length = 12 ∧ ct.length = plaintext.length + 16 ∧
        (∀ e ∈ s.vault.encrypted, (call.encryption rt (aesKey hkdf new purpose s.vault.aesCache).1).Agrees e) ∧
        s' = ⟨s.docs, (s.vault.seal hkdf rt call).1, call :: s.done⟩
  | o, a => documentsEnv t s.docs o a s'.docs ∧ s'.vault = s.vault ∧ s'.done = s.done

/-- The binding does what it is asked. -/
def Works (s : Custody K) (o : Op) (a : o.Ans) : Prop :=
  match o, a with
  | .bindingGet _, a => ∃ doc, a = .ok doc
  | .bindingReplace key expected _, a => revisionOf (s.docs key) = expected → a = .ok true
  | _, _ => True

/-- The calls of a rekeying run, where others may act in between and calls may fail. -/
def custodyEnv (others fails : Prop) : Environment effects (Custody K) := fun t s o a s' =>
  ∃ s₁, Meanwhile hkdf rt others s s₁ ∧ Serves hkdf rt new older t s₁ o a s' ∧ (¬fails → Works s₁ o a)

/-! ## What rekeying keeps -/

/-- The refresh token of a link, if there is one. -/
def UpstreamLink.held (link : UpstreamLink) : Option JsString := link.refreshToken.filter (· ≠ [])

/-- The secrets open every token of the links, and each is bound to its link. -/
def Custody.Holds (s : Custody K) (secrets : List JsString) (identityId : JsString) (links : List UpstreamLink) :
    Prop :=
  ∀ link ∈ links, ∀ stored, link.held = some stored → ∃ token, s.Opens hkdf rt secrets identityId link stored token

/-- The new secret alone opens the token of the link to what it was before, and nothing else of the
link has changed. -/
structure SameToken (s : Custody K) (identityId : JsString) (link link' : UpstreamLink) : Prop where
  rest : link' = { link with refreshToken := link'.refreshToken }
  without : link.held = none → link' = link
  opens : ∀ stored, link.held = some stored → ∃ stored' token, link'.held = some stored' ∧
    s.Opens hkdf rt (new :: older) identityId link stored token ∧ s.Opens hkdf rt [new] identityId link stored' token

/-- So it is with every link of the record, and the rest of the record is as it was but for its
revision. -/
structure FullyRekeyed (s : Custody K) (record next : LocalRecord) : Prop where
  rest : next = { record with upstreams := next.upstreams, revision := next.revision }
  links : List.Forall₂ (SameToken hkdf rt new older s record.id) record.upstreams next.upstreams

/-- The record that is written can be read back. -/
structure Roomy (record : LocalRecord) : Prop where
  secrets : SecretsFit record
  revision : record.revision < Json.maxSafeInteger

/-- The stored record is replaced by itself, rekeyed. -/
structure Rewrites (s s' : Custody K) (record : LocalRecord) (upstreams : List UpstreamLink) (o : Op) : Prop where
  op : o = replaceOp record (.rekey upstreams)
  stored : Stored rt s.docs record
  written : s'.docs = s.docs.write record.key (storedRecord ((Change.rekey upstreams).next record))
  rekeyed : FullyRekeyed hkdf rt new older s' record ((Change.rekey upstreams).next record)
  readable : Stored rt s'.docs ((Change.rekey upstreams).next record) ↔ Roomy record

/-- What a step of a rekeying run does, besides what others have done. -/
structure RekeyStep (others spare : Prop) (s : Custody K) (o : Op) (s' : Custody K) : Prop where
  step : ∃ s₁, Meanwhile hkdf rt others s s₁ ∧ (∀ call ∈ s₁.done, call ∈ s'.done) ∧
    (s'.docs = s₁.docs ∨ ∃ record upstreams, Rewrites hkdf rt new older s₁ s' record upstreams o ∧
      (spare → Roomy record))
  legit : s'.Legit hkdf rt

/-- The steps of a rekeying run. -/
def rekeyEnv (others spare : Prop) : Environment effects (Custody K) := fun _ s o _ s' =>
  RekeyStep hkdf rt new older others spare s o s'

/-- The vault of a later state, in which more may have been sealed. -/
structure Custody.Onward (s s' : Custody K) : Prop where
  legit : s'.Legit hkdf rt
  done : ∀ call ∈ s.done, call ∈ s'.done

/-- What is left of the state by calls that do not write. -/
structure Custody.Grows (others : Prop) (s s' : Custody K) : Prop extends Custody.Onward hkdf rt s s' where
  docs : ∀ key, s'.docs key = s.docs key ∨ revisionOf (s.docs key) < revisionOf (s'.docs key)
  alone : ¬others → s'.docs = s.docs

section
variable {hkdf rt new older} {others fails spare calm : Prop} {s s₁ s₂ s' : Custody K}

theorem Custody.Grows.refl (h : s.Legit hkdf rt) : s.Grows hkdf rt others s :=
  ⟨⟨h, fun _ hcall => hcall⟩, fun _ => Or.inl rfl, fun _ => rfl⟩

theorem Custody.Grows.trans (h : s.Grows hkdf rt others s₁) (h' : s₁.Grows hkdf rt others s₂) :
    s.Grows hkdf rt others s₂ where
  legit := h'.legit
  done call hcall := h'.done call (h.done call hcall)
  docs key := by
    rcases h.docs key with hsame | hmore
    · rw [← hsame]
      exact h'.docs key
    · rcases h'.docs key with hsame' | hmore'
      · rw [hsame']
        exact Or.inr hmore
      · exact Or.inr (Nat.lt_trans hmore hmore')
  alone hnot := (h'.alone hnot).trans (h.alone hnot)

theorem Meanwhile.grows (h : Meanwhile hkdf rt others s s₁) : s.Grows hkdf rt others s₁ :=
  ⟨⟨h.legit, h.done⟩, h.docs, fun hnot => congrArg Custody.docs (h.alone hnot)⟩

/-- What opens goes on opening. -/
theorem Custody.Opens.onward {secrets : List JsString} {identityId stored token : JsString} {link : UpstreamLink}
    (h : s.Opens hkdf rt secrets identityId link stored token) (hs : s.Legit hkdf rt)
    (honward : s.Onward hkdf rt s') (hkeys : Keyring hkdf rt new older)
    (hsecrets : ∀ secret ∈ secrets, secret ∈ new :: older) (hsafe : (Use.refresh identityId link.id).Safe) :
    s'.Opens hkdf rt secrets identityId link stored token :=
  h.mono hs honward.legit honward.done hkeys (fun _ hsecret => hsecret) hsecrets hsafe

/-! ## Opening -/

theorem heldSecrets_sub (current : Bool) : ∀ secret ∈ heldSecrets new older current, secret ∈ new :: older := by
  intro secret hsecret
  cases current with
  | true =>
    rw [List.mem_singleton.mp hsecret]
    exact List.mem_cons_self
  | false => exact hsecret

/-- A step that leaves the documents alone. -/
theorem Meanwhile.rekeyStep (h : Meanwhile hkdf rt others s s₁) {o : Op} (hlegit : s'.Legit hkdf rt)
    (hdone : ∀ call ∈ s₁.done, call ∈ s'.done) (hdocs : s'.docs = s₁.docs) :
    s.Grows hkdf rt others s' ∧ RekeyStep hkdf rt new older others spare s o s' :=
  ⟨h.grows.trans ⟨⟨hlegit, hdone⟩, fun _ => Or.inl (by rw [hdocs]), fun _ => hdocs⟩,
    ⟨s₁, h, hdone, Or.inl hdocs⟩, hlegit⟩

/-- A text is opened as `unseal` opens it at that moment, and as it does afterwards. -/
theorem openRefresh_serves (hkeys : Keyring hkdf rt new older) {identityId linkId stored : JsString}
    (hsafe : (Use.refresh identityId linkId).Safe) {current : Bool} {t : Nat} {a : Except JsError Json}
    (henv : custodyEnv hkdf rt new older others fails t s
      (.openRefresh current (REFRESH_PURPOSE identityId linkId) stored) a s') :
    s.Grows hkdf rt others s' ∧
      RekeyStep hkdf rt new older others spare s (.openRefresh current (REFRESH_PURPOSE identityId linkId) stored) s' ∧
      ∀ x, a = .ok x ↔ ∀ now, s'.vault.Returns hkdf rt (heldSecrets new older current)
        (REFRESH_PURPOSE identityId linkId) stored now none x := by
  obtain ⟨s₁, hmeanwhile, ⟨hopened, rfl⟩, -⟩ := henv
  have hlegit : Custody.Legit hkdf rt ⟨s₁.docs, (s₁.vault.unseal hkdf rt (heldSecrets new older current)
      (REFRESH_PURPOSE identityId linkId) stored t none).1, s₁.done⟩ :=
    ⟨.unsealing hmeanwhile.legit.run _ _ _ _ _, hmeanwhile.legit.calls⟩
  obtain ⟨hgrows, hstep⟩ := hmeanwhile.rekeyStep hlegit (fun _ hcall => hcall) rfl
  refine ⟨hgrows, hstep, fun x => (hopened x).trans ?_⟩
  show s₁.vault.Returns hkdf rt (heldSecrets new older current) (REFRESH_PURPOSE identityId linkId) stored t none x ↔ _
  rw [hmeanwhile.legit.returns_iff hkeys (heldSecrets_sub current) hsafe]
  constructor
  · intro hcall now
    exact (hlegit.returns_iff hkeys (heldSecrets_sub current) hsafe).mpr hcall
  · intro hreturns
    exact (hlegit.returns_iff hkeys (heldSecrets_sub current) hsafe).mp (hreturns 0)

/-- What has been returned is still returned. -/
theorem Custody.Grows.returns (h : s.Grows hkdf rt others s') (hs : s.Legit hkdf rt)
    (hkeys : Keyring hkdf rt new older) {secrets : List JsString} (hsecrets : ∀ secret ∈ secrets, secret ∈ new :: older)
    {identityId linkId stored : JsString} (hsafe : (Use.refresh identityId linkId).Safe) {x : Json} {now now' : Nat}
    (hx : s.vault.Returns hkdf rt secrets (REFRESH_PURPOSE identityId linkId) stored now none x) :
    s'.vault.Returns hkdf rt secrets (REFRESH_PURPOSE identityId linkId) stored now' none x := by
  obtain ⟨call, hcall, hrest⟩ := (hs.returns_iff hkeys hsecrets hsafe).mp hx
  exact (h.legit.returns_iff hkeys hsecrets hsafe).mpr ⟨call, h.done call hcall, hrest⟩

/-- A payload, and whether the current secret has opened it. -/
theorem openPayload_meets (hkeys : Keyring hkdf rt new older) {identityId linkId stored : JsString}
    (hsafe : (Use.refresh identityId linkId).Safe) (hs : s.Legit hkdf rt)
    (hready : calm → ∃ x, ∀ now, s.vault.Returns hkdf rt (new :: older) (REFRESH_PURPOSE identityId linkId) stored now
      none x) :
    (openPayload (REFRESH_PURPOSE identityId linkId) stored).Meets (custodyEnv hkdf rt new older others fails)
      (rekeyEnv hkdf rt new older others spare) (fun _ _ => ¬calm)
      (fun s' r => s.Grows hkdf rt others s' ∧
        (∀ now, s'.vault.Returns hkdf rt (heldSecrets new older r.2) (REFRESH_PURPOSE identityId linkId) stored now none
          r.1) ∧
        ((∃ x, ∀ now, s.vault.Returns hkdf rt [new] (REFRESH_PURPOSE identityId linkId) stored now none x) →
          r.2 = true)) s := by
  intro t a s₁ henv
  obtain ⟨hgrows, hstep, hok⟩ := openRefresh_serves hkeys hsafe henv
  refine ⟨hstep, ?_⟩
  cases a with
  | ok payload => exact ⟨hgrows, (hok payload).mp rfl, fun _ => rfl⟩
  | error err =>
    intro t' b s₂ henv'
    obtain ⟨hgrows', hstep', hok'⟩ := openRefresh_serves hkeys hsafe henv'
    refine ⟨hstep', ?_⟩
    cases b with
    | ok payload =>
      refine ⟨hgrows.trans hgrows', (hok' payload).mp rfl, fun hnew => ?_⟩
      obtain ⟨x, hx⟩ := hnew
      cases (hok x).mpr fun now => hgrows.returns hs hkeys (heldSecrets_sub true) hsafe (hx now)
    | error err' =>
      intro hcalm
      obtain ⟨x, hx⟩ := hready hcalm
      cases (hok' x).mpr fun now => (hgrows.trans hgrows').returns hs hkeys (heldSecrets_sub false) hsafe (hx now)

/-- The token behind a link is bound to it, or the run stops. -/
theorem openRefreshToken_meets (hkeys : Keyring hkdf rt new older) {record : LocalRecord} {link : UpstreamLink}
    {stored : JsString} (hsafe : (Use.refresh record.id link.id).Safe) (hs : s.Legit hkdf rt)
    (hready : calm → ∃ token, s.Opens hkdf rt (new :: older) record.id link stored token) :
    (openRefreshToken record link stored).Meets (custodyEnv hkdf rt new older others fails)
      (rekeyEnv hkdf rt new older others spare) (fun _ _ => ¬calm)
      (fun s' r => s.Grows hkdf rt others s' ∧
        s'.Opens hkdf rt (heldSecrets new older r.2) record.id link stored r.1 ∧
        ((∃ token, s.Opens hkdf rt [new] record.id link stored token) → r.2 = true)) s := by
  refine Prog.Meets.bind (openPayload_meets hkeys hsafe hs fun hcalm => ?_) fun s' r hr => ?_
  · exact (hready hcalm).imp' (refreshJson record.id link) fun _ hopens => hopens
  obtain ⟨payload, current⟩ := r
  obtain ⟨hgrows, hreturns, hcurrent⟩ := hr
  show (checkedBinding record link payload current).Meets _ _ _ _ s'
  unfold checkedBinding
  cases hbound : boundTo record link payload with
  | some token =>
    refine ⟨hgrows, hgrows.legit.opens_of_bound hkeys (heldSecrets_sub current) hsafe (hreturns 0) hbound, ?_⟩
    exact fun hnew => hcurrent (hnew.imp' (refreshJson record.id link) fun _ hopens => hopens)
  | none =>
    -- the payload is the one that the text has opened to before
    intro hcalm
    obtain ⟨token, hopens⟩ := hready hcalm
    obtain ⟨call, hcall, hrest⟩ := (hgrows.legit.returns_iff hkeys (heldSecrets_sub current) hsafe).mp (hreturns 0)
    have hall : s'.vault.Returns hkdf rt (heldSecrets new older false) (REFRESH_PURPOSE record.id link.id) stored 0
        none payload := (hgrows.legit.returns_iff hkeys (heldSecrets_sub false) hsafe).mpr
      ⟨call, hcall, hrest.1, hrest.2.1, heldSecrets_sub current _ hrest.2.2.1, hrest.2.2.2⟩
    have hsame : payload = refreshJson record.id link token :=
      Except.ok.inj (hall.symm.trans (hgrows.returns hs hkeys (heldSecrets_sub false) hsafe (hopens 0)))
    rw [hsame, boundTo_refreshJson.mpr rfl] at hbound
    cases hbound

/-! ## Sealing -/

/-- A token that has been opened for the link is sealed again. -/
theorem sealUpstreamRefreshToken_meets (hkeys : Keyring hkdf rt new older) {record : LocalRecord} {link : UpstreamLink}
    {stored token : JsString} (hsafe : (Use.refresh record.id link.id).Safe) (hs : s.Legit hkdf rt)
    (hopens : s.Opens hkdf rt (new :: older) record.id link stored token) :
    (sealUpstreamRefreshToken record.id link token).Meets (custodyEnv hkdf rt new older others fails)
      (rekeyEnv hkdf rt new older others spare) (fun _ _ => ¬calm)
      (fun s' text => s.Grows hkdf rt others s' ∧ s'.Opens hkdf rt [new] record.id link text token ∧
        text.length = refreshSize record.id link token) s := by
  intro t a s' henv
  obtain ⟨iv, ct⟩ := a
  obtain ⟨s₁, hmeanwhile, ⟨payload, hproper, htext, hiv, hct, hfresh, rfl⟩, -⟩ := henv
  -- what is printed is the text of the payload that was opened
  obtain ⟨old, hold, -, -, -, -, hpayload⟩ := (hs.opens_iff hkeys (heldSecrets_sub false) hsafe).mp hopens
  have holdtext : old.text rt = refreshPayload record.id link token := by
    rw [SealCall.text, hpayload, refreshJson_text hkeys.one]
  have hsame : payload = refreshJson record.id link token := by
    rw [← hpayload]
    exact hproper.payload_unique hkeys.numbers (hs.calls old hold).proper (by rw [htext, holdtext])
  subst hsame
  have hcall : SealCall.OfProgram rt ⟨new, REFRESH_PURPOSE record.id link.id, refreshJson record.id link token, none,
      iv, ct⟩ := by
    refine ⟨hproper, rfl, .refresh record.id link.id, hsafe, rfl, fun identityId linkId heq => ?_⟩
    obtain ⟨rfl, rfl⟩ := Use.refresh.inj heq
    exact ⟨⟨link, token, rfl, rfl⟩, hiv, by rw [htext]; exact hct⟩
  have hlegit := Custody.Legit.mk (s := ⟨s₁.docs, _, _⟩) (.sealing hmeanwhile.legit.run _ hfresh) fun c hc => by
    rcases List.mem_cons.mp hc with rfl | hc
    · exact hcall
    · exact hmeanwhile.legit.calls c hc
  obtain ⟨hgrows, hstep⟩ := hmeanwhile.rekeyStep hlegit (fun _ hc => List.mem_cons_of_mem _ hc) rfl
  refine ⟨hstep, hgrows, hlegit.opens_own hkeys hsafe List.mem_cons_self rfl rfl rfl, ?_⟩
  rw [sealedText_length, hiv, hct]
  simp only [refreshSize]
  omega

/-! ## The links of a record -/

section
variable {identityId stored text token : JsString} {link link' : UpstreamLink}

theorem UpstreamLink.held_eq (h : link.held = some stored) : link.refreshToken = some stored :=
  (Option.filter_eq_some_iff.mp h).1

theorem SameToken.keep (h : link.held = none) : SameToken hkdf rt new older s identityId link link :=
  ⟨rfl, fun _ => rfl, fun stored hstored => by rw [h] at hstored; cases hstored⟩

/-- A token that the new secret has sealed stays as it is. -/
theorem SameToken.current (hs : s.Legit hkdf rt) (hkeys : Keyring hkdf rt new older)
    (hsafe : (Use.refresh identityId link.id).Safe) (hheld : link.held = some stored)
    (hopens : s.Opens hkdf rt [new] identityId link stored token) :
    SameToken hkdf rt new older s identityId link link := by
  refine ⟨rfl, fun _ => rfl, fun stored' hstored' => ⟨stored', token, hstored', ?_⟩⟩
  obtain rfl : stored = stored' := Option.some.inj (hheld.symm.trans hstored')
  exact ⟨hopens.mono hs hs (fun _ hcall => hcall) hkeys (heldSecrets_sub true) (heldSecrets_sub false) hsafe, hopens⟩

/-- The others are sealed again. -/
theorem SameToken.change (hheld : link.held = some stored) (htext : text ≠ [])
    (hopens : s.Opens hkdf rt (new :: older) identityId link stored token)
    (hnew : s.Opens hkdf rt [new] identityId link text token) :
    SameToken hkdf rt new older s identityId link { link with refreshToken := some text } := by
  refine ⟨rfl, fun hnone => ?_, fun stored' hstored' => ⟨text, token, ?_, ?_, hnew⟩⟩
  · rw [hnone] at hheld
    cases hheld
  · exact Option.filter_eq_some_iff.mpr ⟨rfl, decide_eq_true htext⟩
  · obtain rfl : stored = stored' := Option.some.inj (hheld.symm.trans hstored')
    exact hopens

theorem SameToken.onward (h : SameToken hkdf rt new older s identityId link link') (hs : s.Legit hkdf rt)
    (honward : s.Onward hkdf rt s') (hkeys : Keyring hkdf rt new older)
    (hsafe : (Use.refresh identityId link.id).Safe) : SameToken hkdf rt new older s' identityId link link' := by
  refine ⟨h.rest, h.without, fun stored hstored => ?_⟩
  obtain ⟨stored', token, hheld, hold, hnew⟩ := h.opens stored hstored
  exact ⟨stored', token, hheld, hold.onward hs honward hkeys (heldSecrets_sub false) hsafe,
    hnew.onward hs honward hkeys (heldSecrets_sub true) hsafe⟩

end

/-- What the loop over the links comes to. -/
structure LinksRekeyed (hkdf : Bytes → Bytes → K) (rt : Runtime) (new : JsString) (older : List JsString)
    (others : Prop) (s : Custody K) (identityId : JsString) (links : List UpstreamLink) (s' : Custody K)
    (r : List UpstreamLink × Bool) : Prop where
  grows : s.Grows hkdf rt others s'
  same : List.Forall₂ (fun link link' => SameToken hkdf rt new older s' identityId link link' ∧
    (link.Fits → link'.Fits)) links r.1
  kept : r.2 = false → r.1 = links
  current : s.Holds hkdf rt [new] identityId links → r.2 = false

theorem rekeyLinks_meets (hkeys : Keyring hkdf rt new older) {record : LocalRecord} {links : List UpstreamLink}
    (hsafe : ∀ link ∈ links, (Use.refresh record.id link.id).Safe) (hs : s.Legit hkdf rt)
    (hready : calm → s.Holds hkdf rt (new :: older) record.id links) :
    (rekeyLinks record links).Meets (custodyEnv hkdf rt new older others fails)
      (rekeyEnv hkdf rt new older others spare) (fun _ _ => ¬calm)
      (LinksRekeyed hkdf rt new older others s record.id links) s := by
  induction links generalizing s with
  | nil => exact ⟨.refl hs, .nil, fun _ => rfl, fun _ => rfl⟩
  | cons link links ih =>
    have hlink := hsafe link List.mem_cons_self
    have hlinks := fun l hl => hsafe l (List.mem_cons_of_mem _ hl)
    -- the rest of the links, from any later state
    have rest : ∀ {s₁ : Custody K}, s.Grows hkdf rt others s₁ → (rekeyLinks record links).Meets
        (custodyEnv hkdf rt new older others fails) (rekeyEnv hkdf rt new older others spare) (fun _ _ => ¬calm)
        (LinksRekeyed hkdf rt new older others s₁ record.id links) s₁ := by
      intro s₁ hgrows
      refine ih hlinks hgrows.legit fun hcalm l hl stored hstored => ?_
      obtain ⟨token, hopens⟩ := hready hcalm l (List.mem_cons_of_mem _ hl) stored hstored
      exact ⟨token, hopens.onward hs hgrows.toOnward hkeys (heldSecrets_sub false) (hlinks l hl)⟩
    have later : ∀ {s₁ : Custody K}, s.Grows hkdf rt others s₁ → s.Holds hkdf rt [new] record.id (link :: links) →
        s₁.Holds hkdf rt [new] record.id links := by
      intro s₁ hgrows hnew l hl stored hstored
      obtain ⟨token, hopens⟩ := hnew l (List.mem_cons_of_mem _ hl) stored hstored
      exact ⟨token, hopens.onward hs hgrows.toOnward hkeys (heldSecrets_sub true) (hlinks l hl)⟩
    unfold rekeyLinks
    split
    · next hnone =>
      refine Prog.Meets.bind (rest (.refl hs)) fun s' r hr => ?_
      refine ⟨hr.grows, .cons ⟨.keep hnone, id⟩ hr.same, fun hkept => ?_, fun hnew => ?_⟩
      · rw [hr.kept hkept]
      · exact hr.current (later (.refl hs) hnew)
    · next stored hstored =>
      refine Prog.Meets.bind (openRefreshToken_meets hkeys hlink hs fun hcalm => ?_) fun s₁ r hr => ?_
      · exact hready hcalm link List.mem_cons_self stored hstored
      obtain ⟨token, current⟩ := r
      obtain ⟨hgrows, hopens, hcurrent⟩ := hr
      cases current with
      | true =>
        refine Prog.Meets.bind (rest hgrows) fun s' r hr => ?_
        have hsame := SameToken.current hgrows.legit hkeys hlink hstored hopens
        refine ⟨hgrows.trans hr.grows,
          .cons ⟨hsame.onward hgrows.legit hr.grows.toOnward hkeys hlink, id⟩ hr.same, ?_, ?_⟩
        · intro hkept
          rw [hr.kept hkept]
        · exact fun hnew => hr.current (later hgrows hnew)
      | false =>
        refine Prog.Meets.bind (sealUpstreamRefreshToken_meets hkeys hlink hgrows.legit hopens) fun s₂ text htext => ?_
        obtain ⟨hgrows', hnew, hlength⟩ := htext
        refine Prog.Meets.bind (rest (hgrows.trans hgrows')) fun s' r hr => ?_
        have hne : text ≠ [] := by
          intro hnil
          rw [hnil, refreshSize] at hlength
          simp only [List.length_nil] at hlength
          omega
        have hsame := SameToken.change hstored hne
          (hopens.onward hgrows.legit hgrows'.toOnward hkeys (heldSecrets_sub false) hlink) hnew
        have hfits : link.Fits → UpstreamLink.Fits { link with refreshToken := some text } := by
          intro hfit text' htext'
          obtain rfl : text = text' := Option.some.inj htext'
          rw [hlength]
          exact Nat.le_trans (hopens.size hgrows.legit hkeys (heldSecrets_sub false) hlink)
            (hfit stored (UpstreamLink.held_eq hstored))
        refine ⟨(hgrows.trans hgrows').trans hr.grows,
          .cons ⟨hsame.onward hgrows'.legit hr.grows.toOnward hkeys hlink, hfits⟩ hr.same,
          (fun hno => by cases hno), fun hnew => ?_⟩
        cases hcurrent (hnew link List.mem_cons_self stored hstored)

/-! ## A record -/

/-- The record is the one that is stored, or the document has moved on since it was read. -/
def Custody.Read (rt : Runtime) (s : Custody K) (record : LocalRecord) : Prop :=
  Stored rt s.docs record ∨ record.revision < revisionOf (s.docs record.key)

omit [DecidableEq K] in
theorem revisionOf_stored {docs : Documents} {record : LocalRecord} (h : Stored rt docs record) :
    revisionOf (docs record.key) = record.revision := by
  obtain ⟨doc, hdoc, hparse⟩ := h
  rw [hdoc, revisionOf_parse hparse]

theorem Custody.Read.grows {record : LocalRecord} (h : s.Read rt record) (hgrows : s.Grows hkdf rt others s') :
    s'.Read rt record := by
  rcases hgrows.docs record.key with hsame | hmore
  · rw [Custody.Read, Stored, hsame]
    exact h
  · refine Or.inr ?_
    rcases h with hstored | hlater
    · rwa [revisionOf_stored hstored] at hmore
    · exact Nat.lt_trans hlater hmore

omit [DecidableEq K] in
/-- At its revision it is still stored. -/
theorem Custody.Read.stored {record : LocalRecord} (h : s.Read rt record)
    (hrev : revisionOf (s.docs record.key) = record.revision) : Stored rt s.docs record := by
  rcases h with hstored | hlater
  · exact hstored
  · omega

omit [DecidableEq K] in
/-- What has been written under the key of the record is what is stored there. -/
theorem stored_write {docs : Documents} {record next : LocalRecord} (hkey : next.key = record.key) :
    Stored rt (docs.write record.key (storedRecord next)) next ↔
      parseLocalIdentityRecord rt (storedRecord next) next.key = some next := by
  rw [Stored, Documents.write, if_pos hkey]
  constructor
  · rintro ⟨doc, hdoc, hparse⟩
    rw [Option.some.inj hdoc]
    exact hparse
  · exact fun hparse => ⟨_, rfl, hparse⟩

omit [DecidableEq K] in
/-- Whatever stands in the second of two related lists is related to something in the first. -/
theorem exists_of_forall₂ {α β : Type} {R : α → β → Prop} {xs : List α} {ys : List β} (h : List.Forall₂ R xs ys) {y : β}
    (hy : y ∈ ys) : ∃ x ∈ xs, R x y := by
  induction h with
  | nil => cases hy
  | cons hxy _ ih =>
    rcases List.mem_cons.mp hy with rfl | hy
    · exact ⟨_, List.mem_cons_self, hxy⟩
    · obtain ⟨x, hx, hR⟩ := ih hy
      exact ⟨x, List.mem_cons_of_mem _ hx, hR⟩

omit [DecidableEq K] in
/-- A rekeyed record can be read back exactly when its second factors fit and there is a revision
left. -/
theorem rekeyed_readable {record : LocalRecord} {upstreams : List UpstreamLink} (hv : record.Valid rt)
    (hfits : ∀ l ∈ record.upstreams, l.Fits)
    (h : List.Forall₂ (fun l l' : UpstreamLink => l' = { l with refreshToken := l'.refreshToken } ∧
      (l.Fits → l'.Fits)) record.upstreams upstreams) :
    parseLocalIdentityRecord rt (storedRecord ((Change.rekey upstreams).next record))
        ((Change.rekey upstreams).next record).key = some ((Change.rekey upstreams).next record) ↔ Roomy record := by
  have hall : ∀ l ∈ upstreams, l.Fits := by
    intro l' hl'
    obtain ⟨l, hl, -, hfit⟩ := exists_of_forall₂ h hl'
    exact hfit (hfits l hl)
  constructor
  · intro hparse
    have hrev : record.revision + 1 ≤ Json.maxSafeInteger := (parse_valid hparse).1.revision.2
    exact ⟨((Change.rekey upstreams).secretsFit_next record).mp (fits_of_parse hparse).totp, hrev⟩
  · intro hroom
    refine (parse_storedRecord_iff (rekeyed_record_valid (h.imp fun _ _ hl => hl.1) hv hroom.revision)).mpr ⟨?_, hall⟩
    exact ((Change.rekey upstreams).secretsFit_next record).mpr hroom.secrets

/-- What rekeying a record comes to. -/
structure RecordRekeyed (hkdf : Bytes → Bytes → K) (rt : Runtime) (new : JsString) (older : List JsString)
    (others : Prop) (s : Custody K) (record : LocalRecord) (s' : Custody K) (r : LocalRecord × Bool) : Prop where
  legit : s'.Legit hkdf rt
  done : ∀ call ∈ s.done, call ∈ s'.done
  unchanged : r.2 = false → r.1 = record ∧ s'.Holds hkdf rt [new] record.id record.upstreams ∧
    (¬others → s'.docs = s.docs)
  changed : r.2 = true → ∃ upstreams, r.1 = (Change.rekey upstreams).next record ∧
    FullyRekeyed hkdf rt new older s' record r.1 ∧ s'.docs record.key = some (storedRecord r.1) ∧
    (Stored rt s'.docs r.1 ↔ Roomy record) ∧ (¬others → s'.docs = s.docs.write record.key (storedRecord r.1))
  current : s.Holds hkdf rt [new] record.id record.upstreams → r.2 = false

/-- The swap of a rekeyed record. -/
theorem rekey_swap {record : LocalRecord} {upstreams : List UpstreamLink} (hs : s.Legit hkdf rt)
    (hv : record.Valid rt) (hfits : ∀ l ∈ record.upstreams, l.Fits) (hread : s.Read rt record)
    (hlinks : List.Forall₂ (fun link link' => SameToken hkdf rt new older s record.id link link' ∧
      (link.Fits → link'.Fits)) record.upstreams upstreams)
    (hswap : Swap s.docs record.key record.revision (storedRecord ((Change.rekey upstreams).next record)) s'.docs)
    (hvault : s'.vault = s.vault) (hdone : s'.done = s.done) :
    s'.Legit hkdf rt ∧ Rewrites hkdf rt new older s s' record upstreams (replaceOp record (.rekey upstreams)) := by
  have hlegit : s'.Legit hkdf rt := ⟨by rw [hvault, hdone]; exact hs.run, by rw [hdone]; exact hs.calls⟩
  refine ⟨hlegit, rfl, hread.stored hswap.revision, hswap.written, ⟨rfl, ?_⟩, ?_⟩
  · refine hlinks.imp fun link link' hl => ⟨hl.1.rest, hl.1.without, fun stored hstored => ?_⟩
    obtain ⟨stored', token, hheld, hold, hnew⟩ := hl.1.opens stored hstored
    refine ⟨stored', token, hheld, fun now => ?_, fun now => ?_⟩
    · rw [hvault]
      exact hold now
    · rw [hvault]
      exact hnew now
  · have hkey : ((Change.rekey upstreams).next record).key = record.key := rfl
    rw [hswap.written, stored_write hkey]
    exact rekeyed_readable hv hfits (hlinks.imp fun _ _ hl => ⟨hl.1.rest, hl.2⟩)

/-- The call that swaps the rekeyed record in: it does or it does not, and when nothing can go wrong it
does. -/
theorem bindingReplace_serves (hkeys : Keyring hkdf rt new older) (hcalm : calm → ¬others ∧ ¬fails)
    {record : LocalRecord} {upstreams : List UpstreamLink} (hv : record.Valid rt)
    (hfits : ∀ l ∈ record.upstreams, l.Fits) (hs : s.Legit hkdf rt) (hread : s.Read rt record)
    (hstored : calm → Stored rt s.docs record) (hspare : spare → Roomy record)
    (hlinks : List.Forall₂ (fun link link' => SameToken hkdf rt new older s record.id link link' ∧
      (link.Fits → link'.Fits)) record.upstreams upstreams) {t : Nat} {a : Except JsError Bool}
    (henv : custodyEnv hkdf rt new older others fails t s (replaceOp record (.rekey upstreams)) a s') :
    RekeyStep hkdf rt new older others spare s (replaceOp record (.rekey upstreams)) s' ∧ (a ≠ .ok true → ¬calm) ∧
      (∀ call ∈ s.done, call ∈ s'.done) ∧
      (a = .ok true → ∃ s₁, Meanwhile hkdf rt others s s₁ ∧
        Rewrites hkdf rt new older s₁ s' record upstreams (replaceOp record (.rekey upstreams))) := by
  obtain ⟨s₁, hmeanwhile, ⟨hdocs, hvault, hdone⟩, hworks⟩ := henv
  have hread := hread.grows hmeanwhile.grows
  have hlinks : List.Forall₂ (fun link link' => SameToken hkdf rt new older s₁ record.id link link' ∧
      (link.Fits → link'.Fits)) record.upstreams upstreams := by
    have hsafe : ∀ l ∈ record.upstreams, (Use.refresh record.id l.id).Safe := fun l hl =>
      ⟨hv.id, (hv.upstreams l hl).id⟩
    refine ((List.forall₂_and_left _ _).mpr ⟨hsafe, hlinks⟩).imp fun link link' hl => ⟨?_, hl.2.2⟩
    exact hl.2.1.onward hs hmeanwhile.grows.toOnward hkeys hl.1
  have swap := fun hswap => rekey_swap hmeanwhile.legit hv hfits hread hlinks hswap hvault hdone
  have hkept : ∀ call ∈ s₁.done, call ∈ s'.done := fun call hcall => by rw [hdone]; exact hcall
  have hall : ∀ call ∈ s.done, call ∈ s'.done := fun call hcall => hkept call (hmeanwhile.done call hcall)
  have still : s'.docs = s₁.docs →
      RekeyStep hkdf rt new older others spare s (replaceOp record (.rekey upstreams)) s' := by
    intro hsame
    have hlegit : s'.Legit hkdf rt :=
      ⟨by rw [hvault, hdone]; exact hmeanwhile.legit.run, by rw [hdone]; exact hmeanwhile.legit.calls⟩
    exact (hmeanwhile.rekeyStep hlegit hkept hsame).2
  have moved : ∀ hswap, RekeyStep hkdf rt new older others spare s (replaceOp record (.rekey upstreams)) s' :=
    fun hswap => ⟨⟨s₁, hmeanwhile, hkept, Or.inr ⟨record, upstreams, (swap hswap).2, hspare⟩⟩, (swap hswap).1⟩
  -- alone and with nothing failing, the swap finds the record
  have hsucceeds : a ≠ .ok true → ¬calm := by
    intro hne hyes
    obtain ⟨halone, hfine⟩ := hcalm hyes
    refine hne (hworks hfine ?_)
    rw [hmeanwhile.alone halone]
    exact revisionOf_stored (hstored hyes)
  cases a with
  | error err =>
    refine ⟨?_, hsucceeds, hall, (fun hno => by cases hno)⟩
    rcases hdocs with hsame | hswap
    · exact still hsame
    · exact moved hswap
  | ok written =>
    cases written with
    | false => exact ⟨still hdocs, hsucceeds, hall, (fun hno => by cases hno)⟩
    | true => exact ⟨moved hdocs, hsucceeds, hall, fun _ => ⟨s₁, hmeanwhile, (swap hdocs).2⟩⟩

theorem rekeyRecord_meets (hkeys : Keyring hkdf rt new older) (hcalm : calm → ¬others ∧ ¬fails)
    {record : LocalRecord} (hv : record.Valid rt) (hfits : ∀ l ∈ record.upstreams, l.Fits) (hs : s.Legit hkdf rt)
    (hread : s.Read rt record)
    (hready : calm → Stored rt s.docs record ∧ s.Holds hkdf rt (new :: older) record.id record.upstreams)
    (hspare : spare → s.Holds hkdf rt [new] record.id record.upstreams ∨ Roomy record) :
    (rekeyRecord record).Meets (custodyEnv hkdf rt new older others fails) (rekeyEnv hkdf rt new older others spare)
      (fun _ _ => ¬calm) (RecordRekeyed hkdf rt new older others s record) s := by
  have hsafe : ∀ l ∈ record.upstreams, (Use.refresh record.id l.id).Safe := fun l hl => ⟨hv.id, (hv.upstreams l hl).id⟩
  refine Prog.Meets.bind (rekeyLinks_meets hkeys hsafe hs fun hyes => (hready hyes).2) fun s₁ r hr => ?_
  obtain ⟨upstreams, changed⟩ := r
  have hlegit := hr.grows.legit
  cases changed with
  | false =>
    refine ⟨hlegit, hr.grows.done, fun _ => ⟨rfl, fun l hl stored hstored => ?_, hr.grows.alone⟩,
      (fun hno => by cases hno), fun _ => rfl⟩
    -- the links are as they were, each with a token of the new secret
    have hsame := hr.same
    rw [hr.kept rfl, List.forall₂_same] at hsame
    obtain ⟨stored', token, hheld, -, hnew⟩ := (hsame l hl).1.opens stored hstored
    obtain rfl : stored = stored' := Option.some.inj (hstored.symm.trans hheld)
    exact ⟨token, hnew⟩
  | true =>
    have hmust : ¬s.Holds hkdf rt [new] record.id record.upstreams := fun hnew => by cases hr.current hnew
    intro t a s₂ henv
    have hserves := bindingReplace_serves hkeys hcalm hv hfits hlegit (hread.grows hr.grows)
      (fun hyes => ?_) (fun hsp => (hspare hsp).resolve_left hmust) hr.same henv
    · obtain ⟨hstep, hfails, hdone, hwritten⟩ := hserves
      refine ⟨hstep, ?_⟩
      cases a with
      | error err => exact hfails (fun hno => by cases hno)
      | ok written =>
        cases written with
        | false => exact hfails (fun hno => by cases hno)
        | true =>
          obtain ⟨s₁', hmeanwhile, hrewrites⟩ := hwritten rfl
          refine ⟨hstep.legit, fun call hcall => hdone call (hr.grows.done call hcall),
            (fun hno => by cases hno), fun _ => ?_,
            fun hnew => absurd hnew hmust⟩
          refine ⟨upstreams, rfl, hrewrites.rekeyed, ?_, hrewrites.readable, fun halone => ?_⟩
          · rw [hrewrites.written, Documents.write, if_pos rfl]
          · rw [hrewrites.written, hmeanwhile.alone halone, hr.grows.alone halone]
    · rw [Stored, hr.grows.alone (hcalm hyes).1]
      exact (hready hyes).1

end

end Sag
