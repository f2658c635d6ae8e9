import Sag.Properties.Documents

/-!
# Is a written record readable?

The parser and the serialiser of a record list their fields and limits separately. They
agree but for two limits that the parser puts on texts which the program has itself
lengthened: a TOTP secret is measured as it was written, before its letters are raised
to upper case, and a refresh token is measured sealed, while its own limit is on what is
sealed. So an update leaves the account readable exactly when neither text has
outgrown its limit (`readable_iff`).
-/

namespace Sag

open Resumable

variable {rt : Runtime} {config : Config}

/-- The updates of a record: a second factor that is used up, a refresh token that is
stored for one of its links, and rekeying. -/
inductive Task (record : LocalRecord) where
  | factor (code : Option JsString) (now : Nat)
  | retain (link : UpstreamLink) (token : JsString) (linked : link ∈ record.upstreams)
  | rekey

variable {record : LocalRecord}

/-- The updated record, where there is one. -/
def Task.run (rt : Runtime) (config : Config) : Task record → M (Option LocalRecord)
  | .factor code now => do
    let result ← verifySecondFactor rt config record code now true
    pure (result.map (·.record))
  | .retain link token _ => storeRefreshToken record link token
  | .rekey => do
    let result ← rekeyRecord record
    pure (if result.2 then some result.1 else none)

/-- An update that is reported as successful, and the document that it has written. -/
structure Succeeds (rt : Runtime) (config : Config) (task : Task record) (es : List (Event effects))
    (next : LocalRecord) : Prop where
  steps : Prog.Steps (task.run rt config) es (.pure (some next))
  written : ∃ t, ⟨t, .bindingReplace record.key record.revision (storedRecord next),
    (.ok true : Except JsError Bool)⟩ ∈ es

/-- AES-GCM, with an `iv` of twelve bytes and a tag of sixteen. -/
def gcm : Rely effects where
  tick _ := True
  reply _ o a :=
    match o, a with
    | .encrypt _ plaintext, (iv, ct) => iv.length = 12 ∧ ct.length = plaintext.length + 16
    | _, _ => True

/-- The length of a sealed refresh token. -/
def refreshSize (identityId : JsString) (link : UpstreamLink) (token : JsString) : Nat :=
  21 + (REFRESH_PURPOSE identityId link.id).length +
    (4 * ((utf8 (refreshPayload identityId link token)).length + 16) + 2) / 3

/-- A payload that an older secret has opened. -/
def Opens (es : List (Event effects)) (payload : Json) : Prop :=
  ∃ t purpose stored, ⟨t, .openRefresh false purpose stored, (.ok payload : Except JsError Json)⟩ ∈ es

/-- The token of a link that an older secret has sealed. -/
def Opened (record : LocalRecord) (es : List (Event effects)) (link : UpstreamLink) (token : JsString) : Prop :=
  ∃ payload, Opens es payload ∧ boundTo record link payload = some token

/-- The refresh tokens that the update has to seal stay within the limit. -/
def Task.Fits (es : List (Event effects)) : Task record → Prop
  | .factor _ _ => True
  | .retain link token _ => refreshSize record.id link token ≤ MAX_REFRESH_TOKEN
  | .rekey => ∀ link token, Opened record es link token → refreshSize record.id link token ≤ MAX_REFRESH_TOKEN

/-! ## Sealed texts -/

theorem sealedText_length (purpose : JsString) (iv ct : Bytes) :
    (sealedText purpose iv ct).length =
      5 + purpose.length + (4 * iv.length + 2) / 3 + (4 * ct.length + 2) / 3 := by
  simp only [sealedText, List.length_append, b64u_length]
  have h3 : (js "k1.").length = 3 := rfl
  have h1 : (js ".").length = 1 := rfl
  omega

/-- A sealed text has the size of its token. -/
theorem SealedFor.length {link : UpstreamLink} {token text : JsString} (h : SealedFor gcm record link token text) :
    text.length = refreshSize record.id link token := by
  obtain ⟨iv, ct, ⟨t, -, hiv, hct⟩, rfl⟩ := h
  rw [sealedText_length, hiv, hct]
  simp only [refreshSize]
  omega

/-- A payload that is bound to two links is sealed alike for both. -/
theorem refreshSize_eq_of_bound {link link' : UpstreamLink} {payload : Json} {token token' : JsString}
    (h : boundTo record link payload = some token) (h' : boundTo record link' payload = some token') :
    refreshSize record.id link token = refreshSize record.id link' token' := by
  simp only [boundTo, Option.bind_eq_bind, Option.bind_eq_some_iff] at h h'
  obtain ⟨m, hm, _, -, _, -, _, hid, _, hupstream, _, hissuer, _, hsubject, v, hv, htoken⟩ := h
  obtain ⟨m', hm', _, -, _, -, _, hid', _, hupstream', _, hissuer', _, hsubject', v', hv', htoken'⟩ := h'
  obtain rfl : m = m' := Option.some.inj (hm.symm.trans hm')
  have same : ∀ {name a b : JsString}, (∃ v, Json.member m name = some v ∧ v.string? = some a) →
      (∃ v, Json.member m name = some v ∧ v.string? = some b) → a = b := by
    intro name a b ha hb
    obtain ⟨v, hv, hstring⟩ := ha
    obtain ⟨v', hv', hstring'⟩ := hb
    obtain rfl : v = v' := Option.some.inj (hv.symm.trans hv')
    exact Option.some.inj (hstring.symm.trans hstring')
  obtain rfl : token = token' := same ⟨v, hv, htoken⟩ ⟨v', hv', htoken'⟩
  simp only [refreshSize, refreshPayload, same (of_guard hid) (of_guard hid'),
    same (of_guard hupstream) (of_guard hupstream'), same (of_guard hissuer) (of_guard hissuer'),
    same (of_guard hsubject) (of_guard hsubject')]

/-! ## What rekeying seals -/

/-- Nothing is asked of the program. -/
def gcmFree : Contract effects := { gcm with issue := fun _ _ _ => True }

theorem opens_append {es fs : List (Event effects)} {payload : Json} :
    Opens (es ++ fs) payload ↔ Opens es payload ∨ Opens fs payload := by
  simp only [Opens, List.mem_append]
  constructor
  · intro h
    obtain ⟨t, purpose, stored, h | h⟩ := h
    · exact Or.inl ⟨t, purpose, stored, h⟩
    · exact Or.inr ⟨t, purpose, stored, h⟩
  · intro h
    rcases h with ⟨t, purpose, stored, h⟩ | ⟨t, purpose, stored, h⟩
    · exact ⟨t, purpose, stored, Or.inl h⟩
    · exact ⟨t, purpose, stored, Or.inr h⟩

/-- Only an `openRefresh` with an older secret opens a payload. -/
theorem not_opens_single {e : Event effects} (he : ∀ purpose stored, e.op ≠ .openRefresh false purpose stored)
    (payload : Json) : ¬Opens [e] payload := by
  intro h
  obtain ⟨t, purpose, stored, hmem⟩ := h
  obtain rfl := List.mem_singleton.mp hmem
  exact he purpose stored rfl

/-- The token that is opened, and whether it took an older secret. -/
structure Tried (record : LocalRecord) (link : UpstreamLink) (r : JsString × Bool) (es : List (Event effects)) :
    Prop where
  bound : ∃ payload, boundTo record link payload = some r.1 ∧ ∀ p, Opens es p ↔ r.2 = false ∧ p = payload

/-- What is left of `openRefreshToken` once the payload is open. -/
def checkedBinding (record : LocalRecord) (link : UpstreamLink) (payload : Json) (current : Bool) :
    M (JsString × Bool) :=
  match boundTo record link payload with
  | none => fail (.sealError (js "refresh token is bound to a different identity or upstream link"))
  | some token => pure (token, current)

theorem openRefreshToken_tried (link : UpstreamLink) (stored : JsString) (s : Moment effects) :
    (openRefreshToken record link stored).Sat gcmFree (fun _ _ => True)
      (fun s' r => ∃ es, s'.past = s.past ++ es ∧ Tried record link r es) s := by
  have last : ∀ (payload : Json) (current : Bool) (es : List (Event effects)) (s' : Moment effects),
      s'.past = s.past ++ es → (∀ p, Opens es p ↔ current = false ∧ p = payload) →
        (checkedBinding record link payload current).Sat gcmFree (fun _ _ => True)
          (fun s' r => ∃ es, s'.past = s.past ++ es ∧ Tried record link r es) s' := by
    intro payload current es s' hpast hes
    unfold checkedBinding
    cases hbound : boundTo record link payload with
    | none => exact trivial
    | some token => exact ⟨es, hpast, payload, hbound, hes⟩
  refine fun t₁ _ => ⟨trivial, fun a _ => ?_⟩
  have first : ∀ p, ¬Opens [⟨t₁, .openRefresh true (REFRESH_PURPOSE record.id link.id) stored, a⟩] p :=
    not_opens_single fun purpose stored' heq => by cases heq
  cases a with
  | ok payload => exact last payload true _ _ rfl fun p => by simp [first p]
  | error err =>
    refine fun t₂ _ => ⟨trivial, fun b _ => ?_⟩
    cases b with
    | error err' => exact trivial
    | ok payload =>
      refine last payload false _ _ (List.append_assoc _ _ _) fun p => ?_
      constructor
      · intro hopens
        rcases opens_append.mp hopens with hopens | ⟨t, purpose, stored', hmem⟩
        · exact absurd hopens (first p)
        · cases List.mem_singleton.mp hmem
          exact ⟨rfl, rfl⟩
      · intro heq
        obtain ⟨-, rfl⟩ := heq
        exact opens_append.mpr (Or.inr ⟨t₂, _, stored, List.mem_singleton_self _⟩)

/-- Exactly the tokens that took an older secret have been sealed again. -/
structure Resealed (record : LocalRecord) (links links' : List UpstreamLink) (es : List (Event effects)) : Prop where
  of_opened : ∀ link token, Opened record es link token →
    ∃ l ∈ links', ∃ text, l.refreshToken = some text ∧ text.length = refreshSize record.id link token
  to_opened : ∀ l ∈ links', l ∈ links ∨ ∃ link token text, Opened record es link token ∧
    l.refreshToken = some text ∧ text.length = refreshSize record.id link token

/-- A link that stays as it is, where nothing was opened. -/
theorem Resealed.keep {links links' : List UpstreamLink} {es fs : List (Event effects)}
    (h : Resealed record links links' fs) (link : UpstreamLink) (hes : ∀ p, ¬Opens es p) :
    Resealed record (link :: links) (link :: links') (es ++ fs) := by
  have later : ∀ l token, Opened record (es ++ fs) l token ↔ Opened record fs l token := by
    intro l token
    constructor
    · intro hopened
      obtain ⟨payload, hopens, hbound⟩ := hopened
      exact ⟨payload, (opens_append.mp hopens).resolve_left (hes payload), hbound⟩
    · intro hopened
      obtain ⟨payload, hopens, hbound⟩ := hopened
      exact ⟨payload, opens_append.mpr (Or.inr hopens), hbound⟩
  refine ⟨fun l token hopened => ?_, fun l hl => ?_⟩
  · obtain ⟨l', hl', htext⟩ := h.of_opened l token ((later l token).mp hopened)
    exact ⟨l', List.mem_cons_of_mem _ hl', htext⟩
  · rcases List.mem_cons.mp hl with rfl | hl
    · exact Or.inl List.mem_cons_self
    · rcases h.to_opened l hl with hl | ⟨link', token, text, hopened, htext⟩
      · exact Or.inl (List.mem_cons_of_mem _ hl)
      · exact Or.inr ⟨link', token, text, (later link' token).mpr hopened, htext⟩

/-- A link whose token is opened and sealed again. -/
theorem Resealed.change {links links' : List UpstreamLink} {es fs : List (Event effects)}
    (h : Resealed record links links' fs) {link : UpstreamLink} {token text : JsString}
    (hes : Tried record link (token, false) es) (htext : text.length = refreshSize record.id link token) :
    Resealed record (link :: links) ({ link with refreshToken := some text } :: links') (es ++ fs) := by
  obtain ⟨payload, hbound, hopens⟩ := hes
  refine ⟨fun l token' hopened => ?_, fun l hl => ?_⟩
  · obtain ⟨p, hp, hbound'⟩ := hopened
    rcases opens_append.mp hp with hp | hp
    · obtain ⟨-, rfl⟩ := (hopens p).mp hp
      exact ⟨_, List.mem_cons_self, text, rfl, htext.trans (refreshSize_eq_of_bound hbound hbound')⟩
    · obtain ⟨l', hl', hkept⟩ := h.of_opened l token' ⟨p, hp, hbound'⟩
      exact ⟨l', List.mem_cons_of_mem _ hl', hkept⟩
  · rcases List.mem_cons.mp hl with rfl | hl
    · have here : Opens es payload := (hopens payload).mpr ⟨rfl, rfl⟩
      exact Or.inr ⟨link, token, text, ⟨payload, opens_append.mpr (Or.inl here), hbound⟩, rfl, htext⟩
    · rcases h.to_opened l hl with hl | ⟨link', token', text', ⟨p, hp, hbound'⟩, hkept⟩
      · exact Or.inl (List.mem_cons_of_mem _ hl)
      · exact Or.inr ⟨link', token', text', ⟨p, opens_append.mpr (Or.inr hp), hbound'⟩, hkept⟩

theorem rekeyLinks_resealed : ∀ (links : List UpstreamLink) (s : Moment effects),
    (rekeyLinks record links).Sat gcmFree (fun _ _ => True)
      (fun s' r => ∃ es, s'.past = s.past ++ es ∧ Resealed record links r.1 es) s := by
  intro links
  induction links with
  | nil =>
    intro s
    refine ⟨[], (List.append_nil _).symm, fun link token hopened => ?_, nofun⟩
    obtain ⟨payload, ⟨t, purpose, stored, hmem⟩, -⟩ := hopened
    cases hmem
  | cons link links ih =>
    intro s
    unfold rekeyLinks
    split
    · refine Prog.sat_bind.mpr ((ih s).mono (fun _ _ _ => trivial) fun s' r hr => ?_)
      obtain ⟨es, hpast, hresealed⟩ := hr
      have hkept : Resealed record (link :: links) (link :: r.1) ([] ++ es) := hresealed.keep link fun p hp => by
        obtain ⟨t, _, _, hmem⟩ := hp
        cases hmem
      exact ⟨es, hpast, hkept⟩
    · next stored hstored =>
      refine Prog.sat_bind.mpr ((openRefreshToken_tried link stored s).mono (fun _ _ _ => trivial) fun s₁ r hr => ?_)
      obtain ⟨token, current⟩ := r
      obtain ⟨es₁, hpast₁, htried⟩ := hr
      cases current with
      | true =>
        refine Prog.sat_bind.mpr ((ih s₁).mono (fun _ _ _ => trivial) fun s₂ r hr => ?_)
        obtain ⟨es₂, hpast₂, hresealed⟩ := hr
        refine ⟨es₁ ++ es₂, by rw [hpast₂, hpast₁, List.append_assoc], hresealed.keep link fun p hp => ?_⟩
        obtain ⟨payload, -, hopens⟩ := htried.bound
        cases ((hopens p).mp hp).1
      | false =>
        refine fun t₁ _ => ⟨trivial, fun sealedBytes hsealed => ?_⟩
        show (rekeyLinks record links >>= _).Sat gcmFree _ _ _
        refine Prog.sat_bind.mpr ((ih _).mono (fun _ _ _ => trivial) fun s₂ r hr => ?_)
        obtain ⟨es₂, hpast₂, hresealed⟩ := hr
        have hsize : (sealedText (REFRESH_PURPOSE record.id link.id) sealedBytes.1 sealedBytes.2).length = _ :=
          SealedFor.length ⟨sealedBytes.1, sealedBytes.2, ⟨t₁, trivial, hsealed⟩, rfl⟩
        have hes : Tried record link (token, false) (es₁ ++ [⟨t₁, .encrypt _ _, sealedBytes⟩]) := by
          obtain ⟨payload, hbound, hopens⟩ := htried.bound
          refine ⟨payload, hbound, fun p => opens_append.trans ?_⟩
          have hnone := not_opens_single (e := ⟨t₁, .encrypt (REFRESH_PURPOSE record.id link.id)
            (utf8 (refreshPayload record.id link token)), sealedBytes⟩) (fun _ _ heq => by cases heq) p
          exact ⟨fun h => (hopens p).mp (h.resolve_right hnone), fun h => Or.inl ((hopens p).mpr h)⟩
        refine ⟨_, ?_, hresealed.change hes hsize⟩
        rw [hpast₂, hpast₁]
        simp only [List.append_assoc]

theorem Resealed.fits_iff {links links' : List UpstreamLink} {es : List (Event effects)}
    (h : Resealed record links links' es) (hfits : ∀ l ∈ links, l.Fits) :
    (∀ l ∈ links', l.Fits) ↔
      ∀ link token, Opened record es link token → refreshSize record.id link token ≤ MAX_REFRESH_TOKEN := by
  constructor
  · intro hall link token hopened
    obtain ⟨l, hl, text, htext, hsize⟩ := h.of_opened link token hopened
    rw [← hsize]
    exact hall l hl text htext
  · intro hall l hl
    rcases h.to_opened l hl with hl | ⟨link, token, text, hopened, htext, hsize⟩
    · exact hfits l hl
    · intro text' htext'
      obtain rfl : text = text' := Option.some.inj (htext.symm.trans htext')
      rw [hsize]
      exact hall link token hopened

/-! ## What an update leads to -/

/-- The result of an update, against what it had to seal. -/
structure Leads (task : Task record) (es : List (Event effects)) (next : LocalRecord) : Prop where
  change : ∃ change, Update gcm record change ∧ next = change.next record
  fits : (∀ l ∈ record.upstreams, l.Fits) → ((∀ l ∈ next.upstreams, l.Fits) ↔ task.Fits es)

theorem routine_gcmFree : Routine gcmFree := fun _ _ _ _ => trivial

theorem Succeeds.leads_factor {code : Option JsString} {now : Nat} {es : List (Event effects)} {next : LocalRecord}
    (h : Succeeds rt config (.factor code now : Task record) es next) (hgcm : ∀ e ∈ es, gcm.Keeps e) :
    Leads (.factor code now : Task record) es next := by
  have hensures : Ensures gcmFree (Task.run rt config (.factor code now : Task record)) fun r =>
      ∀ next, r = some next → Consumed gcm record next := by
    refine andThen_ensures (verifySecondFactor_ensures routine_gcmFree code now fun _ _ _ _ _ _ => trivial)
      fun result hresult => pure_ensures fun next hnext => ?_
    obtain ⟨r, hr, rfl⟩ := Option.map_eq_some_iff.mp hnext
    exact hresult rfl r hr
  obtain ⟨change, hupdate, hfactor, rfl, -⟩ := result_of_ensures hensures h.steps hgcm (t := 0) trivial next rfl
  refine ⟨⟨change, hupdate, rfl⟩, fun hfits => ?_⟩
  have hsame : (change.next record).upstreams = record.upstreams := by
    cases change with
    | totpStep id step => rfl
    | removeBackup id => rfl
    | _ => cases hfactor
  rw [hsame]
  exact ⟨fun _ => trivial, fun _ => hfits⟩

theorem exists_mem_updateFirst {α : Type} {p : α → Bool} (f : α → α) {xs : List α} {x : α} (hx : x ∈ xs) (hp : p x) :
    ∃ y ∈ xs, p y ∧ f y ∈ updateFirst p f xs := by
  induction xs with
  | nil => cases hx
  | cons y ys ih =>
    unfold updateFirst
    by_cases hy : p y
    · rw [if_pos hy]
      exact ⟨y, List.mem_cons_self, hy, List.mem_cons_self⟩
    · rw [if_neg hy]
      rcases List.mem_cons.mp hx with rfl | hx
      · exact absurd hp hy
      · obtain ⟨z, hz, hpz, hmem⟩ := ih hx
        exact ⟨z, List.mem_cons_of_mem _ hz, hpz, List.mem_cons_of_mem _ hmem⟩

theorem Succeeds.leads_retain {link : UpstreamLink} {token : JsString} {linked : link ∈ record.upstreams}
    {es : List (Event effects)} {next : LocalRecord} (h : Succeeds rt config (.retain link token linked) es next)
    (hgcm : ∀ e ∈ es, gcm.Keeps e) : Leads (.retain link token linked) es next := by
  have hensures := storeRefreshToken_ensures routine_gcmFree linked token fun _ _ _ _ _ => trivial
  rcases result_of_ensures hensures h.steps hgcm (t := 0) trivial next rfl with
    ⟨rfl, rfl⟩ | ⟨text, hupdate, hsealed, rfl, -⟩
  · -- nothing is written without a token
    obtain ⟨t, hmem⟩ := h.written
    have hsteps := h.steps
    rw [Task.run, storeRefreshToken, if_pos rfl] at hsteps
    cases hsteps with
    | nil => cases hmem
    | cons hp _ => cases hp
  · refine ⟨⟨_, hupdate, rfl⟩, fun hfits => ?_⟩
    have hsize := hsealed.length
    constructor
    · intro hall
      obtain ⟨l, -, -, hmem⟩ := exists_mem_updateFirst (p := fun l => l.id = link.id)
        (fun l => { l with refreshToken := some text }) linked (by simp)
      rw [Task.Fits, ← hsize]
      exact hall _ hmem text rfl
    · intro hfit l hl
      rcases mem_updateFirst hl with hl | ⟨l', -, -, rfl⟩
      · exact hfits l hl
      · intro text' htext'
        obtain rfl : text = text' := Option.some.inj htext'
        rw [hsize]
        exact hfit

theorem rekeyRecord_resealed (s : Moment effects) :
    (rekeyRecord record).Sat gcmFree (fun _ _ => True) (fun s' r => r.2 = true → ∃ upstreams es,
      s'.past = s.past ++ es ∧ r.1 = (Change.rekey upstreams).next record ∧
        Resealed record record.upstreams upstreams es) s := by
  refine Prog.sat_bind.mpr ((rekeyLinks_resealed record.upstreams s).mono (fun _ _ _ => trivial) fun s₁ r hr => ?_)
  obtain ⟨upstreams, changed⟩ := r
  obtain ⟨es, hpast, hresealed⟩ := hr
  cases changed with
  | false => exact nofun
  | true =>
    refine fun t _ => ⟨trivial, fun answer _ => ?_⟩
    cases answer with
    | error err => exact trivial
    | ok written =>
      cases written with
      | false => exact trivial
      | true =>
        refine fun _ => ⟨upstreams, es ++ [⟨t, replaceOp record (.rekey upstreams), .ok true⟩], ?_, rfl, ?_⟩
        · rw [← List.append_assoc, ← hpast]
          rfl
        · -- the swap opens nothing
          have hsame : ∀ p, Opens (es ++ [⟨t, replaceOp record (.rekey upstreams), .ok true⟩]) p ↔ Opens es p := by
            intro p
            rw [opens_append]
            exact or_iff_left (not_opens_single (fun _ _ heq => by cases heq) p)
          refine ⟨fun link token hopened => ?_, fun l hl => ?_⟩
          · obtain ⟨p, hp, hbound⟩ := hopened
            exact hresealed.of_opened link token ⟨p, (hsame p).mp hp, hbound⟩
          · refine (hresealed.to_opened l hl).imp_right fun hchanged => ?_
            obtain ⟨link, token, text, ⟨p, hp, hbound⟩, htext⟩ := hchanged
            exact ⟨link, token, text, ⟨p, (hsame p).mpr hp, hbound⟩, htext⟩

theorem Succeeds.leads_rekey {es : List (Event effects)} {next : LocalRecord}
    (h : Succeeds rt config (.rekey : Task record) es next) (hgcm : ∀ e ∈ es, gcm.Keeps e) :
    Leads (.rekey : Task record) es next := by
  -- first the change alone, then what it has sealed
  have hensures : Ensures gcmFree (Task.run rt config (.rekey : Task record)) fun r => ∀ next, r = some next →
      ∃ change, Update gcm record change ∧ next = change.next record := by
    refine andThen_ensures (rekeyRecord_ensures routine_gcmFree fun _ _ _ _ _ => trivial) fun result hresult => ?_
    refine pure_ensures fun next hnext => ?_
    split at hnext
    · next hchanged =>
      obtain ⟨upstreams, hlinks, heq, -⟩ := hresult hchanged
      exact ⟨_, .rekey hlinks, (Option.some.inj hnext).symm.trans heq⟩
    · cases hnext
  have hsat : (Task.run rt config (.rekey : Task record)).Sat gcmFree (gcmFree.Ends fun _ _ _ => True)
      (gcmFree.Ends fun _ past r => ∀ next, r = some next →
        ∃ upstreams, next = (Change.rekey upstreams).next record ∧ Resealed record record.upstreams upstreams past)
      ⟨none, []⟩ := by
    refine Prog.sat_bind.mpr ((rekeyRecord_resealed ⟨none, []⟩).mono (fun _ _ _ _ _ => trivial) fun s' r hr => ?_)
    intro _ _ next hnext
    split at hnext
    · next hchanged =>
      obtain ⟨upstreams, es', hpast, heq, hresealed⟩ := hr hchanged
      refine ⟨upstreams, (Option.some.inj hnext).symm.trans heq, ?_⟩
      rw [hpast]
      exact hresealed
    · cases hnext
  refine ⟨result_of_ensures hensures h.steps hgcm (t := 0) trivial next rfl, fun hfits => ?_⟩
  obtain ⟨upstreams, rfl, hresealed⟩ := (Prog.Sat.steps h.steps hsat hgcm).1 0 ⟨trivial, nofun⟩ next rfl
  exact hresealed.fits_iff hfits

theorem Succeeds.leads {task : Task record} {es : List (Event effects)} {next : LocalRecord}
    (h : Succeeds rt config task es next) (hgcm : ∀ e ∈ es, gcm.Keeps e) : Leads task es next := by
  cases task with
  | factor code now => exact h.leads_factor hgcm
  | retain link token linked => exact h.leads_retain hgcm
  | rekey => exact h.leads_rekey hgcm

/-- No change touches the secrets of the second factors. -/
theorem Change.next_secrets (change : Change) (record : LocalRecord) :
    (change.next record).totp.map (·.secret) = record.totp.map (·.secret) := by
  cases change with
  | totpStep id step =>
    show (updateFirst _ (fun t => { t with lastUsedStep := some step }) record.totp).map (·.secret) = _
    refine map_updateFirst (fun t => ?_) record.totp
    rfl
  | _ => rfl

/-- The secrets of the record, as they are kept, fit the limit on secrets as they are
written. -/
def SecretsFit (record : LocalRecord) : Prop := ∀ t ∈ record.totp, t.secret.length ≤ 256

theorem Change.secretsFit_next (change : Change) (record : LocalRecord) :
    SecretsFit (change.next record) ↔ SecretsFit record := by
  have through : ∀ r : LocalRecord, SecretsFit r ↔ ∀ secret ∈ r.totp.map (·.secret), secret.length ≤ 256 := by
    intro r
    rw [List.forall_mem_map]
    rfl
  rw [through, through, change.next_secrets]

/-- The document that a successful update has written is read back as the record the
update has returned exactly when the secrets of the record and the refresh tokens that
have been sealed are within the limits of the parser. -/
theorem readable_iff {doc : Json} {key : JsString} (hparse : parseLocalIdentityRecord rt doc key = some record)
    (hrev : record.revision < Json.maxSafeInteger) {task : Task record} {es : List (Event effects)}
    {next : LocalRecord} (h : Succeeds rt config task es next) (hgcm : ∀ e ∈ es, gcm.Keeps e) :
    parseLocalIdentityRecord rt (storedRecord next) key = some next ↔ SecretsFit record ∧ task.Fits es := by
  obtain ⟨hv, hlinks, rfl⟩ := parse_valid hparse
  obtain ⟨⟨change, hupdate, rfl⟩, hfits⟩ := h.leads hgcm
  rw [← (change.next_sameAccount record).key, parse_storedRecord_iff (hupdate.next_valid hv hrev),
    ← change.secretsFit_next record, ← hfits hlinks]
  exact ⟨fun hfit => ⟨hfit.totp, hfit.upstreams⟩, fun hfit => ⟨hfit.1, hfit.2⟩⟩

/-! ## A token that outgrows its limit -/

/-- Encoding does not shorten. -/
theorem length_le_utf8 (s : JsString) : s.length ≤ (utf8 s).length := by
  have point : ∀ p, 1 ≤ (utf8Point p).length ∧ (0x10000 ≤ p → 2 ≤ (utf8Point p).length) := by
    intro p
    unfold utf8Point
    dsimp only
    split <;> split <;> (try split) <;> (try split) <;> simp <;> omega
  induction s using codePoints.induct with
  | case1 => exact Nat.zero_le _
  | case2 u =>
    have hone := (point u.toNat).1
    simpa [utf8, codePoints] using hone
  | case3 u v s hpair ih =>
    have htwo := (point (0x10000 + (u.toNat - 0xD800) * 0x400 + (v.toNat - 0xDC00))).2 (by omega)
    simp only [utf8, codePoints, if_pos hpair, List.flatMap_cons, List.length_append, List.length_cons] at ih ⊢
    omega
  | case4 u v s hpair ih =>
    have hone := (point u.toNat).1
    simp only [utf8, codePoints, if_neg hpair, List.flatMap_cons, List.length_append, List.length_cons] at ih ⊢
    omega

/-- A control character takes six characters of JSON. -/
theorem quoteUnits_control : ∀ n, (quoteUnits (List.replicate n 1)).length = 6 * n := by
  intro n
  induction n with
  | zero => rfl
  | succ n ih =>
    cases n with
    | zero => rfl
    | succ n =>
      rw [List.replicate_succ] at ih
      rw [List.replicate_succ, List.replicate_succ, quoteUnits, if_neg (by decide), List.length_append, ih]
      have hescape : (if isHighSurrogate 1 || isLowSurrogate 1 then escapeUnit 1 else quoteUnit 1).length = 6 := rfl
      omega

/-- So do the payload and the sealed text of a token of control characters grow. -/
theorem controls_grow (id : JsString) (link : UpstreamLink) (n : Nat) :
    8 * n ≤ refreshSize id link (List.replicate n 1) := by
  have hquote := quoteUnits_control n
  have hutf := length_le_utf8 (refreshPayload id link (List.replicate n 1))
  have hpayload : 6 * n ≤ (refreshPayload id link (List.replicate n 1)).length := by
    simp only [refreshPayload, stringifyFlat, List.map_cons, List.map_nil, List.intersperse_cons_cons,
      List.intersperse_singleton, List.flatten_cons, List.length_append, Scalar.text, quoteJsonString,
      List.length_cons]
    omega
  simp only [refreshSize]
  omega

/-- The longest token that may be stored, of control characters. -/
def longToken : JsString := List.replicate 16384 1

theorem long_token_outgrows (id : JsString) (link : UpstreamLink) :
    MAX_REFRESH_TOKEN < refreshSize id link longToken :=
  Nat.lt_of_lt_of_le (by decide) (controls_grow id link 16384)

namespace Sample

/-- An account of another provider. -/
def carolLink : UpstreamLink := ⟨js "work", js "idp", js "https://idp.example", js "carol", none⟩

/-- Bob's record, with one link to it. -/
def carol : LocalRecord := { bob with upstreams := [carolLink] }

theorem carol_parses : parseLocalIdentityRecord runtime (storedRecord carol) carol.key = some carol := by
  decide +kernel

theorem carol_linked : carolLink ∈ carol.upstreams := List.mem_singleton_self _

/-- A sealed token of zeroes. -/
def carolSealed (token : JsString) : Bytes × Bytes :=
  (List.replicate 12 0, List.replicate ((utf8 (refreshPayload carol.id carolLink token)).length + 16) 0)

/-- Storing a token for the link: it is sealed, and the document is swapped in. -/
theorem carol_retains {token : JsString} (hne : token ≠ []) (hsize : token.length ≤ 16384) :
    ∃ es next, Succeeds runtime Sample.config (.retain carolLink token carol_linked) es next ∧
      (∀ e ∈ es, gcm.Keeps e) ∧ next.key = carol.key := by
  let text := sealedText (REFRESH_PURPOSE carol.id carolLink.id) (carolSealed token).1 (carolSealed token).2
  let es : List (Event effects) :=
    [⟨0, .encrypt (REFRESH_PURPOSE carol.id carolLink.id) (utf8 (refreshPayload carol.id carolLink token)),
        carolSealed token⟩,
      ⟨0, replaceOp carol (.refreshToken carolLink.id text), (.ok true : Except JsError Bool)⟩]
  refine ⟨es, (Change.refreshToken carolLink.id text).next carol, ⟨?_, ?_⟩, fun e he => ?_, rfl⟩
  · rw [Task.run, storeRefreshToken, if_neg hne, if_neg (by omega)]
    exact .cons rfl (.cons rfl (.nil _))
  · exact ⟨0, List.mem_cons_of_mem _ List.mem_cons_self⟩
  · rcases List.mem_cons.mp he with rfl | he
    · exact ⟨trivial, List.length_replicate, List.length_replicate⟩
    · obtain rfl := List.mem_singleton.mp he
      exact ⟨trivial, trivial⟩

/-- A short token leaves the account readable. -/
theorem carol_readable : ∃ es next,
    Succeeds runtime Sample.config (.retain carolLink (js "token") carol_linked) es next ∧
      parseLocalIdentityRecord runtime (storedRecord next) carol.key = some next := by
  have hshort : (js "token").length ≤ 16384 := by decide
  obtain ⟨es, next, hsucceeds, hgcm, -⟩ := carol_retains (by decide) hshort
  refine ⟨es, next, hsucceeds, (readable_iff carol_parses (by decide) hsucceeds hgcm).mpr ⟨nofun, ?_⟩⟩
  show refreshSize carol.id carolLink (js "token") ≤ MAX_REFRESH_TOKEN
  decide +kernel

/-- A long token of control characters is stored, and nobody can read the account any
more. -/
theorem carol_locked_out : longToken.length ≤ 16384 ∧ carol.revision < Json.maxSafeInteger ∧
    parseLocalIdentityRecord runtime (storedRecord carol) carol.key = some carol ∧
    ∃ es next, Succeeds runtime Sample.config (.retain carolLink longToken carol_linked) es next ∧
      (∀ e ∈ es, gcm.Keeps e) ∧ parseLocalIdentityRecord runtime (storedRecord next) carol.key = none := by
  have hlength : longToken.length = 16384 := List.length_replicate
  have hne : longToken ≠ [] := by
    intro hnil
    rw [hnil] at hlength
    cases hlength
  obtain ⟨es, next, hsucceeds, hgcm, -⟩ := carol_retains hne (Nat.le_of_eq hlength)
  refine ⟨Nat.le_of_eq hlength, by decide, carol_parses, es, next, hsucceeds, hgcm, ?_⟩
  cases hread : parseLocalIdentityRecord runtime (storedRecord next) carol.key with
  | none => rfl
  | some r =>
    have hfits := (hsucceeds.leads hgcm).fits fun l hl text htext => by
      obtain rfl := List.mem_singleton.mp hl
      cases htext
    have hlong : refreshSize carol.id carolLink longToken ≤ MAX_REFRESH_TOKEN :=
      hfits.mp (fits_of_parse hread).upstreams
    have hgrown := long_token_outgrows carol.id carolLink
    omega

end Sample

end Sag
