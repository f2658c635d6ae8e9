import Sag.Endpoints.Handlers
import Sag.Properties.Cookies

/-!
# What a refused password shows

Nothing. Two attempts at a local password on one transaction, neither of which advances, end in the same
page (`refusals_alike`), whatever the stores answered and whatever was submitted, and each runs one
Argon2 verification to its end.

It is enough to see what a single attempt does. What it advances on is read off its events
(`Advances`): an enabled record, a count within the limit, a verification that succeeded, a request
that a local sign-in can satisfy. The handler is then taken through from one `await` to the next, with
what has been verified so far, and wherever one of these is missing it is on its way to one page,
which is made of the transaction alone (`refusal`).
-/

namespace Sag

open Resumable

variable {rt : Runtime} {config : Config} {request : Request}

/-! ## What is observed -/

/-- An Argon2 verification that ran to its end. -/
def completed : Event effects → Bool
  | ⟨_, .verifyArgon2id _ _, .ok _⟩ => true
  | _ => false

def verifications (es : List (Event effects)) : Nat := es.countP completed

/-- Nothing is answered but what the events say. -/
def told (es : List (Event effects)) : Contract effects where
  tick := fun _ => True
  reply := fun t o a => (⟨t, o, a⟩ : Event effects) ∈ es
  issue := fun _ _ _ => True

/-- A finished run on a transaction and a password, in which the store of the identities has been
asked. -/
structure PasswordAttempt (rt : Runtime) (config : Config) (request : Request) (tx : Transaction)
    (password : Option JsString) (es : List (Event effects)) (result : Except JsError Response) : Prop where
  submits : ∃ form token value, request.form = .ok form ∧ single form (js "tx") = .ok (some token) ∧
    token.opens = some (.tx tx) ∧ single form (js "password") = .ok value ∧ textOf value = password
  ran : ∃ rest now, Prog.Steps (handleLocalPassword rt config request) es rest ∧
    rest.atTime now = Prog.ofExcept (F := effects) result
  asked : ∃ key answer, (told es).Saw (.bindingGet key) answer
  /-- Argon2 throws on a malformed hash, and the dummy is well formed. -/
  sound : ∀ submitted err, ¬ (told es).Saw (.verifyArgon2id DUMMY_PASSWORD_HASH submitted) (.error err)

/-- All that an attempt needs to advance. -/
structure Advances (rt : Runtime) (config : Config) (tx : Transaction) (password : Option JsString)
    (es : List (Event effects)) : Prop where
  within : (utf8 (password.getD [])).length ≤ config.localIdentities.maxPasswordBytes
  allowed : AllowedAttempt (told es) rt config (tx.email.getD []) .password
  verified : ∃ hash, (told es).Saw (.verifyArgon2id hash (password.getD [])) (.ok true)
  record : ∃ record, ReadRecord rt (told es) record ∧ record.disabled = false ∧
    satisfies (acrForLocal (if requiresSecondFactor record then some .totp else none)).acr tx.acrValues = true

/-- The page of every refusal. -/
def refusal (rt : Runtime) (config : Config) (tx : Transaction) : Response :=
  html (.localPassword (.tx { tx with stage := .localPassword }) tx.email (some LOCAL_CREDENTIAL_ERROR)
    ((upstreamsFor rt config tx.email).map fun u => (u.id, labelFor u))) 400

/-! ## Quiet programs -/

/-- No record is asked for, and nothing is verified. -/
def Op.quiet : Op → Bool
  | .bindingGet _ | .verifyArgon2id .. => false
  | _ => true

def Op.verifies : Op → Bool
  | .verifyArgon2id .. => true
  | _ => false

theorem not_verifies_of_quiet {o : Op} (h : o.quiet = true) : o.verifies = false := by
  cases o with
  | verifyArgon2id => cases h
  | _ => rfl

section
variable {C : Contract effects} {α : Type} {Q : α → Prop} (hC : ∀ h t o, o.quiet = true → C.issue h t o)
include hC

theorem suspend_quiet {p : M α} (h : Ensures C p Q) : Ensures C (suspend >>= fun _ => p) Q :=
  andThen_ensures (issue_ensures fun h t _ => hC h t _ rfl) fun _ _ => h

theorem openTransaction_quiet (token : Value) :
    Ensures C (openTransaction token) fun tx => token.opens = some (.tx tx) := by
  refine andThen_ensures (Q := fun tx => token.opens = some (.tx tx)) (fun s => ?_) fun tx hopens => ?_
  · refine (unsealToken_sat (fun h t => hC h t _ rfl) s).mono (fun _ _ _ => trivial) fun s' tx hopen => ?_
    obtain ⟨exp, _, _, hopens, -⟩ := hopen
    obtain ⟨tok, htok, hpurpose⟩ := Option.bind_eq_some_iff.mp hopens
    cases tok with
    | tx t =>
      obtain ⟨rfl, -⟩ := Prod.mk.inj (Option.some.inj hpurpose)
      exact htok
    | _ => cases hpurpose
  · split
    · exact fail_ensures
    · exact pure_ensures hopens

/-- What is loaded was submitted. -/
theorem loadTransaction_quiet (request : Request) :
    Ensures C (loadTransaction request) fun r => ∀ loaded, r = .ok loaded →
      request.form = .ok loaded.params ∧ ∃ token, single loaded.params (js "tx") = .ok (some token) ∧
        token.opens = some (.tx loaded.tx) := by
  refine suspend_quiet hC (andThen_ensures (ofExcept_ensures fun _ h => h) fun params hform => ?_)
  refine andThen_ensures (Q := fun v => single params (js "tx") = .ok v)
    (ofExcept_ensures fun _ h => h) fun token htoken => ?_
  have hstop : ∀ response, Ensures C (pure (Except.error response) : M (Except Response Loaded)) fun r =>
      ∀ loaded, r = .ok loaded → request.form = .ok loaded.params ∧
        ∃ token, single loaded.params (js "tx") = .ok (some token) ∧ token.opens = some (.tx loaded.tx) :=
    fun response => pure_ensures fun loaded e => by cases e
  split
  · exact hstop _
  · next v =>
    have hopened : Ensures C (catchSeal (some <$> openTransaction v) (pure none)) fun r =>
        ∀ tx, r = some tx → v.opens = some (.tx tx) := by
      refine catchSeal_ensures ?_ (pure_ensures fun tx e => by cases e)
      refine andThen_ensures (openTransaction_quiet hC v) fun tx htx => pure_ensures fun tx' e => ?_
      obtain rfl := Option.some.inj e
      exact htx
    refine andThen_ensures hopened fun opened hopens => ?_
    split
    · exact hstop _
    · next tx =>
      refine andThen_ensures (expired_ensures tx) fun late _ => ?_
      split
      · exact hstop _
      · refine andThen_ensures (attempt_ensures (issue_ensures fun h t _ => hC h t _ rfl)) fun client _ => ?_
        split
        · exact hstop _
        · refine pure_ensures fun loaded e => ?_
          obtain rfl := Except.ok.inj e
          exact ⟨hform, v, htoken, hopens tx rfl⟩

/-- Whatever happens to the counters, a limit comes out. -/
theorem checkLocalAuthAllowed_quiet (rt : Runtime) (config : Config) (request : Request) (email : JsString)
    (factor : Factor) :
    Prog.Always C (fun _ => False) (fun limit => limit.allowed = true → AllowedAttempt C rt config email factor)
      (checkLocalAuthAllowed rt config request email factor) := by
  have hincrement : ∀ key ttl failClosed, Ensures C (increment key ttl failClosed) fun used =>
      C.Saw (.store (.increment key ttl failClosed)) (.ok used) :=
    fun _ _ _ => attempt_ensures (issue_ensures fun h t _ => hC h t _ rfl)
  unfold checkLocalAuthAllowed
  split
  · exact fun _ hallowed => by cases hallowed
  · refine fun s => Prog.sat_bind.mpr fun now hnow => ?_
    have hfails : ∀ e : JsError, Prog.Always C (fun _ => False)
        (fun limit => limit.allowed = true → AllowedAttempt C rt config email factor)
        (pure ⟨false, false, some .store, none⟩ : M Limit) := fun _ _ hallowed => by cases hallowed
    refine tryCatch_always ?_ hfails _
    have hnetwork : ∀ bucket, Ensures C (networkAllowed rt config request.clientIp factor bucket) fun _ => True := by
      intro bucket
      unfold networkAllowed
      split
      · exact pure_ensures trivial
      · split
        · exact pure_ensures trivial
        · refine suspend_quiet hC (suspend_quiet hC ?_)
          exact andThen_ensures (hincrement _ _ _) fun used _ => pure_ensures trivial
    refine andThen_ensures (hnetwork _) fun inside _ => ?_
    split
    · exact pure_ensures fun hallowed => by cases hallowed
    · have haddress : Ensures C (addressKey rt config email) fun tag => tag = addressTag rt config email :=
        suspend_quiet hC (suspend_quiet hC (pure_ensures rfl))
      refine andThen_ensures haddress fun tag htag => ?_
      refine andThen_ensures (hincrement _ _ _) fun used hused => pure_ensures fun hallowed => ?_
      rw [htag] at hused
      exact ⟨now, used, hnow.1, hused, of_decide_eq_true hallowed⟩

end

/-- An address without a key is not looked up. -/
theorem find_quiet {C : Contract effects} {email : Option JsString}
    (hkey : ¬(config.subjectSalt ≠ [] ∧ normaliseEmail rt email ≠ none)) :
    Ensures C (find rt config email) fun _ => False := by
  refine andThen_ensures (Q := fun _ => False) ?_ fun _ h => h.elim
  unfold localIdentityKey
  split
  · exact fail_ensures
  · next canonical hcanonical =>
    have hsalt : config.subjectSalt = [] := by
      by_contra hne
      exact hkey ⟨hne, by rw [hcanonical]; exact Option.some_ne_none _⟩
    rw [if_pos hsalt]
    exact fail_ensures

/-- An address with a key is looked up, whatever the store answers. -/
theorem find_always {C : Contract effects} (hC : ∀ h t o, o.verifies = false → C.issue h t o)
    {email : Option JsString} (hsalt : config.subjectSalt ≠ []) (hcanonical : normaliseEmail rt email ≠ none) :
    Prog.Always C (fun _ => False) (fun found => ∀ record, found.record = some record → ReadRecord rt C record)
      (find rt config email) := by
  have hissue : ∀ {o : Op}, o.verifies = false → Prog.Always C (fun _ => False) (fun a => C.Saw o a) (perform o) :=
    fun ho => issue_always fun h t _ => hC h t _ ho
  refine andThen_always (Q := fun _ => True) ?_ fun key _ => ?_
  · unfold localIdentityKey
    split
    · next hnone => exact absurd hnone hcanonical
    · rw [if_neg hsalt]
      refine andThen_always (hissue rfl) fun _ _ => ?_
      exact andThen_always (hissue rfl) fun _ _ _ => trivial
  · refine andThen_always (hissue rfl) fun answer hanswer => ?_
    cases answer with
    | error e => exact fun _ record hrecord => by cases hrecord
    | ok doc =>
      intro s record hrecord
      obtain ⟨d, rfl, hparse⟩ := Option.bind_eq_some_iff.mp hrecord
      have hkey := parse_key hparse
      exact ⟨d, by rw [hkey]; exact hanswer, by rw [hkey]; exact hparse⟩

/-! ## One attempt -/

variable {es : List (Event effects)} {tx : Transaction} {password : Option JsString}

theorem verifications_append (es fs : List (Event effects)) :
    verifications (es ++ fs) = verifications es + verifications fs := List.countP_append

theorem verifications_eq_zero {es : List (Event effects)} (h : ∀ e ∈ es, e.op.verifies = false) :
    verifications es = 0 := by
  refine List.countP_eq_zero.mpr fun e he hcompleted => ?_
  have hop := h e he
  unfold completed at hcompleted
  split at hcompleted
  · cases hop
  · cases hcompleted

/-- If a hash cannot be used, the dummy is verified in its place. -/
theorem verifyOrDummy_sat
    (hsound : ∀ submitted err, ¬ (told es).Saw (.verifyArgon2id DUMMY_PASSWORD_HASH submitted) (.error err))
    (hash submitted : JsString) (s : Moment effects) :
    (verifyOrDummy hash submitted).Sat (told es) (fun _ _ => False)
      (fun s' ok => verifications s'.past = verifications s.past + 1 ∧
        (ok = true → ∃ hash, (told es).Saw (.verifyArgon2id hash submitted) (.ok true))) s := by
  refine fun t _ => ⟨trivial, fun first hfirst => ?_⟩
  cases first with
  | ok ok =>
    refine ⟨verifications_append _ _, fun hok => ⟨hash, t, trivial, ?_⟩⟩
    rw [← hok]
    exact hfirst
  | error err =>
    refine fun t' _ => ⟨trivial, fun second hsecond => ?_⟩
    cases second with
    | error err' => exact hsound submitted err' ⟨t', trivial, hsecond⟩
    | ok ok =>
      refine ⟨?_, fun hok => ⟨DUMMY_PASSWORD_HASH, t', trivial, ?_⟩⟩
      · show verifications ((s.past ++ [_]) ++ [_]) = _
        rw [verifications_append, verifications_append]
        rfl
      · rw [← hok]
        exact hsecond

/-- One verification, whatever was found. -/
theorem verifyPassword_sat
    (hsound : ∀ submitted err, ¬ (told es).Saw (.verifyArgon2id DUMMY_PASSWORD_HASH submitted) (.error err))
    (found : Found) (s : Moment effects) :
    (verifyPassword config found password).Sat (told es) (fun _ _ => False)
      (fun s' verified => verifications s'.past = verifications s.past + 1 ∧
        (verified = true → (utf8 (password.getD [])).length ≤ config.localIdentities.maxPasswordBytes ∧
          (∀ record, found.record = some record → record.disabled = false) ∧
          ∃ hash, (told es).Saw (.verifyArgon2id hash (password.getD [])) (.ok true))) s := by
  refine Prog.sat_bind.mpr ((verifyOrDummy_sat hsound _ _ s).mono (fun _ _ h => h) fun s' ok hok => ?_)
  refine ⟨hok.1, fun hverified => ?_⟩
  simp only [Bool.and_eq_true, decide_eq_true_eq] at hverified
  obtain ⟨⟨hverified, hwithin⟩, husable⟩ := hverified
  refine ⟨hwithin, fun record hrecord => ?_, ?_⟩
  · rw [hrecord] at husable
    cases hdisabled : record.disabled with
    | false => rfl
    | true => simp [Option.filter, hdisabled] at husable
  · have hseen := hok.2 hverified
    rw [if_pos (decide_eq_true hwithin)] at hseen
    exact hseen

/-- What is known when the handler has come to its end, of the events behind it and the result. -/
def Settled (rt : Runtime) (config : Config) (tx : Transaction) (password : Option JsString)
    (es past : List (Event effects)) (result : Except JsError Response) : Prop :=
  (∀ e ∈ past, e.op.quiet = true) ∨ Advances rt config tx password es ∨
    (result = .ok (refusal rt config tx) ∧ verifications past = 1)

theorem renderLocalPassword_settles {s : Moment effects} (hs : verifications s.past = 1) :
    (renderLocalPassword rt config tx (some LOCAL_CREDENTIAL_ERROR)).Sat (told es)
      (fun s e => Settled rt config tx password es s.past (.error e))
      (fun s r => Settled rt config tx password es s.past (.ok r)) s := by
  refine fun t _ => ⟨trivial, fun _ _ => Or.inr (Or.inr ⟨rfl, ?_⟩)⟩
  show verifications (s.past ++ [_]) = 1
  rw [verifications_append, hs]
  rfl

/-- From the two checks to the end. -/
theorem checks_settle
    (hsound : ∀ submitted err, ¬ (told es).Saw (.verifyArgon2id DUMMY_PASSWORD_HASH submitted) (.error err))
    {limit : Limit} {found : Found} (client : Client) {s : Moment effects} (hs : verifications s.past = 0)
    (hlimit : limit.allowed = true → AllowedAttempt (told es) rt config (tx.email.getD []) .password)
    (hfound : ∀ record, found.record = some record → ReadRecord rt (told es) record) :
    (verifyPassword config found password >>= fun verified =>
      match found.record.filter fun _ => verified && limit.allowed with
      | none => renderLocalPassword rt config tx (some LOCAL_CREDENTIAL_ERROR)
      | some record => afterPassword rt config request tx client record).Sat (told es)
      (fun s e => Settled rt config tx password es s.past (.error e))
      (fun s r => Settled rt config tx password es s.past (.ok r)) s := by
  refine Prog.sat_bind.mpr ((verifyPassword_sat hsound found s).mono (fun _ _ h => h.elim) fun s' verified hv => ?_)
  obtain ⟨hcount, hverified⟩ := hv
  rw [hs] at hcount
  split
  · exact renderLocalPassword_settles hcount
  · next record hrecord =>
    obtain ⟨hrecord, hpassed⟩ := Option.filter_eq_some_iff.mp hrecord
    obtain ⟨hpassed, hallowed⟩ := Bool.and_eq_true_iff.mp hpassed
    obtain ⟨hwithin, henabled, hseen⟩ := hverified hpassed
    by_cases hsatisfies : satisfies (acrForLocal (if requiresSecondFactor record then some .totp else none)).acr
        tx.acrValues = true
    · have hadvances : Advances rt config tx password es :=
        ⟨hwithin, hlimit hallowed, hseen, record, hfound record hrecord, henabled record hrecord, hsatisfies⟩
      exact Prog.Sat.free (fun _ _ _ => trivial) (fun _ _ => Or.inr (Or.inl hadvances))
        (fun _ _ => Or.inr (Or.inl hadvances)) _
    · unfold afterPassword
      dsimp only
      rw [if_pos (by rw [Bool.eq_false_iff.mpr hsatisfies]; rfl)]
      exact renderLocalPassword_settles hcount

/-- The handler, from its start. -/
theorem handleLocalPassword_settles {result : Except JsError Response}
    (h : PasswordAttempt rt config request tx password es result) :
    (handleLocalPassword rt config request).Sat (told es)
      (fun s e => Settled rt config tx password es s.past (.error e))
      (fun s r => Settled rt config tx password es s.past (.ok r)) ⟨none, []⟩ := by
  obtain ⟨form, token, value, hform, htoken, hopens, hvalue, hpassword⟩ := h.submits
  have hload := sat_of_only (C := told es) (fun _ _ _ _ => trivial)
    (loadTransaction_quiet (C := only (fun o => o.quiet = true) (told es)) (fun _ _ _ ho => ho) request)
    ⟨none, []⟩
  refine Prog.sat_bind.mpr (hload.mono (fun s e hs => ?_) fun s r hr => ?_)
  · obtain ⟨fs, hpast, hfs⟩ := hs
    rw [List.nil_append] at hpast
    exact Or.inl (hpast ▸ hfs)
  · obtain ⟨hr, fs, hpast, hfs⟩ := hr
    rw [List.nil_append] at hpast
    have hquiet : ∀ e ∈ s.past, e.op.quiet = true := hpast ▸ hfs
    cases r with
    | error response => exact Or.inl hquiet
    | ok loaded =>
      obtain ⟨hform', token', htoken', hopens'⟩ := hr loaded rfl
      obtain rfl := Except.ok.inj (hform.symm.trans hform')
      obtain rfl := Option.some.inj (Except.ok.inj (htoken.symm.trans htoken'))
      obtain rfl := Sealed.tx.inj (Option.some.inj (hopens.symm.trans hopens'))
      dsimp only
      split
      · exact Or.inl hquiet
      · by_cases hkey : config.subjectSalt ≠ [] ∧ normaliseEmail rt loaded.tx.email ≠ none
        · -- both checks are made, and neither fails
          have hchecks := sat_of_only_always (C := told es) (fun _ _ _ _ => trivial)
            (promiseAll_always (fun _ _ _ _ ho => ho) (fun _ _ => rfl)
              (checkLocalAuthAllowed_quiet (C := only (fun o => o.verifies = false) (told es))
                (fun _ _ _ ho => not_verifies_of_quiet ho) rt config request (loaded.tx.email.getD []) .password)
              (find_always (fun _ _ _ ho => ho) hkey.1 hkey.2)) s
          refine Prog.sat_bind.mpr (hchecks.mono (fun _ _ he => he.1.elim) fun s' r hr => ?_)
          obtain ⟨⟨hlimit, hfound⟩, fs', hpast', hfs'⟩ := hr
          have hnone : verifications s'.past = 0 := by
            rw [hpast', verifications_append, verifications_eq_zero fun e he => not_verifies_of_quiet (hquiet e he),
              verifications_eq_zero hfs']
          refine Prog.sat_bind.mpr (Prog.sat_ofExcept.mpr ⟨fun v hv => ?_, fun e he => ?_⟩)
          · obtain rfl := Except.ok.inj (hvalue.symm.trans hv)
            rw [hpassword]
            exact checks_settle h.sound loaded.client hnone hlimit hfound
          · rw [hvalue] at he
            cases he
        · -- the address has no key, and no record is asked for
          have hcounted := checkLocalAuthAllowed_quiet (C := only (fun o => o.quiet = true) (told es))
            (fun _ _ _ ho => ho) rt config request (loaded.tx.email.getD []) .password
          have hnever := sat_of_only (C := told es) (fun _ _ _ _ => trivial)
            (promiseAll_always (fun _ _ _ _ ho => ho) (fun _ _ => rfl)
              (fun s => (hcounted s).mono (fun _ _ he => he.elim) fun _ _ h => h) (find_quiet hkey)) s
          refine Prog.sat_bind.mpr (hnever.mono (fun s' e hs' => ?_) fun _ _ hr => hr.1.2.elim)
          obtain ⟨fs', hpast', hfs'⟩ := hs'
          refine Or.inl fun e he => ?_
          rw [hpast'] at he
          exact (List.mem_append.mp he).elim (hquiet e) (hfs' e)

/-- What an attempt comes to that does not advance. -/
theorem refused {result : Except JsError Response} (h : PasswordAttempt rt config request tx password es result)
    (hstays : ¬ Advances rt config tx password es) :
    result = .ok (refusal rt config tx) ∧ verifications es = 1 := by
  obtain ⟨rest, now, hsteps, hrest⟩ := h.ran
  have hends : (handleLocalPassword rt config request).Sat (told es)
      ((told es).Ends fun _ past e => Settled rt config tx password es past (.error e))
      ((told es).Ends fun _ past r => Settled rt config tx password es past (.ok r)) ⟨none, []⟩ :=
    (handleLocalPassword_settles h).mono (fun _ _ hs _ _ => hs) fun _ _ hs _ _ => hs
  have hrun := (Prog.Sat.steps hsteps hends fun e he => ⟨trivial, he⟩).1
  have hnow : (told es).Now ⟨none, [] ++ es⟩ now := ⟨trivial, fun _ e => by cases e⟩
  have hlast := hrun.atTime hnow
  rw [hrest] at hlast
  have hsettled : Settled rt config tx password es es result := by
    cases result with
    | ok response => exact hlast now ⟨trivial, fun _ e => Option.some.inj e⟩
    | error err => exact hlast now ⟨trivial, fun _ e => Option.some.inj e⟩
  rcases hsettled with hquiet | hadvances | hrefused
  · obtain ⟨key, answer, t, -, hmem⟩ := h.asked
    exact absurd (hquiet _ hmem) Bool.false_ne_true
  · exact absurd hadvances hstays
  · exact hrefused

/-! ## Two attempts -/

/-- Of two attempts on one transaction that do not advance, neither shows what it was refused for. -/
theorem refusals_alike {request₁ request₂ : Request} {password₁ password₂ : Option JsString}
    {es₁ es₂ : List (Event effects)} {result₁ result₂ : Except JsError Response}
    (h₁ : PasswordAttempt rt config request₁ tx password₁ es₁ result₁)
    (h₂ : PasswordAttempt rt config request₂ tx password₂ es₂ result₂)
    (hstays₁ : ¬ Advances rt config tx password₁ es₁) (hstays₂ : ¬ Advances rt config tx password₂ es₂) :
    (∃ page, result₁ = .ok page ∧ result₂ = .ok page) ∧ verifications es₁ = 1 ∧ verifications es₂ = 1 :=
  ⟨⟨_, (refused h₁ hstays₁).1, (refused h₂ hstays₂).1⟩, (refused h₁ hstays₁).2, (refused h₂ hstays₂).2⟩

namespace Sample

/-- Bob is asked for his password. -/
def atPassword : Transaction := { pending with stage := .localPassword, email := some (js "bob@local.test") }

def guessing (password : String) : Request :=
  browserRequest [.tx atPassword] true [("tx", .token 0), ("password", .text password)] []

/-- There is no record. -/
def noRecord : Oracle effects Unit := fun _ s o => (answer o, s)

/-- Neither the counters nor the record can be read. -/
def broken : Oracle effects Unit := fun _ s o =>
  match o with
  | .store (.increment ..) => (.error (.error (js "timeout")), s)
  | .bindingGet _ => (.error (.error (js "unreadable")), s)
  | o => (answer o, s)

def guessed (stores : Oracle effects Unit) (password : String) : List (Event effects) × Unit × M Response :=
  (handleLocalPassword Sample.runtime Sample.config (guessing password)).play stores 1100 100 ()

def answered (stores : Oracle effects Unit) (password : String) : Except JsError Response :=
  ((guessed stores password).2.2.atTime 1100).result?.getD (.error (.error []))

def asks : Event effects → Bool
  | ⟨_, .bindingGet _, _⟩ => true
  | _ => false

/-- A verification that fails, or that succeeds. -/
def surprises : Event effects → Bool
  | ⟨_, .verifyArgon2id _ _, .error _⟩ | ⟨_, .verifyArgon2id _ _, .ok true⟩ => true
  | _ => false

theorem guessed_attempt (stores : Oracle effects Unit) (password : String)
    (htoken : single (form [.tx atPassword] [("tx", .token 0), ("password", .text password)]) (js "tx") =
      .ok (some ⟨js "token", some (.tx atPassword)⟩))
    (hvalue : single (form [.tx atPassword] [("tx", .token 0), ("password", .text password)]) (js "password") =
      .ok (some (.plain (js password))))
    (hends : ((guessed stores password).2.2.atTime 1100).result?.isSome = true)
    (hasks : (guessed stores password).1.any asks = true) (hnone : (guessed stores password).1.any surprises = false) :
    PasswordAttempt Sample.runtime Sample.config (guessing password) atPassword (some (js password)) (guessed stores password).1
        (answered stores password) ∧
      ¬ Advances Sample.runtime Sample.config atPassword (some (js password)) (guessed stores password).1 := by
  have hplain : ∀ e ∈ (guessed stores password).1, surprises e = false :=
    fun e he => by simpa using List.any_eq_false.mp hnone e he
  refine ⟨⟨?_, ?_, ?_, fun submitted err hseen => ?_⟩, fun hadvances => ?_⟩
  · exact ⟨_, _, _, rfl, htoken, rfl, hvalue, rfl⟩
  · obtain ⟨result, hresult⟩ := Option.isSome_iff_exists.mp hends
    refine ⟨_, 1100, Prog.steps_play stores 1100 100 () _, ?_⟩
    rw [answered, hresult]
    exact Prog.eq_of_result? hresult
  · obtain ⟨⟨t, o, a⟩, he, hask⟩ := List.any_eq_true.mp hasks
    cases o with
    | bindingGet key => exact ⟨key, a, t, trivial, he⟩
    | _ => cases hask
  · obtain ⟨t, -, he⟩ := hseen
    cases hplain _ he
  · obtain ⟨hash, t, -, he⟩ := hadvances.verified
    cases hplain _ he

/-- A guess at an account that does not exist, and another while nothing can be read. -/
theorem guesses_alike :
    (∃ page, answered noRecord "guess" = .ok page ∧ answered broken "another" = .ok page) ∧
      verifications (guessed noRecord "guess").1 = 1 ∧ verifications (guessed broken "another").1 = 1 := by
  obtain ⟨hfirst, hstays⟩ := guessed_attempt noRecord "guess" rfl rfl
    (by decide +kernel) (by decide +kernel) (by decide +kernel)
  obtain ⟨hsecond, hstays'⟩ := guessed_attempt broken "another" rfl rfl
    (by decide +kernel) (by decide +kernel) (by decide +kernel)
  exact refusals_alike hfirst hsecond hstays hstays'

end Sample

end Sag
