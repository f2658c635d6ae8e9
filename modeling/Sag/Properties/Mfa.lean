import Sag.Properties.Factors
import Sag.Properties.Sessions

/-!
# The second factor that is required

Whether a record requires a second factor is partly read off the factors that it
holds, and these are used up. But a record that once required one says so in every
document that is written for it (`mfa_required`), down to the last backup code and
after it. So no password alone ever signs anybody in to such an account.
-/

namespace Sag

open Resumable

variable {rt : Runtime} {config : Config}

/-- The record under `key` requires a second factor, and nothing gets round it. -/
structure FactorRequired (rt : Runtime) (config : Config) (key : JsString)
    (w : World (gateway rt config) Documents) : Prop where
  /-- However its document is parsed, it requires one. -/
  stored : ∀ r, r.key = key → Stored rt w.state r → requiresSecondFactor r = true
  read : ∀ r, r.key = key → ReadRecord rt (inLog w.log) r → requiresSecondFactor r = true
  /-- No session of the account rests on its password alone. -/
  sessions : ∀ th ∈ w.threads, ∀ t response, th.stop = some (t, .ok (.response response)) →
    ∀ session, .session session ∈ response.tokens → session.localIdentityKey = some key →
      session.acr ≠ Acr.localPassword
  /-- The password form leads to none, -/
  password : ∀ th ∈ w.threads, ∀ request, th.req.served = some (.localPassword, request) →
    ∀ t response, th.stop = some (t, .ok (.response response)) → ∀ session, .session session ∈ response.tokens →
      session.localIdentityKey ≠ some key
  /-- and the second factor's to one only with a factor of the account that it has used up. -/
  factor : ∀ th ∈ w.threads, ∀ request, th.req.served = some (.localMfa, request) →
    ∀ t response, th.stop = some (t, .ok (.response response)) → ∀ session, .session session ∈ response.tokens →
      session.localIdentityKey = some key → session.acr = Acr.localMfa ∧
        ∃ record change, record.key = key ∧ change.isFactor = true ∧ ∃ e ∈ th.trace, Performs rt w.log record change e

/-! ## What a sign-in makes of a session -/

/-- A session after a sign-in has the evidence of the sign-in. -/
theorem NewlySigned.evidence {C : Rely effects} {request : Request} {args : SessionArgs} {session : Session}
    (h : NewlySigned config C request args session) :
    session.acr = args.acr ∧ session.localIdentityKey = args.localIdentityKey := by
  cases h <;> exact ⟨rfl, rfl⟩

/-- An upstream never asserts a local password. -/
theorem acrFromUpstream_ne (T : CaseTables) (claims : Members) :
    (acrFromUpstream T claims).acr ≠ Acr.localPassword := by
  simp only [acrFromUpstream]
  split <;> decide

section
variable {docs : Documents} {w : World (gateway rt config) Documents}
variable (h : Reachable (gateway rt config) documentsEnv docs w)
variable {record : LocalRecord} (hstored : Stored rt docs record) (hrequired : requiresSecondFactor record = true)
include h hstored hrequired

/-- Whoever reads the record finds that it requires a second factor. -/
theorem required_of_read {r : LocalRecord} (hkey : r.key = record.key) (hread : ReadRecord rt (inLog w.log) r) :
    requiresSecondFactor r = true :=
  (read_later h hstored hread hkey).account.mfaRequired.trans hrequired

/-- A sign-in with a password alone is not one to the account. -/
theorem not_single {C : Rely effects} (hC : ∀ o a, C.Saw o a → (inLog w.log).Saw o a) {request : Request}
    {tx : Transaction} {args : SessionArgs} (hsign : SignIn rt config C request .localPassword tx args) :
    args.localIdentityKey ≠ some record.key := by
  cases hsign with
  | @password _ _ r hpresented hallowed hfound hsingle hnames hunproved hacr hmeets =>
    intro hkey
    rw [hnames.key] at hkey
    obtain ⟨doc, hsaw, hparse⟩ := hfound.read
    have hreq := required_of_read h hstored hrequired (Option.some.inj hkey) ⟨doc, hC _ _ hsaw, hparse⟩
    rw [hsingle] at hreq
    cases hreq

/-- No session of the account has the acr of a password. -/
theorem acr_descent : Descent rt config w.log fun _ s =>
    s.localIdentityKey = some record.key → s.acr ≠ Acr.localPassword := by
  have sign : ∀ {endpoint request start stop tx args},
      SignIn rt config (during start stop (seen w.log)) request endpoint tx args →
        args.localIdentityKey = some record.key → args.acr ≠ Acr.localPassword := by
    intro endpoint request start stop tx args hsign hkey
    have whole : ∀ o a, (during start stop (seen w.log)).Saw o a → (inLog w.log).Saw o a :=
      fun o a hsaw => hsaw.imp fun t ht => ⟨trivial, ht.2⟩
    cases hsign with
    | otp _ _ _ _ hacr _ => rw [hacr]; decide
    | password hpresented hallowed hfound hsingle hnames hunproved hacr hmeets =>
      have hnot := not_single h hstored hrequired whole
        (.password hpresented hallowed hfound hsingle hnames hunproved hacr hmeets)
      exact absurd hkey hnot
    | factor _ _ _ _ _ _ _ hacr => rw [hacr]; decide
    | upstream _ _ _ hacr _ => rw [hacr]; exact acrFromUpstream_ne _ _
  exact
    { mono := fun _ _ _ _ hs => hs
      created := fun _ _ _ _ _ _ _ _ _ _ hsign _ => sign hsign
      again := fun _ _ _ _ _ _ _ _ _ _ hsign _ _ => sign hsign
      migrated := fun _ s hs hkey => by
        rw [migrate_acr]
        exact hs (by rw [← migrate_localIdentityKey]; exact hkey)
      touched := fun _ _ _ _ hs => hs }

/-- A required second factor is never lost by use. -/
theorem factor_required : FactorRequired rt config record.key w where
  stored r hkey hr := (stored_later h hstored r hkey hr).account.mfaRequired.trans hrequired
  read r hkey hread := required_of_read h hstored hrequired hkey hread
  sessions th hth t response hstop session htok := by
    obtain ⟨endpoint, request, hserved, hderived⟩ := derived_of_released h hth hstop htok
    cases hderived with
    | session hcompletion htick =>
      have hle := ((h.threads_sound th hth).ended t _ hstop).1
      have hacr := (acr_descent h hstored hrequired).completed h hth hserved hle hcompletion
      exact hacr
    | memory hmem => cases hmem
  password th hth request hserved t response hstop session htok := by
    obtain ⟨endpoint, request', hserved', hderived⟩ := derived_of_released h hth hstop htok
    obtain ⟨rfl, rfl⟩ := Prod.mk.inj (Option.some.inj (hserved.symm.trans hserved'))
    cases hderived with
    | session hcompletion _ =>
      cases hcompletion with
      | signedIn hsign hsigned =>
        have hnot := not_single h hstored hrequired (fun o a hsaw => hsaw.imp fun t ht => ⟨trivial, ht.2⟩) hsign
        intro hkey
        exact hnot (hsigned.evidence.2.symm.trans hkey)
    | memory hmem => cases hmem
  factor th hth request hserved t response hstop session htok hkey := by
    obtain ⟨endpoint, request', hserved', hderived⟩ := derived_relying h hth hstop htok (R := seen th.trace)
      fun _ he => he
    obtain ⟨rfl, rfl⟩ := Prod.mk.inj (Option.some.inj (hserved.symm.trans hserved'))
    cases hderived with
    | session hcompletion _ =>
      cases hcompletion with
      | signedIn hsign hsigned =>
        obtain ⟨hacr, hnamed⟩ := hsigned.evidence
        cases hsign with
        | @factor _ _ r next hpresented hstage hallowed hfound hconsumed hnames hunproved hmfa =>
          obtain ⟨change, hupdate, hfactor, -, t₀, -, hmem⟩ := hconsumed
          have whole : ∀ o a, (during th.start t (seen th.trace)).Saw o a → (inLog w.log).Saw o a :=
            fun o a hsaw => hsaw.imp fun t ht => ⟨trivial, h.mem_log hth ht.2⟩
          obtain ⟨doc, hget, hparse⟩ := hfound.read
          have hsame : r.key = record.key := Option.some.inj ((hnamed.trans hnames.key).symm.trans hkey)
          exact ⟨hacr.trans hmfa, r, change, hsame, hfactor, _, hmem, ⟨doc, whole _ _ hget, hparse⟩,
            hupdate.mono whole, t₀, rfl⟩
    | memory hmem => cases hmem

end

/-- Bob's last backup code is used, and his account requires one as before. -/
theorem bob_requires_factor : requiresSecondFactor Sample.bob = true ∧
    FactorRequired Sample.runtime Sample.config Sample.bob.key Sample.bobTwice := by
  have hstored : Stored Sample.runtime (Sample.only Sample.bob) Sample.bob :=
    ⟨storedRecord Sample.bob, if_pos rfl, by decide +kernel⟩
  exact ⟨rfl, factor_required Sample.bobTwice_reachable hstored rfl⟩

end Sag
