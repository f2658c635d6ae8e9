import Sag.Endpoints.Token

/-!
# What is told of a person

What a sign-in keeps of a person is made by one of two functions, from whatever the
upstream, the record or the address says (`Gathered`). Of that an id_token and an answer of
`/userinfo` tell what `outboundClaims` lets out: between the claims that the program sets,
and never in the place of one (`Contained`).
-/

namespace Sag

variable {rt : Runtime} {config : Config}

/-- The claims that the program itself sets. -/
def PROTOCOL_CLAIMS : List JsString :=
  [js "iss", js "sub", js "aud", js "iat", js "exp", js "auth_time", js "acr", js "amr", js "sid", js "nonce",
    js "email", js "email_verified", js "at_hash"]

/-- What may have been kept of a person. -/
inductive Gathered (rt : Runtime) (config : Config) : Option Members → Prop where
  | relayed (claims : Members) (upstreamAcr : Option JsString) :
      Gathered rt config (relayedClaims config claims upstreamAcr)
  | inferred (email : JsString) : Gathered rt config (inferredClaims rt config email)

/-- A claim that may be told of a person, from what was kept of them. -/
inductive Tellable (rt : Runtime) (config : Config) (kept : Option Members) : JsString × Json → Prop where
  | listed {claim value : JsString} (list : claim ∈ PROFILE_CLAIMS) (permitted : permitted config claim = true) :
      Tellable rt config kept (claim, .str value)
  | guessed {email name : JsString} (inferred : kept = inferredClaims rt config email)
      (guess : nameFromEmail rt email = some name) :
      Tellable rt config kept (js "urn:sag:name_inferred", .bool true)

/-- How far what was kept of a person reaches into an answer, which is a function of it. -/
structure Contained (rt : Runtime) (config : Config) (scope : List JsString) (answer : Option Members → Members)
    (kept : Option Members) : Prop where
  /-- No claim has two values. -/
  once : ((answer kept).map Prod.fst).Nodup
  /-- What the program sets by itself stands, -/
  own : ∀ m ∈ answer none, m.1 ∈ PROTOCOL_CLAIMS ∧ m ∈ answer kept
  /-- what comes besides has none of its names, and is told where the `profile` scope was granted. -/
  besides : ∀ m ∈ answer kept, m ∈ answer none ∨
    (m.1 ∉ PROTOCOL_CLAIMS ∧ js "profile" ∈ scope ∧ Tellable rt config kept m)
  /-- A mark comes with the guess it is about. -/
  marked : ∀ v, (js "urn:sag:name_inferred", v) ∈ answer kept →
    ∃ email name, nameFromEmail rt email = some name ∧ (js "name", .str name) ∈ answer kept
  /-- The upstream's acr is not among it, whatever it was. -/
  unaware : (∀ v, (js "upstream_acr", v) ∉ answer kept) ∧
    answer kept = answer (kept.map (·.filter fun m => m.1 ≠ js "upstream_acr"))

/-! ## What is kept -/

theorem mark_unlisted : js "urn:sag:name_inferred" ∉ PROFILE_CLAIMS := by decide

theorem flag_unlisted : js "name_inferred" ∉ PROFILE_CLAIMS := by decide

theorem upstreamAcr_unlisted : js "upstream_acr" ∉ PROFILE_CLAIMS := by decide

theorem listed_apart : ∀ claim ∈ PROFILE_CLAIMS, claim ∉ PROTOCOL_CLAIMS := by decide

theorem mark_apart : js "urn:sag:name_inferred" ∉ PROTOCOL_CLAIMS := by decide

theorem upstreamAcr_apart : js "upstream_acr" ∉ PROTOCOL_CLAIMS := by decide

theorem mem_relayedClaim {claims : Members} {claim : JsString} {m : JsString × Json}
    (h : relayedClaim config claims claim = some m) : m.1 = claim ∧ ∃ value, m.2 = .str value := by
  unfold relayedClaim at h
  split at h
  · cases h
  · split at h
    · cases h
    · next value _ =>
      by_cases hempty : value = []
      · rw [if_pos hempty] at h
        cases h
      · rw [if_neg hempty] at h
        by_cases hpicture : (decide (claim = js "picture") && !startsHttps value) = true
        · rw [if_pos hpicture] at h
          cases h
        · rw [if_neg hpicture] at h
          by_cases hlong : 512 < value.length
          · rw [if_pos hlong] at h
            split at h
            · cases h
            · cases h
              exact ⟨rfl, _, rfl⟩
          · rw [if_neg hlong] at h
            cases h
            exact ⟨rfl, _, rfl⟩

/-- What an upstream leaves behind are strings under listed names, and its acr. -/
theorem mem_relayedClaims {claims held : Members} {upstreamAcr : Option JsString}
    (h : relayedClaims config claims upstreamAcr = some held) :
    ∀ m ∈ held, (∃ value, m.2 = .str value) ∧ (m.1 ∈ PROFILE_CLAIMS ∨ m.1 = js "upstream_acr") := by
  intro m hm
  unfold relayedClaims at h
  dsimp only at h
  split at h
  · cases h
  · cases h
    rcases List.mem_append.mp hm with hm | hm
    · obtain ⟨claim, hclaim, heq⟩ := List.mem_filterMap.mp hm
      obtain ⟨hname, hvalue⟩ := mem_relayedClaim heq
      exact ⟨hvalue, Or.inl (hname ▸ hclaim)⟩
    · obtain ⟨acr, -, rfl⟩ := Option.map_eq_some_iff.mp (Option.mem_toList.mp hm)
      exact ⟨⟨_, rfl⟩, Or.inr rfl⟩

/-- What is inferred from an address is a name with its mark, and a picture. -/
theorem mem_inferredClaims {email : JsString} {held : Members} (h : inferredClaims rt config email = some held) :
    ∃ name, nameFromEmail rt email = some name ∧ ∀ m ∈ held,
      m = (js "name", .str name) ∨ m = (js "name_inferred", .bool true) ∨ ∃ value, m = (js "picture", .str value) := by
  unfold inferredClaims at h
  dsimp only at h
  cases hguess : (if config.profile.inferName = true then nameFromEmail rt email else none) with
  | none =>
    rw [hguess] at h
    cases h
  | some name =>
    rw [hguess] at h
    dsimp only at h
    have hname : nameFromEmail rt email = some name := by
      split at hguess
      · exact hguess
      · cases hguess
    by_cases hempty : (if permitted config (js "name") then
        [(js "name", Json.str name), (js "name_inferred", Json.bool true)] else []) ++
        (if config.profile.initialsAvatar && permitted config (js "picture") then
          [(js "picture", Json.str (initialsAvatar rt name email))] else []) = []
    · rw [if_pos hempty] at h
      cases h
    · rw [if_neg hempty] at h
      refine ⟨name, hname, fun m hm => ?_⟩
      rw [← Option.some.inj h] at hm
      rcases List.mem_append.mp hm with hm | hm
      · split at hm
        · rcases List.mem_cons.mp hm with rfl | hm
          · exact Or.inl rfl
          · exact Or.inr (Or.inl (List.mem_singleton.mp hm))
        · cases hm
      · split at hm
        · exact Or.inr (Or.inr ⟨_, List.mem_singleton.mp hm⟩)
        · cases hm

/-- Whatever is kept under a listed name is a string. -/
theorem Gathered.string {held : Members} {kept : Option Members} (h : Gathered rt config kept)
    (hkept : kept = some held) {m : JsString × Json} (hm : m ∈ held) (hlisted : m.1 ∈ PROFILE_CLAIMS) :
    ∃ value, m.2 = .str value := by
  cases h with
  | relayed claims upstreamAcr => exact (mem_relayedClaims hkept m hm).1
  | inferred email =>
    obtain ⟨name, -, hall⟩ := mem_inferredClaims hkept
    rcases hall m hm with rfl | rfl | ⟨value, rfl⟩
    · exact ⟨_, rfl⟩
    · exact absurd hlisted flag_unlisted
    · exact ⟨_, rfl⟩

/-- The mark of a guess is only kept with the guess. -/
theorem Gathered.guess {held : Members} {kept : Option Members} (h : Gathered rt config kept) (hkept : kept = some held)
    {v v' : Json} (hmark : (js "name_inferred", v) ∈ held) (hname : (js "name", v') ∈ held) :
    ∃ email name, kept = inferredClaims rt config email ∧ nameFromEmail rt email = some name ∧ v' = .str name := by
  cases h with
  | relayed claims upstreamAcr =>
    rcases (mem_relayedClaims hkept _ hmark).2 with hlisted | hacr
    · exact absurd hlisted flag_unlisted
    · have hne : js "name_inferred" ≠ js "upstream_acr" := by decide
      exact absurd hacr hne
  | inferred email =>
    obtain ⟨name, hguess, hall⟩ := mem_inferredClaims hkept
    refine ⟨email, name, rfl, hguess, ?_⟩
    have hnames : js "name" ≠ js "name_inferred" ∧ js "name" ≠ js "picture" := by decide
    rcases hall _ hname with heq | heq | ⟨value, heq⟩
    · exact congrArg Prod.snd heq
    · exact absurd (congrArg Prod.fst heq) hnames.1
    · exact absurd (congrArg Prod.fst heq) hnames.2

/-! ## What is told -/

/-- The permitted claims of the list, as they were kept. -/
def listedClaims (config : Config) (held : Members) : Members :=
  PROFILE_CLAIMS.filterMap fun claim =>
    if permitted config claim then (Json.member held claim).map (claim, ·) else none

/-- The mark of a guessed name. -/
def guessMark (config : Config) (held : Members) : Members :=
  if (Json.member held (js "name_inferred")).any truthy &&
      (Json.member (listedClaims config held) (js "name")).isSome then
    [(js "urn:sag:name_inferred", .bool true)]
  else []

theorem outboundClaims_eq (held : Members) :
    outboundClaims config held = listedClaims config held ++ guessMark config held := by
  show (if (Json.member held (js "name_inferred")).any truthy &&
      (Json.member (listedClaims config held) (js "name")).isSome then
    listedClaims config held ++ [(js "urn:sag:name_inferred", .bool true)] else listedClaims config held) = _
  unfold guessMark
  split
  · rfl
  · rw [List.append_nil]

theorem mem_listedClaims {held : Members} {m : JsString × Json} (h : m ∈ listedClaims config held) :
    m.1 ∈ PROFILE_CLAIMS ∧ permitted config m.1 = true ∧ m ∈ held := by
  obtain ⟨claim, hclaim, heq⟩ := List.mem_filterMap.mp h
  split at heq
  · next hpermitted =>
    obtain ⟨v, hv, rfl⟩ := Option.map_eq_some_iff.mp heq
    exact ⟨hclaim, hpermitted, mem_of_member hv⟩
  · cases heq

theorem mem_guessMark {held : Members} {m : JsString × Json} (h : m ∈ guessMark config held) :
    m = (js "urn:sag:name_inferred", .bool true) ∧ (∃ v, (js "name_inferred", v) ∈ held) ∧
      ∃ v, (js "name", v) ∈ listedClaims config held := by
  unfold guessMark at h
  split at h
  · next hmark =>
    rw [Bool.and_eq_true] at hmark
    refine ⟨List.mem_singleton.mp h, ?_, ?_⟩
    · cases hv : Json.member held (js "name_inferred") with
      | none =>
        rw [hv] at hmark
        cases hmark.1
      | some v => exact ⟨v, mem_of_member hv⟩
    · obtain ⟨v, hv⟩ := Option.isSome_iff_exists.mp hmark.2
      exact ⟨v, mem_of_member hv⟩
  · cases h

/-- A list that is searched name by name is told in the order of the names. -/
theorem names_sublist {f : JsString → Option (JsString × Json)} (hf : ∀ name m, f name = some m → m.1 = name)
    (names : List JsString) : ((names.filterMap f).map Prod.fst).Sublist names := by
  induction names with
  | nil => exact List.Sublist.refl []
  | cons name names ih =>
    rw [List.filterMap_cons]
    cases hm : f name with
    | none => exact ih.cons name
    | some m =>
      have hname := hf name m hm
      rw [List.map_cons, hname]
      exact ih.cons_cons name

theorem outboundClaims_once (held : Members) : ((outboundClaims config held).map Prod.fst).Nodup := by
  rw [outboundClaims_eq, List.map_append]
  refine List.nodup_append.mpr ⟨?_, ?_, ?_⟩
  · refine List.Nodup.sublist (names_sublist (fun name m h => ?_) PROFILE_CLAIMS) (by decide)
    split at h
    · obtain ⟨v, -, rfl⟩ := Option.map_eq_some_iff.mp h
      rfl
    · cases h
  · unfold guessMark
    split
    · exact List.nodup_cons.mpr ⟨List.not_mem_nil, List.nodup_nil⟩
    · exact List.nodup_nil
  · intro name hname mark hmark heq
    obtain ⟨m, hm, rfl⟩ := List.mem_map.mp hname
    obtain ⟨m', hm', rfl⟩ := List.mem_map.mp hmark
    have hlisted := (mem_listedClaims hm).1
    rw [heq, (mem_guessMark hm').1] at hlisted
    exact mark_unlisted hlisted

/-- Striking out a claim changes no other. -/
theorem member_strike {held : Members} {name struck : JsString} (h : name ≠ struck) :
    Json.member (held.filter fun m => m.1 ≠ struck) name = Json.member held name := by
  unfold Json.member
  rw [List.find?_filter]
  congr 2
  funext m
  by_cases hm : m.1 = name
  · simp [hm, h]
  · simp [hm]

theorem outboundClaims_strike (held : Members) :
    outboundClaims config (held.filter fun m => m.1 ≠ js "upstream_acr") = outboundClaims config held := by
  have hlisted : listedClaims config (held.filter fun m => m.1 ≠ js "upstream_acr") = listedClaims config held := by
    refine List.filterMap_congr fun claim hclaim => ?_
    have hne : claim ≠ js "upstream_acr" := by
      intro heq
      exact upstreamAcr_unlisted (heq ▸ hclaim)
    rw [member_strike hne]
  have hmark : js "name_inferred" ≠ js "upstream_acr" := by decide
  rw [outboundClaims_eq, outboundClaims_eq, hlisted, guessMark, guessMark, hlisted, member_strike hmark]

theorem profileScopeClaims_once (scope : List JsString) (kept : Option Members) :
    ((profileScopeClaims config scope kept).map Prod.fst).Nodup := by
  unfold profileScopeClaims
  split
  · cases kept with
    | none => exact List.nodup_nil
    | some held => exact outboundClaims_once held
  · exact List.nodup_nil

theorem profileScopeClaims_strike (scope : List JsString) (kept : Option Members) :
    profileScopeClaims config scope (kept.map (·.filter fun m => m.1 ≠ js "upstream_acr")) =
      profileScopeClaims config scope kept := by
  unfold profileScopeClaims
  cases kept with
  | none => rfl
  | some held =>
    rw [Option.map_some, Option.map_some, outboundClaims_strike, Option.map_some]

/-- A guess that is told with its mark. -/
theorem guess_of_mark {held : Members} (hkept : Gathered rt config (some held)) {m : JsString × Json}
    (h : m ∈ guessMark config held) : ∃ email name, some held = inferredClaims rt config email ∧
      nameFromEmail rt email = some name ∧ (js "name", .str name) ∈ listedClaims config held := by
  obtain ⟨-, ⟨v, hmark⟩, v', hname⟩ := mem_guessMark h
  obtain ⟨email, name, heq, hguess, rfl⟩ := hkept.guess rfl hmark (mem_listedClaims hname).2.2
  exact ⟨email, name, heq, hguess, hname⟩

/-- What is told for the `profile` scope may be told. -/
theorem mem_profileScopeClaims {scope : List JsString} {kept : Option Members} (hkept : Gathered rt config kept)
    {m : JsString × Json} (h : m ∈ profileScopeClaims config scope kept) :
    m.1 ∉ PROTOCOL_CLAIMS ∧ js "profile" ∈ scope ∧ Tellable rt config kept m ∧
      (m.1 = js "urn:sag:name_inferred" → ∃ email name, nameFromEmail rt email = some name ∧
        (js "name", .str name) ∈ profileScopeClaims config scope kept) := by
  unfold profileScopeClaims at h ⊢
  split at h
  · next hscope =>
    cases kept with
    | none => cases h
    | some held =>
      rw [if_pos hscope]
      rw [Option.map_some, Option.getD_some, outboundClaims_eq] at h ⊢
      rcases List.mem_append.mp h with h | h
      · obtain ⟨hlisted, hpermitted, hmem⟩ := mem_listedClaims h
        obtain ⟨value, hvalue⟩ := hkept.string rfl hmem hlisted
        obtain ⟨claim, v⟩ := m
        cases hvalue
        refine ⟨listed_apart _ hlisted, hscope, .listed hlisted hpermitted, fun heq => ?_⟩
        exact absurd (heq ▸ hlisted) mark_unlisted
      · obtain ⟨email, name, heq, hguess, hname⟩ := guess_of_mark hkept h
        obtain ⟨rfl, -, -⟩ := mem_guessMark h
        refine ⟨mark_apart, hscope, .guessed heq hguess, fun _ => ?_⟩
        exact ⟨email, name, hguess, List.mem_append_left _ hname⟩
  · cases h

/-! ## Answers -/

theorem assign_apart {claims more : Members} (h : ∀ m ∈ more, ∀ m' ∈ claims, m'.1 ≠ m.1) :
    assign claims more = claims ++ more := by
  unfold assign
  congr 1
  refine List.filter_eq_self.mpr fun m' hm' => ?_
  cases hmember : Json.member more m'.1 with
  | none => rfl
  | some v => exact absurd rfl (h _ (mem_of_member hmember) m' hm')

theorem profileScopeClaims_none (scope : List JsString) : profileScopeClaims config scope none = [] := by
  unfold profileScopeClaims
  split <;> rfl

/-- An answer that puts what is told between claims of its own contains it. -/
theorem contained_between {scope : List JsString} {front back : Members} {answer : Option Members → Members}
    (hanswer : ∀ kept, answer kept = front ++ profileScopeClaims config scope kept ++ back)
    (hnames : ∀ m ∈ front ++ back, m.1 ∈ PROTOCOL_CLAIMS) (honce : ((front ++ back).map Prod.fst).Nodup)
    {kept : Option Members} (hkept : Gathered rt config kept) : Contained rt config scope answer kept := by
  have hnone : answer none = front ++ back := by rw [hanswer, profileScopeClaims_none, List.append_nil]
  have hmem : ∀ {m}, m ∈ answer kept → m ∈ front ++ back ∨ m ∈ profileScopeClaims config scope kept := by
    intro m hm
    rw [hanswer] at hm
    rcases List.mem_append.mp hm with hm | hm
    · rcases List.mem_append.mp hm with hm | hm
      · exact Or.inl (List.mem_append_left _ hm)
      · exact Or.inr hm
    · exact Or.inl (List.mem_append_right _ hm)
  have htold : ∀ {m}, m ∈ profileScopeClaims config scope kept → m ∈ answer kept := by
    intro m hm
    rw [hanswer]
    exact List.mem_append_left _ (List.mem_append_right _ hm)
  refine ⟨?_, ?_, ?_, ?_, ?_, ?_⟩
  · -- what is told and what the program sets have no name in common
    have hperm : (answer kept).Perm (front ++ back ++ profileScopeClaims config scope kept) := by
      rw [hanswer, List.append_assoc, List.append_assoc]
      exact List.perm_append_comm.append_left front
    refine ((hperm.map Prod.fst).nodup_iff).mpr ?_
    rw [List.map_append]
    refine List.nodup_append.mpr ⟨honce, profileScopeClaims_once scope kept, ?_⟩
    intro name hname other hother heq
    obtain ⟨m, hm, rfl⟩ := List.mem_map.mp hname
    obtain ⟨m', hm', rfl⟩ := List.mem_map.mp hother
    exact (mem_profileScopeClaims hkept hm').1 (heq ▸ hnames m hm)
  · intro m hm
    rw [hnone] at hm
    refine ⟨hnames m hm, ?_⟩
    rw [hanswer]
    rcases List.mem_append.mp hm with hm | hm
    · exact List.mem_append_left _ (List.mem_append_left _ hm)
    · exact List.mem_append_right _ hm
  · intro m hm
    rcases hmem hm with hm | hm
    · exact Or.inl (hnone ▸ hm)
    · obtain ⟨hname, hscope, htell, -⟩ := mem_profileScopeClaims hkept hm
      exact Or.inr ⟨hname, hscope, htell⟩
  · intro v hv
    rcases hmem hv with hm | hm
    · exact absurd (hnames _ hm) mark_apart
    · obtain ⟨-, -, -, hmarked⟩ := mem_profileScopeClaims hkept hm
      obtain ⟨email, name, hguess, hname⟩ := hmarked rfl
      exact ⟨email, name, hguess, htold hname⟩
  · intro v hv
    rcases hmem hv with hm | hm
    · exact upstreamAcr_apart (hnames _ hm)
    · obtain ⟨-, -, htell, -⟩ := mem_profileScopeClaims hkept hm
      generalize hm' : (js "upstream_acr", v) = m at htell
      cases htell with
      | listed hlisted hpermitted =>
        cases hm'
        exact upstreamAcr_unlisted hlisted
      | guessed hinferred hguess =>
        have hne : js "upstream_acr" ≠ js "urn:sag:name_inferred" := by decide
        exact hne (congrArg Prod.fst hm')
  · rw [hanswer, hanswer, profileScopeClaims_strike]

/-- The claims of an id_token as they are signed: the digest of the access token is set
last. -/
def signedClaims (atHash : JsString) (claims : Members) : Members := assign claims [(js "at_hash", .str atHash)]

/-- The names of the `email` scope. -/
theorem emailClaims_names (scope : List JsString) (email : JsString) (emailVerified : Option Bool) :
    (emailClaims scope email emailVerified).map Prod.fst ∈
      [[], [js "email"], [js "email", js "email_verified"]] := by
  unfold emailClaims
  by_cases hscope : js "email" ∈ scope
  · rw [if_pos hscope]
    by_cases hverified : emailVerified = some true
    · rw [if_pos hverified]
      exact List.mem_cons_of_mem _ (List.mem_cons_of_mem _ List.mem_cons_self)
    · rw [if_neg hverified]
      exact List.mem_cons_of_mem _ List.mem_cons_self
  · rw [if_neg hscope]
    exact List.mem_cons_self

/-- What is told has none of the names of the protocol, whatever was kept. -/
theorem profileScopeClaims_apart {scope : List JsString} {kept : Option Members} {own : Members}
    (hown : ∀ m ∈ own, m.1 ∈ PROTOCOL_CLAIMS) :
    ∀ m ∈ profileScopeClaims config scope kept, ∀ m' ∈ own, m'.1 ≠ m.1 := by
  intro m hm m' hm' heq
  have hname : m.1 ∈ PROTOCOL_CLAIMS := heq ▸ hown m' hm'
  unfold profileScopeClaims at hm
  split at hm
  · cases kept with
    | none => cases hm
    | some held =>
      rw [Option.map_some, Option.getD_some, outboundClaims_eq] at hm
      rcases List.mem_append.mp hm with hm | hm
      · exact listed_apart _ (mem_listedClaims hm).1 hname
      · rw [(mem_guessMark hm).1] at hname
        exact mark_apart hname
  · cases hm

/-- The claims of an id_token that do not depend on what was kept. -/
def ownClaims (config : Config) (now : Nat) (grant : CodePayload) (audience : JsString) (nonce : Option JsString) :
    Members :=
  [(js "iss", .str config.issuer), (js "sub", .str grant.sub), (js "aud", .str audience), (js "iat", .ofNat now),
      (js "exp", .ofNat (now + config.tokens.idTokenTtlSeconds)), (js "auth_time", .ofNat grant.authTime),
      (js "acr", .str grant.acr), (js "amr", .arr (grant.amr.map .str)), (js "sid", .str grant.sid)] ++
    (nonce.map fun n => (js "nonce", Json.str n)).toList ++ emailClaims grant.scope grant.email grant.emailVerified

theorem ownClaims_names (now : Nat) (grant : CodePayload) (audience : JsString) (nonce : Option JsString) :
    ∃ nonces ∈ [[], [js "nonce"]], ∃ emails ∈ [[], [js "email"], [js "email", js "email_verified"]],
      (ownClaims config now grant audience nonce).map Prod.fst =
        [js "iss", js "sub", js "aud", js "iat", js "exp", js "auth_time", js "acr", js "amr", js "sid"] ++ nonces ++
          emails := by
  refine ⟨((nonce.map fun n => (js "nonce", Json.str n)).toList).map Prod.fst, ?_,
    (emailClaims grant.scope grant.email grant.emailVerified).map Prod.fst, emailClaims_names _ _ _, ?_⟩
  · cases nonce with
    | none => exact List.mem_cons_self
    | some n => exact List.mem_cons_of_mem _ List.mem_cons_self
  · rw [ownClaims, List.map_append, List.map_append]
    rfl

theorem mem_of_names {own : Members} {names : List JsString} (h : ∀ name ∈ own.map Prod.fst, name ∈ names) :
    ∀ m ∈ own, m.1 ∈ names :=
  fun m hm => h m.1 (List.mem_map.mpr ⟨m, hm, rfl⟩)

/-- An id_token contains what was kept. -/
theorem idToken_contained (now : Nat) (grant : CodePayload) (audience atHash : JsString) (nonce : Option JsString)
    (hkept : Gathered rt config grant.claims) : Contained rt config grant.scope
      (fun kept => signedClaims atHash (idTokenClaimsAt config now { grant with claims := kept } audience nonce))
      grant.claims := by
  have hall : ∀ nonces ∈ [[], [js "nonce"]], ∀ emails ∈ [[], [js "email"], [js "email", js "email_verified"]],
      ([js "iss", js "sub", js "aud", js "iat", js "exp", js "auth_time", js "acr", js "amr", js "sid"] ++ nonces ++
        emails ++ [js "at_hash"]).Nodup ∧
      ∀ name ∈ [js "iss", js "sub", js "aud", js "iat", js "exp", js "auth_time", js "acr", js "amr", js "sid"] ++
        nonces ++ emails ++ [js "at_hash"], name ∈ PROTOCOL_CLAIMS := by
    decide
  obtain ⟨nonces, hnonces, emails, hemails, (hown : (ownClaims config now grant audience nonce).map _ = _)⟩ :=
    ownClaims_names now grant audience nonce
  obtain ⟨honce, hnames⟩ := hall nonces hnonces emails hemails
  have hmap : (ownClaims config now grant audience nonce ++ [(js "at_hash", Json.str atHash)]).map Prod.fst =
      [js "iss", js "sub", js "aud", js "iat", js "exp", js "auth_time", js "acr", js "amr", js "sid"] ++ nonces ++
        emails ++ [js "at_hash"] := by
    rw [List.map_append, hown]
    rfl
  rw [← hmap] at honce hnames
  have hfixed := mem_of_names hnames
  refine contained_between (fun kept => ?_) hfixed honce hkept
  have hfront : ∀ m ∈ ownClaims config now grant audience nonce, m.1 ∈ PROTOCOL_CLAIMS :=
    fun m hm => hfixed m (List.mem_append_left _ hm)
  have htoken : idTokenClaimsAt config now { grant with claims := kept } audience nonce =
      ownClaims config now grant audience nonce ++ profileScopeClaims config grant.scope kept :=
    assign_apart (profileScopeClaims_apart hfront)
  show signedClaims atHash (idTokenClaimsAt config now { grant with claims := kept } audience nonce) = _
  rw [htoken]
  refine assign_apart fun m hm m' hm' heq => ?_
  rw [List.mem_singleton.mp hm] at heq
  rcases List.mem_append.mp hm' with hm' | hm'
  · -- the digest is not among the claims before it
    rw [List.map_append] at honce
    exact (List.nodup_append.mp honce).2.2 m'.1 (List.mem_map.mpr ⟨m', hm', rfl⟩) (js "at_hash")
      List.mem_cons_self heq
  · exact profileScopeClaims_apart hfixed m' hm' _ (List.mem_append_right _ List.mem_cons_self) heq.symm

/-- The claims that `/userinfo` tells after those of the person. -/
def contextClaims (grant : AccessToken) : Members :=
  [(js "acr", .str grant.acr), (js "amr", .arr (grant.amr.map .str)), (js "auth_time", .ofNat grant.authTime)]

/-- So does an answer of `/userinfo`. -/
theorem userinfo_contained (grant : AccessToken) (hkept : Gathered rt config grant.claims) :
    Contained rt config grant.scope (fun kept => userinfoClaims config { grant with claims := kept }) grant.claims := by
  have hall : ∀ emails ∈ [[], [js "email"], [js "email", js "email_verified"]],
      ((js "sub" :: emails) ++ [js "acr", js "amr", js "auth_time"]).Nodup ∧
      ∀ name ∈ (js "sub" :: emails) ++ [js "acr", js "amr", js "auth_time"], name ∈ PROTOCOL_CLAIMS := by
    decide
  obtain ⟨honce, hnames⟩ := hall _ (emailClaims_names grant.scope grant.email grant.emailVerified)
  have hmap : (((js "sub", Json.str grant.sub) :: emailClaims grant.scope grant.email grant.emailVerified) ++
      contextClaims grant).map Prod.fst =
      (js "sub" :: (emailClaims grant.scope grant.email grant.emailVerified).map Prod.fst) ++
        [js "acr", js "amr", js "auth_time"] := by
    rw [List.map_append]
    rfl
  rw [← hmap] at honce hnames
  have hfixed := mem_of_names hnames
  refine contained_between (fun kept => ?_) hfixed honce hkept
  exact congrArg (· ++ contextClaims grant)
    (assign_apart (profileScopeClaims_apart fun m hm => hfixed m (List.mem_append_left _ hm)))

end Sag
