import Sag.Oauth.Clientauth
import Sag.Util.Percent
import Sag.Browser

/-!
# Basic credentials

A client that authenticates with HTTP Basic encodes its id and its secret as a form does, joins
them with a colon and sends them in base64. `readCredentials` undoes all three, but reads the two
halves with `decodeURIComponent`, for which a plus sign stands for itself: where the id or the
secret has a space, what is read has a plus sign instead (`basic_exact`).
-/

namespace Sag

variable {rt : Runtime}

/-- The decoders of the platform. -/
structure Decodes (rt : Runtime) : Prop where
  utf8 : rt.fromUtf8 = fromUtf8
  component : rt.decodeURIComponent = decodeURIComponent

/-- The header that a client sends. -/
def basicHeader (id secret : JsString) : JsString :=
  js "Basic " ++ b64 (utf8 (formEncode id ++ js ":" ++ formEncode secret))

/-- The body presents no credential of its own, and names no other client. -/
structure Unburdened (params : Form) (id : JsString) : Prop where
  clientId : single params (js "client_id") = .ok none ∨
    ∃ v, single params (js "client_id") = .ok (some v) ∧ v.text = id
  secret : single params (js "client_secret") = .ok none
  assertion : single params (js "client_assertion") = .ok none

/-! ## Reading the header -/

theorem hexByte_spec (b : UInt8) : ∀ u ∈ hexByte b, u < 128 ∧ u ≠ 58 ∧ isSpace u = false := by
  have hall : ∀ n : Fin 256, ∀ u ∈ hexByte (UInt8.ofNat n), u < 128 ∧ u ≠ 58 ∧ isSpace u = false := by decide +kernel
  have hb := hall ⟨b.toNat, b.toNat_lt⟩
  rwa [UInt8.ofNat_toNat] at hb

theorem formEncode_spec (s : JsString) : ∀ u ∈ formEncode s, u < 128 ∧ u ≠ 58 := by
  intro u hu
  obtain ⟨b, -, hu⟩ := List.mem_flatMap.mp hu
  unfold formByte at hu
  split at hu
  · rw [List.mem_singleton.mp hu]
    decide
  · split at hu
    · next hsafe =>
      obtain ⟨hlt, -, hcolon⟩ := formSafe_spec hsafe
      have hnat : (UInt16.ofNat b.toNat).toNat = b.toNat :=
        UInt16.toNat_ofNat_of_lt' (by simp [UInt16.size]; omega)
      rw [List.mem_singleton.mp hu]
      refine ⟨?_, fun heq => hcolon ?_⟩
      · show (UInt16.ofNat b.toNat).toNat < 128
        omega
      · rw [← hnat, heq]
        rfl
    · rcases List.mem_cons.mp hu with rfl | hu
      · decide
      · exact ⟨(hexByte_spec b u hu).1, (hexByte_spec b u hu).2.1⟩

theorem formEncode_ne_nil {s : JsString} (h : s ≠ []) : formEncode s ≠ [] := by
  cases s with
  | nil => exact absurd rfl h
  | cons u s =>
    intro hnil
    have hbytes : utf8 (u :: s) ≠ [] := by
      intro hutf
      have hpoints : ∀ p, utf8Point p ≠ [] := by
        intro p
        unfold utf8Point
        dsimp only
        repeat' split
        all_goals exact List.cons_ne_nil _ _
      unfold utf8 codePoints at hutf
      cases s with
      | nil => exact hpoints _ (List.append_eq_nil_iff.mp hutf).1
      | cons v s =>
        dsimp only at hutf
        split at hutf
        · exact hpoints _ (List.append_eq_nil_iff.mp hutf).1
        · exact hpoints _ (List.append_eq_nil_iff.mp hutf).1
    obtain ⟨b, rest, hcons⟩ := List.exists_cons_of_ne_nil hbytes
    rw [formEncode, hcons, List.flatMap_cons] at hnil
    have hbyte := (List.append_eq_nil_iff.mp hnil).1
    unfold formByte percentByte at hbyte
    split at hbyte
    · cases hbyte
    · split at hbyte <;> cases hbyte

/-- ASCII bytes are read as the text they were written for. -/
theorem fromUtf8_utf8 {s : JsString} (h : ∀ u ∈ s, u < 128) : fromUtf8 (utf8 s) = s := by
  rw [utf8_ascii h, fromUtf8_ascii, List.map_map]
  · refine (List.map_congr_left fun u hu => ?_).trans (List.map_id s)
    have hlt : u.toNat < 128 := h u hu
    have hbyte : (UInt8.ofNat u.toNat).toNat = u.toNat := UInt8.toNat_ofNat_of_lt' (by simp [UInt8.size]; omega)
    rw [Function.comp_apply, hbyte, UInt16.ofNat_toNat]
    rfl
  · intro b hb
    obtain ⟨u, hu, rfl⟩ := List.mem_map.mp hb
    have hlt : u.toNat < 128 := h u hu
    show (UInt8.ofNat u.toNat).toNat < 128
    rw [UInt8.toNat_ofNat_of_lt' (by simp [UInt8.size]; omega)]
    exact hlt

/-- The header is taken apart into what went in, with plus signs for spaces. -/
theorem basicCredentials_header (hrt : Decodes rt) {id secret : JsString} (hne : id ≠ [])
    (hid : WellFormedText id) (hsecret : WellFormedText secret) :
    basicCredentials rt (basicHeader id secret) = .ok (id.map spaceToPlus, secret.map spaceToPlus) := by
  have htext : ∀ u ∈ formEncode id ++ js ":" ++ formEncode secret, u < 128 := by
    intro u hu
    rcases List.mem_append.mp hu with hu | hu
    · rcases List.mem_append.mp hu with hu | hu
      · exact (formEncode_spec id u hu).1
      · rw [List.mem_singleton.mp hu]
        decide
    · exact (formEncode_spec secret u hu).1
  have hbreak : breakFirst 58 (formEncode id ++ js ":" ++ formEncode secret) =
      some (formEncode id, formEncode secret) := by
    rw [breakFirst_eq_some_iff]
    refine ⟨List.append_assoc _ _ _, fun hcolon => ?_⟩
    exact (formEncode_spec id 58 hcolon).2 rfl
  obtain ⟨u, rest, hcons⟩ := List.exists_cons_of_ne_nil (formEncode_ne_nil hne)
  have hdrop : (basicHeader id secret).drop 6 = b64 (utf8 (formEncode id ++ js ":" ++ formEncode secret)) := rfl
  unfold basicCredentials safeDecode
  rw [hdrop, trim_of_no_space (b64_no_space _), unb64_b64, Option.map_some, hrt.utf8, hrt.component,
    fromUtf8_utf8 htext, Option.bind_some, hbreak, hcons]
  dsimp only
  rw [← hcons, decode_formEncode hid, decode_formEncode hsecret]
  rfl

theorem isBasic_basicHeader (id secret : JsString) : isBasic (basicHeader id secret) = true := rfl

/-! ## What is read -/

theorem map_spaceToPlus {s : JsString} : s.map spaceToPlus = s ↔ 32 ∉ s := by
  induction s with
  | nil => exact ⟨fun _ => List.not_mem_nil, fun _ => rfl⟩
  | cons u s ih =>
    rw [List.map_cons, List.cons.injEq, ih, List.mem_cons, not_or]
    refine and_congr ⟨fun hu heq => ?_, fun hu => if_neg fun heq => hu heq.symm⟩ Iff.rfl
    rw [← heq] at hu
    exact absurd hu (by decide)

/-- The credentials of a client, without a secret in the body or an assertion. -/
def basicOnly (id secret : JsString) : Credentials :=
  ⟨some id, js "client_secret_basic", some secret, none⟩

/-- Where the body adds nothing, the header decides. -/
theorem readCredentials_header {authorization : Option JsString} {params : Form} {c : Option Value}
    (hclient : single params (js "client_id") = .ok c) (hsecret : single params (js "client_secret") = .ok none)
    (hassertion : single params (js "client_assertion") = .ok none) :
    (∀ id secret, readBasic rt authorization (textOf c) = .ok (some (id, secret)) →
      readCredentials rt authorization params = .ok (basicOnly id secret)) ∧
    ∀ e, readBasic rt authorization (textOf c) = .error e → readCredentials rt authorization params = .error e := by
  have hread : readAssertion params = .ok none := by
    unfold readAssertion
    rw [hassertion]
    rfl
  constructor
  · intro id secret hbasic
    unfold readCredentials
    simp only [hclient, hsecret, hread, bind, Except.bind, hbasic]
    rfl
  · intro e hbasic
    unfold readCredentials
    simp only [hclient, bind, Except.bind, hbasic]

/-- The header is refused only where the body has the client's true name. -/
theorem readBasic_header (hrt : Decodes rt) {id secret : JsString} (hne : id ≠ [])
    (hid : WellFormedText id) (hsecret : WellFormedText secret) (clientId : Option JsString) :
    readBasic rt (some (basicHeader id secret)) clientId =
      if clientId.any (· ≠ id.map spaceToPlus) then
        .error (invalidClient (js "The client_id in the body does not match the Authorization header."))
      else .ok (some (id.map spaceToPlus, secret.map spaceToPlus)) := by
  have hfilter : (some (basicHeader id secret)).filter isBasic = some (basicHeader id secret) := by
    rw [Option.filter_some, if_pos (isBasic_basicHeader id secret)]
  unfold readBasic
  rw [hfilter]
  simp only [basicCredentials_header hrt hne hid hsecret, bind, Except.bind]

/-- The id and the secret are read back just if neither has a space. -/
theorem basic_exact (hrt : Decodes rt) {id secret : JsString} (hne : id ≠ []) (hid : WellFormedText id)
    (hsecret : WellFormedText secret) {params : Form} (hparams : Unburdened params id) :
    readCredentials rt (some (basicHeader id secret)) params = .ok (basicOnly id secret) ↔ 32 ∉ id ∧ 32 ∉ secret := by
  obtain ⟨c, hclient, hnamed⟩ : ∃ c,
    single params (js "client_id") = .ok c ∧ ∀ text, textOf c = some text → text = id := by
    rcases hparams.clientId with hclient | ⟨v, hclient, htext⟩
    · exact ⟨none, hclient, nofun⟩
    · exact ⟨some v, hclient, fun text h => (Option.some.inj h).symm.trans htext⟩
  obtain ⟨hread, hthrow⟩ := @readCredentials_header rt (some (basicHeader id secret)) params c hclient
    hparams.secret hparams.assertion
  have hbasic := readBasic_header hrt hne hid hsecret (textOf c)
  constructor
  · intro h
    by_cases hother : (textOf c).any (· ≠ id.map spaceToPlus) = true
    · rw [if_pos hother] at hbasic
      rw [hthrow _ hbasic] at h
      cases h
    · rw [if_neg hother] at hbasic
      rw [hread _ _ hbasic] at h
      have hfields := Except.ok.inj h
      rw [basicOnly, basicOnly, Credentials.mk.injEq] at hfields
      exact ⟨map_spaceToPlus.mp (Option.some.inj hfields.1), map_spaceToPlus.mp (Option.some.inj hfields.2.2.1)⟩
  · intro ⟨hid', hsecret'⟩
    rw [map_spaceToPlus.mpr hid', map_spaceToPlus.mpr hsecret', if_neg] at hbasic
    · exact hread id secret hbasic
    · intro hother
      obtain ⟨text, htext, hne'⟩ := (Option.any_eq_true _ _).mp hother
      exact of_decide_eq_true hne' (hnamed text htext)

namespace Sample

/-- The sample platform with the decoders there are. -/
def decoding : Runtime := { runtime with fromUtf8 := fromUtf8, decodeURIComponent := decodeURIComponent }

theorem decoding_decodes : Decodes decoding := ⟨rfl, rfl⟩

/-- A secret of two words is read as one. -/
theorem spaced_secret : Decodes decoding ∧ Unburdened [] (js "notes") ∧ WellFormedText (js "two words") ∧
    basicHeader (js "notes") (js "two words") = js "Basic bm90ZXM6dHdvK3dvcmRz" ∧
    readCredentials decoding (some (basicHeader (js "notes") (js "two words"))) [] ≠
      .ok (basicOnly (js "notes") (js "two words")) := by
  have hparams : Unburdened [] (js "notes") := ⟨Or.inl rfl, rfl, rfl⟩
  have htexts : (∀ p ∈ codePoints (js "notes"), p < 0xD800) ∧ (∀ p ∈ codePoints (js "two words"), p < 0xD800) ∧
      basicHeader (js "notes") (js "two words") = js "Basic bm90ZXM6dHdvK3dvcmRz" := by decide +kernel
  have hid : WellFormedText (js "notes") := fun p hp => Or.inl (htexts.1 p hp)
  have hsecret : WellFormedText (js "two words") := fun p hp => Or.inl (htexts.2.1 p hp)
  refine ⟨decoding_decodes, hparams, hsecret, htexts.2.2, ?_⟩
  intro h
  have hread := (@readCredentials_header decoding (some (basicHeader (js "notes") (js "two words"))) [] none
    rfl rfl rfl).1 _ _ (readBasic_header decoding_decodes (by decide) hid hsecret none)
  have hfields := Except.ok.inj (hread.symm.trans h)
  rw [basicOnly, basicOnly, Credentials.mk.injEq] at hfields
  exact absurd (Option.some.inj hfields.2.2.1) (by decide)

/-- Colons, percentByte signs and plus signs come through. -/
theorem marked_secret :
    readCredentials decoding (some (basicHeader (js "a:b") (js "50%+é"))) [] =
      .ok (basicOnly (js "a:b") (js "50%+é")) := by
  have htexts : (∀ p ∈ codePoints (js "a:b"), p < 0xD800) ∧ (∀ p ∈ codePoints (js "50%+é"), p < 0xD800) ∧
      32 ∉ js "a:b" ∧ 32 ∉ js "50%+é" := by decide +kernel
  exact (basic_exact decoding_decodes (by decide) (fun p hp => Or.inl (htexts.1 p hp))
    (fun p hp => Or.inl (htexts.2.1 p hp)) ⟨Or.inl rfl, rfl, rfl⟩).mpr htexts.2.2

end Sample

end Sag
