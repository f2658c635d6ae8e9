import Sag.Browser
import Sag.Cimd
import Sag.Util.IpText

/-!
# Public addresses

Which numbers are the addresses of public hosts, with no word on how they are written
(`PublicV4`, `PublicAddress`): `isPublicIp` finds just those, in any spelling (`isPublicIp_iff`).
So the host of a metadata document, and every address it resolves to, is public in whatever
spelling it comes (`passed_public`).
-/

namespace Sag

/-! ## Numbers -/

/-- The networks that are not public: their prefixes, and the bits of each. -/
def prefixes : List (Nat × Nat) :=
  [(0, 8), (10, 8), (100 * 4 + 1, 10), (127, 8), (169 * 256 + 254, 16), (172 * 16 + 1, 12), (192 * 65536, 24),
    (192 * 65536 + 2, 24), ((192 * 256 + 88) * 256 + 99, 24), (192 * 256 + 168, 16), (198 * 128 + 9, 15),
    ((198 * 256 + 51) * 256 + 100, 24), (203 * 65536 + 113, 24), (14, 4), (15, 4)]

/-- An IPv4 address in none of them. -/
def PublicV4 (n : Nat) : Prop := ∀ network ∈ prefixes, n / 2 ^ (32 - network.2) ≠ network.1

instance (n : Nat) : Decidable (PublicV4 n) := inferInstanceAs (Decidable (∀ network ∈ prefixes, _))

/-- `::ffff:0:0/96`. -/
def Mapped (n : Nat) : Prop := n / 2 ^ 32 = 0xffff

/-- `2002::/16`. -/
def SixToFour (n : Nat) : Prop := n / 2 ^ 112 = 0x2002

/-- `2001::/32`. -/
def Teredo (n : Nat) : Prop := n / 2 ^ 96 = 0x20010000

/-- `2000::/3`, without `2001:db8::/32` and `2001:2::/48`. -/
def GlobalUnicast (n : Nat) : Prop := n / 2 ^ 125 = 1 ∧ n / 2 ^ 96 ≠ 0x20010db8 ∧ n / 2 ^ 80 ≠ 0x200100020000

/-- An IPv6 address that is public, or in which a public IPv4 address stands. -/
structure PublicAddress (n : Nat) : Prop where
  mapped : Mapped n → PublicV4 (n % 2 ^ 32)
  sixToFour : SixToFour n → PublicV4 (n / 2 ^ 80 % 2 ^ 32)
  teredo : Teredo n → PublicV4 (2 ^ 32 - 1 - n % 2 ^ 32)
  unicast : ¬ Mapped n → GlobalUnicast n

theorem PublicAddress.of_mapped {n : Nat} (hm : Mapped n) (h : PublicV4 (n % 2 ^ 32)) : PublicAddress n := by
  unfold Mapped at hm
  refine ⟨fun _ => h, fun hs => ?_, fun ht => ?_, fun hno => absurd hm hno⟩
  · unfold SixToFour at hs
    omega
  · unfold Teredo at ht
    omega

theorem PublicAddress.of_sixToFour {n : Nat} (hs : SixToFour n) (h : PublicV4 (n / 2 ^ 80 % 2 ^ 32)) :
    PublicAddress n := by
  unfold SixToFour at hs
  refine ⟨fun hm => ?_, fun _ => h, fun ht => ?_, fun _ => ?_⟩
  · unfold Mapped at hm
    omega
  · unfold Teredo at ht
    omega
  · unfold GlobalUnicast
    omega

theorem PublicAddress.of_teredo {n : Nat} (ht : Teredo n) (h : PublicV4 (2 ^ 32 - 1 - n % 2 ^ 32)) :
    PublicAddress n := by
  unfold Teredo at ht
  refine ⟨fun hm => ?_, fun hs => ?_, fun _ => h, fun _ => ?_⟩
  · unfold Mapped at hm
    omega
  · unfold SixToFour at hs
    omega
  · unfold GlobalUnicast
    omega

theorem PublicAddress.of_unicast {n : Nat} (hm : ¬ Mapped n) (hs : ¬ SixToFour n) (ht : ¬ Teredo n)
    (h : GlobalUnicast n) : PublicAddress n :=
  ⟨fun hno => absurd hno hm, fun hno => absurd hno hs, fun hno => absurd hno ht, fun _ => h⟩

/-- The number with these words. -/
def number (ws : List Nat) : Nat := ws.foldl (fun n w => n * 65536 + w) 0

/-! ## IPv4 -/

theorem blocked_prefixes :
    blockedRanges.map (fun (base, bits) => ((ipv4Number base).getD 0, bits)) =
      prefixes.map fun (p, bits) => (p * 2 ^ (32 - bits), bits) := by
  decide +kernel

theorem inV4Range_iff (n p bits : Nat) : inV4Range n (p * 2 ^ (32 - bits)) bits = true ↔ n / 2 ^ (32 - bits) = p := by
  have hpos : 0 < 2 ^ (32 - bits) := Nat.two_pow_pos _
  rw [Nat.div_eq_iff hpos, inV4Range]
  simp only [Bool.and_eq_true, decide_eq_true_eq]
  omega

theorem isPublicIpv4_iff {value : JsString} {n : Nat} (h : DottedQuad value n) :
    isPublicIpv4 value = true ↔ PublicV4 n := by
  have hranges : (blockedRanges.any fun (base, bits) => inV4Range n ((ipv4Number base).getD 0) bits) =
      (prefixes.map fun (p, bits) => (p * 2 ^ (32 - bits), bits)).any fun range => inV4Range n range.1 range.2 := by
    rw [← blocked_prefixes, List.any_map]
    rfl
  rw [isPublicIpv4, ipv4Number_iff.mpr h]
  simp only [hranges, List.any_map, Bool.not_eq_true', List.any_eq_false, Function.comp, inV4Range_iff]
  rfl

theorem quad_of_public {value : JsString} (h : isPublicIpv4 value = true) : ∃ n, DottedQuad value n ∧ PublicV4 n := by
  cases hn : ipv4Number value with
  | none =>
    rw [isPublicIpv4, hn] at h
    cases h
  | some n => exact ⟨n, ipv4Number_iff.mp hn, (isPublicIpv4_iff (ipv4Number_iff.mp hn)).mp h⟩

theorem octet_decimal : ∀ a : Fin 256, isOctet (decimal a) = true ∧ decimalValue (decimal a) = a := by decide +kernel

/-- The octets of two words. -/
theorem dotted_words {high low : Nat} (hhigh : high < 65536) (hlow : low < 65536) :
    DottedQuad (dotted [high >>> 8, high &&& 255, low >>> 8, low &&& 255]) (high * 65536 + low) := by
  have hshift : ∀ w : Nat, w >>> 8 = w / 256 := fun w => Nat.shiftRight_eq_div_pow w 8
  have hmask : ∀ w : Nat, w &&& 255 = w % 256 := fun w => Nat.and_two_pow_sub_one_eq_mod w 8
  have hoctet : ∀ {a : Nat}, a < 256 → isOctet (decimal a) = true ∧ decimalValue (decimal a) = a :=
    fun ha => octet_decimal ⟨_, ha⟩
  have h₁ := hoctet (a := high / 256) (by omega)
  have h₂ := hoctet (a := high % 256) (by omega)
  have h₃ := hoctet (a := low / 256) (by omega)
  have h₄ := hoctet (a := low % 256) (by omega)
  have hquad := DottedQuad.mk (a := decimal (high / 256)) (b := decimal (high % 256)) (c := decimal (low / 256))
    (d := decimal (low % 256)) (by simp [h₁.1, h₂.1, h₃.1, h₄.1])
  rw [h₁.2, h₂.2, h₃.2, h₄.2] at hquad
  have hnumber : ((high / 256 * 256 + high % 256) * 256 + low / 256) * 256 + low % 256 = high * 65536 + low := by omega
  rw [hnumber] at hquad
  rw [hshift, hmask, hshift, hmask]
  simpa [dotted, List.intercalate] using hquad

/-- The octets of two words, each inverted. -/
theorem dotted_inverted {high low : Nat} (hhigh : high < 65536) (hlow : low < 65536) :
    DottedQuad (dotted [255 - (high >>> 8), 255 - (high &&& 255), 255 - (low >>> 8), 255 - (low &&& 255)])
      (2 ^ 32 - 1 - (high * 65536 + low)) := by
  have hshift : ∀ w : Nat, w >>> 8 = w / 256 := fun w => Nat.shiftRight_eq_div_pow w 8
  have hmask : ∀ w : Nat, w &&& 255 = w % 256 := fun w => Nat.and_two_pow_sub_one_eq_mod w 8
  have hhigh' : 65535 - high < 65536 := by omega
  have hlow' : 65535 - low < 65536 := by omega
  have hquad := dotted_words hhigh' hlow'
  simp only [hshift, hmask] at hquad ⊢
  have hdiv : ∀ w : Nat, w < 65536 → (65535 - w) / 256 = 255 - w / 256 := by
    intro w hw
    omega
  have hmod : ∀ w : Nat, w < 65536 → (65535 - w) % 256 = 255 - w % 256 := by
    intro w hw
    omega
  rw [hdiv high hhigh, hmod high hhigh, hdiv low hlow, hmod low hlow] at hquad
  have hnumber : (65535 - high) * 65536 + (65535 - low) = 2 ^ 32 - 1 - (high * 65536 + low) := by omega
  rw [← hnumber]
  exact hquad

/-! ## IPv6 -/

theorem global_mask {p : Nat} (h : p < 65536) : p &&& 0xe000 = 0x2000 ↔ p / 8192 = 1 := by
  -- the mask keeps the three bits at the top
  have hmask : p &&& 0xe000 = ((p >>> 13) &&& 7) <<< 13 := by
    apply Nat.eq_of_testBit_eq
    intro i
    rw [show (0xe000 : Nat) = 7 <<< 13 from rfl, Nat.testBit_and, Nat.testBit_shiftLeft, Nat.testBit_shiftLeft,
      Nat.testBit_and, Nat.testBit_shiftRight]
    by_cases hi : 13 ≤ i
    · rw [Nat.add_sub_cancel' hi]
      simp [hi]
    · simp [hi]
  rw [hmask, show (7 : Nat) = 2 ^ 3 - 1 from rfl, Nat.and_two_pow_sub_one_eq_mod, Nat.shiftRight_eq_div_pow,
    Nat.shiftLeft_eq]
  omega

theorem eight_words {ws : List Nat} (h : ws.length = 8) :
    ∃ p₀ p₁ p₂ p₃ p₄ p₅ p₆ p₇, ws = [p₀, p₁, p₂, p₃, p₄, p₅, p₆, p₇] := by
  match ws, h with
  | [p₀, p₁, p₂, p₃, p₄, p₅, p₆, p₇], _ => exact ⟨p₀, p₁, p₂, p₃, p₄, p₅, p₆, p₇, rfl⟩

theorem Spells.length {value : JsString} {ws : List Nat} (h : Spells value ws) : ws.length = 8 := by
  obtain ⟨body, zone, hbody, -⟩ := h
  exact hbody.length

theorem Spells.words {value : JsString} {ws : List Nat} (h : Spells value ws) : ∀ w ∈ ws, w < 65536 := by
  obtain ⟨body, zone, hbody, -⟩ := h
  exact hbody.words

theorem Spells.colon_mem {value : JsString} {ws : List Nat} (h : Spells value ws) : colon ∈ value := by
  obtain ⟨body, zone, hbody, -, hvalue⟩ := h
  obtain ⟨u, hu, hcolon⟩ := List.mem_map.mp hbody.colon_mem
  rw [(lowerUnit_sign (by decide) (by decide) u).mp hcolon] at hu
  rcases hvalue with rfl | rfl <;> simp [hu]

variable {rt : Runtime}

theorem two_words {top high low : Nat} (hhigh : high < 65536) (hlow : low < 65536) :
    ((top * 65536 + high) * 65536 + low) % 2 ^ 32 = high * 65536 + low := by
  omega

theorem isPublicIp_iff (hT : rt.cases.Foreign) {value : JsString} {ws : List Nat} (h : Spells value ws) :
    isPublicIp rt value = true ↔ PublicAddress (number ws) := by
  rw [isPublicIp, if_pos h.colon_mem, isPublicIpv6, parts_of_spells hT h]
  have hwords := h.words
  obtain ⟨p₀, p₁, p₂, p₃, p₄, p₅, p₆, p₇, rfl⟩ := eight_words h.length
  simp only [List.mem_cons, List.not_mem_nil, or_false, forall_eq_or_imp, forall_eq] at hwords
  obtain ⟨h₀, h₁, h₂, h₃, h₄, h₅, h₆, h₇⟩ := hwords
  simp only [number, List.foldl_cons, List.foldl_nil]
  generalize hn : (((((((0 * 65536 + p₀) * 65536 + p₁) * 65536 + p₂) * 65536 + p₃) * 65536 + p₄) * 65536 + p₅) *
    65536 + p₆) * 65536 + p₇ = n
  -- an address within
  have hlow : n % 2 ^ 32 = p₆ * 65536 + p₇ := by rw [← hn, two_words h₆ h₇]
  have hrest : n / 2 ^ 80 = ((0 * 65536 + p₀) * 65536 + p₁) * 65536 + p₂ := by omega
  have hhigh : n / 2 ^ 80 % 2 ^ 32 = p₁ * 65536 + p₂ := by rw [hrest, two_words h₁ h₂]
  have hmapped : Mapped n ↔ (p₀ = 0 ∧ p₁ = 0 ∧ p₂ = 0 ∧ p₃ = 0 ∧ p₄ = 0) ∧ p₅ = 0xffff := by
    unfold Mapped
    omega
  have hsix : SixToFour n ↔ p₀ = 0x2002 := by
    unfold SixToFour
    omega
  have hteredo : Teredo n ↔ p₀ = 0x2001 ∧ p₁ = 0 := by
    unfold Teredo
    omega
  have hglobal : GlobalUnicast n ↔ p₀ / 8192 = 1 ∧ ¬ (p₀ = 0x2001 ∧ p₁ = 0x0db8) ∧
      ¬ (p₀ = 0x2001 ∧ p₁ = 0x0002 ∧ p₂ = 0) := by
    unfold GlobalUnicast
    omega
  have hlast := isPublicIpv4_iff (dotted_words h₆ h₇)
  have hfirst := isPublicIpv4_iff (dotted_words h₁ h₂)
  have hinverted := isPublicIpv4_iff (dotted_inverted h₆ h₇)
  rw [← hlow] at hlast hinverted
  rw [← hhigh] at hfirst
  simp only [List.take_succ_cons, List.take_zero, List.all_cons, List.all_nil, List.getD_cons_zero,
    List.getD_cons_succ, Bool.and_true, Bool.and_eq_true, decide_eq_true_eq]
  split
  · next hc =>
    have hm : Mapped n := hmapped.mpr hc
    rw [hlast]
    exact ⟨PublicAddress.of_mapped hm, fun hp => hp.mapped hm⟩
  · next hc =>
    have hm : ¬ Mapped n := fun hm => hc (hmapped.mp hm)
    split
    · next hc₂ =>
      have hs : SixToFour n := hsix.mpr hc₂
      rw [hfirst]
      exact ⟨PublicAddress.of_sixToFour hs, fun hp => hp.sixToFour hs⟩
    · next hc₂ =>
      have hs : ¬ SixToFour n := fun hs => hc₂ (hsix.mp hs)
      split
      · next hc₃ =>
        have ht : Teredo n := hteredo.mpr hc₃
        rw [hinverted]
        exact ⟨PublicAddress.of_teredo ht, fun hp => hp.teredo ht⟩
      · next hc₃ =>
        have ht : ¬ Teredo n := fun ht => hc₃ (hteredo.mp ht)
        have hbits : (p₀ &&& 0xe000 = 0x2000) = (p₀ / 8192 = 1) := propext (global_mask h₀)
        have hanswer : GlobalUnicast n ↔ PublicAddress n := ⟨.of_unicast hm hs ht, fun hp => hp.unicast hm⟩
        rw [← hanswer, hglobal]
        simp only [hbits, Bool.not_eq_true', ← Bool.not_eq_true, Bool.and_eq_true, decide_eq_true_eq, and_assoc]

theorem lowerUnit_of_unit {u : CodeUnit} (h : isAddressUnit u = true) : lowerUnit u = u := by
  rw [lowerUnit, if_neg]
  intro hupper
  obtain ⟨hlow, hhigh⟩ := isUpper_iff.mp hupper
  simp only [isAddressUnit, isLowerHex, isDigit, Bool.or_eq_true, Bool.and_eq_true, decide_eq_true_eq,
    UInt16.le_iff_toNat_le] at h
  rcases h with ((⟨-, h⟩ | ⟨h, -⟩) | h) | h
  · have h : u.toNat ≤ 57 := h
    omega
  · have h : 97 ≤ u.toNat := h
    omega
  · rw [h] at hlow
    revert hlow
    decide
  · rw [h] at hlow
    revert hlow
    decide

theorem map_lower {text : JsString} (h : ∀ u ∈ text, isAddressUnit u = true) : text.map lowerUnit = text := by
  rw [List.map_congr_left fun u hu => lowerUnit_of_unit (h u hu), List.map_id']

/-- Every address has a spelling. -/
theorem exists_spelling {n : Nat} (h : n < 2 ^ 128) : ∃ value ws, Spells value ws ∧ number ws = n := by
  obtain ⟨ws, hlength, hwords, hnumber⟩ :
      ∃ ws : List Nat, ws.length = 8 ∧ (∀ w ∈ ws, w < 65536) ∧ number ws = n := by
    refine ⟨[n / 2 ^ 112, n / 2 ^ 96 % 65536, n / 2 ^ 80 % 65536, n / 2 ^ 64 % 65536, n / 2 ^ 48 % 65536,
      n / 2 ^ 32 % 65536, n / 2 ^ 16 % 65536, n % 65536], rfl, ?_, ?_⟩
    · simp only [List.mem_cons, List.not_mem_nil, or_false, forall_eq_or_imp, forall_eq]
      omega
    · simp only [number, List.foldl_cons, List.foldl_nil]
      omega
  rcases List.eq_nil_or_concat ws with rfl | ⟨init, last, rfl⟩
  · cases hlength
  · rw [List.concat_eq_append] at hlength hwords hnumber
    have hgroup : ∀ w ∈ init ++ [last], isGroup (hexText w) = true ∧ hexValue (hexText w) = w :=
      fun w hw => hexText_word (hwords w hw)
    have hvalues : (init.map hexText).map hexValue ++ [hexValue (hexText last)] = init ++ [last] := by
      have hinit : (init.map hexText).map hexValue = init.map fun w => w := by
        rw [List.map_map]
        exact List.map_congr_left fun w hw => (hgroup w (List.mem_append_left _ hw)).2
      rw [(hgroup last (by simp)).2, hinit, List.map_id']
    have htext : AddressText Tail (lead (init.map hexText) ++ hexText last) (init ++ [last]) := by
      refine .full (.groups ?_) hlength
      rw [← hvalues]
      refine .listed (fun x hx => ?_) (hgroup last (by simp)).1
      obtain ⟨w, hw, rfl⟩ := List.mem_map.mp hx
      exact (hgroup w (List.mem_append_left _ hw)).1
    refine ⟨lead (init.map hexText) ++ hexText last, init ++ [last],
      ⟨_, [], ?_, Or.inl rfl, Or.inl (List.append_nil _).symm⟩, hnumber⟩
    rw [map_lower htext.units]
    exact htext

/-! ## Texts -/

/-- The text of a public address. -/
def PublicText (value : JsString) : Prop :=
  (∃ n, DottedQuad value n ∧ PublicV4 n) ∨ ∃ ws, Spells value ws ∧ PublicAddress (number ws)

/-- The text of an address that is not public. -/
def PrivateText (value : JsString) : Prop :=
  (∃ n, DottedQuad value n ∧ ¬ PublicV4 n) ∨ ∃ ws, Spells value ws ∧ ¬ PublicAddress (number ws)

theorem isPublicIp_quad {value : JsString} {n : Nat} (h : DottedQuad value n) :
    isPublicIp rt value = true ↔ PublicV4 n := by
  rw [isPublicIp, if_neg (colon_notMem_of_quad h)]
  exact isPublicIpv4_iff h

theorem isPublicIp_text (hT : rt.cases.Foreign) {value : JsString} : isPublicIp rt value = true ↔ PublicText value := by
  constructor
  · intro h
    by_cases hcolon : colon ∈ value
    · cases hparts : ipv6Parts rt value with
      | none =>
        rw [isPublicIp, if_pos hcolon, isPublicIpv6, hparts] at h
        cases h
      | some ws =>
        have hspells := spells_of_parts hT hparts
        exact Or.inr ⟨ws, hspells, (isPublicIp_iff hT hspells).mp h⟩
    · rw [isPublicIp, if_neg hcolon] at h
      exact Or.inl (quad_of_public h)
  · rintro (⟨n, hquad, hpublic⟩ | ⟨ws, hspells, hpublic⟩)
    · exact (isPublicIp_quad hquad).mpr hpublic
    · exact (isPublicIp_iff hT hspells).mpr hpublic

theorem not_public_of_private (hT : rt.cases.Foreign) {value : JsString} (h : PrivateText value) :
    ¬ isPublicIp rt value = true := by
  rcases h with ⟨n, hquad, hprivate⟩ | ⟨ws, hspells, hprivate⟩
  · exact fun hpublic => hprivate ((isPublicIp_quad hquad).mp hpublic)
  · exact fun hpublic => hprivate ((isPublicIp_iff hT hspells).mp hpublic)

/-! ## Without brackets, and in lower case -/

theorem DottedQuad.units {value : JsString} {n : Nat} (h : DottedQuad value n) :
    value ≠ [] ∧ ∀ u ∈ value, isDigit u = true ∨ u = dot := by
  cases h with
  | @mk a b c d octets =>
    refine ⟨by simp, fun u hu => ?_⟩
    have hpart : ∀ {x : JsString}, x ∈ [a, b, c, d] → u ∈ x → isDigit u = true ∨ u = dot :=
      fun hx hux => Or.inl (List.all_eq_true.mp (isOctet_digits (octets _ hx)).2.1 u hux)
    simp only [List.mem_append, List.mem_cons] at hu
    rcases hu with hu | hu | hu | hu | hu | hu | hu
    · exact hpart (by simp) hu
    · exact Or.inr hu
    · exact hpart (by simp) hu
    · exact Or.inr hu
    · exact hpart (by simp) hu
    · exact Or.inr hu
    · exact hpart (by simp) hu

theorem unit_of_quad {u : CodeUnit} (h : isDigit u = true ∨ u = dot) : isAddressUnit u = true := by
  rcases h with h | h <;> simp [isAddressUnit, isLowerHex, h]

theorem DottedQuad.toLowerCase {value : JsString} {n : Nat} (h : DottedQuad value n) :
    rt.cases.toLowerCase value = value := by
  have hunits : ∀ u ∈ value, isAddressUnit u = true := fun u hu => unit_of_quad (h.units.2 u hu)
  obtain ⟨before, heq⟩ := rt.cases.lowerAfter_append (fun u hu => (plain_of_unit (hunits u hu)).1.1) [] []
  rw [List.append_nil, CaseTables.lowerAfter_nil, List.append_nil, map_lower hunits] at heq
  exact heq

theorem Spells.toLowerCase (hT : rt.cases.Foreign) {value : JsString} {ws : List Nat} (h : Spells value ws) :
    Spells (rt.cases.toLowerCase value) ws := by
  obtain ⟨body, zone, hbody, hzone, hvalue⟩ := h.lower hT
  exact ⟨body, zone, by rw [map_lower hbody.units]; exact hbody, hzone, hvalue⟩

theorem stripBrackets_none {value : JsString} (hhead : value.head? ≠ some openBracket)
    (hlast : value.getLast? ≠ some closeBracket) : stripBrackets value = value := by
  rw [stripBrackets]
  simp only [if_neg hhead, if_neg hlast]

theorem DottedQuad.strip {value : JsString} {n : Nat} (h : DottedQuad value n) : stripBrackets value = value := by
  have hunits : ∀ u ∈ value, isAddressUnit u = true := fun u hu => unit_of_quad (h.units.2 u hu)
  refine stripBrackets_none (fun hhead => ?_) fun hlast => ?_
  · exact (plain_of_unit (hunits _ (List.mem_of_mem_head? hhead))).2.2 rfl
  · have hclose := hunits _ (List.mem_of_getLast? hlast)
    revert hclose
    decide

theorem Spells.strip {value : JsString} {ws : List Nat} (h : Spells value ws) : Spells (stripBrackets value) ws := by
  obtain ⟨body, zone, hbody, hzone, rfl | rfl⟩ := h
  · have hunits : ∀ u ∈ body, isAddressUnit (lowerUnit u) = true :=
      fun u hu => hbody.units _ (List.mem_map.mpr ⟨u, hu, rfl⟩)
    have hhead : (body ++ zone).head? ≠ some openBracket := by
      cases body with
      | nil => cases hbody.colon_mem
      | cons u body =>
        intro hu
        have hopen := (plain_of_unit (hunits u List.mem_cons_self)).2.2
        rw [Option.some.inj hu] at hopen
        exact hopen rfl
    by_cases hlast : (body ++ zone).getLast? = some closeBracket
    · rw [stripBrackets]
      simp only [if_neg hhead, if_pos hlast]
      rcases hzone with rfl | ⟨z, rfl⟩
      · rw [List.append_nil] at hlast
        exact absurd (hunits _ (List.mem_of_getLast? hlast)) (by decide)
      · -- the bracket belongs to the zone
        rcases List.eq_nil_or_concat z with rfl | ⟨z', v, rfl⟩
        · rw [List.getLast?_concat] at hlast
          cases hlast
        · refine ⟨body, percent :: z', hbody, Or.inr ⟨z', rfl⟩, Or.inl ?_⟩
          rw [List.concat_eq_append, ← List.cons_append, ← List.append_assoc, List.dropLast_concat]
    · rw [stripBrackets_none hhead hlast]
      exact ⟨body, zone, hbody, hzone, Or.inl rfl⟩
  · have hstrip : stripBrackets (openBracket :: (body ++ zone ++ [closeBracket])) = body ++ zone := by
      simp [stripBrackets]
    rw [hstrip]
    exact ⟨body, zone, hbody, hzone, Or.inl rfl⟩

theorem PrivateText.strip {value : JsString} (h : PrivateText value) : PrivateText (stripBrackets value) := by
  rcases h with ⟨n, hquad, hprivate⟩ | ⟨ws, hspells, hprivate⟩
  · rw [hquad.strip]
    exact Or.inl ⟨n, hquad, hprivate⟩
  · exact Or.inr ⟨ws, hspells.strip, hprivate⟩

theorem PrivateText.toLowerCase (hT : rt.cases.Foreign) {value : JsString} (h : PrivateText value) :
    PrivateText (rt.cases.toLowerCase value) := by
  rcases h with ⟨n, hquad, hprivate⟩ | ⟨ws, hspells, hprivate⟩
  · rw [hquad.toLowerCase]
    exact Or.inl ⟨n, hquad, hprivate⟩
  · exact Or.inr ⟨ws, hspells.toLowerCase hT, hprivate⟩

theorem PrivateText.isIpAddress (hT : rt.cases.Foreign) {value : JsString} (h : PrivateText value) :
    isIpAddress rt value = true := by
  rw [Sag.isIpAddress]
  rcases h with ⟨n, hquad, -⟩ | ⟨ws, hspells, -⟩
  · rw [ipv4Number_iff.mpr hquad]
    rfl
  · rw [parts_of_spells hT hspells, Option.isSome_some, Bool.or_true]

/-! ## The host of a document -/

/-- What development mode lets through. -/
def LetThrough (rt : Runtime) (devMode : Bool) (urlHostname : JsString) : Prop :=
  let hostname := rt.cases.toLowerCase (stripBrackets urlHostname)
  devMode = true ∧ (hostname = localhost ∨ isLoopbackIp rt hostname = true)

/-- A host that passes, or what it resolves to, is public. -/
theorem passed_public (hT : rt.cases.Foreign) {devMode : Bool} {resolve : JsString → Option (List JsString)}
    {urlHostname : JsString} (h : assertPublicCimdTarget rt devMode resolve urlHostname = .ok ()) :
    LetThrough rt devMode urlHostname ∨
      ∃ addresses, (if isIpAddress rt (rt.cases.toLowerCase (stripBrackets urlHostname)) then
          some [rt.cases.toLowerCase (stripBrackets urlHostname)]
        else resolve (rt.cases.toLowerCase (stripBrackets urlHostname))) = some addresses ∧
        addresses ≠ [] ∧ ∀ address ∈ addresses, PublicText (stripBrackets address) := by
  unfold assertPublicCimdTarget at h
  dsimp only at h
  generalize hhost : rt.cases.toLowerCase (stripBrackets urlHostname) = hostname at h ⊢
  split at h
  · next hdev =>
    left
    simpa [LetThrough, hhost] using hdev
  · right
    split at h
    · cases h
    · split at h
      · cases h
      · next addresses haddresses =>
        split at h
        · cases h
        · next hne =>
          split at h
          · cases h
          · next hall =>
            refine ⟨addresses, haddresses, hne, fun address hmem => (isPublicIp_text hT).mp ?_⟩
            simp only [List.any_eq_true, Bool.not_eq_true', not_exists, not_and, Bool.not_eq_false] at hall
            exact hall address hmem

/-- No spelling of a private address passes. -/
theorem private_refused (hT : rt.cases.Foreign) {devMode : Bool} {resolve : JsString → Option (List JsString)}
    {urlHostname : JsString} (h : assertPublicCimdTarget rt devMode resolve urlHostname = .ok ())
    (hdev : ¬ LetThrough rt devMode urlHostname) : ¬ PrivateText urlHostname := by
  intro hprivate
  have hhost := hprivate.strip.toLowerCase hT
  rcases passed_public hT h with hlet | ⟨addresses, haddresses, -, hpublic⟩
  · exact hdev hlet
  · rw [if_pos (hhost.isIpAddress hT)] at haddresses
    rw [← Option.some.inj haddresses] at hpublic
    exact not_public_of_private hT hhost.strip ((isPublicIp_text hT).mpr (hpublic _ List.mem_cons_self))

/-- What is known of addresses and of hosts that pass, whatever their spelling. -/
structure ByNumber (rt : Runtime) : Prop where
  /-- Every address has spellings, and they are read as its eight words; nothing else is. -/
  spelled : ∀ n, n < 2 ^ 128 → ∃ value ws, Spells value ws ∧ number ws = n
  words : ∀ value ws, Spells value ws → ws.length = 8 ∧ ∀ w ∈ ws, w < 65536
  read : ∀ value ws, ipv6Parts rt value = some ws ↔ Spells value ws
  octets : ∀ value n, ipv4Number value = some n ↔ DottedQuad value n
  same : ∀ value value' ws ws', Spells value ws → Spells value' ws' → number ws = number ws' →
    isPublicIp rt value = isPublicIp rt value'
  unicast : ∀ value ws, Spells value ws → isPublicIp rt value = true → GlobalUnicast (number ws) ∨ Mapped (number ws)
  mapped : ∀ value ws, Spells value ws → Mapped (number ws) →
    (isPublicIp rt value = true ↔ PublicV4 (number ws % 2 ^ 32))
  sixToFour : ∀ value ws, Spells value ws → SixToFour (number ws) →
    (isPublicIp rt value = true ↔ PublicV4 (number ws / 2 ^ 80 % 2 ^ 32))
  teredo : ∀ value ws, Spells value ws → Teredo (number ws) →
    (isPublicIp rt value = true ↔ PublicV4 (2 ^ 32 - 1 - number ws % 2 ^ 32))
  /-- A text that is no spelling of a public address is not public. -/
  only : ∀ value, isPublicIp rt value = true ↔ PublicText value
  hosts : ∀ devMode resolve urlHostname, assertPublicCimdTarget rt devMode resolve urlHostname = .ok () →
    LetThrough rt devMode urlHostname ∨
      ¬ PrivateText urlHostname ∧
        ∃ addresses, (if isIpAddress rt (rt.cases.toLowerCase (stripBrackets urlHostname)) then
            some [rt.cases.toLowerCase (stripBrackets urlHostname)]
          else resolve (rt.cases.toLowerCase (stripBrackets urlHostname))) = some addresses ∧
          addresses ≠ [] ∧
          ∀ address ∈ addresses, PublicText (stripBrackets address) ∧ ¬ PrivateText address

theorem classified_by_number (hT : rt.cases.Foreign) : ByNumber rt where
  spelled _ h := exists_spelling h
  words _ _ h := ⟨h.length, h.words⟩
  read _ _ := ipv6Parts_iff hT
  octets _ _ := ipv4Number_iff
  same value value' ws ws' h h' heq := by
    rw [Bool.eq_iff_iff, isPublicIp_iff hT h, isPublicIp_iff hT h', heq]
  unicast value ws h hpublic := by
    by_cases hm : Mapped (number ws)
    · exact Or.inr hm
    · exact Or.inl (((isPublicIp_iff hT h).mp hpublic).unicast hm)
  mapped value ws h hm := by
    rw [isPublicIp_iff hT h]
    exact ⟨fun hp => hp.mapped hm, PublicAddress.of_mapped hm⟩
  sixToFour value ws h hs := by
    rw [isPublicIp_iff hT h]
    exact ⟨fun hp => hp.sixToFour hs, PublicAddress.of_sixToFour hs⟩
  teredo value ws h ht := by
    rw [isPublicIp_iff hT h]
    exact ⟨fun hp => hp.teredo ht, PublicAddress.of_teredo ht⟩
  only _ := isPublicIp_text hT
  hosts devMode resolve urlHostname h := by
    by_cases hdev : LetThrough rt devMode urlHostname
    · exact Or.inl hdev
    · rcases passed_public hT h with hlet | ⟨addresses, haddresses, hne, hpublic⟩
      · exact absurd hlet hdev
      · refine Or.inr ⟨private_refused hT h hdev, addresses, haddresses, hne, ?_⟩
        intro address hmem
        refine ⟨hpublic address hmem, fun hprivate => ?_⟩
        exact not_public_of_private hT hprivate.strip ((isPublicIp_text hT).mpr (hpublic address hmem))

namespace Sample

theorem runtime_foreign : runtime.cases.Foreign where
  kept _ _ _ := nofun
  foreign p hp hmax q hq := by
    have hkept : asciiLower p = p := by
      unfold asciiLower
      rw [if_neg (by omega)]
    have hqp : q = asciiLower p := List.mem_singleton.mp hq
    rw [hqp, hkept]
    exact ⟨hmax, Or.inl hp⟩

theorem classified : runtime.cases.Foreign ∧ ByNumber runtime := ⟨runtime_foreign, classified_by_number runtime_foreign⟩

/-- Development mode fetches a document from the loopback address. -/
theorem loopback_passes :
    assertPublicCimdTarget runtime true (fun _ => none) (js "[::1]") = .ok () ∧ PrivateText (js "[::1]") := by
  have hloopback : isLoopbackIp runtime (runtime.cases.toLowerCase (stripBrackets (js "[::1]"))) = true := by
    decide +kernel
  have hparts : ipv6Parts runtime (js "[::1]") = some [0, 0, 0, 0, 0, 0, 0, 1] := by decide +kernel
  refine ⟨?_, Or.inr ⟨_, spells_of_parts runtime_foreign hparts, fun hpublic => ?_⟩⟩
  · rw [assertPublicCimdTarget]
    simp [hloopback]
  · have hunicast := hpublic.unicast (by unfold Mapped; decide)
    revert hunicast
    unfold GlobalUnicast
    decide

end Sample

end Sag
