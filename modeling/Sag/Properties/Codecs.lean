import Sag.LocalIdentities.RoundTrip
import Sag.Lib.Accumulator

/-!
# Codecs lose nothing, and no two credentials share a secret

The loops of `util/bytes.js` and `local-identities/totp.js` shift digits into a signed 32-bit
accumulator that is never cleared, and write into an array whose length was computed beforehand.
`unb64u_unpack`, `decodeBase32_unpack` and `encodeLoop_words` are those loops in 32-bit words: the
sign and the bits that fell off are never read, and the array is filled exactly.

A secret is compared in its canonical form, the encoding of the bytes it decodes to. As the encoding
can be decoded, two secrets that are spelled differently and mean the same bytes have one canonical
form, and the parser refuses them.
-/

namespace Sag

open Accumulator

variable {rt : Runtime}

/-! ## The loops, in 32-bit words -/

theorem b64Index_lt {u : CodeUnit} (h : u ∈ B64_ALPHA) : B64_ALPHA.findIdx (· = u) < 2 ^ 6 := by
  have hlt := List.findIdx_lt_length_of_exists (p := (· = u)) ⟨u, h, by simp⟩
  exact Nat.lt_of_lt_of_eq hlt (by decide)

theorem unb64uLoop_eq (s : JsString) : ∀ acc bits : Nat,
    unb64uLoop acc bits s = unpackNat 6 acc bits (s.map fun u => B64_ALPHA.findIdx (· = u)) := by
  induction s with
  | nil => intro acc bits; rfl
  | cons u s ih =>
    intro acc bits
    simp only [unb64uLoop, List.map_cons, unpackNat, ih]

theorem decodeLoop_eq (s : JsString) : ∀ acc bits : Nat,
    decodeLoop acc bits s = unpackNat 5 acc bits (s.map base32Index) := by
  induction s with
  | nil => intro acc bits; rfl
  | cons u s ih =>
    intro acc bits
    simp only [decodeLoop, List.map_cons, unpackNat, ih]

/-- What `unb64u` answers, with the array it allocates. -/
theorem unb64u_unpack {s : JsString} {bytes : Bytes} (h : unb64u s = some bytes) :
    let norm := dropPadding (s.map urlUnsafe)
    bytes = unpack 6 0 0 (norm.map fun u => B64_ALPHA.findIdx (· = u)) ∧ bytes.length = norm.length * 6 / 8 := by
  intro norm
  simp only [unb64u] at h
  split at h
  · next hall =>
    have hdigits : ∀ d ∈ norm.map (fun u => B64_ALPHA.findIdx (· = u)), d < 2 ^ 6 := by
      intro d hd
      obtain ⟨u, hu, rfl⟩ := List.mem_map.mp hd
      exact b64Index_lt (by simpa using List.all_eq_true.mp hall u hu)
    have hbytes : bytes = unpack 6 0 0 (norm.map fun u => B64_ALPHA.findIdx (· = u)) := by
      rw [← Option.some.inj h, unb64uLoop_eq]
      exact unpackNat_eq (by decide) _ 0 0 (by decide) hdigits
    refine ⟨hbytes, ?_⟩
    rw [hbytes, unpack_length (by decide) _ _ _ (by decide), List.length_map, Nat.zero_add, Nat.mul_comm]
  · cases h

/-- What `decodeBase32` answers, with the array it allocates. -/
theorem decodeBase32_unpack {value : JsString} {bytes : Bytes} (h : decodeBase32 rt value = some bytes) :
    let text := dropPadding (((rt.cases.toUpperCase value).filter (· ≠ 32)).filter (· ≠ hyphen))
    bytes = unpack 5 0 0 (text.map base32Index) ∧ bytes.length = text.length * 5 / 8 := by
  intro text
  simp only [decodeBase32] at h
  split at h
  · cases h
  · next hclean =>
    split at h
    · cases h
    · have hall : text.all (· ∈ BASE32) = true := by
        simp only [Bool.or_eq_true, not_or, Bool.not_eq_true, Bool.not_eq_false'] at hclean
        exact hclean.2
      have hdigits : ∀ d ∈ text.map base32Index, d < 2 ^ 5 := by
        intro d hd
        obtain ⟨u, hu, rfl⟩ := List.mem_map.mp hd
        exact base32Index_lt (by simpa using List.all_eq_true.mp hall u hu)
      have hbytes : bytes = unpack 5 0 0 (text.map base32Index) := by
        rw [← Option.some.inj h, decodeLoop_eq]
        exact unpackNat_eq (by decide) _ 0 0 (by decide) hdigits
      refine ⟨hbytes, ?_⟩
      rw [hbytes, unpack_length (by decide) _ _ _ (by decide), List.length_map, Nat.zero_add, Nat.mul_comm]

/-- `while (bits >= 5)`, on the word. -/
def drainWord (acc : BitVec 32) : Nat → List Nat × Nat
  | bits + 5 => (readOut 5 acc bits :: (drainWord acc bits).1, (drainWord acc bits).2)
  | bits => ([], bits)

/-- The loop of `encodeBase32`, on the word. -/
def encodeWords : BitVec 32 → Nat → Bytes → List Nat
  | acc, bits, [] => if 0 < bits then [readLow 5 acc (5 - bits)] else []
  | acc, bits, b :: bs =>
    let acc := shiftIn 8 acc b.toNat
    (drainWord acc (bits + 8)).1 ++ encodeWords acc (drainWord acc (bits + 8)).2 bs

theorem drain_eq (acc : BitVec 32) (bits : Nat) : bits ≤ 32 → drain acc.toNat bits = drainWord acc bits := by
  induction bits using drain.induct with
  | case1 bits ih =>
    intro hbits
    rw [drain, drainWord, ih (by omega), readOut_eq acc (by omega)]
  | case2 bits h =>
    intro _
    exact (drain.eq_2 _ _ h).trans (drainWord.eq_2 _ _ h).symm

/-- What `encodeBase32` appends is read from the word. -/
theorem encodeLoop_words (bs : Bytes) : ∀ (acc : BitVec 32) (bits : Nat), bits < 5 →
    encodeLoop acc.toNat bits bs = encodeWords acc bits bs := by
  induction bs with
  | nil =>
    intro acc bits _
    simp only [encodeLoop, encodeWords, readLow_eq acc (show 5 ≤ 32 by decide)]
  | cons b bs ih =>
    intro acc bits hbits
    have hleft := (drain_bits (shiftIn 8 acc b.toNat).toNat (bits + 8)).1
    simp only [encodeLoop, encodeWords]
    rw [← shiftIn_toNat acc b.toNat_lt (by decide)]
    rw [drain_eq _ _ (by omega)] at hleft ⊢
    rw [ih _ _ hleft]

/-! ## What the operator wrote -/

/-- The secret of each TOTP entry, as it stands in the document. -/
def secretsWritten (doc : Json) : List JsString :=
  match doc.object?.bind (Json.member · (js "totp")) with
  | some (.arr items) => items.filterMap fun item => (item.object?.bind (Json.member · (js "secret"))).bind Json.string?
  | _ => []

/-- The secrets of the record, and those of the document it was read from, decode to the same
bytes, credential by credential, and no two credentials to the same. -/
def Distinguished (rt : Runtime) (doc : Json) (r : LocalRecord) : Prop :=
  ∃ keys : List Bytes, (secretsWritten doc).map (decodeBase32 rt) = keys.map some ∧
    (r.totp.map fun t => decodeBase32 rt t.secret) = keys.map some ∧ keys.Nodup

/-- The results are those of the loops in signed 32-bit words, and fill the array that was allocated
for them. -/
structure Wordwise (rt : Runtime) : Prop where
  base64url : ∀ (s : JsString) (bytes : Bytes), unb64u s = some bytes →
    let norm := dropPadding (s.map urlUnsafe)
    bytes = unpack 6 0 0 (norm.map fun u => B64_ALPHA.findIdx (· = u)) ∧ bytes.length = norm.length * 6 / 8
  decoded : ∀ (value : JsString) (bytes : Bytes), decodeBase32 rt value = some bytes →
    let text := dropPadding (((rt.cases.toUpperCase value).filter (· ≠ 32)).filter (· ≠ hyphen))
    bytes = unpack 5 0 0 (text.map base32Index) ∧ bytes.length = text.length * 5 / 8
  encoded : ∀ bytes : Bytes, encodeBase32 bytes = (encodeWords 0 0 bytes).map base32Char

/-- What the codecs promise. -/
structure Lossless (rt : Runtime) : Prop where
  words : Wordwise rt
  base64url : ∀ bytes : Bytes, unb64u (b64u bytes) = some bytes
  base32 : ∀ bytes : Bytes, 10 ≤ bytes.length → decodeBase32 rt (encodeBase32 bytes) = some bytes
  canonical : ∀ secret c : JsString, canonicalSecret rt secret = some c → canonicalSecret rt c = some c
  secrets : ∀ (doc : Json) (key : JsString) (r : LocalRecord),
    parseLocalIdentityRecord rt doc key = some r → Distinguished rt doc r

theorem normaliseTotp_secret {v : Json} {t : TotpCredential} (h : normaliseTotp rt v = some t) :
    ∃ s, (v.object?.bind (Json.member · (js "secret"))).bind Json.string? = some s ∧
      canonicalSecret rt s = some t.secret := by
  simp only [normaliseTotp, Option.bind_eq_bind, Option.bind_eq_some_iff] at h
  obtain ⟨m, hm, id, -, _, -, algorithm, -, digits, -, period, -, label, -, secret, hsecret, last, -, ht⟩ := h
  obtain rfl := Option.some.inj ht
  obtain ⟨w, hw, hraw⟩ := Option.bind_eq_some_iff.mp hsecret
  obtain ⟨s, hs, hcanon⟩ := Option.bind_eq_some_iff.mp hraw
  refine ⟨s, ?_, hcanon⟩
  rw [hm, Option.bind_some, hw]
  exact (Option.filter_eq_some_iff.mp hs).1

/-- The bytes of an entry, and what is made of them. -/
theorem totp_key {v : Json} {t : TotpCredential} (h : normaliseTotp rt v = some t) :
    ∃ s bytes, (v.object?.bind (Json.member · (js "secret"))).bind Json.string? = some s ∧
      decodeBase32 rt s = some bytes ∧ decodeBase32 rt t.secret = some bytes ∧ t.secret = encodeBase32 bytes := by
  obtain ⟨s, hs, hcanon⟩ := normaliseTotp_secret h
  obtain ⟨bytes, hbytes, henc⟩ := Option.map_eq_some_iff.mp hcanon
  have hlen := decodeBase32_length rt hbytes
  exact ⟨s, bytes, hs, hbytes, henc ▸ decodeBase32_encodeBase32 rt hlen, henc.symm⟩

/-- Entry by entry. -/
theorem totp_keys {items : List Json} : ∀ {ts : List TotpCredential}, items.mapM (normaliseTotp rt) = some ts →
    ∃ keys : List Bytes,
      (items.filterMap fun item => (item.object?.bind (Json.member · (js "secret"))).bind Json.string?).map
        (decodeBase32 rt) = keys.map some ∧
      (ts.map fun t => decodeBase32 rt t.secret) = keys.map some ∧ ts.map (·.secret) = keys.map encodeBase32 := by
  induction items with
  | nil =>
    intro ts h
    obtain rfl : [] = ts := by simpa using h
    exact ⟨[], rfl, rfl, rfl⟩
  | cons v items ih =>
    intro ts h
    rw [List.mapM_cons] at h
    obtain ⟨t, ht, h⟩ := Option.bind_eq_some_iff.mp h
    obtain ⟨ts', hts, h⟩ := Option.bind_eq_some_iff.mp h
    obtain rfl : t :: ts' = ts := by simpa using h
    obtain ⟨s, bytes, hs, hwritten, hkept, henc⟩ := totp_key ht
    obtain ⟨keys, hitems, hdecoded, hencoded⟩ := ih hts
    refine ⟨bytes :: keys, ?_, ?_, ?_⟩
    · rw [List.filterMap_cons, hs, List.map_cons, hwritten, hitems, List.map_cons]
    · rw [List.map_cons, hkept, hdecoded, List.map_cons]
    · rw [List.map_cons, henc, hencoded, List.map_cons]

theorem secretsWritten_of_reads {doc : Json} {key : JsString} {r : LocalRecord} {m : Members}
    {disabled mfaRequired : Option Bool} {totpItems backupItems linkItems : List Json}
    (h : Reads rt doc key r m disabled mfaRequired totpItems backupItems linkItems) :
    secretsWritten doc = totpItems.filterMap fun item =>
      (item.object?.bind (Json.member · (js "secret"))).bind Json.string? := by
  have hraw := h.rawTotp
  unfold optionalArray at hraw
  rw [secretsWritten, h.document, Option.bind_some]
  split at hraw
  · next hnone =>
    obtain rfl := Option.some.inj hraw
    rw [hnone]
    rfl
  · next items hsome =>
    split at hraw
    · obtain rfl := Option.some.inj hraw
      rw [hsome]
    · cases hraw
  · cases hraw

/-- The codecs lose nothing, and no two credentials of a record share a secret. -/
theorem codecs_lossless : Lossless rt where
  words :=
    { base64url := fun _ _ h => unb64u_unpack h
      decoded := fun _ _ h => decodeBase32_unpack h
      encoded := fun bytes => congrArg _ (encodeLoop_words bytes 0 0 (by decide)) }
  base64url := unb64u_b64u
  base32 := fun _ h => decodeBase32_encodeBase32 rt h
  canonical := fun _ _ h => canonicalSecret_idem h
  secrets := by
    intro doc key r h
    obtain ⟨m, disabled, mfa, totpItems, backupItems, linkItems, hr⟩ := reads_of_parse h
    obtain ⟨keys, hwritten, hkept, henc⟩ := totp_keys hr.totp
    have hnodup := hr.totpSecrets
    rw [henc] at hnodup
    have hkeys : keys.Nodup := List.Pairwise.of_map _ (fun _ _ hne heq => hne (congrArg _ heq)) hnodup
    exact ⟨keys, secretsWritten_of_reads hr ▸ hwritten, hkept, hkeys⟩

end Sag
