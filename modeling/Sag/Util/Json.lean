import Sag.Util.Bytes

/-!
# JSON values and their text

`Json` is what `JSON.parse` returns: the documents of the identity store and
the claims of an upstream token. Numbers are exact rationals, which is every
finite double.

Of `JSON.stringify` only what the program prints is modelled: a flat object of
strings and natural numbers (`stringifyFlat`). The escapes matter, because a
sealed string grows with them: a control character or a lone surrogate becomes
six characters, a quotation mark or a reverse solidus two.
-/

namespace Sag

inductive Json where
  | null
  | bool (b : Bool)
  | num (x : Rat)
  | str (s : JsString)
  | arr (items : List Json)
  | obj (members : List (JsString × Json))

/-- The members of an object, by name. -/
abbrev Members := List (JsString × Json)

namespace Json

/-- A member read as `o[name]`; `none` is `undefined`. -/
def member (members : Members) (name : JsString) : Option Json :=
  (members.find? fun m => m.1 = name).map (·.2)

def ofNat (n : Nat) : Json := .num (n : Rat)

/-- `value[name]`, of any value but `null`. -/
def get (value : Json) (name : JsString) : Option Json :=
  match value with
  | .obj members => member members name
  | _ => none

/-- `===` between two values as they were parsed, where neither is an object. -/
def same : Json → Json → Bool
  | .null, .null => true
  | .bool b, .bool b' => b = b'
  | .num x, .num x' => x = x'
  | .str s, .str s' => s = s'
  | _, _ => false

/-- `typeof v === 'string'`. -/
def string? : Json → Option JsString
  | .str s => some s
  | _ => none

/-- `value && typeof value === 'object' && !Array.isArray(value)`. -/
def object? : Json → Option Members
  | .obj m => some m
  | _ => none

/-- `typeof v === 'boolean'`. -/
def bool? : Json → Option Bool
  | .bool b => some b
  | _ => none

/-- `Number.MAX_SAFE_INTEGER`. -/
def maxSafeInteger : Nat := 2 ^ 53 - 1

/-- The natural number a value is, when it is a safe integer and not negative. -/
def safeNat? : Json → Option Nat
  | .num x => if x.den = 1 ∧ 0 ≤ x.num ∧ x.num ≤ maxSafeInteger then some x.num.toNat else none
  | _ => none

/-- The safe integers read back as themselves. -/
@[simp] theorem safeNat?_ofNat {n : Nat} :
    (ofNat n).safeNat? = if n ≤ maxSafeInteger then some n else none := by
  have hcast : ((n : Int) ≤ (maxSafeInteger : Int)) ↔ n ≤ maxSafeInteger := Int.ofNat_le
  simp [ofNat, safeNat?, hcast]

/-- Only the number itself reads back as a natural number. -/
theorem safeNat?_eq_some {v : Json} {n : Nat} (h : v.safeNat? = some n) :
    v = ofNat n ∧ n ≤ maxSafeInteger := by
  cases v with
  | num x =>
    simp only [safeNat?] at h
    split at h
    · next hx =>
      obtain ⟨hden, hnn, hmax⟩ := hx
      have hn : x.num.toNat = n := by simpa using h
      have hnum : x.num = (n : Int) := by omega
      refine ⟨?_, by omega⟩
      rw [ofNat]
      congr 1
      exact Rat.ext (by simpa using hnum) (by simpa using hden)
    · cases h
  | _ => simp [safeNat?] at h

end Json

/-- JavaScript truth of a parsed value. -/
def truthy : Json → Bool
  | .null | .bool false | .str [] => false
  | .num x => x ≠ 0
  | _ => true

/-! ## The text of a flat object -/

/-- A member the program prints. -/
inductive Scalar where
  | num (n : Nat)
  | str (s : JsString)

/-- `\u` and four hexadecimal digits. -/
def escapeUnit (u : CodeUnit) : JsString :=
  let n := u.toNat
  [92, 117, hexDigit (n / 4096), hexDigit (n / 256 % 16), hexDigit (n / 16 % 16), hexDigit (n % 16)]

/-- One unit inside a JSON string; surrogates are dealt with by `quoteUnits`. -/
def quoteUnit (u : CodeUnit) : JsString :=
  if u = 34 then [92, 34]
  else if u = 92 then [92, 92]
  else if u = 8 then js "\\b"
  else if u = 9 then js "\\t"
  else if u = 10 then js "\\n"
  else if u = 12 then js "\\f"
  else if u = 13 then js "\\r"
  else if u < 32 then escapeUnit u
  else [u]

/-- `QuoteJSONString` without the outer quotation marks: well-formed pairs are
kept, a lone surrogate is escaped. -/
def quoteUnits : JsString → JsString
  | [] => []
  | [u] => if isHighSurrogate u || isLowSurrogate u then escapeUnit u else quoteUnit u
  | u :: v :: s =>
    if isHighSurrogate u && isLowSurrogate v then u :: v :: quoteUnits s
    else (if isHighSurrogate u || isLowSurrogate u then escapeUnit u else quoteUnit u) ++
      quoteUnits (v :: s)

def quoteJsonString (s : JsString) : JsString := 34 :: quoteUnits s ++ [34]

/-- Decimal digits of a natural number. -/
def decimal (n : Nat) : JsString := js (toString n)

theorem toNat_of_mem_toDigits {n : Nat} {c : Char} (hc : c ∈ Nat.toDigits 10 n) : 48 ≤ c.toNat ∧ c.toNat ≤ 57 := by
  have hd := Nat.isDigit_of_mem_toDigits (by decide) (by decide) hc
  simpa [Char.isDigit, UInt32.le_iff_toNat_le] using hd

/-- A number in decimal has one unit for each digit. -/
theorem decimal_eq (n : Nat) : decimal n = (Nat.toDigits 10 n).map fun c => UInt16.ofNat c.toNat := by
  rw [decimal, js, show (toString n).toList = Nat.toDigits 10 n from Nat.toList_repr, List.map_eq_flatMap,
    List.flatMap_def, List.flatMap_def]
  refine congrArg List.flatten (List.map_congr_left fun c hc => ?_)
  have hdigit := (toNat_of_mem_toDigits hc).2
  rw [encodePoint, if_pos (by omega)]

theorem decimal_digit {n : Nat} : ∀ u ∈ decimal n, isDigit u = true := by
  intro u hu
  rw [decimal_eq] at hu
  obtain ⟨c, hc, rfl⟩ := List.mem_map.mp hu
  obtain ⟨hlow, hhigh⟩ := toNat_of_mem_toDigits hc
  have hnat : (UInt16.ofNat c.toNat).toNat = c.toNat := UInt16.toNat_ofNat_of_lt' (by simp [UInt16.size]; omega)
  simp only [isDigit, Bool.and_eq_true, decide_eq_true_eq, UInt16.le_iff_toNat_le, hnat]
  exact ⟨hlow, hhigh⟩

/-- A number below a power of ten has no more digits than that. -/
theorem decimal_length {n k : Nat} (hk : 0 < k) (h : n < 10 ^ k) : (decimal n).length ≤ k := by
  rw [decimal_eq, List.length_map]
  exact (Nat.length_toDigits_le_iff (by decide) hk).mpr h

def Scalar.text : Scalar → JsString
  | .num n => decimal n
  | .str s => quoteJsonString s

/-- `JSON.stringify` of an object of scalars. -/
def stringifyFlat (members : List (JsString × Scalar)) : JsString :=
  [123] ++ ((members.map fun m => quoteJsonString m.1 ++ [58] ++ m.2.text).intersperse [44]).flatten ++
    [125]

end Sag
