import OptimumGateway.Foundation.TextEncoding

/-!
# Decoding of base64url

`rawURLDecode` reads unpadded URL-safe base64 by groups of four digits, with a rest of two or
three.  As in `encoding/base64`, the bits of the last digit that no byte uses are not looked
at.  Line breaks, which that package skips, are refused here: no encoding has them.

The decoder gives back what was encoded, so an encoding determines its bytes.  The length of
an encoding is determined by their number, and no digit is a character that `encoding/json`
escapes.
-/

namespace OptimumGateway
namespace Foundation

/-- The six-bit value of a digit. -/
def base64URLValue (c : Char) : Option Nat :=
  if 'A' ≤ c ∧ c ≤ 'Z' then some (c.toNat - 65)
  else if 'a' ≤ c ∧ c ≤ 'z' then some (c.toNat - 97 + 26)
  else if '0' ≤ c ∧ c ≤ '9' then some (c.toNat - 48 + 52)
  else if c = '-' then some 62
  else if c = '_' then some 63
  else none

def rawURLDecode : List Char → Option (List UInt8)
  | a :: b :: c :: d :: rest => do
      let a ← base64URLValue a
      let b ← base64URLValue b
      let c ← base64URLValue c
      let d ← base64URLValue d
      let n := a * 262144 + b * 4096 + c * 64 + d
      let bytes ← rawURLDecode rest
      return UInt8.ofNat (n / 65536) :: UInt8.ofNat (n / 256) :: UInt8.ofNat n :: bytes
  | [a, b, c] => do
      let a ← base64URLValue a
      let b ← base64URLValue b
      let c ← base64URLValue c
      let n := a * 262144 + b * 4096 + c * 64
      return [UInt8.ofNat (n / 65536), UInt8.ofNat (n / 256)]
  | [a, b] => do
      let a ← base64URLValue a
      let b ← base64URLValue b
      let n := a * 262144 + b * 4096
      return [UInt8.ofNat (n / 65536)]
  | [_] => none
  | [] => some []

def rawURLDecodeString (s : String) : Option (List UInt8) :=
  rawURLDecode s.toList

section Digits

theorem forall_base64URLDigit
    {P : Nat → Char → Prop}
    (h : ∀ k : Fin 64, P k (base64URLDigit k))
    (n : Nat) :
    P (n % 64) (base64URLDigit n) := by
  have hmod : base64URLDigit n = base64URLDigit (n % 64) := by
    simp [base64URLDigit]
  rw [hmod]
  exact h ⟨n % 64, Nat.mod_lt n (by decide)⟩

@[simp]
theorem base64URLValue_digit
    (n : Nat) :
    base64URLValue (base64URLDigit n) = some (n % 64) :=
  forall_base64URLDigit (P := fun k c => base64URLValue c = some k) (by decide) n

theorem jsonEscape_digit
    (n : Nat) :
    jsonEscape (base64URLDigit n) = [base64URLDigit n] :=
  forall_base64URLDigit (P := fun _ c => jsonEscape c = [c]) (by decide) n

theorem forall_mem_rawURLDigits
    {P : Char → Prop}
    (h : ∀ n, P (base64URLDigit n))
    (bytes : List UInt8) :
    ∀ c ∈ rawURLDigits bytes, P c := by
  induction bytes using rawURLDigits.induct with
  | case1 a b c rest ih => simpa [rawURLDigits, h] using ih
  | case2 a b | case3 a => simp [rawURLDigits, h]
  | case4 => simp [rawURLDigits]

theorem length_rawURLDigits
    (bytes : List UInt8) :
    (rawURLDigits bytes).length = (4 * bytes.length + 2) / 3 := by
  induction bytes using rawURLDigits.induct with
  | case1 a b c rest ih =>
      simp only [rawURLDigits, List.length_cons, ih]
      omega
  | case2 a b | case3 a | case4 => simp [rawURLDigits]

end Digits

section RoundTrip

theorem ofNat_eq_of_mod
    {n : Nat} {a : UInt8}
    (h : n % 256 = a.toNat) :
    UInt8.ofNat n = a := by
  rw [← UInt8.toNat_inj, UInt8.toNat_ofNat']
  exact h

/-- A number of 24 bits is what its four digits stand for. -/
theorem digits_value
    {n : Nat}
    (h : n < 16777216) :
    n / 262144 % 64 * 262144 + n / 4096 % 64 * 4096 + n / 64 % 64 * 64 + n % 64 = n := by
  omega

theorem rawURLDecode_rawURLDigits
    (bytes : List UInt8) :
    rawURLDecode (rawURLDigits bytes) = some bytes := by
  induction bytes using rawURLDigits.induct with
  | case1 a b c rest ih =>
      have ha := a.toNat_lt
      have hb := b.toNat_lt
      have hc := c.toNat_lt
      have hvalue := @digits_value (a.toNat * 65536 + b.toNat * 256 + c.toNat) (by omega)
      simp only [rawURLDigits, rawURLDecode, base64URLValue_digit, ih, Option.bind_eq_bind,
        Option.bind_some, hvalue]
      rw [@ofNat_eq_of_mod _ a (by omega), @ofNat_eq_of_mod _ b (by omega),
        @ofNat_eq_of_mod _ c (by omega)]
      rfl
  | case2 a b =>
      have ha := a.toNat_lt
      have hb := b.toNat_lt
      simp only [rawURLDigits, rawURLDecode, base64URLValue_digit, Option.bind_eq_bind,
        Option.bind_some]
      rw [@ofNat_eq_of_mod _ a (by omega), @ofNat_eq_of_mod _ b (by omega)]
      rfl
  | case3 a =>
      have ha := a.toNat_lt
      simp only [rawURLDigits, rawURLDecode, base64URLValue_digit, Option.bind_eq_bind,
        Option.bind_some]
      rw [@ofNat_eq_of_mod _ a (by omega)]
      rfl
  | case4 => simp [rawURLDigits, rawURLDecode]

end RoundTrip

section Strings

@[simp]
theorem toList_rawURLEncodeToString
    (bytes : List UInt8) :
    (rawURLEncodeToString bytes).toList = rawURLDigits bytes :=
  String.toList_ofList

theorem rawURLDecodeString_encode
    (bytes : List UInt8) :
    rawURLDecodeString (rawURLEncodeToString bytes) = some bytes := by
  rw [rawURLDecodeString, toList_rawURLEncodeToString, rawURLDecode_rawURLDigits]

theorem length_rawURLEncodeToString
    (bytes : List UInt8) :
    (rawURLEncodeToString bytes).length = (4 * bytes.length + 2) / 3 := by
  rw [← String.length_toList, toList_rawURLEncodeToString, length_rawURLDigits]

theorem isSome_base64URLValue
    (bytes : List UInt8) :
    ∀ c ∈ (rawURLEncodeToString bytes).toList, (base64URLValue c).isSome := by
  rw [toList_rawURLEncodeToString]
  exact forall_mem_rawURLDigits (fun n => by simp) bytes

/-- A text whose characters are not escaped is its own literal, between quotes. -/
theorem jsonString_of_unescaped
    {s : String}
    (h : ∀ c ∈ s.toList, jsonEscape c = [c]) :
    jsonString s = "\"" ++ s ++ "\"" := by
  have hbody : s.toList.flatMap jsonEscape = s.toList := by
    rw [List.flatMap_congr h, List.flatMap_singleton']
  rw [← String.toList_inj]
  simp [jsonString, hbody]

theorem jsonString_rawURLEncodeToString
    (bytes : List UInt8) :
    jsonString (rawURLEncodeToString bytes) = "\"" ++ rawURLEncodeToString bytes ++ "\"" := by
  apply jsonString_of_unescaped
  rw [toList_rawURLEncodeToString]
  exact forall_mem_rawURLDigits jsonEscape_digit bytes

end Strings

end Foundation
end OptimumGateway
