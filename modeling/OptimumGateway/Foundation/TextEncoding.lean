import Mathlib.Data.List.Basic
import Mathlib.Data.List.Induction
import Mathlib.Tactic.Common

/-!
# Text encodings

The unpadded URL-safe base64 alphabet of `encoding/base64`, the string literals
that `encoding/json` writes, and the slash-separated paths of `path/filepath`.  Digits and
decimal numbers are determined by their texts.
-/

namespace OptimumGateway
namespace Foundation

/-- The digit of a six-bit value: `A-Z`, `a-z`, `0-9`, `-`, `_`. -/
def base64URLDigit (n : Nat) : Char :=
  if n % 64 < 26 then Char.ofNat (65 + n % 64)
  else if n % 64 < 52 then Char.ofNat (97 + (n % 64 - 26))
  else if n % 64 < 62 then Char.ofNat (48 + (n % 64 - 52))
  else if n % 64 = 62 then '-'
  else '_'

/-- Unpadded base64: three bytes give four digits, and a rest of one or two
bytes gives two or three. -/
def rawURLDigits : List UInt8 → List Char
  | a :: b :: c :: rest =>
      let n := a.toNat * 65536 + b.toNat * 256 + c.toNat
      base64URLDigit (n / 262144) :: base64URLDigit (n / 4096) ::
        base64URLDigit (n / 64) :: base64URLDigit n :: rawURLDigits rest
  | [a, b] =>
      let n := a.toNat * 65536 + b.toNat * 256
      [base64URLDigit (n / 262144), base64URLDigit (n / 4096),
        base64URLDigit (n / 64)]
  | [a] =>
      let n := a.toNat * 65536
      [base64URLDigit (n / 262144), base64URLDigit (n / 4096)]
  | [] => []

def rawURLEncodeToString (bytes : List UInt8) : String :=
  String.ofList (rawURLDigits bytes)

/-- Lower-case hexadecimal digit. -/
def hexDigit (n : Nat) : Char :=
  if n % 16 < 10 then Char.ofNat (48 + n % 16)
  else Char.ofNat (97 + (n % 16 - 10))

/-- The four-digit escape of a code point. -/
def jsonUnicodeEscape (c : Char) : List Char :=
  ['\\', 'u', hexDigit (c.toNat / 4096), hexDigit (c.toNat / 256),
    hexDigit (c.toNat / 16), hexDigit c.toNat]

/-- Characters of a JSON string literal: quotes, backslashes, control characters,
HTML characters and line separators are escaped. -/
def jsonEscape (c : Char) : List Char :=
  if c = '"' ∨ c = '\\' then ['\\', c]
  else if c.toNat = 8 then ['\\', 'b']
  else if c.toNat = 12 then ['\\', 'f']
  else if c = '\n' then ['\\', 'n']
  else if c = '\r' then ['\\', 'r']
  else if c = '\t' then ['\\', 't']
  else if c.toNat < 32 ∨ c = '<' ∨ c = '>' ∨ c = '&' ∨
      c.toNat = 0x2028 ∨ c.toNat = 0x2029 then
    jsonUnicodeEscape c
  else [c]

/-- The JSON literal of a string. -/
def jsonString (s : String) : String :=
  String.ofList ('"' :: s.toList.flatMap jsonEscape ++ ['"'])

/-- One component of a path, pushed on the reversed components before it. -/
def pushComponent
    (rooted : Bool)
    (stack : List String)
    (component : String) : List String :=
  if component = "" ∨ component = "." then
    stack
  else if component = ".." then
    match stack with
    | top :: rest => if top = ".." then ".." :: stack else rest
    | [] => if rooted then [] else [".."]
  else
    component :: stack

/-- `filepath.Clean`: the shortest equivalent path. -/
def filepathClean (path : String) : String :=
  let rooted := path.toList.head? = some '/'
  let components := (path.toList.splitOn '/').map String.ofList
  let stack := components.foldl (pushComponent rooted) []
  let body := "/".intercalate stack.reverse
  if rooted then "/" ++ body else if body = "" then "." else body

/-- `filepath.Join` of a directory and a file name. -/
def filepathJoin (dir name : String) : String :=
  if dir = "" then
    if name = "" then "" else filepathClean name
  else
    filepathClean (dir ++ "/" ++ name)

section Texts

theorem hexDigit_inj
    {m n : Nat}
    (h : hexDigit m = hexDigit n) :
    m % 16 = n % 16 := by
  have hall : ∀ a b : Fin 16, hexDigit a = hexDigit b → a = b := by
    decide
  have hmod : ∀ n, hexDigit n = hexDigit (n % 16) := by
    intro n
    simp [hexDigit]
  have hfin := hall ⟨m % 16, Nat.mod_lt _ (by decide)⟩ ⟨n % 16, Nat.mod_lt _ (by decide)⟩
    (by rw [← hmod, ← hmod]; exact h)
  exact congrArg Fin.val hfin

/-- A part of a text is determined when it does not contain the separator after it. -/
theorem append_sep_inj
    {sep : Char} {a b a' b' : List Char}
    (ha : sep ∉ a)
    (ha' : sep ∉ a')
    (h : a ++ sep :: b = a' ++ sep :: b') :
    a = a' ∧ b = b' := by
  induction a generalizing a' with
  | nil =>
      cases a' with
      | nil => exact ⟨rfl, (List.cons.inj h).2⟩
      | cons c a' => exact absurd (by simp [(List.cons.inj h).1]) ha'
  | cons c a ih =>
      cases a' with
      | nil => exact absurd (by simp [(List.cons.inj h).1]) ha
      | cons c' a' =>
          obtain ⟨rfl, hrest⟩ := List.cons.inj h
          obtain ⟨rfl, rfl⟩ := ih (List.not_mem_of_not_mem_cons ha)
            (List.not_mem_of_not_mem_cons ha') hrest
          exact ⟨rfl, rfl⟩

theorem toString_nat_inj
    {m n : Nat}
    (h : (toString m).toList = (toString n).toList) :
    m = n := by
  have hvalue := congrArg (fun ds => Nat.ofDigitChars 10 ds 0) h
  simpa [Nat.toString_eq_ofList_toDigits] using hvalue

theorem isDigit_of_mem_toString
    {n : Nat} {c : Char}
    (h : c ∈ (toString n).toList) :
    c.isDigit = true := by
  rw [Nat.toString_eq_ofList_toDigits, String.toList_ofList] at h
  exact Nat.isDigit_of_mem_toDigits (show 0 < 10 by decide) (Nat.le_refl 10) h

end Texts

section Decimals

/-- A decimal number as it is written: digits, without a zero in front of others. -/
def IsDecimal (l : List Char) : Prop :=
  l ≠ [] ∧ (∀ c ∈ l, c.isDigit = true) ∧ (l.head? = some '0' → l = ['0'])

theorem digitChar_of_isDigit
    {c : Char}
    (h : c.isDigit = true) :
    c.toNat - '0'.toNat < 10 ∧ (c.toNat - '0'.toNat).digitChar = c := by
  have hrange : 48 ≤ c.toNat ∧ c.toNat ≤ 57 := by
    simpa [Char.isDigit, UInt32.le_iff_toNat_le] using h
  have hall : ∀ k : Fin 10, (Nat.digitChar k).toNat = 48 + k := by
    decide
  have hzero : '0'.toNat = 48 := rfl
  have hlt : c.toNat - '0'.toNat < 10 := by
    omega
  refine ⟨hlt, ?_⟩
  rw [← Char.toNat_inj, hall ⟨_, hlt⟩]
  show 48 + (c.toNat - '0'.toNat) = c.toNat
  omega

/-- What is written for a number has no zero in front. -/
theorem isDecimal_toDigits
    (n : Nat) :
    IsDecimal (Nat.toDigits 10 n) := by
  refine ⟨Nat.toDigits_ne_nil, ?_, ?_⟩
  · intro c hc
    exact Nat.isDigit_of_mem_toDigits (by omega) (by omega) hc
  · induction n using Nat.strongRecOn with
    | _ n ih =>
        rw [Nat.toDigits_eq_if (by omega)]
        split
        · intro hhead
          exact congrArg (fun c => [c]) (Option.some.inj hhead)
        · rename_i hlarge
          intro hhead
          have hfront : (Nat.toDigits 10 (n / 10)).head? = some '0' := by
            rwa [List.head?_append_of_ne_nil _ Nat.toDigits_ne_nil] at hhead
          -- only the number zero has that digit in front
          have hzero := ih (n / 10) (by omega) hfront
          have hvalue := congrArg (fun l => Nat.ofDigitChars 10 l 0) hzero
          simp only [Nat.ofDigitChars_toDigits (show 1 < 10 by omega) (Nat.le_refl 10)] at hvalue
          have hnone : Nat.ofDigitChars 10 ['0'] 0 = 0 := rfl
          omega

/-- A decimal number is what is written for its value. -/
theorem IsDecimal.toDigits_value
    {l : List Char}
    (h : IsDecimal l) :
    Nat.toDigits 10 (Nat.ofDigitChars 10 l 0) = l := by
  induction l using List.reverseRecOn with
  | nil => exact absurd rfl h.1
  | append_singleton l c ih =>
      obtain ⟨hlt, hchar⟩ := digitChar_of_isDigit (h.2.1 c (by simp))
      rw [Nat.ofDigitChars_append, Nat.ofDigitChars_cons, Nat.ofDigitChars_nil]
      cases l with
      | nil =>
          rw [Nat.ofDigitChars_nil, Nat.mul_zero, Nat.zero_add, Nat.toDigits_of_lt_base hlt, hchar]
          rfl
      | cons d l =>
          -- a number of two digits does not begin with zero
          have hd : d ≠ '0' := by
            intro hd
            have hsingle := h.2.2 (by simp [hd])
            simp at hsingle
          have hfront : IsDecimal (d :: l) := by
            refine ⟨List.cons_ne_nil d l, ?_, ?_⟩
            · intro c' hc'
              exact h.2.1 c' (List.mem_append_left _ hc')
            · intro hhead
              exact absurd (Option.some.inj hhead) hd
          have hvalue := ih hfront
          have hpos : 0 < Nat.ofDigitChars 10 (d :: l) 0 := by
            rw [Nat.pos_iff_ne_zero]
            intro hzero
            rw [hzero] at hvalue
            exact hd (List.cons.inj hvalue).1.symm
          rw [← Nat.toDigits_append_toDigits (by omega) hpos hlt, hvalue,
            Nat.toDigits_of_lt_base hlt, hchar]

end Decimals

end Foundation
end OptimumGateway
