import Mathlib.Data.List.DropRight
import Mathlib.Tactic.Common

/-!
# Strings of the Go library

`strings.TrimSpace` and `strings.ToLower` work on characters, not on bytes.  White
space is the Unicode property `White_Space`, and the lower case of a character is
its simple mapping, which always is one character.  The mapping is kept as ranges,
as in the tables of the package `unicode`: a range has a first and a last code
point, a step of one or two, and the distance to the lower case.

A string is a sequence of characters.  `len` counts the bytes of its UTF-8 form.
-/

namespace OptimumGateway
namespace Foundation

/-- First and last code points of the white space ranges. -/
def spaceRanges : List (Nat × Nat) :=
  [(0x09, 0x0D), (0x20, 0x20), (0x85, 0x85), (0xA0, 0xA0), (0x1680, 0x1680),
    (0x2000, 0x200A), (0x2028, 0x2029), (0x202F, 0x202F), (0x205F, 0x205F),
    (0x3000, 0x3000)]

/-- `unicode.IsSpace` on code points. -/
def isSpaceCode (n : Nat) : Bool :=
  spaceRanges.any fun r => r.1 ≤ n && n ≤ r.2

def isSpace (c : Char) : Bool :=
  isSpaceCode c.toNat

/-- Code points that have a lower case of their own. -/
structure CaseRange where
  lo : Nat
  hi : Nat
  step : Nat
  delta : Int
deriving DecidableEq

namespace CaseRange

def covers (r : CaseRange) (n : Nat) : Bool :=
  r.lo ≤ n && n ≤ r.hi && (n - r.lo) % r.step == 0

/-- The lower case of a code point of the range. -/
def lower (r : CaseRange) (n : Nat) : Nat :=
  (n + r.delta).toNat

end CaseRange

/-- Simple lower case mappings of Unicode. -/
def lowerRanges : List CaseRange :=
  [⟨0x0041, 0x005A, 1, 32⟩, ⟨0x00C0, 0x00D6, 1, 32⟩, ⟨0x00D8, 0x00DE, 1, 32⟩,
    ⟨0x0100, 0x012E, 2, 1⟩, ⟨0x0130, 0x0130, 1, -199⟩, ⟨0x0132, 0x0136, 2, 1⟩,
    ⟨0x0139, 0x0147, 2, 1⟩, ⟨0x014A, 0x0176, 2, 1⟩, ⟨0x0178, 0x0178, 1, -121⟩,
    ⟨0x0179, 0x017D, 2, 1⟩, ⟨0x0181, 0x0181, 1, 210⟩, ⟨0x0182, 0x0184, 2, 1⟩,
    ⟨0x0186, 0x0186, 1, 206⟩, ⟨0x0187, 0x0187, 1, 1⟩, ⟨0x0189, 0x018A, 1, 205⟩,
    ⟨0x018B, 0x018B, 1, 1⟩, ⟨0x018E, 0x018E, 1, 79⟩, ⟨0x018F, 0x018F, 1, 202⟩,
    ⟨0x0190, 0x0190, 1, 203⟩, ⟨0x0191, 0x0191, 1, 1⟩, ⟨0x0193, 0x0193, 1, 205⟩,
    ⟨0x0194, 0x0194, 1, 207⟩, ⟨0x0196, 0x0196, 1, 211⟩, ⟨0x0197, 0x0197, 1, 209⟩,
    ⟨0x0198, 0x0198, 1, 1⟩, ⟨0x019C, 0x019C, 1, 211⟩, ⟨0x019D, 0x019D, 1, 213⟩,
    ⟨0x019F, 0x019F, 1, 214⟩, ⟨0x01A0, 0x01A4, 2, 1⟩, ⟨0x01A6, 0x01A6, 1, 218⟩,
    ⟨0x01A7, 0x01A7, 1, 1⟩, ⟨0x01A9, 0x01A9, 1, 218⟩, ⟨0x01AC, 0x01AC, 1, 1⟩,
    ⟨0x01AE, 0x01AE, 1, 218⟩, ⟨0x01AF, 0x01AF, 1, 1⟩, ⟨0x01B1, 0x01B2, 1, 217⟩,
    ⟨0x01B3, 0x01B5, 2, 1⟩, ⟨0x01B7, 0x01B7, 1, 219⟩, ⟨0x01B8, 0x01B8, 1, 1⟩,
    ⟨0x01BC, 0x01BC, 1, 1⟩, ⟨0x01C4, 0x01C4, 1, 2⟩, ⟨0x01C5, 0x01C5, 1, 1⟩,
    ⟨0x01C7, 0x01C7, 1, 2⟩, ⟨0x01C8, 0x01C8, 1, 1⟩, ⟨0x01CA, 0x01CA, 1, 2⟩,
    ⟨0x01CB, 0x01DB, 2, 1⟩, ⟨0x01DE, 0x01EE, 2, 1⟩, ⟨0x01F1, 0x01F1, 1, 2⟩,
    ⟨0x01F2, 0x01F4, 2, 1⟩, ⟨0x01F6, 0x01F6, 1, -97⟩, ⟨0x01F7, 0x01F7, 1, -56⟩,
    ⟨0x01F8, 0x021E, 2, 1⟩, ⟨0x0220, 0x0220, 1, -130⟩, ⟨0x0222, 0x0232, 2, 1⟩,
    ⟨0x023A, 0x023A, 1, 10795⟩, ⟨0x023B, 0x023B, 1, 1⟩, ⟨0x023D, 0x023D, 1, -163⟩,
    ⟨0x023E, 0x023E, 1, 10792⟩, ⟨0x0241, 0x0241, 1, 1⟩, ⟨0x0243, 0x0243, 1, -195⟩,
    ⟨0x0244, 0x0244, 1, 69⟩, ⟨0x0245, 0x0245, 1, 71⟩, ⟨0x0246, 0x024E, 2, 1⟩,
    ⟨0x0370, 0x0372, 2, 1⟩, ⟨0x0376, 0x0376, 1, 1⟩, ⟨0x037F, 0x037F, 1, 116⟩,
    ⟨0x0386, 0x0386, 1, 38⟩, ⟨0x0388, 0x038A, 1, 37⟩, ⟨0x038C, 0x038C, 1, 64⟩,
    ⟨0x038E, 0x038F, 1, 63⟩, ⟨0x0391, 0x03A1, 1, 32⟩, ⟨0x03A3, 0x03AB, 1, 32⟩,
    ⟨0x03CF, 0x03CF, 1, 8⟩, ⟨0x03D8, 0x03EE, 2, 1⟩, ⟨0x03F4, 0x03F4, 1, -60⟩,
    ⟨0x03F7, 0x03F7, 1, 1⟩, ⟨0x03F9, 0x03F9, 1, -7⟩, ⟨0x03FA, 0x03FA, 1, 1⟩,
    ⟨0x03FD, 0x03FF, 1, -130⟩, ⟨0x0400, 0x040F, 1, 80⟩, ⟨0x0410, 0x042F, 1, 32⟩,
    ⟨0x0460, 0x0480, 2, 1⟩, ⟨0x048A, 0x04BE, 2, 1⟩, ⟨0x04C0, 0x04C0, 1, 15⟩,
    ⟨0x04C1, 0x04CD, 2, 1⟩, ⟨0x04D0, 0x052E, 2, 1⟩, ⟨0x0531, 0x0556, 1, 48⟩,
    ⟨0x10A0, 0x10C5, 1, 7264⟩, ⟨0x10C7, 0x10C7, 1, 7264⟩, ⟨0x10CD, 0x10CD, 1, 7264⟩,
    ⟨0x13A0, 0x13EF, 1, 38864⟩, ⟨0x13F0, 0x13F5, 1, 8⟩, ⟨0x1C89, 0x1C89, 1, 1⟩,
    ⟨0x1C90, 0x1CBA, 1, -3008⟩, ⟨0x1CBD, 0x1CBF, 1, -3008⟩, ⟨0x1E00, 0x1E94, 2, 1⟩,
    ⟨0x1E9E, 0x1E9E, 1, -7615⟩, ⟨0x1EA0, 0x1EFE, 2, 1⟩, ⟨0x1F08, 0x1F0F, 1, -8⟩,
    ⟨0x1F18, 0x1F1D, 1, -8⟩, ⟨0x1F28, 0x1F2F, 1, -8⟩, ⟨0x1F38, 0x1F3F, 1, -8⟩,
    ⟨0x1F48, 0x1F4D, 1, -8⟩, ⟨0x1F59, 0x1F5F, 2, -8⟩, ⟨0x1F68, 0x1F6F, 1, -8⟩,
    ⟨0x1F88, 0x1F8F, 1, -8⟩, ⟨0x1F98, 0x1F9F, 1, -8⟩, ⟨0x1FA8, 0x1FAF, 1, -8⟩,
    ⟨0x1FB8, 0x1FB9, 1, -8⟩, ⟨0x1FBA, 0x1FBB, 1, -74⟩, ⟨0x1FBC, 0x1FBC, 1, -9⟩,
    ⟨0x1FC8, 0x1FCB, 1, -86⟩, ⟨0x1FCC, 0x1FCC, 1, -9⟩, ⟨0x1FD8, 0x1FD9, 1, -8⟩,
    ⟨0x1FDA, 0x1FDB, 1, -100⟩, ⟨0x1FE8, 0x1FE9, 1, -8⟩, ⟨0x1FEA, 0x1FEB, 1, -112⟩,
    ⟨0x1FEC, 0x1FEC, 1, -7⟩, ⟨0x1FF8, 0x1FF9, 1, -128⟩, ⟨0x1FFA, 0x1FFB, 1, -126⟩,
    ⟨0x1FFC, 0x1FFC, 1, -9⟩, ⟨0x2126, 0x2126, 1, -7517⟩, ⟨0x212A, 0x212A, 1, -8383⟩,
    ⟨0x212B, 0x212B, 1, -8262⟩, ⟨0x2132, 0x2132, 1, 28⟩, ⟨0x2160, 0x216F, 1, 16⟩,
    ⟨0x2183, 0x2183, 1, 1⟩, ⟨0x24B6, 0x24CF, 1, 26⟩, ⟨0x2C00, 0x2C2F, 1, 48⟩,
    ⟨0x2C60, 0x2C60, 1, 1⟩, ⟨0x2C62, 0x2C62, 1, -10743⟩, ⟨0x2C63, 0x2C63, 1, -3814⟩,
    ⟨0x2C64, 0x2C64, 1, -10727⟩, ⟨0x2C67, 0x2C6B, 2, 1⟩, ⟨0x2C6D, 0x2C6D, 1, -10780⟩,
    ⟨0x2C6E, 0x2C6E, 1, -10749⟩, ⟨0x2C6F, 0x2C6F, 1, -10783⟩,
    ⟨0x2C70, 0x2C70, 1, -10782⟩, ⟨0x2C72, 0x2C72, 1, 1⟩, ⟨0x2C75, 0x2C75, 1, 1⟩,
    ⟨0x2C7E, 0x2C7F, 1, -10815⟩, ⟨0x2C80, 0x2CE2, 2, 1⟩, ⟨0x2CEB, 0x2CED, 2, 1⟩,
    ⟨0x2CF2, 0x2CF2, 1, 1⟩, ⟨0xA640, 0xA66C, 2, 1⟩, ⟨0xA680, 0xA69A, 2, 1⟩,
    ⟨0xA722, 0xA72E, 2, 1⟩, ⟨0xA732, 0xA76E, 2, 1⟩, ⟨0xA779, 0xA77B, 2, 1⟩,
    ⟨0xA77D, 0xA77D, 1, -35332⟩, ⟨0xA77E, 0xA786, 2, 1⟩, ⟨0xA78B, 0xA78B, 1, 1⟩,
    ⟨0xA78D, 0xA78D, 1, -42280⟩, ⟨0xA790, 0xA792, 2, 1⟩, ⟨0xA796, 0xA7A8, 2, 1⟩,
    ⟨0xA7AA, 0xA7AA, 1, -42308⟩, ⟨0xA7AB, 0xA7AB, 1, -42319⟩,
    ⟨0xA7AC, 0xA7AC, 1, -42315⟩, ⟨0xA7AD, 0xA7AD, 1, -42305⟩,
    ⟨0xA7AE, 0xA7AE, 1, -42308⟩, ⟨0xA7B0, 0xA7B0, 1, -42258⟩,
    ⟨0xA7B1, 0xA7B1, 1, -42282⟩, ⟨0xA7B2, 0xA7B2, 1, -42261⟩, ⟨0xA7B3, 0xA7B3, 1, 928⟩,
    ⟨0xA7B4, 0xA7C2, 2, 1⟩, ⟨0xA7C4, 0xA7C4, 1, -48⟩, ⟨0xA7C5, 0xA7C5, 1, -42307⟩,
    ⟨0xA7C6, 0xA7C6, 1, -35384⟩, ⟨0xA7C7, 0xA7C9, 2, 1⟩, ⟨0xA7CB, 0xA7CB, 1, -42343⟩,
    ⟨0xA7CC, 0xA7DA, 2, 1⟩, ⟨0xA7DC, 0xA7DC, 1, -42561⟩, ⟨0xA7F5, 0xA7F5, 1, 1⟩,
    ⟨0xFF21, 0xFF3A, 1, 32⟩, ⟨0x10400, 0x10427, 1, 40⟩, ⟨0x104B0, 0x104D3, 1, 40⟩,
    ⟨0x10570, 0x1057A, 1, 39⟩, ⟨0x1057C, 0x1058A, 1, 39⟩, ⟨0x1058C, 0x10592, 1, 39⟩,
    ⟨0x10594, 0x10595, 1, 39⟩, ⟨0x10C80, 0x10CB2, 1, 64⟩, ⟨0x10D50, 0x10D65, 1, 32⟩,
    ⟨0x118A0, 0x118BF, 1, 32⟩, ⟨0x16E40, 0x16E5F, 1, 32⟩, ⟨0x16EA0, 0x16EB8, 1, 27⟩,
    ⟨0x1E900, 0x1E921, 1, 34⟩]

/-- `unicode.ToLower` on code points. -/
def lowerCode (n : Nat) : Nat :=
  match lowerRanges.find? (·.covers n) with
  | some r => r.lower n
  | none => n

/-- `unicode.ToLower`. -/
def toLowerRune (c : Char) : Char :=
  Char.ofNat (lowerCode c.toNat)

/-- `strings.ToLower`. -/
def toLower (s : String) : String :=
  String.ofList (s.toList.map toLowerRune)

/-- The class `[0-9a-fA-F]`. -/
def isHexDigit (c : Char) : Bool :=
  (0x30 ≤ c.toNat && c.toNat ≤ 0x39) || (0x41 ≤ c.toNat && c.toNat ≤ 0x46) ||
    (0x61 ≤ c.toNat && c.toNat ≤ 0x66)

def trimRunes (l : List Char) : List Char :=
  (l.dropWhile isSpace).rdropWhile isSpace

/-- `strings.TrimSpace`. -/
def trimSpace (s : String) : String :=
  String.ofList (trimRunes s.toList)

section Lowering

/-- Every other code point of the range at most. -/
def CaseRange.sparse (r : CaseRange) : Bool :=
  r.step == 2 || r.lo == r.hi

/-- No lower case of the first range lies in the second. -/
def CaseRange.avoids (r r' : CaseRange) : Bool :=
  Nat.blt (r.lower r.hi) r'.lo || Nat.blt r'.hi (r.lower r.lo) ||
    (r.sparse && r'.sparse && (r.lower r.lo + r'.lo) % 2 == 1)

/-- What the proofs below use of the table, besides `lowerRanges_avoid`. -/
structure CaseRange.WellFormed (r : CaseRange) : Prop where
  order : r.lo ≤ r.hi
  nonneg : 0 ≤ r.lo + r.delta
  /-- The lower cases are code points of characters. -/
  valid : r.hi + r.delta < 0xD800 ∨
    (0xE000 ≤ r.lo + r.delta ∧ r.hi + r.delta < 0x110000)
  /-- The lower cases are not white space. -/
  visible : ∀ w ∈ spaceRanges, r.hi + r.delta < w.1 ∨ w.2 < r.lo + r.delta
  /-- Only the Latin capitals are or become hexadecimal digits. -/
  latin : (r.lo = 0x41 ∧ r.hi = 0x5A ∧ r.delta = 32) ∨
    (0x7F < r.lo ∧ 0x66 < r.lo + r.delta)

instance (r : CaseRange) : Decidable r.WellFormed :=
  decidable_of_iff
    (r.lo ≤ r.hi ∧ 0 ≤ r.lo + r.delta ∧
      (r.hi + r.delta < 0xD800 ∨
        (0xE000 ≤ r.lo + r.delta ∧ r.hi + r.delta < 0x110000)) ∧
      (∀ w ∈ spaceRanges, r.hi + r.delta < w.1 ∨ w.2 < r.lo + r.delta) ∧
      ((r.lo = 0x41 ∧ r.hi = 0x5A ∧ r.delta = 32) ∨
        (0x7F < r.lo ∧ 0x66 < r.lo + r.delta)))
    ⟨fun ⟨h₁, h₂, h₃, h₄, h₅⟩ => ⟨h₁, h₂, h₃, h₄, h₅⟩,
      fun ⟨h₁, h₂, h₃, h₄, h₅⟩ => ⟨h₁, h₂, h₃, h₄, h₅⟩⟩

theorem lowerRanges_wellFormed :
    ∀ r ∈ lowerRanges, r.WellFormed := by
  decide +kernel

theorem lowerRanges_avoid :
    (lowerRanges.all fun r => lowerRanges.all fun r' => r.avoids r') = true := by
  decide +kernel

/-- A code point keeps its value or is lowered by a range of the table. -/
theorem lowerCode_cases
    (n : Nat) :
    lowerCode n = n ∨
      ∃ r ∈ lowerRanges, r.covers n = true ∧ lowerCode n = r.lower n := by
  unfold lowerCode
  split
  · rename_i r hfind
    have hcovers := List.find?_some hfind
    exact Or.inr ⟨r, List.mem_of_find?_eq_some hfind, hcovers, rfl⟩
  · exact Or.inl rfl

variable {n : Nat}

theorem CaseRange.covers_iff
    {r : CaseRange} :
    r.covers n = true
      ↔
    r.lo ≤ n ∧ n ≤ r.hi ∧ (n - r.lo) % r.step = 0 := by
  simp [CaseRange.covers, and_assoc]

/-- A lower case has no lower case other than itself. -/
theorem CaseRange.not_covers_lower
    {r r' : CaseRange}
    (hr : r.WellFormed)
    (havoids : r.avoids r' = true)
    (hcovers : r.covers n = true) :
    r'.covers (r.lower n) = false := by
  obtain ⟨hlo, hhi, hmod⟩ := CaseRange.covers_iff.mp hcovers
  have hnonneg := hr.nonneg
  have horder := hr.order
  rw [Bool.eq_false_iff]
  intro hcovers'
  obtain ⟨hlo', hhi', hmod'⟩ := CaseRange.covers_iff.mp hcovers'
  unfold CaseRange.avoids CaseRange.sparse at havoids
  unfold CaseRange.lower at hlo' hhi' hmod' havoids
  simp only [Bool.or_eq_true, Bool.and_eq_true, beq_iff_eq, Nat.blt_eq] at havoids
  rcases havoids with (hbelow | habove) | ⟨⟨hsparse, hsparse'⟩, hodd⟩
  · omega
  · omega
  · -- both ranges take every other code point, and their parities differ
    have heven : (n - r.lo) % 2 = 0 := by
      rcases hsparse with hstep | hone
      · rwa [hstep] at hmod
      · omega
    have heven' : ((n + r.delta).toNat - r'.lo) % 2 = 0 := by
      rcases hsparse' with hstep | hone
      · rwa [hstep] at hmod'
      · omega
    omega

theorem lowerCode_idem
    (n : Nat) :
    lowerCode (lowerCode n) = lowerCode n := by
  rcases lowerCode_cases n with hsame | ⟨r, hr, hcovers, hlower⟩
  · rw [hsame, hsame]
  · rcases lowerCode_cases (lowerCode n) with hsame | ⟨r', hr', hcovers', _⟩
    · exact hsame
    · have havoids := List.all_eq_true.mp
        (List.all_eq_true.mp lowerRanges_avoid r hr) r' hr'
      rw [hlower, CaseRange.not_covers_lower (lowerRanges_wellFormed r hr)
        havoids hcovers] at hcovers'
      cases hcovers'

/-- What a range makes of a code point, for arithmetic. -/
theorem CaseRange.lower_bounds
    {r : CaseRange}
    (hr : r.WellFormed)
    (hcovers : r.covers n = true) :
    r.lo ≤ n ∧ n ≤ r.hi ∧ (r.lower n : Int) = n + r.delta := by
  obtain ⟨hlo, hhi, _⟩ := CaseRange.covers_iff.mp hcovers
  have hnonneg := hr.nonneg
  have hlower : (r.lower n : Int) = n + r.delta := by
    unfold CaseRange.lower
    omega
  exact ⟨hlo, hhi, hlower⟩

theorem lowerCode_valid
    (h : n.isValidChar) :
    (lowerCode n).isValidChar := by
  rcases lowerCode_cases n with hsame | ⟨r, hr, hcovers, hlower⟩
  · rwa [hsame]
  · rw [hlower]
    have hwf := lowerRanges_wellFormed r hr
    obtain ⟨hlo, hhi, hsum⟩ := CaseRange.lower_bounds hwf hcovers
    have hvalid := hwf.valid
    unfold Nat.isValidChar
    omega

@[simp] theorem toNat_toLowerRune
    (c : Char) :
    (toLowerRune c).toNat = lowerCode c.toNat := by
  have hvalid : (lowerCode c.toNat).isValidChar := lowerCode_valid c.valid
  unfold toLowerRune Char.ofNat
  rw [dif_pos hvalid]
  rfl

theorem toLowerRune_idem
    (c : Char) :
    toLowerRune (toLowerRune c) = toLowerRune c := by
  rw [← Char.toNat_inj]
  simp [lowerCode_idem]

theorem isSpace_toLowerRune
    (c : Char) :
    isSpace (toLowerRune c) = true → isSpace c = true := by
  unfold isSpace
  rw [toNat_toLowerRune]
  rcases lowerCode_cases c.toNat with hsame | ⟨r, hr, hcovers, hlower⟩
  · rw [hsame]
    exact id
  · intro hspace
    rw [hlower] at hspace
    have hwf := lowerRanges_wellFormed r hr
    obtain ⟨hlo, hhi, hsum⟩ := CaseRange.lower_bounds hwf hcovers
    obtain ⟨w, hw, hin⟩ := List.any_eq_true.mp hspace
    simp only [Bool.and_eq_true, decide_eq_true_eq] at hin
    have hvisible := hwf.visible w hw
    omega

@[simp] theorem isHexDigit_toLowerRune
    (c : Char) :
    isHexDigit (toLowerRune c) = isHexDigit c := by
  rw [Bool.eq_iff_iff]
  simp only [isHexDigit, toNat_toLowerRune, Bool.or_eq_true, Bool.and_eq_true,
    decide_eq_true_eq]
  rcases lowerCode_cases c.toNat with hsame | ⟨r, hr, hcovers, hlower⟩
  · rw [hsame]
  · rw [hlower]
    have hwf := lowerRanges_wellFormed r hr
    obtain ⟨hlo, hhi, hsum⟩ := CaseRange.lower_bounds hwf hcovers
    rcases hwf.latin with ⟨hfirst, hlast, hdelta⟩ | ⟨hbeyond, hlowered⟩
    · omega
    · omega

@[simp] theorem toLower_idem
    (s : String) :
    toLower (toLower s) = toLower s := by
  simp [toLower, Function.comp_def, toLowerRune_idem]

end Lowering

section Trimming

/-- Neither the first nor the last character is white space. -/
def Trimmed (l : List Char) : Prop :=
  (∀ c ∈ l.head?, isSpace c = false) ∧ ∀ c ∈ l.getLast?, isSpace c = false

theorem trimRunes_of_trimmed
    {l : List Char}
    (h : Trimmed l) :
    trimRunes l = l := by
  obtain ⟨hfirst, hlast⟩ := h
  have hdrop : l.dropWhile isSpace = l := by
    cases l with
    | nil => rfl
    | cons c l => simp [hfirst c (by simp)]
  unfold trimRunes
  rw [hdrop, List.rdropWhile_eq_self_iff]
  intro hne
  rw [hlast _ (List.getLast?_eq_some_getLast hne)]
  exact Bool.false_ne_true

theorem trimmed_trimRunes
    (l : List Char) :
    Trimmed (trimRunes l) := by
  unfold trimRunes
  constructor
  · intro c hc
    obtain ⟨rest, hrest⟩ := List.rdropWhile_prefix isSpace (l.dropWhile isSpace)
    have hhead : (l.dropWhile isSpace).head? = some c := by
      rw [← hrest, List.head?_append, hc]
      rfl
    have hnot := List.head?_dropWhile_not isSpace l
    rwa [hhead] at hnot
  · intro c hc
    obtain ⟨hne, rfl⟩ := List.mem_getLast?_eq_getLast hc
    exact Bool.eq_false_iff.mpr (List.rdropWhile_last_not isSpace _ hne)

theorem Trimmed.map_toLowerRune
    {l : List Char}
    (h : Trimmed l) :
    Trimmed (l.map toLowerRune) := by
  have hkeep : ∀ c, isSpace c = false → isSpace (toLowerRune c) = false := by
    intro c hc
    rw [Bool.eq_false_iff] at hc ⊢
    exact fun hspace => hc (isSpace_toLowerRune c hspace)
  constructor
  · intro c hc
    rw [List.head?_map] at hc
    obtain ⟨c', hc', rfl⟩ := Option.map_eq_some_iff.mp hc
    exact hkeep c' (h.1 c' hc')
  · intro c hc
    rw [List.getLast?_map] at hc
    obtain ⟨c', hc', rfl⟩ := Option.map_eq_some_iff.mp hc
    exact hkeep c' (h.2 c' hc')

/-- Lowering a trimmed string leaves nothing to trim. -/
@[simp] theorem trimSpace_toLower_trimSpace
    (s : String) :
    trimSpace (toLower (trimSpace s)) = toLower (trimSpace s) := by
  have htrimmed := (trimmed_trimRunes s.toList).map_toLowerRune
  simp [trimSpace, toLower, trimRunes_of_trimmed htrimmed]

/-- Only white space trims to nothing. -/
theorem isSpace_of_trimSpace_eq_empty
    {s : String}
    (h : trimSpace s = "") :
    ∀ c ∈ s.toList, isSpace c = true := by
  have hruns : trimRunes s.toList = [] := by
    rw [trimSpace, ← String.toList_inj, String.toList_ofList] at h
    exact h
  rw [trimRunes, List.rdropWhile_eq_nil_iff] at hruns
  rw [← List.dropWhile_eq_nil_iff]
  cases hdrop : s.toList.dropWhile isSpace with
  | nil => rfl
  | cons c rest =>
      -- what is kept begins with a character that is not white space
      have hnot : isSpace c = false := by
        have hhead := List.head?_dropWhile_not isSpace s.toList
        rw [hdrop] at hhead
        exact hhead
      rw [hruns c (by simp [hdrop])] at hnot
      cases hnot

end Trimming

end Foundation
end OptimumGateway
