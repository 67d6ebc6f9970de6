import Mathlib.Algebra.Ring.Nat
import Mathlib.Data.List.Basic
import Mathlib.Tactic.Common

/-!
# Byte strings

Slices of byte strings, arrays of a fixed length, little-endian integers and
base-128 varints.  An integer of `w` bytes is written by `leBytes w` and read by
`leValue`; the two are inverse on the integers below `256 ^ w` and on the strings of
`w` bytes.  `readUvarint` returns what follows the varint, so that varints can be read
one after another.
-/

namespace OptimumGateway
namespace Foundation

abbrev Bytes := List UInt8

/-- Arrays of a fixed length. -/
abbrev FixedBytes (n : Nat) := { b : Bytes // b.length = n }

section Slices

/-- The bytes `b[lo:hi]`. -/
def slice (b : Bytes) (lo hi : Nat) : Bytes :=
  (b.drop lo).take (hi - lo)

@[simp] theorem length_slice
    (b : Bytes)
    (lo hi : Nat) :
    (slice b lo hi).length = min (hi - lo) (b.length - lo) := by
  simp [slice]

theorem slice_drop
    (b : Bytes)
    (n lo hi : Nat) :
    slice (b.drop n) lo hi = slice b (n + lo) (n + hi) := by
  rw [slice, slice, List.drop_drop, Nat.add_sub_add_left]

variable {lo hi n : Nat}

theorem slice_take
    (b : Bytes)
    (h : hi ≤ n) :
    slice (b.take n) lo hi = slice b lo hi := by
  rw [slice, slice, List.drop_take, List.take_take, Nat.min_eq_left (by omega)]

theorem slice_append_slice
    (b : Bytes)
    {mid : Nat}
    (h₁ : lo ≤ mid)
    (h₂ : mid ≤ hi) :
    slice b lo mid ++ slice b mid hi = slice b lo hi := by
  obtain ⟨i, rfl⟩ := Nat.exists_eq_add_of_le h₁
  obtain ⟨j, rfl⟩ := Nat.exists_eq_add_of_le h₂
  unfold slice
  rw [show lo + i - lo = i by omega, show lo + i + j - (lo + i) = j by omega,
    show lo + i + j - lo = i + j by omega, List.take_add, List.drop_drop]

theorem slice_self
    {b : Bytes}
    (h : b.length = n) :
    slice b 0 n = b := by
  subst h
  simp [slice]

theorem slice_append_right
    {a b : Bytes}
    (h : a.length ≤ lo) :
    slice (a ++ b) lo hi = slice b (lo - a.length) (hi - a.length) := by
  unfold slice
  rw [List.drop_append, List.drop_of_length_le h, List.nil_append,
    show hi - a.length - (lo - a.length) = hi - lo by omega]

theorem slice_append_left
    {a b : Bytes}
    (h : a.length = n) :
    slice (a ++ b) 0 n = a := by
  subst h
  simp [slice]

/-- Consecutive slices of the given widths. -/
def slices (b : Bytes) : Nat → List Nat → List Bytes
  | _, [] => []
  | lo, w :: ws => slice b lo (lo + w) :: slices b (lo + w) ws

theorem slices_append
    (a b : Bytes)
    (ws : List Nat) :
    slices (a ++ b) a.length ws = slices b 0 ws := by
  have hshift : ∀ lo, slices (a ++ b) (a.length + lo) ws = slices b lo ws := by
    induction ws with
    | nil => exact fun _ => rfl
    | cons w ws ih =>
        intro lo
        rw [slices, slices, slice_append_right (by omega), Nat.add_assoc, ih,
          Nat.add_sub_cancel_left, Nat.add_sub_cancel_left]
  exact hshift 0

/-- Pieces are found again where they were put. -/
theorem slices_flatten
    (ps : List Bytes) :
    slices ps.flatten 0 (ps.map List.length) = ps := by
  induction ps with
  | nil => rfl
  | cons p ps ih =>
      rw [List.flatten_cons, List.map_cons, slices, Nat.zero_add, slices_append, ih,
        slice_append_left rfl]

/-- The pieces of a byte string make it up. -/
theorem flatten_slices
    (b : Bytes)
    (lo : Nat)
    (ws : List Nat) :
    (slices b lo ws).flatten = slice b lo (lo + ws.sum) := by
  induction ws generalizing lo with
  | nil => simp [slices, slice]
  | cons w ws ih =>
      rw [slices, List.flatten_cons, ih, slice_append_slice b (by omega) (by omega),
        List.sum_cons, Nat.add_assoc]

/-- `copy(dst[:], src)` for an array. -/
def copyArray {n : Nat} (dst : FixedBytes n) (src : Bytes) : FixedBytes n :=
  ⟨src.take n ++ dst.val.drop src.length, by
    have hlength := dst.property
    simp only [List.length_append, List.length_take, List.length_drop]
    omega⟩

/-- A source of the array's length replaces all of it. -/
theorem val_copyArray
    {src : Bytes}
    (dst : FixedBytes n)
    (h : src.length = n) :
    (copyArray dst src).val = src := by
  have hdrop : dst.val.drop src.length = [] := by
    exact List.drop_of_length_le (Nat.le_of_eq (dst.property.trans h.symm))
  simp [copyArray, hdrop, List.take_of_length_le (Nat.le_of_eq h)]

@[simp] theorem copyArray_val
    {n : Nat}
    (dst src : FixedBytes n) :
    copyArray dst src.val = src := by
  exact Subtype.ext (val_copyArray dst src.property)

end Slices

section LittleEndian

/-- The `w` low bytes of a number, lowest first. -/
def leBytes : Nat → Nat → Bytes
  | 0, _ => []
  | w + 1, n => UInt8.ofNat n :: leBytes w (n / 256)

def leValue : Bytes → Nat
  | [] => 0
  | b :: bs => b.toNat + 256 * leValue bs

@[simp] theorem length_leBytes
    (w n : Nat) :
    (leBytes w n).length = w := by
  induction w generalizing n with
  | zero => rfl
  | succ w ih => simp [leBytes, ih]

theorem leValue_lt
    (b : Bytes) :
    leValue b < 256 ^ b.length := by
  induction b with
  | nil => simp [leValue]
  | cons x b ih =>
      have hx := x.toNat_lt
      simp only [leValue, List.length_cons, Nat.pow_succ]
      omega

theorem leValue_leBytes
    {w n : Nat}
    (h : n < 256 ^ w) :
    leValue (leBytes w n) = n := by
  induction w generalizing n with
  | zero =>
      simp only [Nat.pow_zero] at h
      simp only [leBytes, leValue]
      omega
  | succ w ih =>
      have hdiv : n / 256 < 256 ^ w := by
        rw [Nat.pow_succ] at h
        omega
      simp only [leBytes, leValue, ih hdiv, UInt8.toNat_ofNat']
      omega

theorem leBytes_leValue
    (b : Bytes) :
    leBytes b.length (leValue b) = b := by
  induction b with
  | nil => rfl
  | cons x b ih =>
      have hx := x.toNat_lt
      have hdiv : (x.toNat + 256 * leValue b) / 256 = leValue b := by
        omega
      have hbyte : UInt8.ofNat (x.toNat + 256 * leValue b) = x := by
        rw [← UInt8.toNat_inj, UInt8.toNat_ofNat']
        omega
      simp only [List.length_cons, leBytes, leValue, hdiv, ih, hbyte]

/-- `binary.LittleEndian.AppendUint64` to nothing. -/
def putUint64 (x : UInt64) : Bytes :=
  leBytes 8 x.toNat

/-- `binary.LittleEndian.Uint64`. -/
def getUint64 (b : Bytes) : UInt64 :=
  UInt64.ofNat (leValue (b.take 8))

@[simp] theorem length_putUint64
    (x : UInt64) :
    (putUint64 x).length = 8 := by
  simp [putUint64]

@[simp] theorem getUint64_putUint64
    (x : UInt64) :
    getUint64 (putUint64 x) = x := by
  have hx : x.toNat < 256 ^ 8 := x.toNat_lt
  have htake : (putUint64 x).take 8 = leBytes 8 x.toNat := by
    rw [List.take_of_length_le (by simp), putUint64]
  rw [getUint64, htake, leValue_leBytes hx, UInt64.ofNat_toNat]

theorem putUint64_getUint64
    {b : Bytes}
    (h : b.length = 8) :
    putUint64 (getUint64 b) = b := by
  have hvalue : leValue b < 256 ^ 8 := h ▸ leValue_lt b
  have htake : b.take 8 = b := List.take_of_length_le (by omega)
  have hnat : (getUint64 b).toNat = leValue b := by
    rw [getUint64, htake, UInt64.toNat_ofNat']
    exact Nat.mod_eq_of_lt hvalue
  rw [putUint64, hnat, ← h, leBytes_leValue]

end LittleEndian

section Varints

/-- At most `k` groups of seven bits, lowest first, with a continuation bit on all but
the last. -/
def uvarintGroups : Nat → Nat → Bytes
  | 0, _ => []
  | k + 1, n =>
      if n < 128 then [UInt8.ofNat n]
      else UInt8.ofNat (n % 128 + 128) :: uvarintGroups k (n / 128)

def readUvarintGroups : Nat → Bytes → Option (Nat × Bytes)
  | 0, _ => none
  | _ + 1, [] => none
  | k + 1, b :: rest =>
      if b.toNat < 128 then
        some (b.toNat, rest)
      else
        match readUvarintGroups k rest with
        | none => none
        | some (n, rest') => some (b.toNat - 128 + 128 * n, rest')

/-- `binary.AppendUvarint` to nothing, for numbers of any size. -/
def putUvarint (n : Nat) : Bytes :=
  uvarintGroups (n.log2 / 7 + 1) n

/-- The varint at the beginning of a byte string, and what follows it. -/
def readUvarint (b : Bytes) : Option (Nat × Bytes) :=
  readUvarintGroups b.length b

theorem length_uvarintGroups_le
    (k n : Nat) :
    (uvarintGroups k n).length ≤ k := by
  induction k generalizing n with
  | zero => simp [uvarintGroups]
  | succ k ih =>
      have hrest := ih (n / 128)
      unfold uvarintGroups
      split
      · simp
      · simp only [List.length_cons]
        omega

theorem uvarintGroups_ne_nil
    (k n : Nat) :
    uvarintGroups (k + 1) n ≠ [] := by
  unfold uvarintGroups
  split <;> simp

theorem readUvarintGroups_last
    {n : Nat}
    (h : n < 128)
    (k k' : Nat)
    (rest : Bytes) :
    readUvarintGroups (k' + 1) (uvarintGroups (k + 1) n ++ rest) = some (n, rest) := by
  have hbyte : (UInt8.ofNat n).toNat = n := by
    rw [UInt8.toNat_ofNat']
    omega
  simp only [uvarintGroups, if_pos h, List.cons_append, List.nil_append, readUvarintGroups,
    hbyte]

/-- A reader that may look at enough bytes finds the number again. -/
theorem readUvarintGroups_append
    {k n k' : Nat}
    (h : n < 128 ^ (k + 1))
    (hfuel : (uvarintGroups (k + 1) n).length ≤ k')
    (rest : Bytes) :
    readUvarintGroups k' (uvarintGroups (k + 1) n ++ rest) = some (n, rest) := by
  have hpos := List.length_pos_of_ne_nil (uvarintGroups_ne_nil k n)
  obtain ⟨j, rfl⟩ := Nat.exists_eq_succ_of_ne_zero (show k' ≠ 0 by omega)
  induction k generalizing n j with
  | zero => exact readUvarintGroups_last (by omega) 0 j rest
  | succ k ih =>
      by_cases hlast : n < 128
      · exact readUvarintGroups_last hlast (k + 1) j rest
      · have hbyte : (UInt8.ofNat (n % 128 + 128)).toNat = n % 128 + 128 := by
          rw [UInt8.toNat_ofNat']
          omega
        have hdiv : n / 128 < 128 ^ (k + 1) := by
          rw [Nat.pow_succ] at h
          omega
        have hmore : ¬ n % 128 + 128 < 128 := by
          omega
        have hvalue : n % 128 + 128 - 128 + 128 * (n / 128) = n := by
          omega
        have hnext := List.length_pos_of_ne_nil (uvarintGroups_ne_nil k (n / 128))
        rw [uvarintGroups, if_neg hlast, List.length_cons] at hfuel
        obtain ⟨i, rfl⟩ := Nat.exists_eq_succ_of_ne_zero (show j ≠ 0 by omega)
        rw [uvarintGroups, if_neg hlast, List.cons_append, readUvarintGroups, hbyte,
          if_neg hmore, ih hdiv hnext i (by omega)]
        simp only [hvalue]

/-- The groups of a varint have room for the number. -/
theorem lt_pow_groups
    (n : Nat) :
    n < 128 ^ (n.log2 / 7 + 1) := by
  have hlog : n < 2 ^ (n.log2 + 1) := Nat.lt_log2_self
  have hle : n.log2 + 1 ≤ 7 * (n.log2 / 7 + 1) := by
    omega
  calc
    n < 2 ^ (n.log2 + 1) := hlog
    _ ≤ 2 ^ (7 * (n.log2 / 7 + 1)) := Nat.pow_le_pow_right (by omega) hle
    _ = 128 ^ (n.log2 / 7 + 1) := by rw [Nat.pow_mul]

theorem readUvarint_append
    (n : Nat)
    (rest : Bytes) :
    readUvarint (putUvarint n ++ rest) = some (n, rest) := by
  exact readUvarintGroups_append (lt_pow_groups n) (by simp [putUvarint]) rest

theorem putUvarint_ne_nil
    (n : Nat) :
    putUvarint n ≠ [] := by
  exact uvarintGroups_ne_nil _ n

theorem length_putUvarint_le
    {n w : Nat}
    (h : n < 2 ^ (7 * w + 7)) :
    (putUvarint n).length ≤ w + 1 := by
  have hlength := length_uvarintGroups_le (n.log2 / 7 + 1) n
  have hlog : n.log2 < 7 * w + 7 := by
    by_cases hzero : n = 0
    · subst hzero
      simp
    · exact (Nat.log2_lt hzero).mpr h
  unfold putUvarint
  omega

end Varints

end Foundation
end OptimumGateway
