import OptimumGateway.Foundation.Bytes
import OptimumGateway.Foundation.GoError

/-!
# The snappy block format

`Snappy` has the three functions of the snappy package that are used on blocks, and
`Snappy.Lawful` what its documentation says about them.  `literalSnappy` is the part of
the format in which the whole block is one literal: a varint with the length, a literal
tag and the bytes.  It is what the encoder produces for input without repetitions.  A
decoder of it may meet lengths that are padded with zeros; `canonicalSnappy` refuses them.
-/

namespace OptimumGateway
namespace Foundation

structure Snappy where
  encode : Bytes → Bytes
  decode : Bytes → Except GoError Bytes
  decodedLen : Bytes → Except GoError Nat

/-- The largest length that a block can announce. -/
def snappyMaxBlock : Nat :=
  2 ^ 32

structure Snappy.Lawful (z : Snappy) : Prop where
  decode_encode : ∀ {b : Bytes}, b.length < snappyMaxBlock → z.decode (z.encode b) = .ok b
  decodedLen_of_decode : ∀ {m b : Bytes}, z.decode m = .ok b → z.decodedLen m = .ok b.length
  length_encode : ∀ {b : Bytes}, b.length < snappyMaxBlock →
    (z.encode b).length ≤ 32 + b.length + b.length / 6

section Literals

/-- `snappy.ErrCorrupt`. -/
def errCorrupt : GoError :=
  .new "snappy: corrupt input"

/-- Tag of a literal of `n + 1` bytes. -/
def literalTag (n : Nat) : Bytes :=
  if n < 60 then
    [UInt8.ofNat (n * 4)]
  else if n < 2 ^ 8 then
    UInt8.ofNat (60 * 4) :: leBytes 1 n
  else if n < 2 ^ 16 then
    UInt8.ofNat (61 * 4) :: leBytes 2 n
  else
    UInt8.ofNat (63 * 4) :: leBytes 4 n

/-- The number of length bytes behind the tag of a long literal. -/
def literalWidth : Nat → Nat
  | 60 => 1
  | 61 => 2
  | 62 => 3
  | 63 => 4
  | _ => 0

/-- Length of the literal at the beginning of the input, and what follows its tag. -/
def readLiteralTag : Bytes → Option (Nat × Bytes)
  | [] => none
  | tag :: rest =>
      if tag.toNat % 4 ≠ 0 then
        none
      else if tag.toNat / 4 < 60 then
        some (tag.toNat / 4 + 1, rest)
      else
        let w := literalWidth (tag.toNat / 4)
        some (leValue (rest.take w) + 1, rest.drop w)

def encodeLiteral (b : Bytes) : Bytes :=
  putUvarint b.length ++ (if b.isEmpty then [] else literalTag (b.length - 1) ++ b)

def decodeLiteral (m : Bytes) : Except GoError Bytes :=
  match readUvarint m with
  | none => .error errCorrupt
  | some (0, []) => .ok []
  | some (size, body) =>
      match readLiteralTag body with
      | none => .error errCorrupt
      | some (n, b) => if n = size ∧ b.length = size then .ok b else .error errCorrupt

def literalDecodedLen (m : Bytes) : Except GoError Nat :=
  match readUvarint m with
  | none => .error errCorrupt
  | some (size, _) => .ok size

/-- Blocks that are one literal. -/
def literalSnappy : Snappy where
  encode := encodeLiteral
  decode := decodeLiteral
  decodedLen := literalDecodedLen

theorem readLiteralTag_append
    {n : Nat}
    (h : n < snappyMaxBlock)
    (rest : Bytes) :
    readLiteralTag (literalTag n ++ rest) = some (n + 1, rest) := by
  unfold snappyMaxBlock at h
  unfold literalTag
  split
  · have htag : (UInt8.ofNat (n * 4)).toNat = n * 4 := by
      rw [UInt8.toNat_ofNat']
      omega
    simp only [List.cons_append, List.nil_append, readLiteralTag, htag]
    rw [if_neg (by omega), if_pos (by omega), Nat.mul_div_cancel n (by omega)]
  · split
    · simp [readLiteralTag, literalWidth, leValue_leBytes (w := 1) (by omega)]
    · split
      · simp [readLiteralTag, literalWidth, leValue_leBytes (w := 2) (by omega)]
      · simp [readLiteralTag, literalWidth, leValue_leBytes (w := 4) (by omega)]

theorem length_literalTag_le
    (n : Nat) :
    (literalTag n).length ≤ 5 := by
  unfold literalTag
  split
  · simp
  · split
    · simp
    · split <;> simp

theorem literalSnappy_lawful :
    literalSnappy.Lawful := by
  constructor
  case decode_encode =>
    intro b hb
    cases b with
    | nil => rfl
    | cons x b =>
        have hn : b.length < snappyMaxBlock := by
          exact Nat.lt_of_succ_lt hb
        simp [literalSnappy, encodeLiteral, decodeLiteral, readUvarint_append,
          readLiteralTag_append hn]
  case decodedLen_of_decode =>
    intro m b h
    simp only [literalSnappy, decodeLiteral, literalDecodedLen] at h ⊢
    split at h
    · cases h
    · cases h
      simp [*]
    · split at h
      · cases h
      · split at h
        · cases h
          simp [*]
        · cases h
  case length_encode =>
    intro b hb
    have hvarint : (putUvarint b.length).length ≤ 5 := by
      refine length_putUvarint_le (w := 4) ?_
      unfold snappyMaxBlock at hb
      omega
    have htag := length_literalTag_le (b.length - 1)
    simp only [literalSnappy, encodeLiteral, List.length_append]
    split
    · simp only [List.length_nil]
      omega
    · simp only [List.length_append]
      omega

/-- Blocks exactly as the encoder writes them. -/
def canonicalSnappy : Snappy where
  encode := encodeLiteral
  decode m :=
    match decodeLiteral m with
    | .error err => .error err
    | .ok b => if encodeLiteral b = m then .ok b else .error errCorrupt
  decodedLen := literalDecodedLen

theorem canonicalSnappy_decode
    {m b : Bytes}
    (h : canonicalSnappy.decode m = .ok b) :
    decodeLiteral m = .ok b ∧ encodeLiteral b = m := by
  simp only [canonicalSnappy] at h
  split at h
  · cases h
  · rename_i hdecode
    split at h
    · rename_i hencode
      cases h
      exact ⟨hdecode, hencode⟩
    · cases h

theorem canonicalSnappy_lawful :
    canonicalSnappy.Lawful := by
  constructor
  case decode_encode =>
    intro b hb
    have hdecode : decodeLiteral (encodeLiteral b) = .ok b :=
      literalSnappy_lawful.decode_encode hb
    simp only [canonicalSnappy, hdecode, if_pos]
  case decodedLen_of_decode =>
    intro m b h
    exact literalSnappy_lawful.decodedLen_of_decode (canonicalSnappy_decode h).1
  case length_encode => exact literalSnappy_lawful.length_encode

end Literals

end Foundation
end OptimumGateway
