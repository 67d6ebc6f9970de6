import OptimumGateway.Foundation.Bytes

/-!
# The protobuf wire format

A message is a sequence of fields, each a tag with the field number and the wire type
followed by its value: a varint, or bytes behind their length.  The other wire types are
not used by the messages of the gateway and are rejected here.

`readFields_encodeFields` is the round trip on sequences of fields; what a message makes
of its fields is up to the message.
-/

namespace OptimumGateway
namespace Foundation
namespace Protobuf

inductive Value where
  | varint (n : Nat)
  | bytes (b : Bytes)
deriving DecidableEq

structure Field where
  number : Nat
  value : Value
deriving DecidableEq

def Value.wireType : Value → Nat
  | .varint _ => 0
  | .bytes _ => 2

def Value.encode : Value → Bytes
  | .varint n => putUvarint n
  | .bytes b => putUvarint b.length ++ b

def Field.encode (f : Field) : Bytes :=
  putUvarint (8 * f.number + f.value.wireType) ++ f.value.encode

def encodeFields (fields : List Field) : Bytes :=
  fields.flatMap Field.encode

/-- A value of the given wire type, and what follows it. -/
def readValue (wireType : Nat) (b : Bytes) : Option (Value × Bytes) :=
  match readUvarint b with
  | none => none
  | some (n, rest) =>
      if wireType = 0 then
        some (.varint n, rest)
      else if wireType = 2 ∧ n ≤ rest.length then
        some (.bytes (rest.take n), rest.drop n)
      else
        none

def readField (b : Bytes) : Option (Field × Bytes) :=
  match readUvarint b with
  | none => none
  | some (tag, rest) =>
      match readValue (tag % 8) rest with
      | none => none
      | some (value, rest') => some (⟨tag / 8, value⟩, rest')

/-- At most `k` fields. -/
def readFieldsUpTo : Nat → Bytes → Option (List Field)
  | _, [] => some []
  | 0, _ :: _ => none
  | k + 1, x :: b =>
      match readField (x :: b) with
      | none => none
      | some (f, rest) =>
          match readFieldsUpTo k rest with
          | none => none
          | some fields => some (f :: fields)

def readFields (b : Bytes) : Option (List Field) :=
  readFieldsUpTo b.length b

theorem readValue_encode
    (v : Value)
    (rest : Bytes) :
    readValue v.wireType (v.encode ++ rest) = some (v, rest) := by
  cases v with
  | varint n => simp [readValue, Value.encode, Value.wireType, readUvarint_append]
  | bytes b =>
      simp [readValue, Value.encode, Value.wireType, List.append_assoc,
        readUvarint_append]

theorem readField_encode
    (f : Field)
    (rest : Bytes) :
    readField (f.encode ++ rest) = some (f, rest) := by
  have hwire : f.value.wireType < 8 := by
    cases f.value <;> simp [Value.wireType]
  have htype : (8 * f.number + f.value.wireType) % 8 = f.value.wireType := by
    omega
  have hnumber : (8 * f.number + f.value.wireType) / 8 = f.number := by
    omega
  simp [readField, Field.encode, List.append_assoc, readUvarint_append, htype, hnumber,
    readValue_encode]

theorem Field.encode_ne_nil
    (f : Field) :
    f.encode ≠ [] := by
  intro h
  exact putUvarint_ne_nil _ (List.append_eq_nil_iff.mp h).1

theorem readFieldsUpTo_encodeFields
    {fields : List Field} {k : Nat}
    (hfuel : fields.length ≤ k) :
    readFieldsUpTo k (encodeFields fields) = some fields := by
  induction fields generalizing k with
  | nil => simp [encodeFields, readFieldsUpTo]
  | cons f fields ih =>
      rw [List.length_cons] at hfuel
      obtain ⟨j, rfl⟩ := Nat.exists_eq_succ_of_ne_zero (show k ≠ 0 by omega)
      have hsplit : encodeFields (f :: fields) = f.encode ++ encodeFields fields := rfl
      have hread := readField_encode f (encodeFields fields)
      rw [hsplit]
      cases hbytes : f.encode ++ encodeFields fields with
      | nil => exact absurd (List.append_eq_nil_iff.mp hbytes).1 f.encode_ne_nil
      | cons x b =>
          rw [hbytes] at hread
          rw [readFieldsUpTo, hread]
          simp only [ih (show fields.length ≤ j by omega)]

theorem length_le_length_encodeFields
    (fields : List Field) :
    fields.length ≤ (encodeFields fields).length := by
  induction fields with
  | nil => simp [encodeFields]
  | cons f fields ih =>
      have hpos := List.length_pos_of_ne_nil f.encode_ne_nil
      have hsplit : encodeFields (f :: fields) = f.encode ++ encodeFields fields := rfl
      rw [hsplit, List.length_append, List.length_cons]
      omega

theorem readFields_encodeFields
    (fields : List Field) :
    readFields (encodeFields fields) = some fields := by
  exact readFieldsUpTo_encodeFields (length_le_length_encodeFields fields)

end Protobuf
end Foundation
end OptimumGateway
