import OptimumGateway.Foundation.GoError
import OptimumGateway.Foundation.Protobuf

/-!
# The messages of the aggregator

The messages of `proto/aggregator.proto`, and the generated code that marshals them as a
pair of functions for each of the two messages that are sent.  `ProtoCodec.Lawful` says
that marshalling succeeds and that unmarshalling inverts it.

`wireCodec` is the encoding in the proto3 wire format: fields in the order of their
numbers, zero values left out, repeated fields one entry after another.
-/

namespace OptimumGateway
namespace Aggregator

open Foundation Foundation.Protobuf

/-- Encoded messages of one gossip topic. -/
structure Container where
  topic : String
  data : List Bytes
deriving DecidableEq

/-- One attester's contribution inside a packed attestation. -/
structure AttestationItem where
  committeeId : UInt64
  attesterIndex : UInt64
  topicIndex : UInt32
  signature : Bytes
deriving DecidableEq

/-- One attestation payload with all matching attesters. -/
structure AttestationPack where
  attestationSszData : Bytes
  items : List AttestationItem
  sendTsMs : Int64
deriving DecidableEq

structure Msg where
  tms : Int64
  container : List Container
deriving DecidableEq

/-- `proto.Marshal` and `proto.Unmarshal` at the two messages. -/
structure ProtoCodec where
  marshalPack : AttestationPack → Except GoError Bytes
  unmarshalPack : Bytes → Except GoError AttestationPack
  marshalMsg : Msg → Except GoError Bytes
  unmarshalMsg : Bytes → Except GoError Msg

structure ProtoCodec.Lawful (codec : ProtoCodec) : Prop where
  pack : ∀ p, ∃ b, codec.marshalPack p = .ok b ∧ codec.unmarshalPack b = .ok p
  msg : ∀ m, ∃ b, codec.marshalMsg m = .ok b ∧ codec.unmarshalMsg b = .ok m

section Wire

/-- A scalar field, which is left out when it is zero. -/
def varintField (number n : Nat) : List Field :=
  if n = 0 then [] else [⟨number, .varint n⟩]

/-- A field of bytes, which is left out when it is empty. -/
def bytesField (number : Nat) (b : Bytes) : List Field :=
  if b = [] then [] else [⟨number, .bytes b⟩]

/-- A repeated field. -/
def repeatedField (number : Nat) (bs : List Bytes) : List Field :=
  bs.map fun b => ⟨number, .bytes b⟩

/-- Read a message by merging its fields one after another. -/
def readMessage {α : Type} (merge : α → Field → Option α) (zero : α) (b : Bytes) : Option α :=
  match readFields b with
  | none => none
  | some fields => fields.foldlM merge zero

def utf8Bytes (s : String) : Bytes :=
  s.toByteArray.data.toList

def utf8Text (b : Bytes) : Option String :=
  String.fromUTF8? ⟨b.toArray⟩

namespace AttestationItem

def fields (it : AttestationItem) : List Field :=
  varintField 1 it.committeeId.toNat ++ varintField 2 it.attesterIndex.toNat ++
    varintField 3 it.topicIndex.toNat ++ bytesField 4 it.signature

def merge (it : AttestationItem) : Field → Option AttestationItem
  | ⟨1, .varint n⟩ => some { it with committeeId := UInt64.ofNat n }
  | ⟨2, .varint n⟩ => some { it with attesterIndex := UInt64.ofNat n }
  | ⟨3, .varint n⟩ => some { it with topicIndex := UInt32.ofNat n }
  | ⟨4, .bytes b⟩ => some { it with signature := b }
  | _ => some it

def zero : AttestationItem :=
  ⟨0, 0, 0, []⟩

end AttestationItem

namespace Container

def fields (c : Container) : List Field :=
  bytesField 1 (utf8Bytes c.topic) ++ repeatedField 2 c.data

def merge (c : Container) : Field → Option Container
  | ⟨1, .bytes b⟩ => (utf8Text b).map fun topic => { c with topic := topic }
  | ⟨2, .bytes b⟩ => some { c with data := c.data ++ [b] }
  | _ => some c

def zero : Container :=
  ⟨"", []⟩

end Container

namespace AttestationPack

def fields (p : AttestationPack) : List Field :=
  bytesField 1 p.attestationSszData ++
    repeatedField 2 (p.items.map fun it => encodeFields it.fields) ++
    varintField 3 p.sendTsMs.toUInt64.toNat

def merge (p : AttestationPack) : Field → Option AttestationPack
  | ⟨1, .bytes b⟩ => some { p with attestationSszData := b }
  | ⟨2, .bytes b⟩ =>
      (readMessage AttestationItem.merge AttestationItem.zero b).map fun it =>
        { p with items := p.items ++ [it] }
  | ⟨3, .varint n⟩ => some { p with sendTsMs := (UInt64.ofNat n).toInt64 }
  | _ => some p

def zero : AttestationPack :=
  ⟨[], [], 0⟩

end AttestationPack

namespace Msg

def fields (m : Msg) : List Field :=
  varintField 1 m.tms.toUInt64.toNat ++
    repeatedField 2 (m.container.map fun c => encodeFields c.fields)

def merge (m : Msg) : Field → Option Msg
  | ⟨1, .varint n⟩ => some { m with tms := (UInt64.ofNat n).toInt64 }
  | ⟨2, .bytes b⟩ =>
      (readMessage Container.merge Container.zero b).map fun c =>
        { m with container := m.container ++ [c] }
  | _ => some m

def zero : Msg :=
  ⟨0, []⟩

end Msg

/-- `proto: cannot parse invalid wire-format data`. -/
def errWireFormat : GoError :=
  .new "proto: cannot parse invalid wire-format data"

def orWireError {α : Type} : Option α → Except GoError α
  | none => .error errWireFormat
  | some a => .ok a

def wireCodec : ProtoCodec where
  marshalPack p := .ok (encodeFields p.fields)
  unmarshalPack b := orWireError (readMessage AttestationPack.merge AttestationPack.zero b)
  marshalMsg m := .ok (encodeFields m.fields)
  unmarshalMsg b := orWireError (readMessage Msg.merge Msg.zero b)

end Wire

section RoundTrip

variable {α : Type}

theorem readMessage_encodeFields
    {merge : α → Field → Option α} {zero a : α} {fields : List Field}
    (h : fields.foldlM merge zero = some a) :
    readMessage merge zero (encodeFields fields) = some a := by
  simp only [readMessage, readFields_encodeFields, h]

theorem foldlM_varintField
    {merge : α → Field → Option α} {number n : Nat} {a a' : α}
    (hzero : n = 0 → a' = a)
    (hmerge : merge a ⟨number, .varint n⟩ = some a') :
    (varintField number n).foldlM merge a = some a' := by
  unfold varintField
  split
  · rename_i h
    rw [hzero h]
    rfl
  · simp [hmerge]

theorem foldlM_bytesField
    {merge : α → Field → Option α} {number : Nat} {b : Bytes} {a a' : α}
    (hzero : b = [] → a' = a)
    (hmerge : merge a ⟨number, .bytes b⟩ = some a') :
    (bytesField number b).foldlM merge a = some a' := by
  unfold bytesField
  split
  · rename_i h
    rw [hzero h]
    rfl
  · simp [hmerge]

theorem foldlM_repeatedField
    {β : Type}
    (merge : α → Field → Option α)
    (number : Nat)
    (encode : β → Bytes)
    (add : α → List β → α)
    (hnil : ∀ a, add a [] = a)
    (hadd : ∀ a xs ys, add (add a xs) ys = add a (xs ++ ys))
    (hmerge : ∀ a x, merge a ⟨number, .bytes (encode x)⟩ = some (add a [x]))
    (a : α)
    (xs : List β) :
    (repeatedField number (xs.map encode)).foldlM merge a = some (add a xs) := by
  induction xs generalizing a with
  | nil => simp [repeatedField, hnil]
  | cons x xs ih =>
      have hrest := ih (add a [x])
      rw [hadd, List.singleton_append] at hrest
      simpa [repeatedField, hmerge] using hrest

theorem utf8Text_utf8Bytes
    (s : String) :
    utf8Text (utf8Bytes s) = some s := by
  simp [utf8Text, utf8Bytes, String.fromUTF8?, s.isValidUTF8]
  rfl

theorem AttestationItem.foldlM_fields
    (it : AttestationItem) :
    it.fields.foldlM merge zero = some it := by
  obtain ⟨committeeId, attesterIndex, topicIndex, signature⟩ := it
  have hcommittee : (varintField 1 committeeId.toNat).foldlM merge zero =
      some ⟨committeeId, 0, 0, []⟩ := by
    refine foldlM_varintField ?_ (by simp [merge, zero])
    intro h
    rw [UInt64.toNat_inj.mp (h.trans rfl : committeeId.toNat = (0 : UInt64).toNat)]
    rfl
  have hattester : (varintField 2 attesterIndex.toNat).foldlM merge
      ⟨committeeId, 0, 0, []⟩ = some ⟨committeeId, attesterIndex, 0, []⟩ := by
    refine foldlM_varintField ?_ (by simp [merge])
    intro h
    rw [UInt64.toNat_inj.mp (h.trans rfl : attesterIndex.toNat = (0 : UInt64).toNat)]
  have htopic : (varintField 3 topicIndex.toNat).foldlM merge
      ⟨committeeId, attesterIndex, 0, []⟩ =
      some ⟨committeeId, attesterIndex, topicIndex, []⟩ := by
    refine foldlM_varintField ?_ (by simp [merge])
    intro h
    rw [UInt32.toNat_inj.mp (h.trans rfl : topicIndex.toNat = (0 : UInt32).toNat)]
  have hsignature : (bytesField 4 signature).foldlM merge
      ⟨committeeId, attesterIndex, topicIndex, []⟩ =
      some ⟨committeeId, attesterIndex, topicIndex, signature⟩ := by
    refine foldlM_bytesField ?_ (by simp [merge])
    intro h
    rw [h]
  simp only [fields, List.foldlM_append, hcommittee, hattester, htopic, hsignature,
    Option.bind_eq_bind, Option.bind_some]

theorem Container.foldlM_fields
    (c : Container) :
    c.fields.foldlM merge zero = some c := by
  obtain ⟨topic, data⟩ := c
  have htopic : (bytesField 1 (utf8Bytes topic)).foldlM merge zero = some ⟨topic, []⟩ := by
    refine foldlM_bytesField ?_ (by simp [merge, zero, utf8Text_utf8Bytes])
    intro h
    have hread := utf8Text_utf8Bytes topic
    rw [h] at hread
    have hempty : utf8Text [] = some "" := utf8Text_utf8Bytes ""
    rw [Option.some.inj (hread.symm.trans hempty)]
    rfl
  have hdata : (repeatedField 2 data).foldlM merge (⟨topic, []⟩ : Container) =
      some ⟨topic, data⟩ := by
    have hrepeated := foldlM_repeatedField merge 2 id
      (fun c xs => { c with data := c.data ++ xs }) (by simp) (by simp)
      (by simp [merge]) (⟨topic, []⟩ : Container) data
    simpa using hrepeated
  simp only [fields, List.foldlM_append, htopic, hdata, Option.bind_eq_bind,
    Option.bind_some]

theorem AttestationPack.foldlM_fields
    (p : AttestationPack) :
    p.fields.foldlM merge zero = some p := by
  obtain ⟨data, items, sendTsMs⟩ := p
  have hdata : (bytesField 1 data).foldlM merge zero = some ⟨data, [], 0⟩ := by
    refine foldlM_bytesField ?_ (by simp [merge, zero])
    intro h
    rw [h]
    rfl
  have hread : ∀ it : AttestationItem,
      readMessage AttestationItem.merge AttestationItem.zero (encodeFields it.fields) =
        some it := by
    intro it
    exact readMessage_encodeFields it.foldlM_fields
  have hitems : (repeatedField 2 (items.map fun it => encodeFields it.fields)).foldlM merge
      (⟨data, [], 0⟩ : AttestationPack) = some ⟨data, items, 0⟩ := by
    have hrepeated := foldlM_repeatedField merge 2
      (fun it : AttestationItem => encodeFields it.fields)
      (fun p xs => { p with items := p.items ++ xs }) (by simp) (by simp)
      (by simp [merge, hread]) (⟨data, [], 0⟩ : AttestationPack) items
    simpa using hrepeated
  have hsend : (varintField 3 sendTsMs.toUInt64.toNat).foldlM merge
      (⟨data, items, 0⟩ : AttestationPack) = some ⟨data, items, sendTsMs⟩ := by
    refine foldlM_varintField ?_ (by simp [merge])
    intro h
    have hzero : sendTsMs.toUInt64 = 0 := UInt64.toNat_inj.mp h
    rw [← Int64.toInt64_toUInt64 sendTsMs, hzero]
    rfl
  simp only [fields, List.foldlM_append, hdata, hitems, hsend, Option.bind_eq_bind,
    Option.bind_some]

theorem Msg.foldlM_fields
    (m : Msg) :
    m.fields.foldlM merge zero = some m := by
  obtain ⟨tms, container⟩ := m
  have htms : (varintField 1 tms.toUInt64.toNat).foldlM merge zero =
      some (⟨tms, []⟩ : Msg) := by
    refine foldlM_varintField ?_ (by simp [merge, zero])
    intro h
    have hzero : tms.toUInt64 = 0 := UInt64.toNat_inj.mp h
    rw [← Int64.toInt64_toUInt64 tms, hzero]
    rfl
  have hread : ∀ c : Container,
      readMessage Container.merge Container.zero (encodeFields c.fields) = some c := by
    intro c
    exact readMessage_encodeFields c.foldlM_fields
  have hcontainer : (repeatedField 2 (container.map fun c => encodeFields c.fields)).foldlM
      merge (⟨tms, []⟩ : Msg) = some ⟨tms, container⟩ := by
    have hrepeated := foldlM_repeatedField merge 2
      (fun c : Container => encodeFields c.fields)
      (fun m xs => { m with container := m.container ++ xs }) (by simp) (by simp)
      (by simp [merge, hread]) (⟨tms, []⟩ : Msg) container
    simpa using hrepeated
  simp only [fields, List.foldlM_append, htms, hcontainer, Option.bind_eq_bind,
    Option.bind_some]

/-- The wire format has the documented behaviour. -/
theorem wireCodec_lawful :
    wireCodec.Lawful := by
  constructor
  case pack =>
    intro p
    refine ⟨encodeFields p.fields, rfl, ?_⟩
    simp only [wireCodec, readMessage_encodeFields p.foldlM_fields, orWireError]
  case msg =>
    intro m
    refine ⟨encodeFields m.fields, rfl, ?_⟩
    simp only [wireCodec, readMessage_encodeFields m.foldlM_fields, orWireError]

end RoundTrip

end Aggregator
end OptimumGateway
