import OptimumGateway.Foundation.Snappy
import OptimumGateway.Protocol.Attestation

/-!
# The gossip codec

This module models `pkg/utils/snappy.go` and the gossip half of
`pkg/protocol/consensus/codec.go`: SSZ containers in a snappy block, with bounds on the
compressed and on the decompressed size.  A decoded value is exactly one whose encoding
the block holds (`decodeGossip_eq_ok_iff`).
-/

namespace OptimumGateway
namespace Protocol

open Foundation

class Marshaler (α : Type) where
  marshalSSZ : α → Except GoError Bytes

class Unmarshaler (α : Type) where
  unmarshalSSZ : α → Bytes → Except GoError α

instance : Marshaler AttestationData := ⟨AttestationData.marshalSSZ⟩

instance : Unmarshaler AttestationData := ⟨AttestationData.unmarshalSSZ⟩

instance : Marshaler SingleAttestation := ⟨SingleAttestation.marshalSSZ⟩

instance : Unmarshaler SingleAttestation := ⟨SingleAttestation.unmarshalSSZ⟩

def maxGossipPayloadSize : Nat :=
  10 * 1024 * 1024

def maxCompressedLen (n : Nat) : Nat :=
  32 + n + n / 6

variable (z : Snappy)

def decodeSnappy (msg : Bytes) (maxSize : Nat) : Except GoError Bytes := do
  let size ← z.decodedLen msg
  if size > maxSize then
    .error (.errorf "snappy message exceeds max size: %d bytes > %d bytes"
      [toString size, toString maxSize])
  else
    z.decode msg

section Gossip

variable {α : Type}

/-- `EncodeGossip` into an empty buffer. -/
def encodeGossip [Marshaler α] (msg : α) : Except GoError Bytes := do
  let b ← Marshaler.marshalSSZ msg
  if b.length > maxGossipPayloadSize then
    .error (.errorf "consensus: gossip message %d bytes exceeds max %d"
      [toString b.length, toString maxGossipPayloadSize])
  else
    .ok (z.encode b)

/-- `DecodeGossip` into the receiver `msg`. -/
def decodeGossip [Unmarshaler α] (b : Bytes) (msg : α) : Except GoError α := do
  if b.length > maxCompressedLen maxGossipPayloadSize then
    .error (.errorf "consensus: gossip message exceeds max compressed size %d"
      [toString (maxCompressedLen maxGossipPayloadSize)])
  else
    let raw ← decodeSnappy z b maxGossipPayloadSize
    Unmarshaler.unmarshalSSZ msg raw

end Gossip

section Laws

variable {z}

theorem decodeSnappy_eq_ok_iff
    (hz : z.Lawful)
    {m b : Bytes} {maxSize : Nat} :
    decodeSnappy z m maxSize = .ok b
      ↔
    z.decode m = .ok b ∧ b.length ≤ maxSize := by
  unfold decodeSnappy
  constructor
  · intro h
    cases hlen : z.decodedLen m with
    | error err =>
        rw [hlen] at h
        cases h
    | ok size =>
        rw [hlen] at h
        by_cases hmax : size > maxSize
        · simp only [bind, Except.bind, if_pos hmax] at h
          cases h
        · simp only [bind, Except.bind, if_neg hmax] at h
          have hsize := hz.decodedLen_of_decode h
          rw [hlen] at hsize
          have heq := Except.ok.inj hsize
          exact ⟨h, by omega⟩
  · intro h
    obtain ⟨hdecode, hsize⟩ := h
    simp only [bind, Except.bind, hz.decodedLen_of_decode hdecode]
    rw [if_neg (by omega)]
    exact hdecode

variable {α : Type}

/-- What a decoded block says: it decompresses within the bound to something that the
receiver accepts. -/
theorem decodeGossip_eq_ok_iff
    [Unmarshaler α]
    (hz : z.Lawful)
    {b : Bytes} {msg value : α} :
    decodeGossip z b msg = .ok value
      ↔
    b.length ≤ maxCompressedLen maxGossipPayloadSize ∧
      ∃ raw, z.decode b = .ok raw ∧ raw.length ≤ maxGossipPayloadSize ∧
        Unmarshaler.unmarshalSSZ msg raw = .ok value := by
  unfold decodeGossip
  by_cases hsize : b.length > maxCompressedLen maxGossipPayloadSize
  · rw [if_pos hsize]
    constructor
    · intro h
      cases h
    · intro h
      omega
  · rw [if_neg hsize]
    constructor
    · intro h
      cases hraw : decodeSnappy z b maxGossipPayloadSize with
      | error err =>
          rw [hraw] at h
          cases h
      | ok raw =>
          rw [hraw] at h
          obtain ⟨hdecode, hmax⟩ := (decodeSnappy_eq_ok_iff hz).mp hraw
          exact ⟨by omega, raw, hdecode, hmax, h⟩
    · intro h
      obtain ⟨_, raw, hdecode, hmax, hvalue⟩ := h
      simp only [bind, Except.bind, (decodeSnappy_eq_ok_iff hz).mpr ⟨hdecode, hmax⟩]
      exact hvalue

theorem encodeGossip_eq
    [Marshaler α]
    {value : α} {raw : Bytes}
    (hmarshal : Marshaler.marshalSSZ value = .ok raw)
    (hmax : raw.length ≤ maxGossipPayloadSize) :
    encodeGossip z value = .ok (z.encode raw) := by
  simp only [encodeGossip, bind, Except.bind, hmarshal]
  rw [if_neg (by omega)]

theorem decodeGossip_encode
    [Unmarshaler α]
    (hz : z.Lawful)
    {value msg : α} {raw : Bytes}
    (hmax : raw.length ≤ maxGossipPayloadSize)
    (hvalue : Unmarshaler.unmarshalSSZ msg raw = .ok value) :
    decodeGossip z (z.encode raw) msg = .ok value := by
  have hblock : raw.length < snappyMaxBlock := by
    simp only [maxGossipPayloadSize, snappyMaxBlock] at hmax ⊢
    omega
  have hlength := hz.length_encode hblock
  refine (decodeGossip_eq_ok_iff hz).mpr ⟨?_, raw, hz.decode_encode hblock, hmax, hvalue⟩
  simp only [maxCompressedLen]
  omega

end Laws

section Attestations

variable {z}

theorem encodeGossip_attestationData
    (d : AttestationData) :
    encodeGossip z d = .ok (z.encode d.encoding) := by
  exact encodeGossip_eq d.marshalSSZ_eq (by rw [d.length_encoding]; decide)

theorem encodeGossip_singleAttestation
    (s : SingleAttestation) :
    encodeGossip z s = .ok (z.encode s.encoding) := by
  exact encodeGossip_eq s.marshalSSZ_eq (by rw [s.length_encoding]; decide)

theorem decodeGossip_attestationData
    (hz : z.Lawful)
    (d msg : AttestationData) :
    decodeGossip z (z.encode d.encoding) msg = .ok d := by
  exact decodeGossip_encode hz (by rw [d.length_encoding]; decide)
    (AttestationData.unmarshalSSZ_encoding d msg)

theorem decodeGossip_singleAttestation
    (hz : z.Lawful)
    (s msg : SingleAttestation) :
    decodeGossip z (z.encode s.encoding) msg = .ok s := by
  exact decodeGossip_encode hz (by rw [s.length_encoding]; decide)
    (SingleAttestation.unmarshalSSZ_encoding s msg)

/-- A message that is accepted as an attestation decompresses to its encoding. -/
theorem decode_of_decodeGossip
    (hz : z.Lawful)
    {b : Bytes} {msg s : SingleAttestation}
    (h : decodeGossip z b msg = .ok s) :
    z.decode b = .ok s.encoding := by
  obtain ⟨_, raw, hdecode, _, hvalue⟩ := (decodeGossip_eq_ok_iff hz).mp h
  rw [hdecode, SingleAttestation.encoding_of_unmarshalSSZ hvalue]

end Attestations

end Protocol
end OptimumGateway
