import OptimumGateway.Foundation.Bytes
import OptimumGateway.Foundation.GoError

/-!
# Attestations and their SSZ encoding

This module models `pkg/protocol/consensus/attestation.go`.

Both containers have a fixed size.  Unmarshalling takes the receiver as an argument,
since the source writes into it; the round trips hold whatever it held before.
-/

namespace OptimumGateway
namespace Protocol

open Foundation

abbrev Slot := UInt64

abbrev Epoch := UInt64

abbrev ValidatorIndex := UInt64

abbrev CommitteeIndex := UInt64

def checkpointSize : Nat := 40

def attestationDataSize : Nat := 128

def singleAttestationSize : Nat := 240

def signatureSize : Nat := 96

/-- The zero value of an array. -/
def zeroBytes (n : Nat) : FixedBytes n :=
  ⟨List.replicate n 0, List.length_replicate⟩

section Containers

structure Checkpoint where
  epoch : Epoch
  root : FixedBytes 32
deriving DecidableEq

namespace Checkpoint

def zero : Checkpoint :=
  ⟨0, zeroBytes 32⟩

def appendTo (c : Checkpoint) (b : Bytes) : Bytes :=
  b ++ putUint64 c.epoch ++ c.root.val

def unmarshal (c : Checkpoint) (b : Bytes) : Checkpoint where
  epoch := getUint64 (slice b 0 8)
  root := copyArray c.root (slice b 8 checkpointSize)

end Checkpoint

structure AttestationData where
  slot : Slot
  committeeIndex : CommitteeIndex
  beaconBlockRoot : FixedBytes 32
  source : Checkpoint
  target : Checkpoint
deriving DecidableEq

namespace AttestationData

def zero : AttestationData :=
  ⟨0, 0, zeroBytes 32, Checkpoint.zero, Checkpoint.zero⟩

def marshalSSZ (d : AttestationData) : Except GoError Bytes :=
  let b := putUint64 d.slot
  let b := b ++ putUint64 d.committeeIndex
  let b := b ++ d.beaconBlockRoot.val
  let b := d.source.appendTo b
  let b := d.target.appendTo b
  .ok b

def unmarshalSSZ (d : AttestationData) (b : Bytes) : Except GoError AttestationData :=
  if b.length ≠ attestationDataSize then
    .error (.errorf "consensus: AttestationData expects %d bytes, got %d"
      [toString attestationDataSize, toString b.length])
  else
    .ok {
      slot := getUint64 (slice b 0 8)
      committeeIndex := getUint64 (slice b 8 16)
      beaconBlockRoot := copyArray d.beaconBlockRoot (slice b 16 48)
      source := d.source.unmarshal (slice b 48 88)
      target := d.target.unmarshal (slice b 88 128) }

end AttestationData

structure SingleAttestation where
  committeeIndex : CommitteeIndex
  attesterIndex : ValidatorIndex
  data : AttestationData
  signature : FixedBytes signatureSize
deriving DecidableEq

namespace SingleAttestation

def zero : SingleAttestation :=
  ⟨0, 0, AttestationData.zero, zeroBytes signatureSize⟩

def marshalSSZ (s : SingleAttestation) : Except GoError Bytes := do
  let b := putUint64 s.committeeIndex
  let b := b ++ putUint64 s.attesterIndex
  let data ← s.data.marshalSSZ
  let b := b ++ data
  .ok (b ++ s.signature.val)

def unmarshalSSZ
    (s : SingleAttestation)
    (b : Bytes) : Except GoError SingleAttestation := do
  if b.length ≠ singleAttestationSize then
    .error (.errorf "consensus: SingleAttestation expects %d bytes, got %d"
      [toString singleAttestationSize, toString b.length])
  else
    let data ← s.data.unmarshalSSZ (slice b 16 144)
    .ok {
      committeeIndex := getUint64 (slice b 0 8)
      attesterIndex := getUint64 (slice b 8 16)
      data := data
      signature := copyArray s.signature (slice b 144 singleAttestationSize) }

end SingleAttestation

end Containers

section RoundTrips

namespace Checkpoint

theorem unmarshal_appendTo
    (c receiver : Checkpoint) :
    receiver.unmarshal (c.appendTo []) = c := by
  have hepoch : slice (c.appendTo []) 0 8 = putUint64 c.epoch := by
    exact slice_append_left (length_putUint64 c.epoch)
  have hroot : slice (c.appendTo []) 8 checkpointSize = c.root.val := by
    rw [appendTo, List.nil_append, slice_append_right (by simp), length_putUint64]
    exact slice_self c.root.property
  simp [unmarshal, hepoch, hroot]

theorem appendTo_unmarshal
    {b : Bytes}
    (receiver : Checkpoint)
    (h : b.length = checkpointSize) :
    (receiver.unmarshal b).appendTo [] = b := by
  have hepoch : (slice b 0 8).length = 8 := by
    simp [h, checkpointSize]
  have hroot : (slice b 8 checkpointSize).length = 32 := by
    simp [h, checkpointSize]
  rw [appendTo, List.nil_append, unmarshal, val_copyArray receiver.root hroot,
    putUint64_getUint64 hepoch, slice_append_slice b (by decide) (by decide), slice_self h]

@[simp] theorem length_appendTo
    (c : Checkpoint)
    (b : Bytes) :
    (c.appendTo b).length = b.length + checkpointSize := by
  simp [appendTo, c.root.property, checkpointSize]

end Checkpoint

namespace AttestationData

/-- The pieces of the encoding. -/
def encoding (d : AttestationData) : Bytes :=
  putUint64 d.slot ++ (putUint64 d.committeeIndex ++ (d.beaconBlockRoot.val ++
    (d.source.appendTo [] ++ d.target.appendTo [])))

@[simp] theorem marshalSSZ_eq
    (d : AttestationData) :
    d.marshalSSZ = .ok d.encoding := by
  simp [marshalSSZ, encoding, Checkpoint.appendTo]

@[simp] theorem length_encoding
    (d : AttestationData) :
    d.encoding.length = attestationDataSize := by
  simp [encoding, d.beaconBlockRoot.property, checkpointSize, attestationDataSize]

theorem unmarshalSSZ_encoding
    (d receiver : AttestationData) :
    receiver.unmarshalSSZ d.encoding = .ok d := by
  have hslot : slice d.encoding 0 8 = putUint64 d.slot := by
    exact slice_append_left (length_putUint64 d.slot)
  have hcommittee : slice d.encoding 8 16 = putUint64 d.committeeIndex := by
    rw [encoding, slice_append_right (by simp), length_putUint64]
    exact slice_append_left (length_putUint64 d.committeeIndex)
  have hroot : slice d.encoding 16 48 = d.beaconBlockRoot.val := by
    rw [encoding, slice_append_right (by simp), slice_append_right (by simp)]
    simp only [length_putUint64]
    exact slice_append_left d.beaconBlockRoot.property
  have hsource : slice d.encoding 48 88 = d.source.appendTo [] := by
    rw [encoding, slice_append_right (by simp), slice_append_right (by simp),
      slice_append_right (by simp [d.beaconBlockRoot.property])]
    simp only [length_putUint64, d.beaconBlockRoot.property]
    exact slice_append_left (by simp [checkpointSize])
  have htarget : slice d.encoding 88 128 = d.target.appendTo [] := by
    rw [encoding, slice_append_right (by simp), slice_append_right (by simp),
      slice_append_right (by simp [d.beaconBlockRoot.property]),
      slice_append_right (by simp [d.beaconBlockRoot.property, checkpointSize])]
    simp only [length_putUint64, d.beaconBlockRoot.property, Checkpoint.length_appendTo]
    exact slice_self (by simp [checkpointSize])
  simp [unmarshalSSZ, hslot, hcommittee, hroot, hsource, htarget,
    Checkpoint.unmarshal_appendTo]

theorem encoding_of_unmarshalSSZ
    {d receiver : AttestationData} {b : Bytes}
    (h : receiver.unmarshalSSZ b = .ok d) :
    d.encoding = b := by
  unfold unmarshalSSZ at h
  split at h
  · cases h
  · rename_i hsize
    have hlength : b.length = 128 := not_not.mp hsize
    have hd := Except.ok.inj h
    subst hd
    have hroot : (slice b 16 48).length = 32 := by
      simp [hlength]
    rw [encoding, putUint64_getUint64 (by simp [hlength]),
      putUint64_getUint64 (by simp [hlength]), val_copyArray _ hroot,
      Checkpoint.appendTo_unmarshal _ (by simp [hlength, checkpointSize]),
      Checkpoint.appendTo_unmarshal _ (by simp [hlength, checkpointSize]),
      slice_append_slice b (by decide) (by decide),
      slice_append_slice b (by decide) (by decide),
      slice_append_slice b (by decide) (by decide),
      slice_append_slice b (by decide) (by decide), slice_self hlength]

end AttestationData

namespace SingleAttestation

/-- The pieces of the encoding. -/
def encoding (s : SingleAttestation) : Bytes :=
  putUint64 s.committeeIndex ++ (putUint64 s.attesterIndex ++ (s.data.encoding ++
    s.signature.val))

@[simp] theorem marshalSSZ_eq
    (s : SingleAttestation) :
    s.marshalSSZ = .ok s.encoding := by
  simp [marshalSSZ, encoding, bind, Except.bind]

@[simp] theorem length_encoding
    (s : SingleAttestation) :
    s.encoding.length = singleAttestationSize := by
  simp [encoding, s.signature.property, attestationDataSize, signatureSize,
    singleAttestationSize]

theorem slice_attesterIndex
    (s : SingleAttestation) :
    slice s.encoding 8 16 = putUint64 s.attesterIndex := by
  rw [encoding, slice_append_right (by simp), length_putUint64]
  exact slice_append_left (length_putUint64 s.attesterIndex)

theorem slice_slot
    (s : SingleAttestation) :
    slice s.encoding 16 24 = putUint64 s.data.slot := by
  rw [encoding, slice_append_right (by simp), slice_append_right (by simp),
    AttestationData.encoding, List.append_assoc]
  simp only [length_putUint64]
  exact slice_append_left (length_putUint64 s.data.slot)

theorem unmarshalSSZ_encoding
    (s receiver : SingleAttestation) :
    receiver.unmarshalSSZ s.encoding = .ok s := by
  have hcommittee : slice s.encoding 0 8 = putUint64 s.committeeIndex := by
    exact slice_append_left (length_putUint64 s.committeeIndex)
  have hattester := s.slice_attesterIndex
  have hdata : slice s.encoding 16 144 = s.data.encoding := by
    rw [encoding, slice_append_right (by simp), slice_append_right (by simp)]
    simp only [length_putUint64]
    exact slice_append_left s.data.length_encoding
  have hsignature : slice s.encoding 144 singleAttestationSize = s.signature.val := by
    rw [encoding, slice_append_right (by simp), slice_append_right (by simp),
      slice_append_right (by simp [attestationDataSize])]
    simp only [length_putUint64, AttestationData.length_encoding]
    exact slice_self s.signature.property
  simp [unmarshalSSZ, hcommittee, hattester, hdata, hsignature,
    AttestationData.unmarshalSSZ_encoding, bind, Except.bind]

theorem encoding_of_unmarshalSSZ
    {s receiver : SingleAttestation} {b : Bytes}
    (h : receiver.unmarshalSSZ b = .ok s) :
    s.encoding = b := by
  unfold unmarshalSSZ at h
  split at h
  · cases h
  · rename_i hsize
    have hlength : b.length = 240 := not_not.mp hsize
    cases hdata : receiver.data.unmarshalSSZ (slice b 16 144) with
    | error err =>
        rw [hdata] at h
        cases h
    | ok data =>
        rw [hdata] at h
        have hs := Except.ok.inj h
        subst hs
        have hsignature : (slice b 144 singleAttestationSize).length = signatureSize := by
          simp [hlength, singleAttestationSize, signatureSize]
        rw [encoding, putUint64_getUint64 (by simp [hlength]),
          putUint64_getUint64 (by simp [hlength]), val_copyArray _ hsignature,
          AttestationData.encoding_of_unmarshalSSZ hdata,
          slice_append_slice b (by decide) (by decide),
          slice_append_slice b (by decide) (by decide),
          slice_append_slice b (by decide) (by decide), slice_self (not_not.mp hsize)]

theorem exists_unmarshalSSZ
    {b : Bytes}
    (receiver : SingleAttestation)
    (h : b.length = singleAttestationSize) :
    ∃ s, receiver.unmarshalSSZ b = .ok s := by
  have hdata : (slice b 16 144).length = attestationDataSize := by
    simp [h, singleAttestationSize, attestationDataSize]
  unfold unmarshalSSZ AttestationData.unmarshalSSZ
  rw [if_neg (not_not.mpr h), if_neg (not_not.mpr hdata)]
  exact ⟨_, rfl⟩

end SingleAttestation

end RoundTrips

end Protocol
end OptimumGateway
