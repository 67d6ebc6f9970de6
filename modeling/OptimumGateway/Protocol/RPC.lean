import OptimumGateway.Protocol.GossipCodec

/-!
# Containers of a fixed size

This module models the request and response containers of
`pkg/protocol/consensus/rpc.go` and `SSZUint64` of `types.go`, next to the attestations of
`Protocol.Attestation`.

Each container is written piece by piece and read by slices with literal bounds.
`FixedCodec` states what the two functions of a container owe to one list of pieces: the
writer joins them, the reader accepts the strings of the right length and takes the pieces
from where they are, and the pieces determine the value.  `FixedCodec.fixedSize` derives
from this that the two functions are inverse to each other.
-/

namespace OptimumGateway
namespace Protocol

open Foundation

section Containers

def forkDigestSize : Nat := 4

def attnetsSize : Nat := 8

def syncnetsSize : Nat := 1

def statusSize : Nat := 84

def statusV2Size : Nat := 92

def metaDataV0Size : Nat := 16

def metaDataV1Size : Nat := 17

def metaDataV2Size : Nat := 25

structure SSZUint64 where
  value : UInt64
deriving DecidableEq

namespace SSZUint64

def marshalSSZ (s : SSZUint64) : Except GoError Bytes :=
  .ok (putUint64 s.value)

def unmarshalSSZ (_ : SSZUint64) (buf : Bytes) : Except GoError SSZUint64 :=
  if buf.length ≠ 8 then
    .error (.errorf "consensus: SSZUint64 expects 8 bytes, got %d" [toString buf.length])
  else
    .ok ⟨getUint64 buf⟩

end SSZUint64

structure Status where
  forkDigest : FixedBytes forkDigestSize
  finalizedRoot : FixedBytes 32
  finalizedEpoch : Epoch
  headRoot : FixedBytes 32
  headSlot : Slot
deriving DecidableEq

namespace Status

def marshalSSZ (s : Status) : Except GoError Bytes :=
  let b := s.forkDigest.val
  let b := b ++ s.finalizedRoot.val
  let b := b ++ putUint64 s.finalizedEpoch
  let b := b ++ s.headRoot.val
  let b := b ++ putUint64 s.headSlot
  .ok b

def unmarshalSSZ (s : Status) (b : Bytes) : Except GoError Status :=
  if b.length ≠ statusSize then
    .error (.errorf "consensus: Status expects %d bytes, got %d"
      [toString statusSize, toString b.length])
  else
    .ok {
      forkDigest := copyArray s.forkDigest (slice b 0 4)
      finalizedRoot := copyArray s.finalizedRoot (slice b 4 36)
      finalizedEpoch := getUint64 (slice b 36 44)
      headRoot := copyArray s.headRoot (slice b 44 76)
      headSlot := getUint64 (slice b 76 84) }

end Status

structure StatusV2 where
  forkDigest : FixedBytes forkDigestSize
  finalizedRoot : FixedBytes 32
  finalizedEpoch : Epoch
  headRoot : FixedBytes 32
  headSlot : Slot
  earliestAvailableSlot : Slot
deriving DecidableEq

namespace StatusV2

def marshalSSZ (s : StatusV2) : Except GoError Bytes :=
  let b := s.forkDigest.val
  let b := b ++ s.finalizedRoot.val
  let b := b ++ putUint64 s.finalizedEpoch
  let b := b ++ s.headRoot.val
  let b := b ++ putUint64 s.headSlot
  let b := b ++ putUint64 s.earliestAvailableSlot
  .ok b

def unmarshalSSZ (s : StatusV2) (b : Bytes) : Except GoError StatusV2 :=
  if b.length ≠ statusV2Size then
    .error (.errorf "consensus: StatusV2 expects %d bytes, got %d"
      [toString statusV2Size, toString b.length])
  else
    .ok {
      forkDigest := copyArray s.forkDigest (slice b 0 4)
      finalizedRoot := copyArray s.finalizedRoot (slice b 4 36)
      finalizedEpoch := getUint64 (slice b 36 44)
      headRoot := copyArray s.headRoot (slice b 44 76)
      headSlot := getUint64 (slice b 76 84)
      earliestAvailableSlot := getUint64 (slice b 84 92) }

end StatusV2

structure MetaDataV0 where
  seqNumber : UInt64
  attnets : FixedBytes attnetsSize
deriving DecidableEq

namespace MetaDataV0

def marshalSSZ (m : MetaDataV0) : Except GoError Bytes :=
  let b := putUint64 m.seqNumber
  .ok (b ++ m.attnets.val)

def unmarshalSSZ (m : MetaDataV0) (b : Bytes) : Except GoError MetaDataV0 :=
  if b.length ≠ metaDataV0Size then
    .error (.errorf "consensus: MetaDataV0 expects %d bytes, got %d"
      [toString metaDataV0Size, toString b.length])
  else
    .ok {
      seqNumber := getUint64 (slice b 0 8)
      attnets := copyArray m.attnets (slice b 8 16) }

end MetaDataV0

structure MetaDataV1 where
  seqNumber : UInt64
  attnets : FixedBytes attnetsSize
  syncnets : FixedBytes syncnetsSize
deriving DecidableEq

namespace MetaDataV1

def marshalSSZ (m : MetaDataV1) : Except GoError Bytes :=
  let b := putUint64 m.seqNumber
  let b := b ++ m.attnets.val
  .ok (b ++ m.syncnets.val)

def unmarshalSSZ (m : MetaDataV1) (b : Bytes) : Except GoError MetaDataV1 :=
  if b.length ≠ metaDataV1Size then
    .error (.errorf "consensus: MetaDataV1 expects %d bytes, got %d"
      [toString metaDataV1Size, toString b.length])
  else
    .ok {
      seqNumber := getUint64 (slice b 0 8)
      attnets := copyArray m.attnets (slice b 8 16)
      syncnets := copyArray m.syncnets (slice b 16 17) }

end MetaDataV1

structure MetaDataV2 where
  seqNumber : UInt64
  attnets : FixedBytes attnetsSize
  syncnets : FixedBytes syncnetsSize
  custodyGroupCount : UInt64
deriving DecidableEq

namespace MetaDataV2

def marshalSSZ (m : MetaDataV2) : Except GoError Bytes :=
  let b := putUint64 m.seqNumber
  let b := b ++ m.attnets.val
  let b := b ++ m.syncnets.val
  .ok (b ++ putUint64 m.custodyGroupCount)

def unmarshalSSZ (m : MetaDataV2) (b : Bytes) : Except GoError MetaDataV2 :=
  if b.length ≠ metaDataV2Size then
    .error (.errorf "consensus: MetaDataV2 expects %d bytes, got %d"
      [toString metaDataV2Size, toString b.length])
  else
    .ok {
      seqNumber := getUint64 (slice b 0 8)
      attnets := copyArray m.attnets (slice b 8 16)
      syncnets := copyArray m.syncnets (slice b 16 17)
      custodyGroupCount := getUint64 (slice b 17 25) }

end MetaDataV2

instance : Marshaler SSZUint64 := ⟨SSZUint64.marshalSSZ⟩

instance : Unmarshaler SSZUint64 := ⟨SSZUint64.unmarshalSSZ⟩

instance : Marshaler Status := ⟨Status.marshalSSZ⟩

instance : Unmarshaler Status := ⟨Status.unmarshalSSZ⟩

instance : Marshaler StatusV2 := ⟨StatusV2.marshalSSZ⟩

instance : Unmarshaler StatusV2 := ⟨StatusV2.unmarshalSSZ⟩

instance : Marshaler MetaDataV0 := ⟨MetaDataV0.marshalSSZ⟩

instance : Unmarshaler MetaDataV0 := ⟨MetaDataV0.unmarshalSSZ⟩

instance : Marshaler MetaDataV1 := ⟨MetaDataV1.marshalSSZ⟩

instance : Unmarshaler MetaDataV1 := ⟨MetaDataV1.unmarshalSSZ⟩

instance : Marshaler MetaDataV2 := ⟨MetaDataV2.marshalSSZ⟩

instance : Unmarshaler MetaDataV2 := ⟨MetaDataV2.unmarshalSSZ⟩

end Containers

section Codecs

variable {α : Type} [Marshaler α] [Unmarshaler α]

/-- The two functions of a container are inverse to each other between its values and the
byte strings of its size, whatever the receiver holds. -/
def FixedSize (α : Type) [Marshaler α] [Unmarshaler α] (size : Nat) : Prop :=
  (∀ value receiver : α, ∃ b, Marshaler.marshalSSZ value = .ok b ∧
      Unmarshaler.unmarshalSSZ receiver b = .ok value) ∧
    ∀ (b : Bytes) (receiver : α),
      ((∃ value, Unmarshaler.unmarshalSSZ receiver b = .ok value) ↔ b.length = size) ∧
        ∀ value, Unmarshaler.unmarshalSSZ receiver b = .ok value →
          Marshaler.marshalSSZ value = .ok b

/-- What a container owes: one list of pieces for the writer and the reader. -/
structure FixedCodec (α : Type) [Marshaler α] [Unmarshaler α] (widths : List Nat) where
  pieces : α → List Bytes
  length_pieces : ∀ value, (pieces value).map List.length = widths
  pieces_injective : Function.Injective pieces
  marshal_eq : ∀ value, Marshaler.marshalSSZ value = .ok (pieces value).flatten
  unmarshal_eq : ∀ (receiver : α) {b : Bytes}, b.length = widths.sum →
    ∃ value, Unmarshaler.unmarshalSSZ receiver b = .ok value ∧
      pieces value = slices b 0 widths
  length_of_unmarshal : ∀ {receiver value : α} {b : Bytes},
    Unmarshaler.unmarshalSSZ receiver b = .ok value → b.length = widths.sum

variable {widths : List Nat}

theorem FixedCodec.length_flatten
    (codec : FixedCodec α widths)
    (value : α) :
    (codec.pieces value).flatten.length = widths.sum := by
  rw [List.length_flatten, codec.length_pieces]

theorem FixedCodec.fixedSize
    (codec : FixedCodec α widths) :
    FixedSize α widths.sum := by
  constructor
  · intro value receiver
    refine ⟨_, codec.marshal_eq value, ?_⟩
    obtain ⟨value', hok, hpieces⟩ := codec.unmarshal_eq receiver (codec.length_flatten value)
    have hsame := slices_flatten (codec.pieces value)
    rw [codec.length_pieces] at hsame
    rw [hok, codec.pieces_injective (hpieces.trans hsame)]
  · intro b receiver
    refine ⟨⟨?_, ?_⟩, ?_⟩
    · intro h
      obtain ⟨value, hok⟩ := h
      exact codec.length_of_unmarshal hok
    · intro hlength
      obtain ⟨value, hok, _⟩ := codec.unmarshal_eq receiver hlength
      exact ⟨value, hok⟩
    · intro value hok
      have hlength := codec.length_of_unmarshal hok
      obtain ⟨value', hok', hpieces⟩ := codec.unmarshal_eq receiver hlength
      obtain rfl : value' = value := Except.ok.inj (hok'.symm.trans hok)
      rw [codec.marshal_eq, hpieces, flatten_slices, Nat.zero_add, slice_self hlength]

end Codecs

section Instances

theorem putUint64_injective :
    Function.Injective putUint64 := by
  intro x y h
  rw [← getUint64_putUint64 x, h, getUint64_putUint64]

theorem length_of_checked
    {α : Type} {b : Bytes} {n : Nat} {err : GoError} {parsed : Except GoError α} {value : α}
    (h : (if b.length ≠ n then .error err else parsed) = .ok value) :
    b.length = n := by
  by_contra hlength
  rw [if_pos hlength] at h
  cases h

def sszUint64Codec : FixedCodec SSZUint64 [8] where
  pieces s := [putUint64 s.value]
  length_pieces s := by
    simp
  pieces_injective := by
    intro s t h
    cases s
    cases t
    simp_all [putUint64_injective.eq_iff]
  marshal_eq s := by
    simp [Marshaler.marshalSSZ, SSZUint64.marshalSSZ]
  unmarshal_eq := by
    intro receiver b h
    have hlength : b.length = 8 := h
    refine ⟨_, if_neg (not_not.mpr hlength), ?_⟩
    rw [putUint64_getUint64 hlength, slices, slices, Nat.zero_add, slice_self hlength]
  length_of_unmarshal h := length_of_checked h

def statusCodec : FixedCodec Status [4, 32, 8, 32, 8] where
  pieces s := [s.forkDigest.val, s.finalizedRoot.val, putUint64 s.finalizedEpoch,
    s.headRoot.val, putUint64 s.headSlot]
  length_pieces s := by
    simp [s.forkDigest.property, s.finalizedRoot.property, s.headRoot.property, forkDigestSize]
  pieces_injective := by
    intro s t h
    cases s
    cases t
    simp_all [putUint64_injective.eq_iff, Subtype.ext_iff]
  marshal_eq s := by
    simp [Marshaler.marshalSSZ, Status.marshalSSZ]
  unmarshal_eq := by
    intro receiver b h
    have hlength : b.length = statusSize := h
    refine ⟨_, if_neg (not_not.mpr hlength), ?_⟩
    dsimp only
    rw [val_copyArray, val_copyArray, putUint64_getUint64, val_copyArray, putUint64_getUint64]
    · rfl
    all_goals simp [hlength, statusSize, forkDigestSize]
  length_of_unmarshal h := length_of_checked h

def statusV2Codec : FixedCodec StatusV2 [4, 32, 8, 32, 8, 8] where
  pieces s := [s.forkDigest.val, s.finalizedRoot.val, putUint64 s.finalizedEpoch,
    s.headRoot.val, putUint64 s.headSlot, putUint64 s.earliestAvailableSlot]
  length_pieces s := by
    simp [s.forkDigest.property, s.finalizedRoot.property, s.headRoot.property, forkDigestSize]
  pieces_injective := by
    intro s t h
    cases s
    cases t
    simp_all [putUint64_injective.eq_iff, Subtype.ext_iff]
  marshal_eq s := by
    simp [Marshaler.marshalSSZ, StatusV2.marshalSSZ]
  unmarshal_eq := by
    intro receiver b h
    have hlength : b.length = statusV2Size := h
    refine ⟨_, if_neg (not_not.mpr hlength), ?_⟩
    dsimp only
    rw [val_copyArray, val_copyArray, putUint64_getUint64, val_copyArray,
      putUint64_getUint64, putUint64_getUint64]
    · rfl
    all_goals simp [hlength, statusV2Size, forkDigestSize]
  length_of_unmarshal h := length_of_checked h

def metaDataV0Codec : FixedCodec MetaDataV0 [8, 8] where
  pieces s := [putUint64 s.seqNumber, s.attnets.val]
  length_pieces s := by
    simp [s.attnets.property, attnetsSize]
  pieces_injective := by
    intro s t h
    cases s
    cases t
    simp_all [putUint64_injective.eq_iff, Subtype.ext_iff]
  marshal_eq s := by
    simp [Marshaler.marshalSSZ, MetaDataV0.marshalSSZ]
  unmarshal_eq := by
    intro receiver b h
    have hlength : b.length = metaDataV0Size := h
    refine ⟨_, if_neg (not_not.mpr hlength), ?_⟩
    dsimp only
    rw [putUint64_getUint64, val_copyArray]
    · rfl
    all_goals simp [hlength, metaDataV0Size, attnetsSize]
  length_of_unmarshal h := length_of_checked h

def metaDataV1Codec : FixedCodec MetaDataV1 [8, 8, 1] where
  pieces s := [putUint64 s.seqNumber, s.attnets.val, s.syncnets.val]
  length_pieces s := by
    simp [s.attnets.property, s.syncnets.property, attnetsSize, syncnetsSize]
  pieces_injective := by
    intro s t h
    cases s
    cases t
    simp_all [putUint64_injective.eq_iff, Subtype.ext_iff]
  marshal_eq s := by
    simp [Marshaler.marshalSSZ, MetaDataV1.marshalSSZ]
  unmarshal_eq := by
    intro receiver b h
    have hlength : b.length = metaDataV1Size := h
    refine ⟨_, if_neg (not_not.mpr hlength), ?_⟩
    dsimp only
    rw [putUint64_getUint64, val_copyArray, val_copyArray]
    · rfl
    all_goals simp [hlength, metaDataV1Size, attnetsSize, syncnetsSize]
  length_of_unmarshal h := length_of_checked h

def metaDataV2Codec : FixedCodec MetaDataV2 [8, 8, 1, 8] where
  pieces s := [putUint64 s.seqNumber, s.attnets.val, s.syncnets.val,
    putUint64 s.custodyGroupCount]
  length_pieces s := by
    simp [s.attnets.property, s.syncnets.property, attnetsSize, syncnetsSize]
  pieces_injective := by
    intro s t h
    cases s
    cases t
    simp_all [putUint64_injective.eq_iff, Subtype.ext_iff]
  marshal_eq s := by
    simp [Marshaler.marshalSSZ, MetaDataV2.marshalSSZ]
  unmarshal_eq := by
    intro receiver b h
    have hlength : b.length = metaDataV2Size := h
    refine ⟨_, if_neg (not_not.mpr hlength), ?_⟩
    dsimp only
    rw [putUint64_getUint64, val_copyArray, val_copyArray, putUint64_getUint64]
    · rfl
    all_goals simp [hlength, metaDataV2Size, attnetsSize, syncnetsSize]
  length_of_unmarshal h := length_of_checked h

def attestationDataCodec : FixedCodec AttestationData [8, 8, 32, 40, 40] where
  pieces d := [putUint64 d.slot, putUint64 d.committeeIndex, d.beaconBlockRoot.val,
    d.source.appendTo [], d.target.appendTo []]
  length_pieces d := by
    simp [d.beaconBlockRoot.property, checkpointSize]
  pieces_injective := by
    intro d e h
    simp only [List.cons.injEq, putUint64_injective.eq_iff, and_true] at h
    obtain ⟨hslot, hcommittee, hroot, hsource, htarget⟩ := h
    have hcheckpoint : ∀ c c' : Checkpoint, c.appendTo [] = c'.appendTo [] → c = c' := by
      intro c c' hc
      rw [← Checkpoint.unmarshal_appendTo c c, hc, Checkpoint.unmarshal_appendTo]
    cases d
    cases e
    simp_all [Subtype.ext_iff]
    exact ⟨hcheckpoint _ _ hsource, hcheckpoint _ _ htarget⟩
  marshal_eq d := by
    simp [Marshaler.marshalSSZ, AttestationData.encoding]
  unmarshal_eq := by
    intro receiver b h
    have hlength : b.length = attestationDataSize := h
    refine ⟨_, if_neg (not_not.mpr hlength), ?_⟩
    dsimp only
    rw [putUint64_getUint64, putUint64_getUint64, val_copyArray,
      Checkpoint.appendTo_unmarshal, Checkpoint.appendTo_unmarshal]
    · rfl
    all_goals simp [hlength, attestationDataSize, checkpointSize]
  length_of_unmarshal h := length_of_checked h

/-- The data of an attestation is one of its pieces. -/
def singleAttestationCodec : FixedCodec SingleAttestation [8, 8, 128, 96] where
  pieces s := [putUint64 s.committeeIndex, putUint64 s.attesterIndex, s.data.encoding,
    s.signature.val]
  length_pieces s := by
    simp [s.signature.property, attestationDataSize, signatureSize]
  pieces_injective := by
    intro s t h
    simp only [List.cons.injEq, putUint64_injective.eq_iff, and_true] at h
    obtain ⟨hcommittee, hattester, hdata, hsignature⟩ := h
    have hdata' : s.data = t.data := by
      have hs := AttestationData.unmarshalSSZ_encoding s.data s.data
      rw [hdata, AttestationData.unmarshalSSZ_encoding] at hs
      exact (Except.ok.inj hs).symm
    cases s
    cases t
    simp_all [Subtype.ext_iff]
  marshal_eq s := by
    simp [Marshaler.marshalSSZ, SingleAttestation.encoding]
  unmarshal_eq := by
    intro receiver b h
    have hlength : b.length = singleAttestationSize := h
    have hslice : (slice b 16 144).length = attestationDataSize := by
      simp [hlength, singleAttestationSize, attestationDataSize]
    obtain ⟨data, hdata, _⟩ := attestationDataCodec.unmarshal_eq receiver.data hslice
    refine ⟨{
      committeeIndex := getUint64 (slice b 0 8)
      attesterIndex := getUint64 (slice b 8 16)
      data := data
      signature := copyArray receiver.signature (slice b 144 singleAttestationSize) }, ?_, ?_⟩
    · simp only [Unmarshaler.unmarshalSSZ] at hdata
      simp [Unmarshaler.unmarshalSSZ, SingleAttestation.unmarshalSSZ, hlength, hdata, bind,
        Except.bind]
    · dsimp only
      rw [putUint64_getUint64, putUint64_getUint64, val_copyArray,
        AttestationData.encoding_of_unmarshalSSZ hdata]
      · rfl
      all_goals simp [hlength, singleAttestationSize, signatureSize]
  length_of_unmarshal h := length_of_checked h

end Instances

/-- The fixed-size containers: each value is read back from its bytes, and the byte strings
that are read are those of the size, each of which is written back. -/
theorem fixed_size_containers :
    FixedSize AttestationData attestationDataSize ∧
      FixedSize SingleAttestation singleAttestationSize ∧
      FixedSize Status statusSize ∧
      FixedSize StatusV2 statusV2Size ∧
      FixedSize MetaDataV0 metaDataV0Size ∧
      FixedSize MetaDataV1 metaDataV1Size ∧
      FixedSize MetaDataV2 metaDataV2Size ∧
      FixedSize SSZUint64 8 :=
  ⟨attestationDataCodec.fixedSize, singleAttestationCodec.fixedSize, statusCodec.fixedSize,
    statusV2Codec.fixedSize, metaDataV0Codec.fixedSize, metaDataV1Codec.fixedSize,
    metaDataV2Codec.fixedSize, sszUint64Codec.fixedSize⟩

end Protocol
end OptimumGateway
