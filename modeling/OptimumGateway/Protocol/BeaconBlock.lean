import OptimumGateway.Protocol.GossipCodec

/-!
# Beacon block headers in gossip payloads

This module models `pkg/protocol/consensus/block.go` with the generated
`UnmarshalSSZTail` of a header.  A gossip payload is a signed block: an offset of four
bytes, the signature, and the block, whose fixed part has the layout of a header up to
the state root.

`decodeBeaconBlockHeader_eq_ok_iff` is the exact condition under which a payload is decoded
and what is read then: the bytes at the positions of a signed block, none of them behind the
state root.  `marshalSSZ_eq_ok` places the fields of an encoded block at these positions.
-/

namespace OptimumGateway
namespace Protocol

open Foundation

def gossipPrefixLen : Nat := 4

def blsSignatureLen : Nat := 96

def signedBlockHeaderOffset : Nat := gossipPrefixLen + blsSignatureLen

def blockHeaderFixedLen : Nat := 112

structure BeaconBlockHeader where
  slot : UInt64
  proposerIndex : UInt64
  parentRoot : Bytes
  stateRoot : Bytes
  bodyRoot : Option Bytes
deriving DecidableEq

structure SignedBeaconBlockHeader where
  header : BeaconBlockHeader
  signature : Bytes
deriving DecidableEq

/-- `BeaconBlockHeader.UnmarshalSSZTail`, with what is left of the buffer. -/
def unmarshalSSZTail (buf : Bytes) : Except GoError (BeaconBlockHeader × Bytes) :=
  if buf.length < blockHeaderFixedLen then
    .error (.new "incorrect size")
  else
    .ok ({
      slot := getUint64 (slice buf 0 8)
      proposerIndex := getUint64 (slice buf 8 16)
      parentRoot := slice buf 16 48
      stateRoot := slice buf 48 80
      bodyRoot := some (slice buf 80 112) }, buf.drop blockHeaderFixedLen)

/-- The body root is dropped: at its place the payload holds an offset. -/
def decodeBeaconBlockHeader
    (z : Snappy)
    (encodedBlock : Bytes) : Except GoError SignedBeaconBlockHeader :=
  match decodeSnappy z encodedBlock maxGossipPayloadSize with
  | .error err => .error (.wrapf "decode beacon block gossip: snappy: %w" [] err)
  | .ok sszBytes =>
      if sszBytes.length < signedBlockHeaderOffset + blockHeaderFixedLen then
        .error (.new "decode beacon block gossip: payload too short")
      else if leValue (slice sszBytes 0 gossipPrefixLen) ≠ signedBlockHeaderOffset then
        .error (.errorf "decode beacon block gossip: unexpected message offset %d"
          [toString (leValue (slice sszBytes 0 gossipPrefixLen))])
      else
        match unmarshalSSZTail (sszBytes.drop signedBlockHeaderOffset) with
        | .error err => .error (.wrapf "decode beacon block gossip: ssz: %w" [] err)
        | .ok (block, _) =>
            .ok {
              header := { block with bodyRoot := none }
              signature := slice sszBytes gossipPrefixLen signedBlockHeaderOffset }

section Positions

variable {z : Snappy}

/-- The fields at the positions of a signed block. -/
def headerAt (sszBytes : Bytes) : SignedBeaconBlockHeader where
  header := {
    slot := getUint64 (slice sszBytes 100 108)
    proposerIndex := getUint64 (slice sszBytes 108 116)
    parentRoot := slice sszBytes 116 148
    stateRoot := slice sszBytes 148 180
    bodyRoot := none }
  signature := slice sszBytes 4 100

/-- What is decoded: payloads with room for a header, behind the offset of a signed block. -/
theorem decodeBeaconBlockHeader_eq_ok_iff
    (hz : z.Lawful)
    {encodedBlock : Bytes} {h : SignedBeaconBlockHeader} :
    decodeBeaconBlockHeader z encodedBlock = .ok h
      ↔
    ∃ sszBytes, z.decode encodedBlock = .ok sszBytes ∧
      sszBytes.length ≤ maxGossipPayloadSize ∧ 212 ≤ sszBytes.length ∧
      leValue (slice sszBytes 0 4) = 100 ∧ h = headerAt sszBytes := by
  unfold decodeBeaconBlockHeader
  cases hdecode : decodeSnappy z encodedBlock maxGossipPayloadSize with
  | error err =>
      constructor
      · intro hok
        cases hok
      · rintro ⟨sszBytes, hraw, hmax, -⟩
        rw [(decodeSnappy_eq_ok_iff hz).mpr ⟨hraw, hmax⟩] at hdecode
        cases hdecode
  | ok sszBytes =>
      obtain ⟨hraw, hmax⟩ := (decodeSnappy_eq_ok_iff hz).mp hdecode
      have hunique : (∃ sszBytes, z.decode encodedBlock = .ok sszBytes ∧
          sszBytes.length ≤ maxGossipPayloadSize ∧ 212 ≤ sszBytes.length ∧
          leValue (slice sszBytes 0 4) = 100 ∧ h = headerAt sszBytes) ↔
          212 ≤ sszBytes.length ∧ leValue (slice sszBytes 0 4) = 100 ∧
            h = headerAt sszBytes := by
        constructor
        · rintro ⟨sszBytes', hraw', -, hrest⟩
          rw [hraw] at hraw'
          cases hraw'
          exact hrest
        · intro hrest
          exact ⟨sszBytes, hraw, hmax, hrest⟩
      rw [hunique]
      have hsize : signedBlockHeaderOffset + blockHeaderFixedLen = 212 := rfl
      by_cases hshort : sszBytes.length < signedBlockHeaderOffset + blockHeaderFixedLen
      · simp only [if_pos hshort, reduceCtorEq, false_iff]
        omega
      · by_cases hoffset : leValue (slice sszBytes 0 gossipPrefixLen) = signedBlockHeaderOffset
        · have htail :
              ¬ (sszBytes.drop signedBlockHeaderOffset).length < blockHeaderFixedLen := by
            rw [List.length_drop]
            omega
          simp only [if_neg hshort, ne_eq, hoffset, not_true_eq_false, if_false,
            unmarshalSSZTail, if_neg htail, slice_drop, Except.ok.injEq]
          constructor
          · rintro rfl
            exact ⟨by omega, hoffset, rfl⟩
          · rintro ⟨-, -, rfl⟩
            rfl
        · simp only [if_neg hshort, ne_eq, hoffset, not_false_eq_true, if_true, reduceCtorEq,
            false_iff]
          intro hrest
          exact hoffset hrest.2.1

/-- Only the bytes up to the state root are read. -/
theorem headerAt_congr
    {b b' : Bytes}
    (h : b.take 180 = b'.take 180) :
    headerAt b = headerAt b' := by
  have hslice : ∀ lo hi, hi ≤ 180 → slice b lo hi = slice b' lo hi := by
    intro lo hi hle
    rw [← slice_take b hle, h, slice_take b' hle]
  simp only [headerAt, hslice 100 108 (by omega), hslice 108 116 (by omega),
    hslice 116 148 (by omega), hslice 148 180 (by omega), hslice 4 100 (by omega)]

end Positions

section Blocks

/-- A block over the bodies of a fork. -/
structure BeaconBlock (β : Type) where
  slot : UInt64
  proposerIndex : UInt64
  parentRoot : Bytes
  stateRoot : Bytes
  body : β

structure SignedBeaconBlock (β : Type) where
  block : BeaconBlock β
  signature : Bytes

/-- `ssz.WriteOffset`. -/
def writeOffset (dst : Bytes) (offset : Nat) : Bytes :=
  dst ++ leBytes 4 offset

/-- `ssz.ErrBytesLengthFn`. -/
def errBytesLength (name : String) (found expected : Nat) : GoError :=
  .errorf "%s (%v): expected %d and %d found"
    [name, "bytes array does not have the correct length", toString expected, toString found]

variable {β : Type} [Marshaler β]

def BeaconBlock.marshalSSZTo (b : BeaconBlock β) (buf : Bytes) : Except GoError Bytes :=
  let dst := buf ++ putUint64 b.slot
  let dst := dst ++ putUint64 b.proposerIndex
  if b.parentRoot.length ≠ 32 then
    .error (errBytesLength "BeaconBlock.ParentRoot" b.parentRoot.length 32)
  else
    let dst := dst ++ b.parentRoot
    if b.stateRoot.length ≠ 32 then
      .error (errBytesLength "BeaconBlock.StateRoot" b.stateRoot.length 32)
    else
      let dst := dst ++ b.stateRoot
      let dst := writeOffset dst 84
      match Marshaler.marshalSSZ b.body with
      | .error err => .error err
      | .ok body => .ok (dst ++ body)

def SignedBeaconBlock.marshalSSZTo (s : SignedBeaconBlock β) (buf : Bytes) :
    Except GoError Bytes :=
  let dst := writeOffset buf 100
  if s.signature.length ≠ 96 then
    .error (errBytesLength "SignedBeaconBlock.Signature" s.signature.length 96)
  else
    s.block.marshalSSZTo (dst ++ s.signature)

omit [Marshaler β] in
theorem headerAt_layout
    {s : SignedBeaconBlock β} {sszBytes tail : Bytes}
    (hsignature : s.signature.length = 96)
    (hparent : s.block.parentRoot.length = 32)
    (hstate : s.block.stateRoot.length = 32)
    (hbytes : sszBytes = leBytes 4 100 ++ (s.signature ++ (putUint64 s.block.slot ++
      (putUint64 s.block.proposerIndex ++ (s.block.parentRoot ++ (s.block.stateRoot ++
        tail)))))) :
    leValue (slice sszBytes 0 4) = 100 ∧
      headerAt sszBytes = ⟨⟨s.block.slot, s.block.proposerIndex, s.block.parentRoot,
        s.block.stateRoot, none⟩, s.signature⟩ := by
  have hlead : (leBytes 4 100).length = 4 := length_leBytes 4 100
  have hslot := length_putUint64 s.block.slot
  have hproposer := length_putUint64 s.block.proposerIndex
  have hoffset : slice sszBytes 0 4 = leBytes 4 100 := by
    rw [hbytes]
    exact slice_append_left hlead
  have hsig : slice sszBytes 4 100 = s.signature := by
    rw [hbytes, slice_append_right (by omega), hlead]
    exact slice_append_left hsignature
  have hrest : ∀ lo hi, slice sszBytes (100 + lo) (100 + hi) =
      slice (putUint64 s.block.slot ++ (putUint64 s.block.proposerIndex ++
        (s.block.parentRoot ++ (s.block.stateRoot ++ tail)))) lo hi := by
    intro lo hi
    rw [hbytes, slice_append_right (by omega), slice_append_right (by omega), hlead,
      hsignature]
    congr 1 <;> omega
  have hslots : slice sszBytes 100 108 = putUint64 s.block.slot := by
    rw [hrest 0 8]
    exact slice_append_left hslot
  have hproposers : slice sszBytes 108 116 = putUint64 s.block.proposerIndex := by
    rw [hrest 8 16, slice_append_right (by omega), hslot]
    exact slice_append_left hproposer
  have hparents : slice sszBytes 116 148 = s.block.parentRoot := by
    rw [hrest 16 48, slice_append_right (by omega), slice_append_right (by omega), hslot,
      hproposer]
    exact slice_append_left hparent
  have hstates : slice sszBytes 148 180 = s.block.stateRoot := by
    rw [hrest 48 80, slice_append_right (by omega), slice_append_right (by omega),
      slice_append_right (by omega), hslot, hproposer, hparent]
    exact slice_append_left hstate
  refine ⟨?_, ?_⟩
  · rw [hoffset]
    exact leValue_leBytes (by decide)
  · simp only [headerAt, hsig, hslots, hproposers, hparents, hstates, getUint64_putUint64]

/-- Where the fields of an encoded block are. -/
theorem marshalSSZ_eq_ok
    {s : SignedBeaconBlock β} {sszBytes : Bytes}
    (h : s.marshalSSZTo [] = .ok sszBytes) :
    leValue (slice sszBytes 0 4) = 100 ∧
      headerAt sszBytes = ⟨⟨s.block.slot, s.block.proposerIndex, s.block.parentRoot,
        s.block.stateRoot, none⟩, s.signature⟩ := by
  unfold SignedBeaconBlock.marshalSSZTo BeaconBlock.marshalSSZTo at h
  split at h
  · cases h
  · rename_i hsignature
    split at h
    · cases h
    · rename_i hparent
      split at h
      · cases h
      · rename_i hstate
        split at h
        · cases h
        · rename_i body hbody
          have hbytes : sszBytes = leBytes 4 100 ++ (s.signature ++ (putUint64 s.block.slot ++
              (putUint64 s.block.proposerIndex ++ (s.block.parentRoot ++ (s.block.stateRoot ++
                (leBytes 4 84 ++ body)))))) := by
            rw [← Except.ok.inj h]
            simp [writeOffset]
          exact headerAt_layout (not_not.mp hsignature) (not_not.mp hparent)
            (not_not.mp hstate) hbytes

end Blocks

section Exactness

variable {z : Snappy}

/-- A payload is decoded iff it decompresses within the limit to at least 212 bytes behind
the offset 100.  What is returned are the fields at the positions of a signed block, which
what follows the state root does not change, and for an encoded block they are its own. -/
theorem decodeBeaconBlockHeader_exact
    (hz : z.Lawful)
    (encodedBlock : Bytes) :
    ((∃ h, decodeBeaconBlockHeader z encodedBlock = .ok h) ↔
      ∃ sszBytes, z.decode encodedBlock = .ok sszBytes ∧
        sszBytes.length ≤ maxGossipPayloadSize ∧ 212 ≤ sszBytes.length ∧
        leValue (slice sszBytes 0 4) = 100) ∧
    (∀ sszBytes h, z.decode encodedBlock = .ok sszBytes →
      decodeBeaconBlockHeader z encodedBlock = .ok h →
        (h.header.slot = getUint64 (slice sszBytes 100 108) ∧
          h.header.proposerIndex = getUint64 (slice sszBytes 108 116) ∧
          h.header.parentRoot = slice sszBytes 116 148 ∧
          h.header.stateRoot = slice sszBytes 148 180 ∧ h.signature = slice sszBytes 4 100) ∧
        ∀ encodedBlock' sszBytes', z.decode encodedBlock' = .ok sszBytes' →
          sszBytes'.take 180 = sszBytes.take 180 → 212 ≤ sszBytes'.length →
            sszBytes'.length ≤ maxGossipPayloadSize →
              decodeBeaconBlockHeader z encodedBlock' = .ok h) ∧
    ∀ (β : Type) [Marshaler β] (s : SignedBeaconBlock β) (sszBytes : Bytes),
      s.marshalSSZTo [] = .ok sszBytes → z.decode encodedBlock = .ok sszBytes →
        212 ≤ sszBytes.length → sszBytes.length ≤ maxGossipPayloadSize →
          decodeBeaconBlockHeader z encodedBlock = .ok ⟨⟨s.block.slot, s.block.proposerIndex,
            s.block.parentRoot, s.block.stateRoot, none⟩, s.signature⟩ := by
  refine ⟨?_, ?_, ?_⟩
  · constructor
    · rintro ⟨h, hok⟩
      obtain ⟨sszBytes, hraw, hmax, hmin, hoffset, -⟩ :=
        (decodeBeaconBlockHeader_eq_ok_iff hz).mp hok
      exact ⟨sszBytes, hraw, hmax, hmin, hoffset⟩
    · rintro ⟨sszBytes, hraw, hmax, hmin, hoffset⟩
      exact ⟨_, (decodeBeaconBlockHeader_eq_ok_iff hz).mpr
        ⟨sszBytes, hraw, hmax, hmin, hoffset, rfl⟩⟩
  · intro sszBytes h hraw hok
    obtain ⟨sszBytes', hraw', -, -, hoffset, rfl⟩ :=
      (decodeBeaconBlockHeader_eq_ok_iff hz).mp hok
    rw [hraw] at hraw'
    cases hraw'
    refine ⟨⟨rfl, rfl, rfl, rfl, rfl⟩, ?_⟩
    intro encodedBlock' sszBytes' hdecode' hsame hmin hmax
    refine (decodeBeaconBlockHeader_eq_ok_iff hz).mpr ⟨sszBytes', hdecode', hmax, hmin, ?_,
      (headerAt_congr hsame).symm⟩
    rw [← slice_take sszBytes' (show 4 ≤ 180 by omega), hsame, slice_take sszBytes (by omega)]
    exact hoffset
  · intro β _ s sszBytes hmarshal hraw hmin hmax
    obtain ⟨hoffset, hheader⟩ := marshalSSZ_eq_ok hmarshal
    exact (decodeBeaconBlockHeader_eq_ok_iff hz).mpr
      ⟨sszBytes, hraw, hmax, hmin, hoffset, hheader.symm⟩

/-- A payload of 212 bytes: the offset, a signature, the slot, the proposer and the rest. -/
def shortestBlock : Bytes :=
  leBytes 4 100 ++ (List.replicate 96 0xa5 ++ (putUint64 13164544 ++ (putUint64 41231 ++
    List.replicate 96 0x5a)))

/-- The shortest payload with a header. -/
theorem decodeBeaconBlockHeader_exact_shortest :
    literalSnappy.Lawful ∧ ∃ h, decodeBeaconBlockHeader literalSnappy
      (literalSnappy.encode shortestBlock) = .ok h ∧
        h.header.slot = 13164544 ∧ h.header.proposerIndex = 41231 := by
  have hlength : shortestBlock.length = 212 := by
    decide +kernel
  have hdecode := literalSnappy_lawful.decode_encode (b := shortestBlock)
    (by rw [hlength]; decide)
  have hexact := decodeBeaconBlockHeader_exact literalSnappy_lawful
    (literalSnappy.encode shortestBlock)
  have hoffset : leValue (slice shortestBlock 0 4) = 100 := by
    rw [shortestBlock, slice_append_left (length_leBytes 4 100)]
    exact leValue_leBytes (by decide)
  obtain ⟨h, hok⟩ := hexact.1.mpr
    ⟨_, hdecode, by rw [hlength]; decide, Nat.le_of_eq hlength.symm, hoffset⟩
  obtain ⟨hslot, hproposer, -⟩ := (hexact.2.1 _ h hdecode hok).1
  refine ⟨literalSnappy_lawful, h, hok, ?_, ?_⟩
  · rw [hslot]
    decide +kernel
  · rw [hproposer]
    decide +kernel

end Exactness

end Protocol
end OptimumGateway
