import OptimumGateway.Foundation.Implementation
import OptimumGateway.MessageRouter.Forwarding
import OptimumGateway.Protocol.GossipCodec
import OptimumGateway.Protocol.Slots

/-!
# What the router lets through to the mesh

This module models `ShouldForwardMessageToMumP2P` of
`pkg/service/message_router/service.go` with `ParseAttestationSSZTopic` of
`pkg/utils/topics.go`.

The parser reads two numbers at fixed offsets and does not decode the attestation.  It
accepts what the gossip codec accepts, and the numbers are those of the decoded attestation
(`parseAttestationSSZTopic_isOk_iff`, `fields_of_parse`): both require 240 bytes behind the
compression, and differ only in their bounds on larger messages.
-/

namespace OptimumGateway
namespace MessageRouter

open Foundation Foundation.Prog Protocol

section Parsing

def singleAttestationSSZSize : Nat := 240

/-- The attester and the slot of an attestation, read at their offsets. -/
def parseAttestationSSZTopic (z : Snappy) (buf : Bytes) : Except GoError (UInt64 × UInt64) :=
  match decodeSnappy z buf 300 with
  | .error err => .error (.wrapf "ssz decompressing failed: %w" [] err)
  | .ok msg =>
      if msg.length ≠ singleAttestationSSZSize then
        .error (.errorf "unexpected attestation ssz size: got %d, want %d"
          [toString msg.length, toString singleAttestationSSZSize])
      else
        .ok (getUint64 (slice msg 8 16), getUint64 (slice msg 16 24))

/-- Blocks that decompress to at most 300 bytes are within the bound of the gossip codec. -/
def ShortBlocks (z : Snappy) : Prop :=
  ∀ b raw, z.decode b = .ok raw → raw.length ≤ 300 →
    b.length ≤ maxCompressedLen maxGossipPayloadSize

variable {z : Snappy} {buf : Bytes}

theorem parseAttestationSSZTopic_eq_ok_iff
    (hz : z.Lawful)
    {attester slot : UInt64} :
    parseAttestationSSZTopic z buf = .ok (attester, slot)
      ↔
    ∃ msg, z.decode buf = .ok msg ∧ msg.length = singleAttestationSSZSize ∧
      attester = getUint64 (slice msg 8 16) ∧ slot = getUint64 (slice msg 16 24) := by
  have hsize : singleAttestationSSZSize ≤ 300 := by decide
  unfold parseAttestationSSZTopic
  cases hdecode : decodeSnappy z buf 300 with
  | error err =>
      constructor
      · intro h
        cases h
      · rintro ⟨msg, hmsg, hlength, -⟩
        rw [(decodeSnappy_eq_ok_iff hz).mpr ⟨hmsg, by omega⟩] at hdecode
        cases hdecode
  | ok msg =>
      obtain ⟨hmsg, -⟩ := (decodeSnappy_eq_ok_iff hz).mp hdecode
      by_cases hlength : msg.length = singleAttestationSSZSize
      · simp only [ne_eq, hlength, not_true_eq_false, if_false]
        constructor
        · intro h
          cases h
          exact ⟨msg, hmsg, hlength, rfl, rfl⟩
        · rintro ⟨msg', hmsg', -, rfl, rfl⟩
          rw [hmsg] at hmsg'
          cases hmsg'
          rfl
      · simp only [ne_eq, hlength, not_false_eq_true, if_true]
        constructor
        · intro h
          cases h
        · rintro ⟨msg', hmsg', hlength', -⟩
          rw [hmsg] at hmsg'
          cases hmsg'
          exact absurd hlength' hlength

/-- What the full decoder accepts, over the same block. -/
theorem decodeGossip_singleAttestation_iff
    (hz : z.Lawful)
    (hshort : ShortBlocks z)
    {receiver a : SingleAttestation} :
    decodeGossip z buf receiver = .ok a ↔ z.decode buf = .ok a.encoding := by
  constructor
  · exact decode_of_decodeGossip hz
  · intro hdecode
    have hlength : a.encoding.length = 240 := a.length_encoding
    refine (decodeGossip_eq_ok_iff hz).mpr ⟨hshort _ _ hdecode (by omega), a.encoding, hdecode,
      ?_, SingleAttestation.unmarshalSSZ_encoding a receiver⟩
    rw [hlength]
    decide

/-- The two decoders accept the same byte strings. -/
theorem parseAttestationSSZTopic_isOk_iff
    (hz : z.Lawful)
    (hshort : ShortBlocks z)
    (buf : Bytes)
    (receiver : SingleAttestation) :
    (∃ fields, parseAttestationSSZTopic z buf = .ok fields)
      ↔
    ∃ a, decodeGossip z buf receiver = .ok a := by
  constructor
  · rintro ⟨⟨attester, slot⟩, hparse⟩
    obtain ⟨msg, hmsg, hlength, -⟩ := (parseAttestationSSZTopic_eq_ok_iff hz).mp hparse
    obtain ⟨a, ha⟩ := SingleAttestation.exists_unmarshalSSZ receiver hlength
    refine ⟨a, (decodeGossip_singleAttestation_iff hz hshort).mpr ?_⟩
    rw [hmsg, SingleAttestation.encoding_of_unmarshalSSZ ha]
  · rintro ⟨a, ha⟩
    exact ⟨_, (parseAttestationSSZTopic_eq_ok_iff hz).mpr
      ⟨a.encoding, decode_of_decodeGossip hz ha, a.length_encoding, rfl, rfl⟩⟩

/-- The parser reads the fields of the attestation. -/
theorem fields_of_parse
    (hz : z.Lawful)
    {receiver a : SingleAttestation} {attester slot : UInt64}
    (hparse : parseAttestationSSZTopic z buf = .ok (attester, slot))
    (hdecode : decodeGossip z buf receiver = .ok a) :
    attester = a.attesterIndex ∧ slot = a.data.slot := by
  obtain ⟨msg, hmsg, -, rfl, rfl⟩ := (parseAttestationSSZTopic_eq_ok_iff hz).mp hparse
  rw [decode_of_decodeGossip hz hdecode] at hmsg
  cases hmsg
  rw [a.slice_attesterIndex, a.slice_slot, getUint64_putUint64, getUint64_putUint64]
  exact ⟨rfl, rfl⟩

end Parsing

section Decision

/-- The reads of the router about a message from the CL. -/
inductive FilterOp where
  | router (op : RouterOp)
  | currentSlot
  | knownValidatorsLoad (attesterIndex : UInt64)
deriving DecidableEq

/-- A known validator has a chunk and the size of the chunk. -/
abbrev FilterOp.Ans : FilterOp → Type
  | .router op => op.Ans
  | .currentSlot => UInt64
  | .knownValidatorsLoad _ => Option (UInt64 × UInt64)

abbrev FilterProg := Prog FilterOp FilterOp.Ans

abbrev read (op : FilterOp) : FilterProg op.Ans := Prog.op op

def getAttestationMaxSlotAge : UInt64 := 0

def isKnownValidator (attesterIndex : UInt64) : FilterProg Bool := do
  let chunk ← read (.knownValidatorsLoad attesterIndex)
  pure chunk.isSome

/-- Auth is configured and there is no valid token. -/
def lacksToken : FilterProg Bool := do
  let enabled ← read (.router .isEnabled)
  if enabled then do
    let valid ← hasValidToken.implement fun op => read (.router op)
    pure (!valid)
  else
    pure false

/-- Attestations are let through for partners with a valid token, if they are of the current
slot and of a known validator. -/
def shouldForwardMessageToMumP2P
    (z : Snappy)
    (kind : TopicKind)
    (_ : String)
    (payload : Bytes) : FilterProg Bool :=
  if kind = .beaconBlock then
    pure true
  else do
    let lacking ← lacksToken
    if lacking then
      pure false
    else do
      let claims ← ownClaims.implement fun op => read (.router op)
      if gwType claims ≠ gatewayTypePartner then
        pure false
      else
        match parseAttestationSSZTopic z payload with
        | .error _ => pure false
        | .ok (attester, slot) => do
            let currentSlot ← read .currentSlot
            if diffUint64 slot currentSlot > getAttestationMaxSlotAge then
              pure false
            else
              isKnownValidator attester

/-- What is let through as an attestation was parsed. -/
theorem parsed_of_path
    {z : Snappy} {kind : TopicKind} {topic : String} {payload : Bytes}
    {l : List (Call FilterOp FilterOp.Ans)}
    (hkind : kind ≠ .beaconBlock)
    (hpath : Path (shouldForwardMessageToMumP2P z kind topic payload) l (.ret true)) :
    ∃ fields, parseAttestationSSZTopic z payload = .ok fields := by
  unfold shouldForwardMessageToMumP2P at hpath
  rw [if_neg hkind] at hpath
  obtain ⟨lacking, -, l, rfl, -, hpath⟩ := path_bind_ret hpath
  cases lacking with
  | true =>
      obtain ⟨-, hret⟩ := path_ret_iff.mp hpath
      cases hret
  | false =>
      obtain ⟨claims, -, l, rfl, -, hpath⟩ := path_bind_ret hpath
      split at hpath
      · obtain ⟨-, hret⟩ := path_ret_iff.mp hpath
        cases hret
      · cases hparse : parseAttestationSSZTopic z payload with
        | ok fields => exact ⟨fields, rfl⟩
        | error err =>
            rw [hparse] at hpath
            obtain ⟨-, hret⟩ := path_ret_iff.mp hpath
            cases hret

end Decision

end MessageRouter
end OptimumGateway
