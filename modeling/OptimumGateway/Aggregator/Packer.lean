import OptimumGateway.Aggregator.Messages
import OptimumGateway.Foundation.GoMap
import OptimumGateway.Protocol.GossipCodec
import OptimumGateway.Protocol.Topics

/-!
# The attestation packer

This module models `pkg/service/aggregator/attestation_packer.go`.

Attestations are grouped by their data: a group holds the encoded data once and one item
for each attester.  `Decode` turns a group back into attestations, each on the topic of
its item.  `pairs` is what the groups of a packer stand for, as topics with uncompressed
attestations; `pairs_add` and `sum_decode_encodeCurrent` say that adding and sending
keep it, as long as no two different data encodings share a hash.
-/

namespace OptimumGateway
namespace Aggregator

open Foundation Protocol

/-- The libraries behind the aggregator. -/
structure Libraries where
  snappy : Snappy
  proto : ProtoCodec
  xxHash : Bytes → UInt64

structure Libraries.Lawful (lib : Libraries) : Prop where
  snappy : lib.snappy.Lawful
  proto : lib.proto.Lawful

def prefixPacker : Bytes := [0, 8]

def prefixNaive : Bytes := [0, 7]

/-- `prefixed`. -/
def prefixed (pre data : Bytes) : Bytes :=
  pre ++ data

structure AttestationPacker where
  encodedData : GoMap UInt64 Bytes
  encodedAttestations : GoMap UInt64 (List AttestationItem)

namespace AttestationPacker

variable (lib : Libraries)

def new : AttestationPacker :=
  ⟨∅, ∅⟩

/-- The writes of `Add`. -/
def store
    (p : AttestationPacker)
    (encodedData : Bytes)
    (it : AttestationItem) : AttestationPacker :=
  let dataID := lib.xxHash encodedData
  { encodedData :=
      if dataID ∈ p.encodedData then p.encodedData
      else p.encodedData.insert dataID encodedData
    encodedAttestations := GoMap.appendAt p.encodedAttestations dataID [it] }

/-- Decode an attestation and add it to the group of its data. -/
def add
    (p : AttestationPacker)
    (topicMeta : Option TopicMeta)
    (message : Bytes) : Except GoError AttestationPacker :=
  match topicMeta with
  | none => .error (.new "not an attestation topic")
  | some topicMeta =>
      if topicMeta.isAttestation = false then
        .error (.new "not an attestation topic")
      else
        match decodeGossip lib.snappy message SingleAttestation.zero with
        | .error err => .error (.wrapf "decoding message: %w" [] err)
        | .ok attestation =>
            match encodeGossip lib.snappy attestation.data with
            | .error err => .error (.wrapf "encoding message: %w" [] err)
            | .ok encodedData =>
                .ok (p.store lib encodedData {
                  committeeId := attestation.committeeIndex
                  attesterIndex := attestation.attesterIndex
                  topicIndex := topicMeta.attestationSubnet
                  signature := attestation.signature.val })

/-- The message of one group. -/
def packOf (p : AttestationPacker) (nowMs : Int64) (dataID : UInt64) : AttestationPack where
  attestationSszData := (p.encodedData.lookup dataID).getD []
  items := GoMap.getAll p.encodedAttestations dataID
  sendTsMs := nowMs

def encodeGroup
    (p : AttestationPacker)
    (nowMs : Int64)
    (dataID : UInt64) : Except GoError Bytes :=
  match lib.proto.marshalPack (p.packOf nowMs dataID) with
  | .error err => .error (.wrapf "encoding message: %w" [] err)
  | .ok data => .ok (prefixed prefixPacker data)

/-- One payload for each group, in the order in which the groups are visited. -/
def encodeCurrent
    (p : AttestationPacker)
    (order : List UInt64)
    (nowMs : Int64) : Except GoError (List Bytes) :=
  order.mapM (p.encodeGroup lib nowMs)

/-- The attestation of an item in a group. -/
def attestationOf (data : AttestationData) (it : AttestationItem) : SingleAttestation where
  committeeIndex := it.committeeId
  attesterIndex := it.attesterIndex
  data := data
  signature := copyArray (zeroBytes signatureSize) it.signature

/-- The loop body of `Decode`. -/
def decodeItem
    (currentForkDigest : String)
    (data : AttestationData)
    (result : GoMap String (List Bytes))
    (it : AttestationItem) : Except GoError (GoMap String (List Bytes)) :=
  if it.topicIndex.toNat ≥ attestationSubnetCount then
    .error (.errorf "decoding message: invalid topic index %d" [toString it.topicIndex.toNat])
  else if it.signature.length ≠ 96 then
    .error (.errorf "decoding message: invalid signature length %d"
      [toString it.signature.length])
  else
    match encodeGossip lib.snappy (attestationOf data it) with
    | .error err => .error (.wrapf "encoding message: %w" [] err)
    | .ok res =>
        .ok (GoMap.appendAt result
          (buildFullTopic currentForkDigest (attestationDescriptor it.topicIndex.toNat)) [res])

def decode
    (currentForkDigest : String)
    (payload : Bytes) : Except GoError (GoMap String (List Bytes)) :=
  match lib.proto.unmarshalPack payload with
  | .error err => .error (.wrapf "decoding message: %w" [] err)
  | .ok pack =>
      match decodeGossip lib.snappy pack.attestationSszData AttestationData.zero with
      | .error err => .error (.wrapf "decoding message: %w" [] err)
      | .ok data => pack.items.foldlM (decodeItem lib currentForkDigest data) ∅

/-- `Clean`. -/
def clean (_ : AttestationPacker) : AttestationPacker :=
  ⟨∅, ∅⟩

end AttestationPacker

section Pairs

variable (z : Snappy)

/-- A payload without its compression, or as it is when it does not decompress. -/
def uncompressed (b : Bytes) : Bytes :=
  match z.decode b with
  | .ok raw => raw
  | .error _ => b

/-- Topics with payloads, up to compression. -/
def uncompressedPairs (pairs : Multiset (String × Bytes)) : Multiset (String × Bytes) :=
  pairs.map (Prod.map id (uncompressed z))

theorem uncompressedPairs_add
    (s t : Multiset (String × Bytes)) :
    uncompressedPairs z (s + t) = uncompressedPairs z s + uncompressedPairs z t := by
  simp [uncompressedPairs]

/-- The topic and the attestation that an item stands for. -/
def itemPair
    (digest : String)
    (data : AttestationData)
    (it : AttestationItem) : String × Bytes :=
  (buildFullTopic digest (attestationDescriptor it.topicIndex.toNat),
    (AttestationPacker.attestationOf data it).encoding)

/-- What a group stands for. -/
def groupPairs
    (digest : String)
    (encodedData : Bytes)
    (items : List AttestationItem) : Multiset (String × Bytes) :=
  match decodeGossip z encodedData AttestationData.zero with
  | .error _ => 0
  | .ok data => (items.map (itemPair digest data) : List (String × Bytes))

theorem groupPairs_nil
    (digest : String)
    (encodedData : Bytes) :
    groupPairs z digest encodedData [] = 0 := by
  unfold groupPairs
  split <;> rfl

variable {z}

theorem groupPairs_encode
    (hz : z.Lawful)
    (digest : String)
    (data : AttestationData)
    (items : List AttestationItem) :
    groupPairs z digest (z.encode data.encoding) items =
      (items.map (itemPair digest data) : List (String × Bytes)) := by
  simp only [groupPairs, decodeGossip_attestationData hz]

theorem uncompressed_encode
    (hz : z.Lawful)
    (s : SingleAttestation) :
    uncompressed z (z.encode s.encoding) = s.encoding := by
  have hsize : s.encoding.length < snappyMaxBlock := by
    rw [s.length_encoding]
    decide
  simp only [uncompressed, hz.decode_encode hsize]

end Pairs

/-- What `Decode` accepts as an item. -/
structure AttestationItem.Valid (it : AttestationItem) : Prop where
  topicIndex : it.topicIndex.toNat < attestationSubnetCount
  signature : it.signature.length = 96

namespace AttestationPacker

variable (lib : Libraries) (digest : String)

/-- The groups of a packer: items only under stored data, data as it is encoded, items
as they are accepted. -/
structure Wf (p : AttestationPacker) : Prop where
  grouped : ∀ {id}, id ∉ p.encodedData → GoMap.getAll p.encodedAttestations id = []
  data : ∀ {id b}, p.encodedData.lookup id = some b →
    ∃ data : AttestationData, b = lib.snappy.encode data.encoding
  items : ∀ {id it}, it ∈ GoMap.getAll p.encodedAttestations id → it.Valid

/-- What one group stands for. -/
def pairsAt (p : AttestationPacker) (id : UInt64) : Multiset (String × Bytes) :=
  groupPairs lib.snappy digest ((p.encodedData.lookup id).getD [])
    (GoMap.getAll p.encodedAttestations id)

/-- What the items in a packer stand for. -/
def pairs (p : AttestationPacker) : Multiset (String × Bytes) :=
  (p.encodedData.keys.map (p.pairsAt lib digest)).sum

/-- What a payload of the packer stands for: `Decode` accepts what is behind the prefix
and returns the attestations of the group. -/
def Sends (p : AttestationPacker) (id : UInt64) (payload : Bytes) : Prop :=
  ∃ body result, payload = prefixed prefixPacker body ∧
    decode lib digest body = .ok result ∧
    uncompressedPairs lib.snappy (GoMap.pairs result) = p.pairsAt lib digest id

section Adding

variable {lib} {p : AttestationPacker}

/-- What `Add` does when it succeeds. -/
theorem add_eq_ok
    {p' : AttestationPacker} {topicMeta : Option TopicMeta} {message : Bytes}
    (h : p.add lib topicMeta message = .ok p') :
    ∃ m s, topicMeta = some m ∧ m.isAttestation = true ∧
      decodeGossip lib.snappy message SingleAttestation.zero = .ok s ∧
      p' = p.store lib (lib.snappy.encode s.data.encoding)
        ⟨s.committeeIndex, s.attesterIndex, m.attestationSubnet, s.signature.val⟩ := by
  unfold add at h
  split at h
  · cases h
  · rename_i m
    split at h
    · cases h
    · rename_i hattestation
      split at h
      · cases h
      · rename_i s hdecode
        rw [encodeGossip_attestationData] at h
        exact ⟨m, s, rfl, by simpa using hattestation, hdecode, (Except.ok.inj h).symm⟩

theorem keys_store
    (p : AttestationPacker)
    (b : Bytes)
    (it : AttestationItem) :
    (p.store lib b it).encodedData.keys.Perm
      (lib.xxHash b :: p.encodedData.keys.erase (lib.xxHash b)) := by
  unfold store
  by_cases hmem : lib.xxHash b ∈ p.encodedData
  · simp only [if_pos hmem]
    exact List.perm_cons_erase hmem
  · simp only [if_neg hmem]
    exact List.Perm.of_eq (AList.keys_insert p.encodedData)

theorem lookup_store_of_ne
    (p : AttestationPacker)
    (b : Bytes)
    (it : AttestationItem)
    {id : UInt64}
    (h : id ≠ lib.xxHash b) :
    (p.store lib b it).encodedData.lookup id = p.encodedData.lookup id := by
  unfold store
  by_cases hmem : lib.xxHash b ∈ p.encodedData
  · simp only [if_pos hmem]
  · simp only [if_neg hmem, AList.lookup_insert_ne h]

/-- Data that are stored afterwards were stored before, or are those of the attestation. -/
theorem of_lookup_store
    {b b' : Bytes} {it : AttestationItem} {id : UInt64}
    (h : (p.store lib b it).encodedData.lookup id = some b') :
    p.encodedData.lookup id = some b' ∨ id = lib.xxHash b ∧ b' = b := by
  by_cases hid : id = lib.xxHash b
  · subst hid
    unfold store at h
    by_cases hmem : lib.xxHash b ∈ p.encodedData
    · simp only [if_pos hmem] at h
      exact Or.inl h
    · simp only [if_neg hmem, AList.lookup_insert] at h
      exact Or.inr ⟨rfl, (Option.some.inj h).symm⟩
  · rw [lookup_store_of_ne p _ it hid] at h
    exact Or.inl h

/-- Without a collision, the stored data of the group are those of the attestation. -/
theorem lookup_store
    {b : Bytes}
    (hcollision : ∀ b', p.encodedData.lookup (lib.xxHash b) = some b' → b' = b)
    (it : AttestationItem) :
    (p.store lib b it).encodedData.lookup (lib.xxHash b) = some b := by
  unfold store
  by_cases hmem : lib.xxHash b ∈ p.encodedData
  · simp only [if_pos hmem]
    obtain ⟨b', hb'⟩ := Option.isSome_iff_exists.mp (AList.lookup_isSome.mpr hmem)
    rw [hb', hcollision b' hb']
  · simp only [if_neg hmem, AList.lookup_insert]

theorem pairs_store
    (hz : lib.snappy.Lawful)
    {data : AttestationData}
    (hwf : p.Wf lib)
    (hcollision : ∀ b', p.encodedData.lookup (lib.xxHash (lib.snappy.encode data.encoding)) =
      some b' → b' = lib.snappy.encode data.encoding)
    (it : AttestationItem) :
    (p.store lib (lib.snappy.encode data.encoding) it).pairs lib digest =
      p.pairs lib digest + {itemPair digest data it} := by
  refine sum_map_touch p.encodedData.keys_nodup (keys_store p _ it) ?_ ?_ ?_
  · intro id _ hid
    unfold pairsAt
    rw [lookup_store_of_ne p _ it hid]
    exact congrArg _ (GoMap.getAll_appendAt_of_ne _ _ hid)
  · intro hid
    rw [pairsAt, hwf.grouped hid, groupPairs_nil]
  · have hitems : GoMap.getAll (p.store lib (lib.snappy.encode data.encoding)
        it).encodedAttestations (lib.xxHash (lib.snappy.encode data.encoding)) =
        GoMap.getAll p.encodedAttestations (lib.xxHash (lib.snappy.encode data.encoding)) ++
          [it] := GoMap.getAll_appendAt _ _ _
    rw [pairsAt, lookup_store hcollision, hitems, Option.getD_some, groupPairs_encode hz]
    cases hlookup : p.encodedData.lookup (lib.xxHash (lib.snappy.encode data.encoding)) with
    | none =>
        have hnil := hwf.grouped (AList.lookup_eq_none.mp hlookup)
        rw [pairsAt, hnil, groupPairs_nil]
        rfl
    | some b =>
        rw [pairsAt, hlookup, Option.getD_some, hcollision b hlookup, groupPairs_encode hz,
          List.map_append]
        rfl

theorem wf_new :
    new.Wf lib := by
  constructor
  case grouped => simp [new]
  case data => simp [new]
  case items => simp [new]

theorem Wf.store
    {data : AttestationData} {it : AttestationItem}
    (hwf : p.Wf lib)
    (hit : it.Valid) :
    (p.store lib (lib.snappy.encode data.encoding) it).Wf lib := by
  constructor
  case grouped =>
    intro id hid
    have hperm : (p.store lib (lib.snappy.encode data.encoding) it).encodedData.keys.Perm _ :=
      keys_store p _ it
    have hkeys := hperm.mem_iff (a := id)
    have hne : id ≠ lib.xxHash (lib.snappy.encode data.encoding) := by
      intro heq
      exact hid (hkeys.mpr (by simp [heq]))
    have hold : id ∉ p.encodedData := by
      intro hmem
      exact hid (hkeys.mpr (List.mem_cons_of_mem _
        (p.encodedData.keys_nodup.mem_erase_iff.mpr ⟨hne, hmem⟩)))
    exact (GoMap.getAll_appendAt_of_ne _ _ hne).trans (hwf.grouped hold)
  case data =>
    intro id b hb
    rcases of_lookup_store hb with hold | hnew
    · exact hwf.data hold
    · exact ⟨data, hnew.2⟩
  case items =>
    intro id it' hit'
    by_cases hid : id = lib.xxHash (lib.snappy.encode data.encoding)
    · subst hid
      have happend := GoMap.getAll_appendAt p.encodedAttestations
        (lib.xxHash (lib.snappy.encode data.encoding)) [it]
      rcases List.mem_append.mp (happend ▸ hit') with hmem | hmem
      · exact hwf.items hmem
      · rw [List.mem_singleton.mp hmem]
        exact hit
    · have happend := GoMap.getAll_appendAt_of_ne p.encodedAttestations [it] hid
      exact hwf.items (happend ▸ hit')

end Adding

section Sending

variable {lib}

/-- The topic on which an item is published. -/
def itemTopic (it : AttestationItem) : String :=
  buildFullTopic digest (attestationDescriptor it.topicIndex.toNat)

variable (lib) in
/-- The message that an item becomes. -/
def itemPayload (data : AttestationData) (it : AttestationItem) : Bytes :=
  lib.snappy.encode (attestationOf data it).encoding

theorem decodeItem_eq
    {data : AttestationData} {it : AttestationItem}
    (hit : it.Valid)
    (result : GoMap String (List Bytes)) :
    decodeItem lib digest data result it =
      .ok (GoMap.appendAt result (itemTopic digest it) [itemPayload lib data it]) := by
  have htopic := hit.topicIndex
  unfold decodeItem
  rw [if_neg (by omega), if_neg (by simp [hit.signature]), encodeGossip_singleAttestation]
  rfl

theorem foldlM_decodeItem
    (data : AttestationData)
    {items : List AttestationItem}
    (hitems : ∀ it ∈ items, it.Valid)
    (acc : GoMap String (List Bytes)) :
    items.foldlM (decodeItem lib digest data) acc =
      .ok (GoMap.collect (itemTopic digest) (itemPayload lib data) acc items) := by
  induction items generalizing acc with
  | nil => rfl
  | cons it items ih =>
      rw [List.foldlM_cons, decodeItem_eq digest (hitems it (by simp)) acc]
      exact ih (fun it' hit' => hitems it' (List.mem_cons_of_mem it hit')) _

/-- What the collected payloads stand for. -/
theorem uncompressedPairs_collect
    (hz : lib.snappy.Lawful)
    (data : AttestationData)
    (items : List AttestationItem) :
    uncompressedPairs lib.snappy (GoMap.pairs
        (GoMap.collect (itemTopic digest) (itemPayload lib data) ∅ items)) =
      (items.map (itemPair digest data) : List (String × Bytes)) := by
  rw [GoMap.pairs_collect, GoMap.pairs_empty, zero_add, uncompressedPairs, Multiset.map_coe,
    List.map_map]
  refine congrArg _ (List.map_congr_left ?_)
  intro it _
  simp [itemPair, itemTopic, itemPayload, uncompressed_encode hz]

theorem encodeGroup_sends
    (hlib : lib.Lawful)
    {p : AttestationPacker} {id : UInt64}
    (hwf : p.Wf lib)
    (hid : id ∈ p.encodedData)
    (nowMs : Int64) :
    ∃ payload, p.encodeGroup lib nowMs id = .ok payload ∧
      p.Sends lib digest id payload := by
  obtain ⟨b, hb⟩ := Option.isSome_iff_exists.mp (AList.lookup_isSome.mpr hid)
  obtain ⟨data, rfl⟩ := hwf.data hb
  obtain ⟨body, hmarshal, hunmarshal⟩ := hlib.proto.pack (p.packOf nowMs id)
  refine ⟨prefixed prefixPacker body, ?_, body,
    GoMap.collect (itemTopic digest) (itemPayload lib data) ∅ (p.packOf nowMs id).items,
    rfl, ?_, ?_⟩
  · simp only [encodeGroup, hmarshal]
  · simp only [decode, hunmarshal, packOf, hb, Option.getD_some,
      decodeGossip_attestationData hlib.snappy]
    exact foldlM_decodeItem digest data (fun it hit => hwf.items hit) ∅
  · rw [uncompressedPairs_collect digest hlib.snappy, pairsAt, hb, Option.getD_some,
      groupPairs_encode hlib.snappy]
    rfl

theorem encodeCurrent_sends
    (hlib : lib.Lawful)
    {p : AttestationPacker} {order : List UInt64}
    (hwf : p.Wf lib)
    (horder : ∀ id ∈ order, id ∈ p.encodedData)
    (nowMs : Int64) :
    ∃ payloads, p.encodeCurrent lib order nowMs = .ok payloads ∧
      List.Forall₂ (p.Sends lib digest) order payloads := by
  induction order with
  | nil => exact ⟨[], rfl, List.Forall₂.nil⟩
  | cons id order ih =>
      obtain ⟨payload, hgroup, hsends⟩ :=
        encodeGroup_sends digest hlib hwf (horder id (by simp)) nowMs
      obtain ⟨payloads, hcurrent, hall⟩ :=
        ih (fun id' hid' => horder id' (List.mem_cons_of_mem id hid'))
      refine ⟨payload :: payloads, ?_, List.Forall₂.cons hsends hall⟩
      unfold encodeCurrent at hcurrent ⊢
      rw [List.mapM_cons, hgroup, hcurrent]
      rfl

end Sending

end AttestationPacker

end Aggregator
end OptimumGateway
