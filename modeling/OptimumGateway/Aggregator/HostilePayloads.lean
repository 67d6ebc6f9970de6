import OptimumGateway.Aggregator.Conservation

/-!
# What `Decode` makes of payloads from the mesh

Anybody on the mesh can send a packed payload.  `Decode` accepts one exactly when the
message parses, the shared data are attestation data and every item has a subnet below
64 and a signature of 96 bytes (`decode_eq_ok_iff`).  What it then returns is determined:
the items, collected on the topics of their subnets.
-/

namespace OptimumGateway
namespace Aggregator

open Foundation Protocol

namespace AttestationPacker

variable {lib : Libraries} {digest : String} {it : AttestationItem} {payload : Bytes}

theorem decodeItem_of_not_valid
    (hit : ¬ it.Valid)
    (data : AttestationData)
    (result : GoMap String (List Bytes)) :
    ∃ err, decodeItem lib digest data result it = .error err := by
  unfold decodeItem
  by_cases htopic : it.topicIndex.toNat ≥ attestationSubnetCount
  · exact ⟨_, if_pos htopic⟩
  · by_cases hsignature : it.signature.length ≠ 96
    · rw [if_neg htopic, if_pos hsignature]
      exact ⟨_, rfl⟩
    · exact absurd ⟨Nat.lt_of_not_ge htopic, not_not.mp hsignature⟩ hit

theorem foldlM_decodeItem_of_not_valid
    {items : List AttestationItem}
    (hitems : ∃ it ∈ items, ¬ it.Valid)
    (data : AttestationData)
    (acc : GoMap String (List Bytes)) :
    ∃ err, items.foldlM (decodeItem lib digest data) acc = .error err := by
  induction items generalizing acc with
  | nil =>
      obtain ⟨it, hit, _⟩ := hitems
      cases hit
  | cons it items ih =>
      rw [List.foldlM_cons]
      by_cases hvalid : it.Valid
      · rw [decodeItem_eq digest hvalid acc]
        refine ih ?_ _
        obtain ⟨it', hit', hnot⟩ := hitems
        rcases List.mem_cons.mp hit' with rfl | hmem
        · exact absurd hvalid hnot
        · exact ⟨it', hmem, hnot⟩
      · obtain ⟨err, herr⟩ := decodeItem_of_not_valid hvalid data acc
        rw [herr]
        exact ⟨err, rfl⟩

/-- What is behind the prefix parses as a pack with the given shared data. -/
structure Parses
    (lib : Libraries)
    (payload : Bytes)
    (pack : AttestationPack)
    (data : AttestationData) : Prop where
  proto : lib.proto.unmarshalPack payload = .ok pack
  shared : decodeGossip lib.snappy pack.attestationSszData AttestationData.zero = .ok data

theorem decode_of_parses
    {pack : AttestationPack} {data : AttestationData}
    (h : Parses lib payload pack data) :
    decode lib digest payload = pack.items.foldlM (decodeItem lib digest data) ∅ := by
  simp only [decode, h.proto, h.shared]

theorem decode_of_not_parses
    (h : ∀ pack data, ¬ Parses lib payload pack data) :
    ∃ err, decode lib digest payload = .error err := by
  unfold decode
  cases hproto : lib.proto.unmarshalPack payload with
  | error err => exact ⟨_, rfl⟩
  | ok pack =>
      cases hshared : decodeGossip lib.snappy pack.attestationSszData AttestationData.zero with
      | error err => simp [hshared]
      | ok data => exact absurd ⟨hproto, hshared⟩ (h pack data)

/-- `Decode` succeeds exactly on the packs whose items are all valid, and returns the
items collected by topic. -/
theorem decode_eq_ok_iff
    {result : GoMap String (List Bytes)} :
    decode lib digest payload = .ok result
      ↔
    ∃ pack data, Parses lib payload pack data ∧ (∀ it ∈ pack.items, it.Valid) ∧
      result = GoMap.collect (itemTopic digest) (itemPayload lib data) ∅ pack.items := by
  by_cases hparses : ∃ pack data, Parses lib payload pack data
  · obtain ⟨pack, data, hpack⟩ := hparses
    have hunique : ∀ pack' data', Parses lib payload pack' data' →
        pack' = pack ∧ data' = data := by
      intro pack' data' h
      have hproto := h.proto
      rw [hpack.proto] at hproto
      have heq := (Except.ok.inj hproto).symm
      subst heq
      have hshared := h.shared
      rw [hpack.shared] at hshared
      exact ⟨rfl, (Except.ok.inj hshared).symm⟩
    rw [decode_of_parses hpack]
    by_cases hvalid : ∀ it ∈ pack.items, it.Valid
    · rw [foldlM_decodeItem digest data hvalid]
      constructor
      · intro h
        exact ⟨pack, data, hpack, hvalid, (Except.ok.inj h).symm⟩
      · intro h
        obtain ⟨pack', data', hpack', _, hresult⟩ := h
        obtain ⟨rfl, rfl⟩ := hunique pack' data' hpack'
        rw [hresult]
    · have hinvalid : ∃ it ∈ pack.items, ¬ it.Valid := by
        simpa using hvalid
      obtain ⟨err, herr⟩ := foldlM_decodeItem_of_not_valid hinvalid data ∅
      rw [herr]
      constructor
      · intro h
        cases h
      · intro h
        obtain ⟨pack', data', hpack', hvalid', _⟩ := h
        obtain ⟨rfl, rfl⟩ := hunique pack' data' hpack'
        exact absurd hvalid' hvalid
  · obtain ⟨err, herr⟩ := decode_of_not_parses fun pack data h => hparses ⟨pack, data, h⟩
    rw [herr]
    constructor
    · intro h
      cases h
    · intro h
      obtain ⟨pack, data, hpack, _⟩ := h
      exact absurd ⟨pack, data, hpack⟩ hparses

/-- The topic of an attestation subnet. -/
def subnetTopic (digest : String) (n : Nat) : String :=
  "/eth2/" ++ toLower digest ++ "/beacon_attestation_" ++ toString n ++ "/ssz_snappy"

theorem itemTopic_eq
    (digest : String)
    (it : AttestationItem) :
    itemTopic digest it = subnetTopic digest it.topicIndex.toNat := by
  rw [itemTopic, buildFullTopic,
    (ethTopicName_attestationDescriptor it.topicIndex.toNat).trimSpace_eq]
  have hname : "/" ++ (beaconAttestationBase ++ "_") = "/beacon_attestation_" := by
    decide
  simp only [subnetTopic, attestationDescriptor, ← hname, String.append_assoc]

/-- The payload decodes to the attestation of an item with the shared data. -/
def EncodesItem
    (lib : Libraries)
    (data : AttestationData)
    (payload : Bytes)
    (it : AttestationItem) : Prop :=
  ∃ s, decodeGossip lib.snappy payload SingleAttestation.zero = .ok s ∧ s.data = data ∧
    s.committeeIndex = it.committeeId ∧ s.attesterIndex = it.attesterIndex ∧
    s.signature.val = it.signature

theorem encodesItem_itemPayload
    (hz : lib.snappy.Lawful)
    (data : AttestationData)
    (hit : it.Valid) :
    EncodesItem lib data (itemPayload lib data it) it := by
  refine ⟨attestationOf data it, decodeGossip_singleAttestation hz _ _, rfl, rfl, rfl, ?_⟩
  exact val_copyArray _ hit.signature

theorem decode_eq_error_iff :
    (∃ err, decode lib digest payload = .error err)
      ↔
    (∃ err, lib.proto.unmarshalPack payload = .error err) ∨
      ∃ pack, lib.proto.unmarshalPack payload = .ok pack ∧
        ((∃ err, decodeGossip lib.snappy pack.attestationSszData AttestationData.zero =
            .error err) ∨
          ∃ it ∈ pack.items, ¬ it.Valid) := by
  constructor
  · intro h
    obtain ⟨err, herr⟩ := h
    cases hproto : lib.proto.unmarshalPack payload with
    | error err => exact Or.inl ⟨err, rfl⟩
    | ok pack =>
        refine Or.inr ⟨pack, rfl, ?_⟩
        cases hshared : decodeGossip lib.snappy pack.attestationSszData
            AttestationData.zero with
        | error err => exact Or.inl ⟨err, rfl⟩
        | ok data =>
            refine Or.inr ?_
            by_contra hnone
            have hvalid : ∀ it ∈ pack.items, it.Valid := by
              simpa using hnone
            have hok : decode lib digest payload = .ok _ :=
              decode_eq_ok_iff.mpr ⟨pack, data, ⟨hproto, hshared⟩, hvalid, rfl⟩
            rw [hok] at herr
            cases herr
  · intro h
    cases hresult : decode lib digest payload with
    | error err => exact ⟨err, rfl⟩
    | ok result =>
        obtain ⟨pack, data, hparses, hvalid, _⟩ := decode_eq_ok_iff.mp hresult
        rcases h with ⟨err, herr⟩ | ⟨pack', hpack', hbad⟩
        · rw [hparses.proto] at herr
          cases herr
        · rw [hparses.proto] at hpack'
          obtain rfl := Except.ok.inj hpack'
          rcases hbad with ⟨err, herr⟩ | ⟨it, hit, hnot⟩
          · rw [hparses.shared] at herr
            cases herr
          · exact absurd (hvalid it hit) hnot

theorem not_valid_iff :
    ¬ it.Valid ↔ 64 ≤ it.topicIndex.toNat ∨ it.signature.length ≠ 96 := by
  constructor
  · intro hnot
    by_cases hindex : 64 ≤ it.topicIndex.toNat
    · exact Or.inl hindex
    · refine Or.inr ?_
      intro hsignature
      exact hnot ⟨Nat.lt_of_not_le hindex, hsignature⟩
  · intro h hvalid
    rcases h with hindex | hsignature
    · exact absurd hvalid.topicIndex (Nat.not_lt_of_le hindex)
    · exact hsignature hvalid.signature

/-- A payload is refused exactly when it does not parse or has an item out of range, and
what is returned for an accepted one are its items, each on the topic of its subnet. -/
theorem decode_contains
    (hz : lib.snappy.Lawful)
    (digest : String)
    (payload : Bytes) :
    ((∃ err, decode lib digest payload = .error err)
        ↔
      (∃ err, lib.proto.unmarshalPack payload = .error err) ∨
        ∃ pack, lib.proto.unmarshalPack payload = .ok pack ∧
          ((∃ err, decodeGossip lib.snappy pack.attestationSszData AttestationData.zero =
              .error err) ∨
            ∃ it ∈ pack.items, 64 ≤ it.topicIndex.toNat ∨ it.signature.length ≠ 96)) ∧
      ∀ result, decode lib digest payload = .ok result →
        ∃ pack data, Parses lib payload pack data ∧
          (∀ topic ∈ result.keys, ∃ n < 64, topic = subnetTopic digest n) ∧
          ∀ topic, List.Forall₂ (EncodesItem lib data) (GoMap.getAll result topic)
            (pack.items.filter fun it => subnetTopic digest it.topicIndex.toNat = topic) := by
  constructor
  · simp only [decode_eq_error_iff, not_valid_iff]
  · intro result hresult
    obtain ⟨pack, data, hparses, hvalid, rfl⟩ := decode_eq_ok_iff.mp hresult
    refine ⟨pack, data, hparses, ?_, ?_⟩
    · intro topic htopic
      rw [GoMap.mem_keys_collect] at htopic
      rcases htopic with hempty | ⟨it, hit, rfl⟩
      · cases hempty
      · exact ⟨it.topicIndex.toNat, (hvalid it hit).topicIndex, itemTopic_eq digest it⟩
    · intro topic
      rw [GoMap.getAll_collect, GoMap.getAll_empty, List.nil_append]
      simp only [itemTopic_eq, List.forall₂_map_left_iff, List.forall₂_same]
      intro it hit
      exact encodesItem_itemPayload hz data (hvalid it (List.mem_of_mem_filter hit))

section Sample

/-- Attestation data of one slot. -/
def sampleData : AttestationData :=
  { AttestationData.zero with slot := 12345678 }

def sampleItem : AttestationItem :=
  ⟨1, 2, 5, List.replicate 96 3⟩

def inRangePack : AttestationPack :=
  ⟨literalSnappy.encode sampleData.encoding, [sampleItem], 1742213403500⟩

/-- A pack whose second item names subnet 64. -/
def outOfRangePack : AttestationPack :=
  { inRangePack with items := [sampleItem, { sampleItem with topicIndex := 64 }] }

/-- The pack with the item out of range is refused as a whole; the other becomes one
attestation. -/
theorem decode_contains_sample :
    (∃ payload, wireCodec.unmarshalPack payload = .ok outOfRangePack ∧
        ∃ err, decode sampleLibraries "6A95A1A9" payload = .error err) ∧
      ∃ payload, wireCodec.unmarshalPack payload = .ok inRangePack ∧
        ∃ result data, decode sampleLibraries "6A95A1A9" payload = .ok result ∧
          List.Forall₂ (EncodesItem sampleLibraries data)
            (GoMap.getAll result (subnetTopic "6A95A1A9" 5)) [sampleItem] := by
  have hz : sampleLibraries.snappy.Lawful := literalSnappy_lawful
  constructor
  · obtain ⟨payload, -, hpayload⟩ := wireCodec_lawful.pack outOfRangePack
    refine ⟨payload, hpayload, ((decode_contains hz "6A95A1A9" payload).1).mpr ?_⟩
    exact Or.inr ⟨outOfRangePack, hpayload, Or.inr ⟨_, List.mem_cons_of_mem _
      (List.mem_singleton_self _), Or.inl (by decide)⟩⟩
  · obtain ⟨payload, -, hpayload⟩ := wireCodec_lawful.pack inRangePack
    have hparses : Parses sampleLibraries payload inRangePack sampleData :=
      ⟨hpayload, decodeGossip_attestationData hz sampleData _⟩
    have hvalid : ∀ it ∈ inRangePack.items, it.Valid := by
      intro it hit
      rw [List.mem_singleton.mp hit]
      exact ⟨by decide, by decide⟩
    have hok : decode sampleLibraries "6A95A1A9" payload = .ok _ :=
      decode_eq_ok_iff.mpr ⟨inRangePack, sampleData, hparses, hvalid, rfl⟩
    obtain ⟨pack, data, hpack, -, hcarries⟩ := (decode_contains hz "6A95A1A9" payload).2 _ hok
    obtain rfl := Except.ok.inj (hpack.proto.symm.trans hpayload)
    refine ⟨payload, hpayload, _, data, hok, ?_⟩
    have hfive := hcarries (subnetTopic "6A95A1A9" 5)
    rwa [List.filter_eq_self.mpr] at hfive
    intro it hit
    rw [List.mem_singleton.mp hit]
    exact decide_eq_true rfl

end Sample

end AttestationPacker

end Aggregator
end OptimumGateway
