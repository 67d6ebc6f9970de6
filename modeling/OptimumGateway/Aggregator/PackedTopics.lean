import OptimumGateway.Aggregator.Packer
import OptimumGateway.Protocol.StrictTopics

/-!
# Topics of packed attestations

The packer keeps of a topic only the subnet that was read from it, and `Decode` builds the
topic again from the subnet and the fork digest.  An attestation therefore comes back on its
own topic exactly when that topic is in the strict format.

`classification_canonical_iff` puts this beside the other ways in which the classification of
a topic stands for the topic.
-/

namespace OptimumGateway
namespace Aggregator

open Foundation Protocol

section Unpacking

variable {lib : Libraries}

/-- One attestation is packed and unpacked again on the topic of its item. -/
theorem unpack_single
    (hlib : lib.Lawful)
    (digest : String)
    (data : AttestationData)
    {it : AttestationItem}
    (hit : it.Valid)
    (nowMs : Int64) :
    ∃ body unpacked,
      (AttestationPacker.new.store lib (lib.snappy.encode data.encoding) it).encodeCurrent lib
          (AttestationPacker.new.store lib (lib.snappy.encode data.encoding) it).encodedData.keys
          nowMs = .ok [prefixed prefixPacker body] ∧
      AttestationPacker.decode lib digest body = .ok unpacked ∧
      unpacked.keys = [AttestationPacker.itemTopic digest it] := by
  have hkeys : (AttestationPacker.new.store lib (lib.snappy.encode data.encoding)
      it).encodedData.keys = [lib.xxHash (lib.snappy.encode data.encoding)] :=
    List.perm_singleton.mp (AttestationPacker.keys_store AttestationPacker.new _ it)
  have hdata : (AttestationPacker.new.store lib (lib.snappy.encode data.encoding)
      it).encodedData.lookup (lib.xxHash (lib.snappy.encode data.encoding)) =
        some (lib.snappy.encode data.encoding) :=
    AttestationPacker.lookup_store (p := AttestationPacker.new) (fun b' hb' => nomatch hb') it
  have hitems : GoMap.getAll (AttestationPacker.new.store lib (lib.snappy.encode data.encoding)
      it).encodedAttestations (lib.xxHash (lib.snappy.encode data.encoding)) = [it] :=
    GoMap.getAll_appendAt ∅ _ [it]
  obtain ⟨body, hmarshal, hunmarshal⟩ := hlib.proto.pack
    ((AttestationPacker.new.store lib (lib.snappy.encode data.encoding) it).packOf nowMs
      (lib.xxHash (lib.snappy.encode data.encoding)))
  refine ⟨body, GoMap.collect (AttestationPacker.itemTopic digest)
    (AttestationPacker.itemPayload lib data) ∅ [it], ?_, ?_, rfl⟩
  · rw [hkeys, AttestationPacker.encodeCurrent, List.mapM_cons, AttestationPacker.encodeGroup,
      hmarshal]
    rfl
  · simp only [AttestationPacker.decode, hunmarshal, AttestationPacker.packOf, hdata, hitems,
      Option.getD_some, decodeGossip_attestationData hlib.snappy]
    refine AttestationPacker.foldlM_decodeItem digest data ?_ ∅
    intro it' hit'
    rw [List.mem_singleton.mp hit']
    exact hit

end Unpacking

section Canonical

variable {t : String}

/-- A strict topic is determined by its digest and its classification. -/
theorem strictTopic_iff_unique
    (hdigest : getForkDigestFromTopic t ≠ "")
    (hknown : (parseTopicMeta t).kind ≠ .unknown) :
    StrictTopic (parseTopicMeta t).kind t
      ↔
    ∀ t', getForkDigestFromTopic t' = getForkDigestFromTopic t →
      parseTopicMeta t' = parseTopicMeta t → StrictTopic (parseTopicMeta t').kind t' →
      t' = t := by
  have hbuilt := buildFullTopic_descriptor_eq_iff hdigest hknown
  constructor
  · intro hstrict t' hdigest' hmeta' hstrict'
    have hbuilt' := (buildFullTopic_descriptor_eq_iff (hdigest'.trans_ne hdigest)
      (hmeta' ▸ hknown)).mpr hstrict'
    rw [hdigest', hmeta', hbuilt.mpr hstrict] at hbuilt'
    exact hbuilt'.symm
  · intro hunique
    obtain ⟨hdigest', hmeta'⟩ := classified_as_descriptor hdigest hknown
    refine hbuilt.mp (hunique _ hdigest' hmeta' ?_)
    refine (buildFullTopic_descriptor_eq_iff (hdigest'.trans_ne hdigest)
      (hmeta'.symm ▸ hknown)).mp ?_
    rw [hdigest', hmeta']

/-- For the topics in the strict format, and for no others, the classification stands for the
topic: building it again gives it back, no other strict topic is treated as the same one, and
an attestation comes back from the packer on it. -/
theorem classification_canonical_iff
    (t : String)
    (hdigest : getForkDigestFromTopic t ≠ "")
    (hknown : (parseTopicMeta t).kind ≠ .unknown) :
    (buildFullTopic (getForkDigestFromTopic t) (parseTopicMeta t).descriptor = t
      ↔
    StrictTopic (parseTopicMeta t).kind t) ∧
    ((∀ t', getForkDigestFromTopic t' = getForkDigestFromTopic t →
      parseTopicMeta t' = parseTopicMeta t → StrictTopic (parseTopicMeta t').kind t' →
      t' = t)
      ↔
    StrictTopic (parseTopicMeta t).kind t) ∧
    ∀ (lib : Libraries) (message : Bytes) (p : AttestationPacker) (nowMs : Int64),
      lib.Lawful →
      AttestationPacker.new.add lib (some (parseTopicMeta t)) message = .ok p →
      ∃ body unpacked,
        p.encodeCurrent lib p.encodedData.keys nowMs = .ok [prefixed prefixPacker body] ∧
        AttestationPacker.decode lib (getForkDigestFromTopic t) body = .ok unpacked ∧
        (unpacked.keys = [t] ↔ StrictTopic (parseTopicMeta t).kind t) := by
  have hbuilt := buildFullTopic_descriptor_eq_iff hdigest hknown
  refine ⟨hbuilt, (strictTopic_iff_unique hdigest hknown).symm, ?_⟩
  intro lib message p nowMs hlib hadd
  obtain ⟨m, s, hm, hattestation, -, rfl⟩ := AttestationPacker.add_eq_ok hadd
  obtain rfl := Option.some.inj hm
  have hkind : (parseTopicMeta t).kind = .attestation := by
    simpa [TopicMeta.isAttestation] using hattestation
  have hsubnet := extractAttestationTopicIndex_lt (extractAttestationTopicIndex_of_kind hkind)
  have hvalid : AttestationItem.Valid ⟨s.committeeIndex, s.attesterIndex,
      (parseTopicMeta t).attestationSubnet, s.signature.val⟩ := ⟨hsubnet, s.signature.property⟩
  obtain ⟨body, unpacked, hencode, hdecode, hkeys⟩ :=
    unpack_single hlib (getForkDigestFromTopic t) s.data hvalid nowMs
  refine ⟨body, unpacked, hencode, hdecode, ?_⟩
  have htopic : (parseTopicMeta t).descriptor =
      attestationDescriptor (parseTopicMeta t).attestationSubnet.toNat := by
    rw [TopicMeta.descriptor, hkind]
  rw [hkeys, ← hbuilt, htopic, List.singleton_inj]
  rfl

/-- A topic of subnet 7 whose index is written with a zero in front. -/
def paddedTopic : String := "/eth2/6a95a1a9/beacon_attestation_07/ssz_snappy"

def subnetSevenTopic : String := "/eth2/6a95a1a9/beacon_attestation_7/ssz_snappy"

/-- Two topics are treated as the same subnet, and one of them is not built again. -/
theorem padded_index_renamed :
    (¬ ∀ t, getForkDigestFromTopic t ≠ "" → (parseTopicMeta t).kind ≠ .unknown →
      buildFullTopic (getForkDigestFromTopic t) (parseTopicMeta t).descriptor = t) ∧
    paddedTopic ≠ subnetSevenTopic ∧
    getForkDigestFromTopic paddedTopic = getForkDigestFromTopic subnetSevenTopic ∧
    parseTopicMeta paddedTopic = ⟨.attestation, 7⟩ ∧
    parseTopicMeta subnetSevenTopic = ⟨.attestation, 7⟩ := by
  have hmeta : parseTopicMeta paddedTopic = ⟨.attestation, 7⟩ := by
    decide +kernel
  refine ⟨?_, by decide +kernel, by decide +kernel, hmeta, by decide +kernel⟩
  intro h
  have hbuilt := h paddedTopic (by decide +kernel) (by rw [hmeta]; nofun)
  rw [hmeta] at hbuilt
  exact absurd hbuilt (by decide +kernel)

theorem classification_canonical_iff_subnet :
    getForkDigestFromTopic subnetSevenTopic ≠ "" ∧
      (parseTopicMeta subnetSevenTopic).kind ≠ .unknown ∧
      buildFullTopic (getForkDigestFromTopic subnetSevenTopic)
        (parseTopicMeta subnetSevenTopic).descriptor = subnetSevenTopic := by
  have hmeta : parseTopicMeta subnetSevenTopic = ⟨.attestation, 7⟩ := by
    decide +kernel
  have hdigest : getForkDigestFromTopic subnetSevenTopic ≠ "" := by
    decide +kernel
  have hknown : (parseTopicMeta subnetSevenTopic).kind ≠ .unknown := by
    rw [hmeta]
    nofun
  refine ⟨hdigest, hknown, (classification_canonical_iff _ hdigest hknown).1.mpr ?_⟩
  rw [hmeta]
  refine ⟨"6a95a1a9".toList, "beacon_attestation_7".toList, by decide +kernel, by decide,
    List.all_eq_true.mp (by decide), ['7'], by decide, by decide, ?_, by decide⟩
  simp

end Canonical

end Aggregator
end OptimumGateway
