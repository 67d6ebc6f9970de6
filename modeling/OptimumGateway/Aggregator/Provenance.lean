import OptimumGateway.Aggregator.Conservation

/-!
# Where an unpacked attestation comes from

The account of the aggregator loop counts; this module follows the single attestation.  A
receiver may use another fork digest than the sender, so that nothing here depends on one:
an item that was packed comes out with the same content on the topic of its subnet under
the receiver's digest, and an item that was not packed comes out as it went in.

`Supplied` says that what the loop holds comes from the items it was given.  It is kept by
every event, as long as different attestation data of one batch do not share a hash, and it
is what a payload needs to be sound for every receiver.
-/

namespace OptimumGateway
namespace Aggregator

open Foundation Protocol

section Items

variable (lib : Libraries)

/-- What a receiver with the given digest may get for an item. -/
inductive Carries (digest : String) (it : AggregateItem) : String → Bytes → Prop where
  | naive : Carries digest it it.topic it.data
  | packed {m : TopicMeta} {s : SingleAttestation}
      (hmeta : it.topicMeta = some m)
      (hattestation : m.isAttestation = true)
      (hdecode : decodeGossip lib.snappy it.data SingleAttestation.zero = .ok s) :
      Carries digest it
        (buildFullTopic digest (attestationDescriptor m.attestationSubnet.toNat))
        (lib.snappy.encode s.encoding)

/-- Whoever decodes the payload gets what was carried for one of the items. -/
def Sound (items : List AggregateItem) (payload : Bytes) : Prop :=
  ∀ digest decoded topic b, decodeAggregatedMessage lib digest payload = .ok decoded →
    b ∈ GoMap.getAll decoded topic → ∃ it ∈ items, Carries lib digest it topic b

/-- An item of a group is an attestation of one of the items, under its own data. -/
def PackedFrom
    (items : List AggregateItem)
    (p : AttestationPacker)
    (id : UInt64)
    (packed : AttestationItem) : Prop :=
  ∃ it ∈ items, ∃ m s, it.topicMeta = some m ∧ m.isAttestation = true ∧
    decodeGossip lib.snappy it.data SingleAttestation.zero = .ok s ∧
    p.encodedData.lookup id = some (lib.snappy.encode s.data.encoding) ∧
    packed = ⟨s.committeeIndex, s.attesterIndex, m.attestationSubnet, s.signature.val⟩

/-- What the loop holds comes from the items, and the data in the packer from the batch. -/
structure Supplied (items batch : List AggregateItem) (s : Loop) : Prop where
  data : ∀ {id b}, s.packer.encodedData.lookup id = some b →
    id = lib.xxHash b ∧ ∃ it ∈ batch, dataEncoding lib it = some b
  packed : ∀ {id packed}, packed ∈ GoMap.getAll s.packer.encodedAttestations id →
    PackedFrom lib items s.packer id packed
  waiting : ∀ {topic b}, b ∈ GoMap.getAll s.byTopic topic →
    ∃ it ∈ items, it.topic = topic ∧ it.data = b

end Items

section Receiving

variable {lib : Libraries} {items batch : List AggregateItem} {s : Loop}

theorem supplied_start :
    Supplied lib [] [] Loop.start := by
  constructor
  case data => simp [Loop.start, AttestationPacker.new]
  case packed => simp [Loop.start, AttestationPacker.new]
  case waiting => simp [Loop.start]

theorem PackedFrom.mono
    {items' : List AggregateItem} {p : AttestationPacker} {id : UInt64}
    {packed : AttestationItem}
    (h : PackedFrom lib items p id packed)
    (hitems : items ⊆ items') :
    PackedFrom lib items' p id packed := by
  obtain ⟨it, hit, hrest⟩ := h
  exact ⟨it, hitems hit, hrest⟩

variable (h : Supplied lib items batch s)
include h

theorem Supplied.mono
    {items' batch' : List AggregateItem}
    (hitems : items ⊆ items')
    (hbatch : batch ⊆ batch') :
    Supplied lib items' batch' s := by
  constructor
  case data =>
    intro id b hb
    obtain ⟨hid, it, hit, hdata⟩ := h.data hb
    exact ⟨hid, it, hbatch hit, hdata⟩
  case packed =>
    intro id packed hpacked
    exact (h.packed hpacked).mono hitems
  case waiting =>
    intro topic b hb
    obtain ⟨it, hit, hrest⟩ := h.waiting hb
    exact ⟨it, hitems hit, hrest⟩

omit h in
/-- Storing under a key leaves the data of the other items, as no key is overwritten. -/
theorem PackedFrom.store
    {p : AttestationPacker} {id : UInt64} {packed : AttestationItem} {b : Bytes}
    (h : PackedFrom lib items p id packed)
    (it : AttestationItem) :
    PackedFrom lib items (p.store lib b it) id packed := by
  obtain ⟨source, hsource, m, a, hmeta, hattestation, hdecode, hlookup, hpacked⟩ := h
  refine ⟨source, hsource, m, a, hmeta, hattestation, hdecode, ?_, hpacked⟩
  by_cases hid : id = lib.xxHash b
  · subst hid
    have hmem : lib.xxHash b ∈ p.encodedData :=
      AList.lookup_isSome.mp (by rw [hlookup]; rfl)
    simp only [AttestationPacker.store, if_pos hmem, hlookup]
  · rw [AttestationPacker.lookup_store_of_ne p b it hid, hlookup]

theorem Supplied.fallback
    (it : AggregateItem) :
    Supplied lib (items ++ [it]) (batch ++ [it]) (fallback s it) := by
  have hmono := h.mono (List.subset_append_left items [it]) (List.subset_append_left batch [it])
  refine ⟨hmono.data, hmono.packed, ?_⟩
  intro topic b hb
  rcases GoMap.mem_getAll_appendAt hb with hold | ⟨rfl, hnew⟩
  · exact hmono.waiting hold
  · exact ⟨it, by simp, rfl, (List.mem_singleton.mp hnew).symm⟩

/-- The failure counters are not part of what is held. -/
theorem Supplied.of_eq
    {s' : Loop}
    (hpacker : s'.packer = s.packer)
    (hbyTopic : s'.byTopic = s.byTopic) :
    Supplied lib items batch s' := by
  obtain ⟨hdata, hpacked, hwaiting⟩ := h
  rw [← hpacker] at hdata hpacked
  rw [← hbyTopic] at hwaiting
  exact ⟨hdata, hpacked, hwaiting⟩

/-- An attestation goes under its own data: data that have its hash are its data. -/
theorem Supplied.store
    {it : AggregateItem} {m : TopicMeta} {a : SingleAttestation}
    (hmeta : it.topicMeta = some m)
    (hattestation : m.isAttestation = true)
    (hdecode : decodeGossip lib.snappy it.data SingleAttestation.zero = .ok a)
    (hfree : CollisionFree lib (batch ++ [it])) :
    Supplied lib (items ++ [it]) (batch ++ [it])
      { s with
        packer := s.packer.store lib (lib.snappy.encode a.data.encoding)
          ⟨a.committeeIndex, a.attesterIndex, m.attestationSubnet, a.signature.val⟩
        errPack := none } := by
  have hmono := h.mono (List.subset_append_left items [it]) (List.subset_append_left batch [it])
  have hitem : isAttestationItem it = true := by
    simp only [isAttestationItem, hmeta, hattestation]
  have hencoding := dataEncoding_eq hitem hdecode
  have hcollision : ∀ b', s.packer.encodedData.lookup
      (lib.xxHash (lib.snappy.encode a.data.encoding)) = some b' →
      b' = lib.snappy.encode a.data.encoding := by
    intro b' hb'
    obtain ⟨hid, it', hit', hdata'⟩ := hmono.data hb'
    exact hfree it' hit' it (by simp) b' _ hdata' hencoding hid.symm
  constructor
  case data =>
    intro id b hb
    rcases AttestationPacker.of_lookup_store hb with hold | ⟨hid, rfl⟩
    · exact hmono.data hold
    · exact ⟨hid, it, by simp, hencoding⟩
  case packed =>
    intro id packed hpacked
    rcases GoMap.mem_getAll_appendAt hpacked with hold | ⟨rfl, hnew⟩
    · exact (hmono.packed hold).store _
    · exact ⟨it, by simp, m, a, hmeta, hattestation, hdecode,
        AttestationPacker.lookup_store hcollision _, List.mem_singleton.mp hnew⟩
  case waiting => exact hmono.waiting

theorem Supplied.receive
    {it : AggregateItem}
    (hfree : CollisionFree lib (batch ++ [it])) :
    Supplied lib (items ++ [it]) (batch ++ [it]) (receive lib s it) := by
  unfold Aggregator.receive
  by_cases hitem : isAttestationItem it = true
  · rw [if_pos hitem]
    cases hadd : s.packer.add lib it.topicMeta it.data with
    | error err =>
        have hfailed : Supplied lib items batch
            { s with failedAttempts := s.failedAttempts + 1, errPack := some err } :=
          h.of_eq rfl rfl
        exact hfailed.fallback it
    | ok p =>
        obtain ⟨m, a, hmeta, hattestation, hdecode, rfl⟩ := AttestationPacker.add_eq_ok hadd
        exact h.store hmeta hattestation hdecode hfree
  · rw [if_neg hitem]
    exact h.fallback it

end Receiving

section Emitting

variable {lib : Libraries} {items batch : List AggregateItem} {s : Loop} {payload : Bytes}

/-- What the loop of `Decode` collects was there, or is the message of an item. -/
theorem mem_foldlM_decodeItem
    {digest : String} {data : AttestationData} {packed : List AttestationItem}
    {acc decoded : GoMap String (List Bytes)} {topic : String} {b : Bytes}
    (h : packed.foldlM (AttestationPacker.decodeItem lib digest data) acc = .ok decoded)
    (hb : b ∈ GoMap.getAll decoded topic) :
    b ∈ GoMap.getAll acc topic ∨ ∃ it ∈ packed,
      topic = AttestationPacker.itemTopic digest it ∧
        b = AttestationPacker.itemPayload lib data it := by
  induction packed generalizing acc with
  | nil =>
      cases h
      exact Or.inl hb
  | cons it packed ih =>
      rw [List.foldlM_cons] at h
      by_cases hvalid : it.Valid
      · rw [AttestationPacker.decodeItem_eq digest hvalid] at h
        rcases ih h with hacc | ⟨it', hit', hrest⟩
        · rcases GoMap.mem_getAll_appendAt hacc with hold | ⟨rfl, hnew⟩
          · exact Or.inl hold
          · exact Or.inr ⟨it, by simp, rfl, List.mem_singleton.mp hnew⟩
        · exact Or.inr ⟨it', List.mem_cons_of_mem it hit', hrest⟩
      · -- an item that is not accepted fails the whole payload
        exfalso
        unfold AttestationPacker.decodeItem at h
        by_cases hindex : it.topicIndex.toNat ≥ attestationSubnetCount
        · rw [if_pos hindex] at h
          cases h
        · by_cases hsignature : it.signature.length = 96
          · exact hvalid ⟨by omega, hsignature⟩
          · rw [if_neg hindex, if_pos hsignature] at h
            cases h

theorem exists_of_mem_encodeCurrent
    {p : AttestationPacker} {order : List UInt64} {nowMs : Int64} {payloads : List Bytes}
    (h : p.encodeCurrent lib order nowMs = .ok payloads)
    (hmem : payload ∈ payloads) :
    ∃ id, p.encodeGroup lib nowMs id = .ok payload := by
  induction order generalizing payloads with
  | nil =>
      cases h
      cases hmem
  | cons id order ih =>
      rw [AttestationPacker.encodeCurrent, List.mapM_cons] at h
      cases hgroup : p.encodeGroup lib nowMs id with
      | error err =>
          rw [hgroup] at h
          cases h
      | ok head =>
          rw [hgroup] at h
          cases hrest : order.mapM (p.encodeGroup lib nowMs) with
          | error err =>
              rw [hrest] at h
              cases h
          | ok rest =>
              rw [hrest] at h
              cases h
              rcases List.mem_cons.mp hmem with rfl | htail
              · exact ⟨id, hgroup⟩
              · exact ih hrest htail

/-- The attestation of a packed item is the one it was packed from. -/
theorem itemPayload_packed
    (s : SingleAttestation)
    (topicIndex : UInt32) :
    AttestationPacker.itemPayload lib s.data
        ⟨s.committeeIndex, s.attesterIndex, topicIndex, s.signature.val⟩ =
      lib.snappy.encode s.encoding := by
  simp only [AttestationPacker.itemPayload, AttestationPacker.attestationOf, copyArray_val]

theorem Supplied.sound_group
    (hlib : lib.Lawful)
    (h : Supplied lib items batch s)
    {nowMs : Int64} {id : UInt64}
    (hgroup : s.packer.encodeGroup lib nowMs id = .ok payload) :
    Sound lib items payload := by
  obtain ⟨body, hmarshal, hunmarshal⟩ := hlib.proto.pack (s.packer.packOf nowMs id)
  simp only [AttestationPacker.encodeGroup, hmarshal] at hgroup
  cases hgroup
  intro digest decoded topic b hdecoded hb
  rw [decodeAggregatedMessage_packer, AttestationPacker.decode, hunmarshal] at hdecoded
  simp only at hdecoded
  split at hdecoded
  · cases hdecoded
  · rename_i data hdata
    rcases mem_foldlM_decodeItem hdecoded hb with hnone | ⟨packed, hpacked, rfl, rfl⟩
    · rw [GoMap.getAll_empty] at hnone
      cases hnone
    · obtain ⟨it, hit, m, a, hmeta, hattestation, hdecode, hlookup, rfl⟩ := h.packed hpacked
      have hown : data = a.data := by
        rw [AttestationPacker.packOf, hlookup, Option.getD_some,
          decodeGossip_attestationData hlib.snappy] at hdata
        exact (Except.ok.inj hdata).symm
      rw [hown, itemPayload_packed]
      exact ⟨it, hit, Carries.packed hmeta hattestation hdecode⟩

theorem mem_of_takeBatch
    {order : List String} {byTopic : GoMap String (List Bytes)} {topic : String} {b : Bytes}
    (h : (topic, b) ∈ GoMap.pairs (order.foldl takeBatch (byTopic, [])).1 +
      containerPairs (order.foldl takeBatch (byTopic, [])).2) :
    b ∈ GoMap.getAll byTopic topic := by
  rw [foldl_takeBatch_pairs] at h
  rcases Multiset.mem_add.mp h with hheld | hnone
  · exact GoMap.mem_pairs_iff.mp hheld
  · cases hnone

theorem Supplied.sound_naive
    (hlib : lib.Lawful)
    (h : Supplied lib items batch s)
    {order : List String} {sentAtMs : Int64} {blob : Bytes}
    (hblob : lib.proto.marshalMsg ⟨sentAtMs, (order.foldl takeBatch (s.byTopic, [])).2⟩ =
      .ok blob) :
    Sound lib items (prefixed prefixNaive blob) := by
  obtain ⟨blob', hmarshal, hunmarshal⟩ :=
    hlib.proto.msg ⟨sentAtMs, (order.foldl takeBatch (s.byTopic, [])).2⟩
  cases hmarshal.symm.trans hblob
  intro digest decoded topic b hdecoded hb
  rw [decodeAggregatedMessage_naive hunmarshal] at hdecoded
  cases hdecoded
  rw [← GoMap.mem_pairs_iff, pairs_unpackContainers] at hb
  obtain ⟨it, hit, rfl, rfl⟩ := h.waiting (mem_of_takeBatch (Multiset.mem_add.mpr (Or.inr hb)))
  exact ⟨it, hit, Carries.naive⟩

/-- A tick empties the packer and takes from `byTopic`. -/
theorem Supplied.tick
    (h : Supplied lib items batch s)
    (t : Tick) :
    Supplied lib items [] (buildAndEmit lib s t).1 := by
  have hclean : ∀ byTopic : GoMap String (List Bytes),
      (∀ {topic b}, b ∈ GoMap.getAll byTopic topic → b ∈ GoMap.getAll s.byTopic topic) →
      Supplied lib items [] { s with packer := s.packer.clean, byTopic := byTopic } := by
    intro byTopic hsub
    constructor
    case data => simp [AttestationPacker.clean]
    case packed => simp [AttestationPacker.clean]
    case waiting =>
      intro topic b hb
      exact h.waiting (hsub hb)
  have hrest : ∀ {topic b},
      b ∈ GoMap.getAll (t.topicOrder.foldl takeBatch (s.byTopic, [])).1 topic →
      b ∈ GoMap.getAll s.byTopic topic := by
    intro topic b hb
    exact mem_of_takeBatch (Multiset.mem_add.mpr (Or.inl (GoMap.mem_pairs_iff.mpr hb)))
  unfold buildAndEmit
  simp only
  split
  · exact hclean s.byTopic id
  · split
    · exact hclean _ hrest
    · exact hclean _ hrest

/-- A payload of a tick is that of a group of the packer, or the naive one. -/
theorem mem_buildAndEmit
    {t : Tick}
    (h : payload ∈ (buildAndEmit lib s t).2) :
    (∃ id, s.packer.encodeGroup lib t.packedAtMs id = .ok payload) ∨
      ∃ blob, payload = prefixed prefixNaive blob ∧
        lib.proto.marshalMsg ⟨t.sentAtMs, (t.topicOrder.foldl takeBatch (s.byTopic, [])).2⟩ =
          .ok blob := by
  cases hcurrent : s.packer.encodeCurrent lib t.dataOrder t.packedAtMs with
  | error err =>
      simp only [buildAndEmit, hcurrent] at h
      split at h
      · cases h
      · split at h
        · rename_i blob hblob
          exact Or.inr ⟨blob, List.mem_singleton.mp h, hblob⟩
        · cases h
  | ok sendData =>
      simp only [buildAndEmit, hcurrent] at h
      split at h
      · exact Or.inl (exists_of_mem_encodeCurrent hcurrent h)
      · split at h
        · rename_i blob hblob
          rcases List.mem_append.mp h with hgroup | hnaive
          · exact Or.inl (exists_of_mem_encodeCurrent hcurrent hgroup)
          · exact Or.inr ⟨blob, List.mem_singleton.mp hnaive, hblob⟩
        · exact Or.inl (exists_of_mem_encodeCurrent hcurrent h)

theorem Supplied.sound_tick
    (hlib : lib.Lawful)
    (h : Supplied lib items batch s)
    {t : Tick}
    (hmem : payload ∈ (buildAndEmit lib s t).2) :
    Sound lib items payload := by
  rcases mem_buildAndEmit hmem with ⟨id, hgroup⟩ | ⟨blob, rfl, hblob⟩
  · exact h.sound_group hlib hgroup
  · exact h.sound_naive hlib hblob

/-- One event of the loop: what it holds afterwards is supplied by the items so far, and
what it emits is sound for them. -/
theorem Supplied.step
    (hlib : lib.Lawful)
    (h : Supplied lib items batch s)
    (e : LoopEvent)
    (hfree : CollisionFree lib (nextBatch batch e)) :
    Supplied lib (items ++ received [e]) (nextBatch batch e) (step lib s e).1 ∧
      ∀ payload ∈ (step lib s e).2, Sound lib (items ++ received [e]) payload := by
  cases e with
  | receive it => exact ⟨h.receive hfree, by simp [Aggregator.step]⟩
  | failedTick =>
      refine ⟨(?_ : Supplied lib (items ++ []) batch (failedTick s)), by simp [Aggregator.step]⟩
      rw [List.append_nil, failedTick]
      split
      · exact h.of_eq rfl rfl
      · exact h
  | heldTick =>
      refine ⟨(?_ : Supplied lib (items ++ []) batch s), by simp [Aggregator.step]⟩
      rw [List.append_nil]
      exact h
  | emitTick t =>
      have hnone : items ++ received [.emitTick t] = items := List.append_nil items
      rw [hnone]
      exact ⟨h.tick t, fun payload => h.sound_tick hlib⟩

end Emitting

section Runs

variable {lib : Libraries} {events : List LoopEvent} {s : Loop} {emitted : List Bytes}

theorem Sound.mono
    {items items' : List AggregateItem} {payload : Bytes}
    (h : Sound lib items payload)
    (hitems : items ⊆ items') :
    Sound lib items' payload := by
  intro digest decoded topic b hdecoded hb
  obtain ⟨it, hit, hcarries⟩ := h digest decoded topic b hdecoded hb
  exact ⟨it, hitems hit, hcarries⟩

theorem supplied_of_run
    (hlib : lib.Lawful)
    (hrun : LoopRun lib events s emitted)
    (hfree : ∀ past, past <+: events → CollisionFree lib (currentBatch past)) :
    Supplied lib (received events) (currentBatch events) s ∧
      ∀ payload ∈ emitted, Sound lib (received events) payload := by
  induction hrun with
  | start => exact ⟨supplied_start, nofun⟩
  | @step events s emitted hrun e hfeasible ih =>
      obtain ⟨hsupplied, hsound⟩ :=
        ih fun past hpast => hfree past (hpast.trans (List.prefix_append events [e]))
      have hnext : CollisionFree lib (nextBatch (currentBatch events) e) := by
        rw [← currentBatch_append]
        exact hfree _ (List.prefix_refl _)
      rw [received_append, currentBatch_append]
      obtain ⟨hsupplied', hsound'⟩ := hsupplied.step hlib e hnext
      refine ⟨hsupplied', ?_⟩
      intro payload hpayload
      rcases List.mem_append.mp hpayload with hold | hnew
      · exact (hsound payload hold).mono (List.subset_append_left _ _)
      · exact hsound' payload hnew

/-- The attestation of an item is the one that a receiver reads. -/
theorem Carries.decodes
    (hlib : lib.Lawful)
    {digest topic : String} {it : AggregateItem} {b : Bytes} {a : SingleAttestation}
    (h : Carries lib digest it topic b)
    (hdecode : decodeGossip lib.snappy it.data SingleAttestation.zero = .ok a) :
    decodeGossip lib.snappy b SingleAttestation.zero = .ok a := by
  cases h with
  | naive => exact hdecode
  | packed hmeta hattestation hpacked =>
      cases hpacked.symm.trans hdecode
      exact decodeGossip_singleAttestation hlib.snappy _ _

/-- Packing and unpacking keep the meaning of every attestation, whatever digest the
receiver uses.  In every run of the loop, what a receiver unpacks from a payload stands for
an item that the loop was given: on the topic of the item with its bytes, or on the topic of
its subnet under the receiver's digest.  Where the item is an attestation, the receiver
reads that attestation. -/
theorem unpacked_stands_for_received
    (hlib : lib.Lawful)
    (hrun : LoopRun lib events s emitted)
    (hfree : ∀ past, past <+: events → CollisionFree lib (currentBatch past))
    {payload b : Bytes} {digest topic : String} {decoded : GoMap String (List Bytes)}
    (hpayload : payload ∈ emitted)
    (hdecoded : decodeAggregatedMessage lib digest payload = .ok decoded)
    (hb : b ∈ GoMap.getAll decoded topic) :
    ∃ it ∈ received events, Carries lib digest it topic b ∧
      ∀ a, decodeGossip lib.snappy it.data SingleAttestation.zero = .ok a →
        decodeGossip lib.snappy b SingleAttestation.zero = .ok a := by
  obtain ⟨-, hsound⟩ := supplied_of_run hlib hrun hfree
  obtain ⟨it, hit, hcarries⟩ := hsound payload hpayload digest decoded topic b hdecoded hb
  exact ⟨it, hit, hcarries, fun a => hcarries.decodes hlib⟩

def packedLoop : Loop :=
  receive sampleLibraries Loop.start packedItem

def packedEvents : List LoopEvent :=
  [.receive packedItem, .emitTick (tickOf packedLoop)]

theorem run_receive_emit
    (it : AggregateItem)
    {t : Tick}
    (h : (LoopEvent.emitTick t).Feasible (receive lib Loop.start it)) :
    LoopRun lib [.receive it, .emitTick t] (buildAndEmit lib (receive lib Loop.start it) t).1
      (buildAndEmit lib (receive lib Loop.start it) t).2 := by
  exact (LoopRun.start.step (.receive it) trivial).step (.emitTick t) h

/-- What a gateway with another digest gets from the first payload. -/
def unpackedElsewhere : Option (GoMap String (List Bytes)) :=
  (buildAndEmit sampleLibraries packedLoop (tickOf packedLoop)).2.head?.bind fun payload =>
    (decodeAggregatedMessage sampleLibraries "b5303f2a" payload).toOption

def subnetElsewhere : String :=
  buildFullTopic "b5303f2a" (attestationDescriptor 5)

theorem unpacked_stands_for_received_elsewhere :
    ∃ decoded b, unpackedElsewhere = some decoded ∧ b ∈ GoMap.getAll decoded subnetElsewhere ∧
      ∃ it ∈ received packedEvents, Carries sampleLibraries "b5303f2a" it subnetElsewhere b := by
  have hrun : LoopRun sampleLibraries packedEvents _ _ :=
    run_receive_emit packedItem (feasible_tickOf packedLoop)
  have hfree : CollisionFree sampleLibraries (received packedEvents) :=
    collisionFree_sample fun it hit => Or.inl (List.mem_singleton.mp hit)
  have hsome : (unpackedElsewhere.map fun decoded =>
      (GoMap.getAll decoded subnetElsewhere).length) = some 1 := by
    decide +kernel
  obtain ⟨decoded, hunpacked, hlength⟩ := Option.map_eq_some_iff.mp hsome
  obtain ⟨b, hb⟩ := List.exists_mem_of_length_pos (by rw [hlength]; exact Nat.zero_lt_one)
  obtain ⟨payload, hhead, htoOption⟩ := Option.bind_eq_some_iff.mp hunpacked
  obtain ⟨it, hit, hcarries, -⟩ := unpacked_stands_for_received
    ⟨literalSnappy_lawful, wireCodec_lawful⟩ hrun (fun _ => hfree.within)
    (List.mem_of_mem_head? hhead) (eq_ok_of_toOption htoOption) hb
  exact ⟨decoded, b, hunpacked, hb, it, hit, hcarries⟩

end Runs

end Aggregator
end OptimumGateway
