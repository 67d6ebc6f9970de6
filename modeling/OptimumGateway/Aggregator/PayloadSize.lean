import OptimumGateway.Aggregator.Conservation

/-!
# The size of the emitted payloads

The aggregator sends one payload for each group of attestations that share their data, and
`CalculateMaxSize` of `pkg/utils/calc.go` says how large a message the mesh takes.  Nothing
relates the two: a group grows until a tick emits it.

In the wire format an attestation takes between 100 and 128 bytes of its payload, and what
does not depend on the number of attestations at most 197.  A payload therefore fits as long
as at most 9828 attestations share their data, and does not fit from 12583 attestations on.
-/

namespace OptimumGateway
namespace Aggregator

open Foundation Foundation.Protobuf Protocol

section Limit

/-- `CalculateMaxSize`. -/
def calculateMaxSize (src : Int64) : Except GoError Int64 :=
  if src ≤ 0 then
    .error (.errorf "src must be positive: %d" [toString src.toInt])
  else
    let maxAllowed := Int64.maxValue
    let overhead := src / 5
    if src > maxAllowed - overhead then
      .error (.errorf "src is too large, final value not fit: %d" [toString src.toInt])
    else
      .ok (src + overhead)

def defaultMaxMessageSize : Int64 :=
  1024 * 1024

/-- The payload is no longer than the mesh allows. -/
def FitsMesh (payload : Bytes) : Prop :=
  ∃ maxSize, calculateMaxSize defaultMaxMessageSize = .ok maxSize ∧
    (payload.length : Int) ≤ maxSize.toInt

theorem fitsMesh_iff
    {payload : Bytes} :
    FitsMesh payload ↔ payload.length ≤ 1258291 := by
  have hmax : calculateMaxSize defaultMaxMessageSize = .ok 1258291 := by
    rfl
  have hvalue : (1258291 : Int64).toInt = 1258291 := by
    decide
  unfold FitsMesh
  rw [hmax]
  constructor
  · rintro ⟨maxSize, hsize, hle⟩
    cases hsize
    rw [hvalue] at hle
    omega
  · intro hle
    exact ⟨_, rfl, by rw [hvalue]; omega⟩

end Limit

section WireSizes

/-- Marshalled messages have the size of the wire format. -/
def WireSized (codec : ProtoCodec) : Prop :=
  ∀ p, ∃ b, codec.marshalPack p = .ok b ∧ b.length = (encodeFields p.fields).length

theorem encodeFields_append
    (fields fields' : List Field) :
    encodeFields (fields ++ fields') = encodeFields fields ++ encodeFields fields' := by
  exact List.flatMap_append

theorem length_putUvarint_eq_one
    {n : Nat}
    (h : n < 128) :
    (putUvarint n).length = 1 := by
  have hle := length_putUvarint_le (w := 0) (n := n) (by omega)
  have hpos := List.length_pos_of_ne_nil (putUvarint_ne_nil n)
  omega

theorem length_varintField_le
    {k n w : Nat}
    (hk : k < 16)
    (hn : n < 2 ^ (7 * w + 7)) :
    (encodeFields (varintField k n)).length ≤ w + 2 := by
  have hvalue := length_putUvarint_le hn
  have htag : (putUvarint (8 * k + 0)).length = 1 :=
    length_putUvarint_eq_one (by omega)
  unfold varintField
  split
  · exact Nat.zero_le _
  · simp only [encodeFields, List.flatMap_cons, List.flatMap_nil, Field.encode, Value.wireType,
      Value.encode, List.append_nil, List.length_append, htag]
    omega

theorem length_encode_bytes
    {k : Nat}
    (hk : k < 15)
    (b : Bytes) :
    (Field.encode ⟨k, .bytes b⟩).length = 1 + (putUvarint b.length).length + b.length := by
  have htag : (putUvarint (8 * k + 2)).length = 1 :=
    length_putUvarint_eq_one (by omega)
  simp only [Field.encode, Value.wireType, Value.encode, List.length_append, htag]
  omega

theorem length_bytesField_le
    {k : Nat} {b : Bytes}
    (hk : k < 15)
    (hb : b.length < 2 ^ 14) :
    (encodeFields (bytesField k b)).length ≤ 3 + b.length := by
  have hlength := length_putUvarint_le (w := 1) hb
  unfold bytesField
  split
  · exact Nat.zero_le _
  · simp only [encodeFields, List.flatMap_cons, List.flatMap_nil, List.append_nil,
      length_encode_bytes hk]
    omega

theorem length_item
    {it : AttestationItem}
    (hsignature : it.signature.length = 96) :
    98 ≤ (encodeFields it.fields).length ∧ (encodeFields it.fields).length ≤ 126 := by
  have hcommittee := length_varintField_le (k := 1) (w := 9) (by omega)
    (n := it.committeeId.toNat) (by have := it.committeeId.toNat_lt; omega)
  have hattester := length_varintField_le (k := 2) (w := 9) (by omega)
    (n := it.attesterIndex.toNat) (by have := it.attesterIndex.toNat_lt; omega)
  have htopic := length_varintField_le (k := 3) (w := 4) (by omega)
    (n := it.topicIndex.toNat) (by have := it.topicIndex.toNat_lt; omega)
  have hne : it.signature ≠ [] := by
    intro hnil
    rw [hnil] at hsignature
    exact nomatch hsignature
  have hbytes : (encodeFields (bytesField 4 it.signature)).length = 98 := by
    unfold bytesField
    rw [if_neg hne]
    simp only [encodeFields, List.flatMap_cons, List.flatMap_nil, List.append_nil,
      length_encode_bytes (show 4 < 15 by omega), hsignature,
      length_putUvarint_eq_one (show 96 < 128 by omega)]
  simp only [AttestationItem.fields, encodeFields_append, List.length_append, hbytes]
  omega

theorem length_items
    {items : List AttestationItem}
    (hitems : ∀ it ∈ items, it.signature.length = 96) :
    100 * items.length ≤ (encodeFields
        (repeatedField 2 (items.map fun it => encodeFields it.fields))).length ∧
      (encodeFields (repeatedField 2 (items.map fun it => encodeFields it.fields))).length ≤
        128 * items.length := by
  induction items with
  | nil => exact ⟨Nat.le_refl _, Nat.le_refl _⟩
  | cons it items ih =>
      obtain ⟨hlow, hhigh⟩ := length_item (hitems it List.mem_cons_self)
      obtain ⟨ihlow, ihhigh⟩ := ih fun it' hit' => hitems it' (List.mem_cons_of_mem _ hit')
      have hsplit : (encodeFields (repeatedField 2 ((it :: items).map fun it =>
          encodeFields it.fields))).length =
          2 + (encodeFields it.fields).length + (encodeFields (repeatedField 2
            (items.map fun it => encodeFields it.fields))).length := by
        simp only [repeatedField, List.map_cons, encodeFields, List.flatMap_cons,
          List.length_append]
        rw [length_encode_bytes (show 2 < 15 by omega)]
        have hone := length_putUvarint_eq_one
          (show (List.flatMap Field.encode it.fields).length < 128 from
            Nat.lt_of_le_of_lt hhigh (by omega))
        rw [hone]
      rw [hsplit, List.length_cons]
      omega

theorem length_pack
    {p : AttestationPack}
    (hdata : p.attestationSszData.length ≤ 181)
    (hitems : ∀ it ∈ p.items, it.signature.length = 96) :
    100 * p.items.length ≤ (encodeFields p.fields).length ∧
      (encodeFields p.fields).length ≤ 195 + 128 * p.items.length := by
  have hbytes := length_bytesField_le (k := 1) (b := p.attestationSszData) (by omega)
    (by omega)
  have hsent := length_varintField_le (k := 3) (w := 9) (by omega)
    (n := p.sendTsMs.toUInt64.toNat) (by have := p.sendTsMs.toUInt64.toNat_lt; omega)
  obtain ⟨hlow, hhigh⟩ := length_items hitems
  simp only [AttestationPack.fields, encodeFields_append, List.length_append]
  omega

end WireSizes

section Groups

variable {lib : Libraries} {it : AggregateItem} {batch : List AggregateItem}
variable {p : AttestationPacker}

/-- The packer takes what it can decode. -/
theorem add_of_decodeGossip
    {a : SingleAttestation}
    (hattestation : isAttestationItem it = true)
    (hdecode : decodeGossip lib.snappy it.data SingleAttestation.zero = .ok a)
    (p : AttestationPacker) :
    ∃ p', p.add lib it.topicMeta it.data = .ok p' := by
  unfold isAttestationItem at hattestation
  cases hmeta : it.topicMeta with
  | none =>
      rw [hmeta] at hattestation
      cases hattestation
  | some topicMeta =>
      rw [hmeta] at hattestation
      simp only [AttestationPacker.add, hattestation, Bool.true_eq_false, if_false, hdecode,
        encodeGossip_attestationData]
      exact ⟨_, rfl⟩

/-- The loop has not fallen back. -/
structure NoFallback (s : Loop) : Prop where
  byTopic : s.byTopic = ∅
  failedAttempts : s.failedAttempts = 0

theorem NoFallback.isEmpty
    {loop : Loop}
    (h : NoFallback loop) :
    loop.byTopic.keys.isEmpty = true := by
  rw [h.byTopic]
  rfl

theorem NoFallback.step
    {loop : Loop} {e : LoopEvent}
    (h : NoFallback loop)
    (haccepts : ∀ it, e = .receive it → isAttestationItem it = true ∧
      ∃ p', loop.packer.add lib it.topicMeta it.data = .ok p') :
    NoFallback (Aggregator.step lib loop e).1 := by
  cases e with
  | receive it =>
      obtain ⟨hattestation, p', hadd⟩ := haccepts it rfl
      simp only [Aggregator.step, receive, hattestation, if_true, hadd]
      exact ⟨h.byTopic, h.failedAttempts⟩
  | failedTick =>
      simp only [Aggregator.step, failedTick, h.failedAttempts, gt_iff_lt, Nat.lt_irrefl, if_false]
      exact h
  | heldTick => exact h
  | emitTick t =>
      simp only [Aggregator.step, buildAndEmit, h.isEmpty, if_true]
      exact ⟨h.byTopic, h.failedAttempts⟩

/-- The group of an item, by the hash of its data. -/
def groupOf (lib : Libraries) (it : AggregateItem) : Option UInt64 :=
  (dataEncoding lib it).map lib.xxHash

theorem groupOf_eq
    {a : SingleAttestation}
    (hitem : isAttestationItem it = true)
    (hdecode : decodeGossip lib.snappy it.data SingleAttestation.zero = .ok a) :
    groupOf lib it = some (lib.xxHash (lib.snappy.encode a.data.encoding)) := by
  rw [groupOf, dataEncoding_eq hitem hdecode, Option.map_some]

/-- How many items of a batch are in a group. -/
def groupCount (lib : Libraries) (batch : List AggregateItem) (id : UInt64) : Nat :=
  batch.countP fun it => groupOf lib it = some id

/-- What the items of a batch leave in the packer, as far as sizes go. -/
structure Tallied
    (lib : Libraries)
    (batch : List AggregateItem)
    (p : AttestationPacker) : Prop where
  data : ∀ {id b}, p.encodedData.lookup id = some b → b.length ≤ 181
  signatures : ∀ {id it}, it ∈ GoMap.getAll p.encodedAttestations id → it.signature.length = 96
  grouped : ∀ {id}, 0 < groupCount lib batch id → id ∈ p.encodedData
  count : ∀ id, (GoMap.getAll p.encodedAttestations id).length = groupCount lib batch id

theorem tallied_new :
    Tallied lib [] AttestationPacker.new := by
  constructor
  case data => simp [AttestationPacker.new]
  case signatures => simp [AttestationPacker.new]
  case grouped => simp [groupCount]
  case count => simp [AttestationPacker.new, groupCount]

theorem length_dataEncoding_le
    (hz : lib.snappy.Lawful)
    (d : AttestationData) :
    (lib.snappy.encode d.encoding).length ≤ 181 := by
  have hlength : d.encoding.length = 128 := d.length_encoding
  have hbound := hz.length_encode (b := d.encoding) (by rw [hlength]; decide)
  omega

theorem groupCount_concat
    {id : UInt64}
    (hgroup : groupOf lib it = some id)
    (j : UInt64) :
    groupCount lib (batch ++ [it]) j = groupCount lib batch j + if id = j then 1 else 0 := by
  simp [groupCount, List.countP_append, hgroup]

theorem Tallied.add
    {p' : AttestationPacker}
    (hz : lib.snappy.Lawful)
    (h : Tallied lib batch p)
    (hadd : p.add lib it.topicMeta it.data = .ok p') :
    Tallied lib (batch ++ [it]) p' := by
  obtain ⟨m, a, hmeta, hattestation, hdecode, rfl⟩ := AttestationPacker.add_eq_ok hadd
  have hitem : isAttestationItem it = true := by
    rw [isAttestationItem, hmeta]
    exact hattestation
  have hcount : ∀ j, groupCount lib (batch ++ [it]) j = groupCount lib batch j +
      if lib.xxHash (lib.snappy.encode a.data.encoding) = j then 1 else 0 :=
    groupCount_concat (groupOf_eq hitem hdecode)
  generalize hid : lib.xxHash (lib.snappy.encode a.data.encoding) = id at hcount
  have hsame : ∀ x, GoMap.getAll (p.store lib (lib.snappy.encode a.data.encoding)
      x).encodedAttestations id = GoMap.getAll p.encodedAttestations id ++ [x] := by
    intro x
    rw [← hid]
    exact GoMap.getAll_appendAt _ _ _
  have hother : ∀ x {j}, j ≠ id → GoMap.getAll (p.store lib (lib.snappy.encode
      a.data.encoding) x).encodedAttestations j = GoMap.getAll p.encodedAttestations j := by
    intro x j hj
    rw [← hid] at hj
    exact GoMap.getAll_appendAt_of_ne _ _ hj
  constructor
  case data =>
    intro j b hb
    rcases AttestationPacker.of_lookup_store hb with hold | ⟨-, rfl⟩
    · exact h.data hold
    · exact length_dataEncoding_le hz a.data
  case signatures =>
    intro j x hx
    by_cases hj : j = id
    · rw [hj, hsame] at hx
      rcases List.mem_append.mp hx with hold | hnew
      · exact h.signatures hold
      · rw [List.mem_singleton.mp hnew]
        exact a.signature.property
    · rw [hother _ hj] at hx
      exact h.signatures hx
  case grouped =>
    intro j hj
    refine (AttestationPacker.keys_store p _ _).mem_iff.mpr ?_
    rw [hid]
    by_cases heq : j = id
    · rw [heq]
      exact List.mem_cons_self
    · rw [hcount, if_neg (Ne.symm heq), Nat.add_zero] at hj
      exact List.mem_cons_of_mem _
        (p.encodedData.keys_nodup.mem_erase_iff.mpr ⟨heq, h.grouped hj⟩)
  case count =>
    intro j
    rw [hcount]
    by_cases hj : j = id
    · rw [hj, hsame, List.length_append, h.count, if_pos rfl]
      rfl
    · rw [hother _ hj, h.count, if_neg (Ne.symm hj), Nat.add_zero]

theorem length_encodeGroup
    (hproto : WireSized lib.proto)
    (h : Tallied lib batch p)
    (nowMs : Int64)
    (id : UInt64) :
    ∃ payload, p.encodeGroup lib nowMs id = .ok payload ∧
      2 + 100 * groupCount lib batch id ≤ payload.length ∧
      payload.length ≤ 197 + 128 * groupCount lib batch id := by
  have hdata : (p.packOf nowMs id).attestationSszData.length ≤ 181 := by
    show ((p.encodedData.lookup id).getD []).length ≤ 181
    cases hlookup : p.encodedData.lookup id with
    | none => exact Nat.zero_le _
    | some b => exact h.data hlookup
  have hitems : ∀ it ∈ (p.packOf nowMs id).items, it.signature.length = 96 :=
    fun it hit => h.signatures hit
  have hcount : (p.packOf nowMs id).items.length = groupCount lib batch id := h.count id
  obtain ⟨body, hmarshal, hlength⟩ := hproto (p.packOf nowMs id)
  obtain ⟨hlow, hhigh⟩ := length_pack hdata hitems
  rw [hcount] at hlow hhigh
  refine ⟨prefixed prefixPacker body, by simp only [AttestationPacker.encodeGroup, hmarshal], ?_⟩
  simp only [prefixed, prefixPacker, List.length_append, List.length_cons, List.length_nil]
  omega

/-- The payloads of a tick are those of the groups. -/
theorem mem_encodeCurrent
    (hproto : WireSized lib.proto)
    (h : Tallied lib batch p)
    (nowMs : Int64)
    (order : List UInt64) :
    ∃ payloads, p.encodeCurrent lib order nowMs = .ok payloads ∧
      ∀ payload, payload ∈ payloads ↔ ∃ id ∈ order, p.encodeGroup lib nowMs id = .ok payload := by
  induction order with
  | nil => exact ⟨[], rfl, by simp⟩
  | cons id order ih =>
      obtain ⟨payload, hpayload, -⟩ := length_encodeGroup hproto h nowMs id
      obtain ⟨payloads, hpayloads, hmem⟩ := ih
      refine ⟨payload :: payloads, ?_, ?_⟩
      · rw [AttestationPacker.encodeCurrent, List.mapM_cons, hpayload]
        change (do let rest ← p.encodeCurrent lib order nowMs; pure (payload :: rest)) = _
        rw [hpayloads]
        rfl
      · intro b
        simp only [List.mem_cons, hmem, exists_eq_or_imp, hpayload, Except.ok.injEq]
        rw [eq_comm (a := b)]

end Groups

section Runs

variable {lib : Libraries} {events : List LoopEvent} {loop : Loop}

/-- The packer takes the item. -/
def Packable (lib : Libraries) (it : AggregateItem) : Prop :=
  isAttestationItem it = true ∧
    ∃ a, decodeGossip lib.snappy it.data SingleAttestation.zero = .ok a

/-- The loop after attestations that the packer takes. -/
structure Packing (lib : Libraries) (events : List LoopEvent) (loop : Loop) : Prop where
  noFallback : NoFallback loop
  tallied : Tallied lib (currentBatch events) loop.packer

theorem packing_of_run
    {emitted : List Bytes}
    (hz : lib.snappy.Lawful)
    (hrun : LoopRun lib events loop emitted)
    (hvalid : ∀ it ∈ received events, Packable lib it) :
    Packing lib events loop := by
  induction hrun with
  | start => exact ⟨⟨rfl, rfl⟩, tallied_new⟩
  | @step events loop emitted hrun e hfeasible ih =>
      have hall : ∀ it ∈ received events ++ received [e], Packable lib it := by
        rwa [← received_append]
      have hbefore := ih fun it hit => hall it (List.mem_append_left _ hit)
      have hadd : ∀ it, e = .receive it → isAttestationItem it = true ∧
          ∃ p', loop.packer.add lib it.topicMeta it.data = .ok p' := by
        rintro it rfl
        obtain ⟨hitem, a, ha⟩ := hall it (List.mem_append_right _ List.mem_cons_self)
        exact ⟨hitem, add_of_decodeGossip hitem ha loop.packer⟩
      refine ⟨hbefore.noFallback.step hadd, ?_⟩
      have hbatch : currentBatch (events ++ [e]) = nextBatch (currentBatch events) e := by
        exact List.foldl_concat ..
      rw [hbatch]
      cases e with
      | receive it =>
          obtain ⟨hitem, p', hp'⟩ := hadd it rfl
          simp only [step, receive, hitem, if_true, hp']
          exact hbefore.tallied.add hz hp'
      | failedTick =>
          have hsame : (failedTick loop).packer = loop.packer := by
            unfold failedTick
            split <;> rfl
          simp only [step, nextBatch, hsame]
          exact hbefore.tallied
      | heldTick => exact hbefore.tallied
      | emitTick t =>
          have hclean : (step lib loop (.emitTick t)).1.packer = AttestationPacker.new := by
            simp only [step, buildAndEmit, hbefore.noFallback.isEmpty, if_true]
            rfl
          rw [hclean]
          exact tallied_new

/-- An emitting tick sends one payload for each group. -/
theorem emitted_by_tick
    {t : Tick}
    (hproto : WireSized lib.proto)
    (h : Packing lib events loop)
    (hfeasible : (LoopEvent.emitTick t).Feasible loop) :
    (∀ payload ∈ (step lib loop (.emitTick t)).2, ∃ id,
      payload.length ≤ 197 + 128 * groupCount lib (currentBatch events) id) ∧
    ∀ id, 0 < groupCount lib (currentBatch events) id →
      ∃ payload ∈ (step lib loop (.emitTick t)).2,
        2 + 100 * groupCount lib (currentBatch events) id ≤ payload.length := by
  obtain ⟨payloads, hpayloads, hmem⟩ :=
    mem_encodeCurrent hproto h.tallied t.packedAtMs t.dataOrder
  have hsent : (step lib loop (.emitTick t)).2 = payloads := by
    simp only [step, buildAndEmit, hpayloads, h.noFallback.isEmpty, if_true]
  rw [hsent]
  constructor
  · intro payload hpayload
    obtain ⟨id, -, hgroup⟩ := (hmem payload).mp hpayload
    obtain ⟨payload', hpayload', -, hhigh⟩ :=
      length_encodeGroup hproto h.tallied t.packedAtMs id
    rw [hgroup] at hpayload'
    cases hpayload'
    exact ⟨id, hhigh⟩
  · intro id hpos
    obtain ⟨payload, hpayload, hlow, -⟩ :=
      length_encodeGroup hproto h.tallied t.packedAtMs id
    exact ⟨payload, (hmem payload).mpr ⟨id, hfeasible.1.mem_iff.mpr (h.tallied.grouped hpos),
      hpayload⟩, hlow⟩

theorem tick_of_concat
    {before after : List LoopEvent} {e : LoopEvent} {t : Tick}
    (h : events ++ [e] = before ++ .emitTick t :: after) :
    (before = events ∧ e = .emitTick t) ∨ ∃ rest, events = before ++ .emitTick t :: rest := by
  induction after using List.reverseRecOn with
  | nil =>
      obtain ⟨rfl, he⟩ := List.append_inj' h rfl
      exact Or.inl ⟨rfl, List.singleton_inj.mp he⟩
  | append_singleton rest x _ =>
      rw [← List.cons_append, ← List.append_assoc] at h
      exact Or.inr ⟨rest, (List.append_inj' h rfl).1⟩

/-- The sizes of all payloads of a run, by the groups at the ticks that sent them. -/
theorem emitted_of_run
    {emitted : List Bytes}
    (hz : lib.snappy.Lawful)
    (hproto : WireSized lib.proto)
    (hrun : LoopRun lib events loop emitted)
    (hvalid : ∀ it ∈ received events, Packable lib it) :
    (∀ payload ∈ emitted, ∃ before t after id, events = before ++ .emitTick t :: after ∧
      payload.length ≤ 197 + 128 * groupCount lib (currentBatch before) id) ∧
    ∀ before t after id, events = before ++ .emitTick t :: after →
      0 < groupCount lib (currentBatch before) id → ∃ payload ∈ emitted,
        2 + 100 * groupCount lib (currentBatch before) id ≤ payload.length := by
  induction hrun with
  | start =>
      refine ⟨fun _ h => absurd h List.not_mem_nil, ?_⟩
      intro before t after id h
      exact absurd h (by simp)
  | @step events loop emitted hrun e hfeasible ih =>
      have hvalid' : ∀ it ∈ received events, Packable lib it := by
        intro it hit
        exact hvalid it (by rw [received_append]; exact List.mem_append_left _ hit)
      have hpacking := packing_of_run hz hrun hvalid'
      obtain ⟨ihsizes, ihgroups⟩ := ih hvalid'
      constructor
      · intro payload hpayload
        rcases List.mem_append.mp hpayload with hold | hnew
        · obtain ⟨before, t, after, id, rfl, hle⟩ := ihsizes payload hold
          exact ⟨before, t, after ++ [e], id, by simp, hle⟩
        · cases e with
          | emitTick t =>
              obtain ⟨id, hle⟩ := (emitted_by_tick hproto hpacking hfeasible).1 payload hnew
              exact ⟨events, t, [], id, rfl, hle⟩
          | _ => exact absurd hnew List.not_mem_nil
      · intro before t after id h hpos
        rcases tick_of_concat h with ⟨rfl, rfl⟩ | ⟨rest, hrest⟩
        · obtain ⟨payload, hmem, hle⟩ :=
            (emitted_by_tick hproto hpacking hfeasible).2 id hpos
          exact ⟨payload, List.mem_append_right _ hmem, hle⟩
        · obtain ⟨payload, hmem, hle⟩ := ihgroups before t rest id hrest hpos
          exact ⟨payload, List.mem_append_left _ hmem, hle⟩

/-- Payloads fit the mesh in every run whose ticks find at most 9828 attestations with one
data, and a tick that finds 12583 sends one that does not. -/
theorem payloads_fit_mesh
    {events : List LoopEvent} {loop : Loop} {emitted : List Bytes}
    (hz : lib.snappy.Lawful)
    (hproto : WireSized lib.proto)
    (hrun : LoopRun lib events loop emitted)
    (hvalid : ∀ it ∈ received events, Packable lib it) :
    ((∀ before t after, events = before ++ .emitTick t :: after →
        ∀ id, groupCount lib (currentBatch before) id ≤ 9828) →
      ∀ payload ∈ emitted, FitsMesh payload) ∧
    ((∃ before t after id, events = before ++ .emitTick t :: after ∧
        12583 ≤ groupCount lib (currentBatch before) id) →
      ∃ payload ∈ emitted, ¬ FitsMesh payload) := by
  obtain ⟨hsizes, hgroups⟩ := emitted_of_run hz hproto hrun hvalid
  constructor
  · intro hfew payload hpayload
    obtain ⟨before, t, after, id, hevents, hle⟩ := hsizes payload hpayload
    have hcount := hfew before t after hevents id
    exact fitsMesh_iff.mpr (by omega)
  · rintro ⟨before, t, after, id, hevents, hmany⟩
    obtain ⟨payload, hmem, hle⟩ := hgroups before t after id hevents (by omega)
    refine ⟨payload, hmem, ?_⟩
    rw [fitsMesh_iff]
    omega

end Runs

section Sample

theorem wireSized_wireCodec :
    WireSized wireCodec := by
  intro p
  exact ⟨_, rfl, rfl⟩

/-- The vote of one attester. -/
def voteOf (attester : Nat) : SingleAttestation :=
  ⟨0, UInt64.ofNat attester, AttestationData.zero, zeroBytes signatureSize⟩

def attesterItem (attester : Nat) : AggregateItem :=
  ⟨sampleTopic, some (parseTopicMeta sampleTopic),
    sampleLibraries.snappy.encode (voteOf attester).encoding⟩

theorem decode_attesterItem
    (attester : Nat) :
    decodeGossip sampleLibraries.snappy (attesterItem attester).data SingleAttestation.zero =
      .ok (voteOf attester) := by
  exact decodeGossip_singleAttestation literalSnappy_lawful _ _

theorem isAttestationItem_attesterItem
    (attester : Nat) :
    isAttestationItem (attesterItem attester) = true := by
  have htopic : (parseTopicMeta sampleTopic).isAttestation = true := by
    decide +kernel
  exact htopic

/-- Attestations of `n` attesters, and a tick. -/
def attestersLoop (n : Nat) : Loop :=
  ((List.range n).map attesterItem).foldl (receive sampleLibraries) Loop.start

def attestersEvents (n : Nat) : List LoopEvent :=
  ((List.range n).map attesterItem).map .receive ++ [.emitTick (tickOf (attestersLoop n))]

theorem run_receives
    (lib : Libraries)
    (items : List AggregateItem) :
    LoopRun lib (items.map .receive) (items.foldl (receive lib) Loop.start) [] := by
  induction items using List.reverseRecOn with
  | nil => exact LoopRun.start
  | append_singleton items it ih =>
      rw [List.map_append, List.foldl_concat]
      exact ih.step (.receive it) trivial

theorem received_receives
    (items : List AggregateItem)
    (t : Tick) :
    received (items.map .receive ++ [.emitTick t]) = items := by
  induction items with
  | nil => rfl
  | cons it items ih => exact congrArg (it :: ·) ih

theorem currentBatch_receives
    (items : List AggregateItem) :
    currentBatch (items.map .receive) = items := by
  induction items using List.reverseRecOn with
  | nil => rfl
  | append_singleton items it ih =>
      rw [List.map_append]
      show List.foldl nextBatch [] _ = _
      rw [List.map_singleton, List.foldl_concat]
      exact congrArg (· ++ [it]) ih

theorem run_attestersEvents
    (n : Nat) :
    LoopRun sampleLibraries (attestersEvents n)
      (step sampleLibraries (attestersLoop n) (.emitTick (tickOf (attestersLoop n)))).1
      (step sampleLibraries (attestersLoop n) (.emitTick (tickOf (attestersLoop n)))).2 := by
  exact (run_receives sampleLibraries _).step _ (feasible_tickOf _)

theorem packable_attestersEvents
    {n : Nat} {it : AggregateItem}
    (h : it ∈ received (attestersEvents n)) :
    Packable sampleLibraries it := by
  rw [attestersEvents, received_receives] at h
  obtain ⟨attester, -, rfl⟩ := List.mem_map.mp h
  exact ⟨isAttestationItem_attesterItem attester, _, decode_attesterItem attester⟩

/-- All of them vote for the same data. -/
theorem groupCount_attesters
    (n : Nat) :
    groupCount sampleLibraries ((List.range n).map attesterItem)
      (sampleLibraries.xxHash (sampleLibraries.snappy.encode AttestationData.zero.encoding)) =
        n := by
  have hall : ∀ it ∈ (List.range n).map attesterItem, groupOf sampleLibraries it =
      some (sampleLibraries.xxHash
        (sampleLibraries.snappy.encode AttestationData.zero.encoding)) := by
    intro it hit
    obtain ⟨attester, -, rfl⟩ := List.mem_map.mp hit
    have hgroup := groupOf_eq (isAttestationItem_attesterItem attester)
      (decode_attesterItem attester)
    rwa [voteOf] at hgroup
  rw [groupCount, List.countP_eq_length.mpr (fun it hit => decide_eq_true (hall it hit)),
    List.length_map, List.length_range]

/-- 12583 attesters with the same vote: the payload does not fit. -/
theorem oversized_payload :
    ∃ (events : List LoopEvent) (loop : Loop) (emitted : List Bytes),
      LoopRun sampleLibraries events loop emitted ∧
      (∀ it ∈ received events, Packable sampleLibraries it) ∧
      ∃ payload ∈ emitted, ¬ FitsMesh payload := by
  have hrun := run_attestersEvents 12583
  refine ⟨_, _, _, hrun, fun _ => packable_attestersEvents, ?_⟩
  have hcount := groupCount_attesters 12583
  generalize sampleLibraries.xxHash
    (sampleLibraries.snappy.encode AttestationData.zero.encoding) = id at hcount
  obtain ⟨payload, hmem, hle⟩ := (emitted_of_run literalSnappy_lawful wireSized_wireCodec hrun
    fun _ => packable_attestersEvents).2 _ _ [] id rfl
    (by rw [currentBatch_receives, hcount]; omega)
  rw [currentBatch_receives, hcount] at hle
  refine ⟨payload, hmem, ?_⟩
  rw [fitsMesh_iff]
  omega

theorem payloads_fit_mesh_two :
    ∃ (events : List LoopEvent) (loop : Loop) (emitted : List Bytes),
      LoopRun sampleLibraries events loop emitted ∧
      (∀ it ∈ received events, Packable sampleLibraries it) ∧
      (received events).length = 2 ∧ ∀ payload ∈ emitted, FitsMesh payload := by
  have hrun := run_attestersEvents 2
  refine ⟨_, _, _, hrun, fun _ => packable_attestersEvents, ?_, ?_⟩
  · rw [attestersEvents, received_receives]
    rfl
  · refine (payloads_fit_mesh literalSnappy_lawful wireSized_wireCodec hrun
      fun _ => packable_attestersEvents).1 ?_
    intro before t after hevents id
    rcases tick_of_concat hevents with ⟨rfl, -⟩ | ⟨rest, hrest⟩
    · rw [currentBatch_receives]
      exact List.countP_le_length.trans (by simp)
    · have hmem : LoopEvent.emitTick t ∈ ((List.range 2).map attesterItem).map .receive := by
        rw [hrest]
        exact List.mem_append_right _ List.mem_cons_self
      obtain ⟨it, -, heq⟩ := List.mem_map.mp hmem
      exact nomatch heq

end Sample

end Aggregator
end OptimumGateway
