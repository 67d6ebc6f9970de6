import OptimumGateway.Aggregator.Packer
import OptimumGateway.Foundation.XXHash

/-!
# The aggregator loop

This module models the loop of `pkg/service/aggregator/aggregator.go` and the decoding of
what it emits.  Attestations go into the packer; what the packer does not take waits in
`byTopic`.  An emitting tick sends both and clears them.

A run is a sequence of events from the empty loop.  The order in which a tick visits the
two maps is part of the event and may be any permutation of the keys.  Whether a tick
emits is decided by the slot gate, which has a module of its own: here a run may have held and
emitting ticks in any order.

The accounts of a run are multisets of topics with uncompressed payloads: what the
emitted payloads decode to, what is still held, and what was received.  `step_spec` says
what one event does to them and `run_spec` that they balance after every run.
-/

namespace OptimumGateway
namespace Aggregator

open Foundation Protocol

structure AggregateItem where
  topic : String
  topicMeta : Option TopicMeta
  data : Bytes

/-- The variables of the loop. -/
structure Loop where
  packer : AttestationPacker
  byTopic : GoMap String (List Bytes)
  failedAttempts : Nat
  errPack : Option GoError

def Loop.start : Loop :=
  ⟨AttestationPacker.new, ∅, 0, none⟩

/-- What an emitting tick reads from outside: the clock, and the orders in which the maps
are visited. -/
structure Tick where
  packedAtMs : Int64
  sentAtMs : Int64
  dataOrder : List UInt64
  topicOrder : List String

inductive LoopEvent where
  | receive (it : AggregateItem)
  | failedTick
  | heldTick
  | emitTick (t : Tick)

section Decoding

variable (lib : Libraries)

/-- The map of the topics in a naive message. -/
def unpackContainers (containers : List Container) : GoMap String (List Bytes) :=
  containers.foldl (fun result c => GoMap.appendAt result c.topic c.data) ∅

def decodeAggregatedMessage
    (currentForkDigest : String)
    (payload : Bytes) : Except GoError (GoMap String (List Bytes)) :=
  if prefixPacker.isPrefixOf payload then
    AttestationPacker.decode lib currentForkDigest (payload.drop prefixPacker.length)
  else if prefixNaive.isPrefixOf payload then
    match lib.proto.unmarshalMsg (payload.drop prefixNaive.length) with
    | .error err => .error (.wrapf "failed to unmarshal naive message: %w" [] err)
    | .ok m => .ok (unpackContainers m.container)
  else
    .error (.new "invalid aggregated message, did not find expected prefixes")

end Decoding

section Steps

variable (lib : Libraries)

/-- Keep an item for the naive message. -/
def fallback (s : Loop) (it : AggregateItem) : Loop :=
  { s with byTopic := GoMap.appendAt s.byTopic it.topic [it.data] }

def isAttestationItem (it : AggregateItem) : Bool :=
  match it.topicMeta with
  | none => false
  | some m => m.isAttestation

def receive (s : Loop) (it : AggregateItem) : Loop :=
  if isAttestationItem it then
    match s.packer.add lib it.topicMeta it.data with
    | .ok p => { s with packer := p, errPack := none }
    | .error err =>
        fallback { s with failedAttempts := s.failedAttempts + 1, errPack := some err } it
  else
    fallback s it

/-- Forget the failures that were just logged. -/
def failedTick (s : Loop) : Loop :=
  if s.failedAttempts > 0 then { s with failedAttempts := 0 } else s

/-- The body of the loop over `byTopic`: a batch that is not empty becomes a container
and is deleted from the map. -/
def takeBatch
    (acc : GoMap String (List Bytes) × List Container)
    (topic : String) : GoMap String (List Bytes) × List Container :=
  let batch := GoMap.getAll acc.1 topic
  if batch.isEmpty then acc
  else (acc.1.erase topic, acc.2 ++ [⟨topic, batch⟩])

def buildAndEmit (s : Loop) (t : Tick) : Loop × List Bytes :=
  let sendData :=
    match s.packer.encodeCurrent lib t.dataOrder t.packedAtMs with
    | .ok sendData => sendData
    | .error _ => []
  let s := { s with packer := s.packer.clean }
  if s.byTopic.keys.isEmpty then
    (s, sendData)
  else
    let taken := t.topicOrder.foldl takeBatch (s.byTopic, [])
    let s := { s with byTopic := taken.1 }
    match lib.proto.marshalMsg ⟨t.sentAtMs, taken.2⟩ with
    | .ok blob => (s, sendData ++ [prefixed prefixNaive blob])
    | .error _ => (s, sendData)

/-- The loop after an event, and what the event emits. -/
def step (s : Loop) : LoopEvent → Loop × List Bytes
  | .receive it => (receive lib s it, [])
  | .failedTick => (failedTick s, [])
  | .heldTick => (s, [])
  | .emitTick t => buildAndEmit lib s t

/-- A tick visits every key of the two maps once. -/
def LoopEvent.Feasible (s : Loop) : LoopEvent → Prop
  | .emitTick t =>
      t.dataOrder.Perm s.packer.encodedData.keys ∧ t.topicOrder.Perm s.byTopic.keys
  | _ => True

/-- The events from the start, the loop after them, and everything that was emitted. -/
inductive LoopRun : List LoopEvent → Loop → List Bytes → Prop where
  | start : LoopRun [] Loop.start []
  | step {events : List LoopEvent} {s : Loop} {emitted : List Bytes}
      (h : LoopRun events s emitted)
      (e : LoopEvent)
      (hfeasible : e.Feasible s) :
      LoopRun (events ++ [e]) (step lib s e).1 (emitted ++ (step lib s e).2)

end Steps

section Accounts

variable (lib : Libraries) (digest : String)

/-- What a receiver with the given digest gets from a payload. -/
def decodedPairs (payload : Bytes) : Multiset (String × Bytes) :=
  match decodeAggregatedMessage lib digest payload with
  | .ok result => uncompressedPairs lib.snappy (GoMap.pairs result)
  | .error _ => 0

def emittedPairs (emitted : List Bytes) : Multiset (String × Bytes) :=
  (emitted.map (decodedPairs lib digest)).sum

/-- What is still in the packer and in `byTopic`. -/
def heldPairs (s : Loop) : Multiset (String × Bytes) :=
  s.packer.pairs lib digest + uncompressedPairs lib.snappy (GoMap.pairs s.byTopic)

def AggregateItem.pair (it : AggregateItem) : String × Bytes :=
  (it.topic, uncompressed lib.snappy it.data)

/-- The items of a run, in order. -/
def received : List LoopEvent → List AggregateItem
  | [] => []
  | .receive it :: events => it :: received events
  | _ :: events => received events

def receivedPairs (events : List LoopEvent) : Multiset (String × Bytes) :=
  ((received events).map (AggregateItem.pair lib) : List (String × Bytes))

/-- The topic of an attestation subnet with the metadata that are read from it. -/
def AggregateItem.Canonical (it : AggregateItem) : Prop :=
  (∃ n, it.topic = buildFullTopic digest (attestationDescriptor n)) ∧
    it.topicMeta = some (parseTopicMeta it.topic)

/-- The batch after one more event. -/
def nextBatch (batch : List AggregateItem) : LoopEvent → List AggregateItem
  | .receive it => batch ++ [it]
  | .emitTick _ => []
  | _ => batch

/-- The items since the last emitting tick. -/
def currentBatch (events : List LoopEvent) : List AggregateItem :=
  events.foldl nextBatch []

/-- The encoded data under which an item is packed. -/
def dataEncoding (it : AggregateItem) : Option Bytes :=
  if isAttestationItem it then
    match decodeGossip lib.snappy it.data SingleAttestation.zero with
    | .error _ => none
    | .ok s => (encodeGossip lib.snappy s.data).toOption
  else
    none

/-- Different data encodings of a batch have different hashes. -/
def CollisionFree (batch : List AggregateItem) : Prop :=
  ∀ it ∈ batch, ∀ it' ∈ batch, ∀ b b', dataEncoding lib it = some b →
    dataEncoding lib it' = some b' → lib.xxHash b = lib.xxHash b' → b = b'

/-- What a batch leaves in the loop: groups of its own data, under their hashes. -/
structure Holds (batch : List AggregateItem) (s : Loop) : Prop where
  wf : s.packer.Wf lib
  stored : ∀ {id b}, s.packer.encodedData.lookup id = some b →
    id = lib.xxHash b ∧ ∃ it ∈ batch, dataEncoding lib it = some b

end Accounts

section Receiving

variable {lib : Libraries} {digest : String} {it : AggregateItem}

theorem dataEncoding_eq
    {s : SingleAttestation}
    (hitem : isAttestationItem it = true)
    (hdecode : decodeGossip lib.snappy it.data SingleAttestation.zero = .ok s) :
    dataEncoding lib it = some (lib.snappy.encode s.data.encoding) := by
  simp only [dataEncoding, if_pos hitem, hdecode, encodeGossip_attestationData]
  rfl

/-- What waits in `byTopic` is there as it came. -/
theorem heldPairs_fallback
    (s : Loop)
    (it : AggregateItem) :
    heldPairs lib digest (fallback s it) = heldPairs lib digest s + {it.pair lib} := by
  have hpair : uncompressedPairs lib.snappy (GoMap.pairsAt it.topic [it.data]) =
      {it.pair lib} := by
    simp [uncompressedPairs, GoMap.pairsAt, AggregateItem.pair]
  simp only [heldPairs, fallback, GoMap.pairs_appendAt, uncompressedPairs_add, hpair,
    add_assoc]

/-- An attestation that was packed stands for the item it came from. -/
theorem itemPair_of_canonical
    (hz : lib.snappy.Lawful)
    {m : TopicMeta} {s : SingleAttestation}
    (hcanonical : it.Canonical digest)
    (hmeta : it.topicMeta = some m)
    (hattestation : m.isAttestation = true)
    (hdecode : decodeGossip lib.snappy it.data SingleAttestation.zero = .ok s) :
    m.attestationSubnet.toNat < attestationSubnetCount ∧
      itemPair digest s.data ⟨s.committeeIndex, s.attesterIndex, m.attestationSubnet,
        s.signature.val⟩ = it.pair lib := by
  obtain ⟨⟨n, htopic⟩, hparsed⟩ := hcanonical
  have hm : m = parseTopicMeta (buildFullTopic digest (attestationDescriptor n)) := by
    rw [hmeta, htopic] at hparsed
    exact Option.some.inj hparsed
  subst hm
  obtain ⟨hsubnet, hcount⟩ := attestationSubnet_parseTopicMeta hattestation
  refine ⟨by omega, ?_⟩
  have hraw : uncompressed lib.snappy it.data = s.encoding := by
    simp only [uncompressed, decode_of_decodeGossip hz hdecode]
  simp only [itemPair, hsubnet, AttestationPacker.attestationOf, copyArray_val,
    AggregateItem.pair, hraw, htopic]

theorem Holds.fallback
    {batch : List AggregateItem} {s : Loop}
    (h : Holds lib batch s)
    (it : AggregateItem) :
    Holds lib (batch ++ [it]) (fallback s it) := by
  constructor
  case wf => exact h.wf
  case stored =>
    intro id b hb
    obtain ⟨hid, it', hit', hdata⟩ := h.stored hb
    exact ⟨hid, it', List.mem_append_left _ hit', hdata⟩

/-- An item is added to what is held, in the packer or in `byTopic`. -/
theorem receive_spec
    (hz : lib.snappy.Lawful)
    {batch : List AggregateItem} {s : Loop}
    (h : Holds lib batch s)
    (hcanonical : it.Canonical digest)
    (hfree : CollisionFree lib (batch ++ [it])) :
    Holds lib (batch ++ [it]) (receive lib s it) ∧
      heldPairs lib digest (receive lib s it) =
        heldPairs lib digest s + {it.pair lib} := by
  unfold receive
  by_cases hitem : isAttestationItem it = true
  · rw [if_pos hitem]
    cases hadd : s.packer.add lib it.topicMeta it.data with
    | error err =>
        have hfailed : Holds lib batch
            { s with failedAttempts := s.failedAttempts + 1, errPack := some err } :=
          ⟨h.wf, h.stored⟩
        exact ⟨hfailed.fallback it, heldPairs_fallback _ it⟩
    | ok p =>
        obtain ⟨m, a, hmeta, hattestation, hdecode, rfl⟩ := AttestationPacker.add_eq_ok hadd
        obtain ⟨hsubnet, hpair⟩ :=
          itemPair_of_canonical hz hcanonical hmeta hattestation hdecode
        have hdata := dataEncoding_eq hitem hdecode
        -- a stored encoding with the same hash comes from the batch, so it is the same
        have hcollision : ∀ b', s.packer.encodedData.lookup
            (lib.xxHash (lib.snappy.encode a.data.encoding)) = some b' →
            b' = lib.snappy.encode a.data.encoding := by
          intro b' hb'
          obtain ⟨hid, it', hit', hdata'⟩ := h.stored hb'
          exact hfree it' (List.mem_append_left _ hit') it (by simp) b' _ hdata' hdata
            hid.symm
        refine ⟨⟨?_, ?_⟩, ?_⟩
        · exact h.wf.store ⟨hsubnet, a.signature.property⟩
        · intro id b hb
          rcases AttestationPacker.of_lookup_store hb with hold | hnew
          · obtain ⟨hid, it', hit', hdata'⟩ := h.stored hold
            exact ⟨hid, it', List.mem_append_left _ hit', hdata'⟩
          · obtain ⟨hid, rfl⟩ := hnew
            exact ⟨hid, it, by simp, hdata⟩
        · simp only [heldPairs,
            AttestationPacker.pairs_store digest hz h.wf hcollision, hpair, add_right_comm]
  · rw [if_neg hitem]
    exact ⟨h.fallback it, heldPairs_fallback s it⟩

end Receiving

section Emitting

variable {lib : Libraries} {digest : String}

theorem decodeAggregatedMessage_packer
    (body : Bytes) :
    decodeAggregatedMessage lib digest (prefixed prefixPacker body) =
      AttestationPacker.decode lib digest body := by
  rfl

theorem decodeAggregatedMessage_naive
    {m : Msg} {blob : Bytes}
    (hblob : lib.proto.unmarshalMsg blob = .ok m) :
    decodeAggregatedMessage lib digest (prefixed prefixNaive blob) =
      .ok (unpackContainers m.container) := by
  have hpacker : prefixPacker.isPrefixOf (prefixed prefixNaive blob) = false := by
    rfl
  have hnaive : prefixNaive.isPrefixOf (prefixed prefixNaive blob) = true := by
    rfl
  have hdrop : (prefixed prefixNaive blob).drop prefixNaive.length = blob := by
    rfl
  simp only [decodeAggregatedMessage, hpacker, hnaive, hdrop, hblob]
  rfl

/-- The payloads of the packer stand for its groups. -/
theorem emittedPairs_of_sends
    {p : AttestationPacker} {order : List UInt64} {payloads : List Bytes}
    (h : List.Forall₂ (p.Sends lib digest) order payloads) :
    emittedPairs lib digest payloads = (order.map (p.pairsAt lib digest)).sum := by
  induction h with
  | nil => rfl
  | @cons id payload order payloads hsends _ ih =>
      obtain ⟨body, result, rfl, hdecode, hpairs⟩ := hsends
      have hhead : decodedPairs lib digest (prefixed prefixPacker body) =
          p.pairsAt lib digest id := by
        simp only [decodedPairs, decodeAggregatedMessage_packer, hdecode, hpairs]
      simp only [emittedPairs, List.map_cons, List.sum_cons, hhead] at ih ⊢
      rw [ih]

/-- The pairs in a list of containers. -/
def containerPairs (containers : List Container) : Multiset (String × Bytes) :=
  (containers.map fun c => GoMap.pairsAt c.topic c.data).sum

theorem pairs_foldl_appendAt
    (containers : List Container)
    (acc : GoMap String (List Bytes)) :
    GoMap.pairs (containers.foldl (fun r c => GoMap.appendAt r c.topic c.data) acc) =
      GoMap.pairs acc + containerPairs containers := by
  induction containers generalizing acc with
  | nil => simp [containerPairs]
  | cons c containers ih =>
      rw [List.foldl_cons, ih, GoMap.pairs_appendAt, add_assoc]
      rfl

theorem pairs_unpackContainers
    (containers : List Container) :
    GoMap.pairs (unpackContainers containers) = containerPairs containers := by
  rw [unpackContainers, pairs_foldl_appendAt, GoMap.pairs_empty, zero_add]

/-- Taking a batch moves its pairs from the map to the containers. -/
theorem takeBatch_pairs
    (acc : GoMap String (List Bytes) × List Container)
    (topic : String) :
    GoMap.pairs (takeBatch acc topic).1 + containerPairs (takeBatch acc topic).2 =
      GoMap.pairs acc.1 + containerPairs acc.2 := by
  unfold takeBatch
  simp only
  split
  · rfl
  · have hlast : containerPairs (acc.2 ++ [⟨topic, GoMap.getAll acc.1 topic⟩]) =
        containerPairs acc.2 + GoMap.pairsAt topic (GoMap.getAll acc.1 topic) := by
      simp [containerPairs]
    rw [hlast, ← GoMap.pairs_erase acc.1 topic, add_right_comm, add_assoc]

theorem foldl_takeBatch_pairs
    (order : List String)
    (acc : GoMap String (List Bytes) × List Container) :
    GoMap.pairs (order.foldl takeBatch acc).1 +
        containerPairs (order.foldl takeBatch acc).2 =
      GoMap.pairs acc.1 + containerPairs acc.2 := by
  induction order generalizing acc with
  | nil => rfl
  | cons topic order ih => rw [List.foldl_cons, ih, takeBatch_pairs]

theorem emittedPairs_append
    (emitted emitted' : List Bytes) :
    emittedPairs lib digest (emitted ++ emitted') =
      emittedPairs lib digest emitted + emittedPairs lib digest emitted' := by
  simp [emittedPairs]

theorem holds_clean
    (batch : List AggregateItem)
    {s : Loop}
    (h : s.packer = AttestationPacker.new) :
    Holds lib batch s := by
  constructor
  case wf =>
    rw [h]
    exact AttestationPacker.wf_new
  case stored =>
    intro id b hb
    rw [h] at hb
    cases hb

/-- An emitting tick sends what was held. -/
theorem buildAndEmit_spec
    (hlib : lib.Lawful)
    {batch : List AggregateItem} {s : Loop} {t : Tick}
    (h : Holds lib batch s)
    (horder : t.dataOrder.Perm s.packer.encodedData.keys) :
    Holds lib [] (buildAndEmit lib s t).1 ∧
      emittedPairs lib digest (buildAndEmit lib s t).2 +
        heldPairs lib digest (buildAndEmit lib s t).1 = heldPairs lib digest s := by
  obtain ⟨sendData, hencode, hsends⟩ := AttestationPacker.encodeCurrent_sends digest hlib
    h.wf (fun id hid => horder.mem_iff.mp hid) t.packedAtMs
  have hpacked : emittedPairs lib digest sendData = s.packer.pairs lib digest := by
    rw [emittedPairs_of_sends hsends, (horder.map _).sum_eq]
    rfl
  have hclean : (s.packer.clean).pairs lib digest = 0 := by
    rfl
  obtain ⟨blob, hmarshal, hunmarshal⟩ := hlib.proto.msg
    ⟨t.sentAtMs, (t.topicOrder.foldl takeBatch (s.byTopic, [])).2⟩
  have htaken := foldl_takeBatch_pairs t.topicOrder (s.byTopic, [])
  simp only [buildAndEmit, hencode]
  by_cases hempty : s.byTopic.keys.isEmpty = true
  · rw [if_pos hempty]
    refine ⟨holds_clean [] rfl, ?_⟩
    simp only [heldPairs, hpacked, hclean, zero_add]
  · rw [if_neg hempty]
    simp only [hmarshal]
    refine ⟨holds_clean [] rfl, ?_⟩
    have hnaive : emittedPairs lib digest [prefixed prefixNaive blob] =
        uncompressedPairs lib.snappy (containerPairs
          (t.topicOrder.foldl takeBatch (s.byTopic, [])).2) := by
      simp only [emittedPairs, List.map_cons, List.map_nil, List.sum_cons, List.sum_nil,
        add_zero, decodedPairs, decodeAggregatedMessage_naive hunmarshal,
        pairs_unpackContainers]
    have hmoved : containerPairs (t.topicOrder.foldl takeBatch (s.byTopic, [])).2 +
        GoMap.pairs (t.topicOrder.foldl takeBatch (s.byTopic, [])).1 =
        GoMap.pairs s.byTopic := by
      rw [add_comm, htaken]
      exact add_zero _
    rw [emittedPairs_append, hpacked, hnaive, heldPairs, heldPairs, hclean, zero_add,
      add_assoc, ← uncompressedPairs_add, hmoved]

end Emitting

section Runs

variable {lib : Libraries} {digest : String} {events : List LoopEvent}

theorem received_append
    (events events' : List LoopEvent) :
    received (events ++ events') = received events ++ received events' := by
  induction events with
  | nil => rfl
  | cons e events ih => cases e <;> simp [received, ih]

theorem currentBatch_append
    (events : List LoopEvent)
    (e : LoopEvent) :
    currentBatch (events ++ [e]) = nextBatch (currentBatch events) e := by
  simp [currentBatch]

/-- A batch has only items that were received. -/
theorem mem_received_of_mem_currentBatch
    {it : AggregateItem}
    (h : it ∈ currentBatch events) :
    it ∈ received events := by
  induction events using List.reverseRecOn with
  | nil => cases h
  | append_singleton events e ih =>
      rw [currentBatch_append] at h
      rw [received_append]
      cases e with
      | receive it' =>
          rcases List.mem_append.mp h with hold | hnew
          · exact List.mem_append_left _ (ih hold)
          · exact List.mem_append_right _ hnew
      | emitTick t => cases h
      | failedTick | heldTick => exact List.mem_append_left _ (ih h)

theorem CollisionFree.within
    {past : List LoopEvent}
    (h : CollisionFree lib (received events))
    (hpast : past <+: events) :
    CollisionFree lib (currentBatch past) := by
  obtain ⟨rest, rfl⟩ := hpast
  have hmem : currentBatch past ⊆ received (past ++ rest) := by
    intro it hit
    rw [received_append]
    exact List.mem_append_left _ (mem_received_of_mem_currentBatch hit)
  exact fun it hit it' hit' => h it (hmem hit) it' (hmem hit')

/-- What one event does to the accounts. -/
theorem step_spec
    (hlib : lib.Lawful)
    {batch : List AggregateItem} {s : Loop} {e : LoopEvent}
    (h : Holds lib batch s)
    (hfeasible : e.Feasible s)
    (hcanonical : ∀ it ∈ received [e], it.Canonical digest)
    (hfree : CollisionFree lib (nextBatch batch e)) :
    Holds lib (nextBatch batch e) (step lib s e).1 ∧
      emittedPairs lib digest (step lib s e).2 + heldPairs lib digest (step lib s e).1 =
        heldPairs lib digest s + receivedPairs lib [e] := by
  cases e with
  | receive it =>
      obtain ⟨hholds, hpairs⟩ :=
        receive_spec hlib.snappy h (hcanonical it (by simp [received])) hfree
      refine ⟨hholds, ?_⟩
      simp only [step, hpairs, emittedPairs, List.map_nil, List.sum_nil, zero_add]
      rfl
  | failedTick =>
      have hsame : (failedTick s).packer = s.packer ∧ (failedTick s).byTopic = s.byTopic := by
        unfold failedTick
        split <;> exact ⟨rfl, rfl⟩
      refine ⟨⟨?_, ?_⟩, ?_⟩
      · simp only [step, hsame.1]
        exact h.wf
      · simp only [step, hsame.1]
        exact h.stored
      · simp only [step, heldPairs, hsame.1, hsame.2, emittedPairs, List.map_nil,
          List.sum_nil, zero_add]
        exact (add_zero _).symm
  | heldTick =>
      refine ⟨h, ?_⟩
      simp only [step, emittedPairs, List.map_nil, List.sum_nil, zero_add]
      exact (add_zero _).symm
  | emitTick t =>
      have hspec : Holds lib [] (buildAndEmit lib s t).1 ∧
          emittedPairs lib digest (buildAndEmit lib s t).2 +
            heldPairs lib digest (buildAndEmit lib s t).1 = heldPairs lib digest s :=
        buildAndEmit_spec hlib h hfeasible.1
      refine ⟨hspec.1, ?_⟩
      simp only [step, hspec.2]
      exact (add_zero _).symm

theorem run_spec
    (hlib : lib.Lawful)
    {s : Loop} {emitted : List Bytes}
    (hrun : LoopRun lib events s emitted)
    (hcanonical : ∀ it ∈ received events, it.Canonical digest)
    (hfree : ∀ past, past <+: events → CollisionFree lib (currentBatch past)) :
    Holds lib (currentBatch events) s ∧
      emittedPairs lib digest emitted + heldPairs lib digest s =
        receivedPairs lib events := by
  induction hrun with
  | start => exact ⟨holds_clean _ rfl, rfl⟩
  | @step events s emitted hrun e hfeasible ih =>
      obtain ⟨hholds, hpairs⟩ := ih
        (fun it hit => hcanonical it (by
          rw [received_append]
          exact List.mem_append_left _ hit))
        (fun past hpast => hfree past (hpast.trans (List.prefix_append events [e])))
      have hnext : CollisionFree lib (nextBatch (currentBatch events) e) := by
        rw [← currentBatch_append]
        exact hfree _ (List.prefix_refl _)
      obtain ⟨hholds', hpairs'⟩ := step_spec hlib hholds hfeasible
        (fun it hit => hcanonical it (by
          rw [received_append]
          exact List.mem_append_right _ hit)) hnext
      refine ⟨?_, ?_⟩
      · rw [currentBatch_append]
        exact hholds'
      · have hreceived : receivedPairs lib (events ++ [e]) =
            receivedPairs lib events + receivedPairs lib [e] := by
          simp [receivedPairs, received_append]
        rw [emittedPairs_append, add_assoc, hpairs', ← add_assoc, hpairs, hreceived]

/-- No attestation is lost, duplicated, altered or moved: what the emitted payloads
decode to, with what is still in the packer and in `byTopic`, is what was received. -/
theorem emitted_and_held_eq_received
    (hlib : lib.Lawful)
    {events : List LoopEvent} {s : Loop} {emitted : List Bytes}
    (hrun : LoopRun lib events s emitted)
    (hcanonical : ∀ it ∈ received events, it.Canonical digest)
    (hfree : ∀ past, past <+: events → CollisionFree lib (currentBatch past)) :
    emittedPairs lib digest emitted + (s.packer.pairs lib digest +
      uncompressedPairs lib.snappy (GoMap.pairs s.byTopic)) = receivedPairs lib events := by
  exact (run_spec hlib hrun hcanonical hfree).2

end Runs

section Sample

def sampleLibraries : Libraries :=
  ⟨literalSnappy, wireCodec, XXHash.sum64⟩

/-- An attestation whose bytes are all different. -/
def sampleAttestation : Bytes :=
  (List.range 240).map UInt8.ofNat

def sampleTopic : String :=
  buildFullTopic "6a95a1a9" (attestationDescriptor 5)

def packedItem : AggregateItem :=
  ⟨sampleTopic, some (parseTopicMeta sampleTopic), literalSnappy.encode sampleAttestation⟩

/-- A message that is not a snappy block. -/
def fallbackItem : AggregateItem :=
  ⟨sampleTopic, some (parseTopicMeta sampleTopic), [0xFF]⟩

def sampleLoop : Loop :=
  receive sampleLibraries (receive sampleLibraries Loop.start packedItem) fallbackItem

/-- A tick that visits the maps in the order in which they are stored. -/
def tickOf (s : Loop) : Tick :=
  ⟨1700000000000, 1700000000001, s.packer.encodedData.keys, s.byTopic.keys⟩

theorem feasible_tickOf
    (s : Loop) :
    (LoopEvent.emitTick (tickOf s)).Feasible s := by
  exact ⟨List.Perm.refl _, List.Perm.refl _⟩

def sampleEvents : List LoopEvent :=
  [.receive packedItem, .receive fallbackItem, .heldTick, .emitTick (tickOf sampleLoop)]

theorem dataEncoding_fallbackItem :
    dataEncoding sampleLibraries fallbackItem = none := by
  have hdecode : decodeGossip literalSnappy [0xFF] SingleAttestation.zero =
      .error errCorrupt := by
    rfl
  unfold dataEncoding
  split
  · simp only [sampleLibraries, fallbackItem, hdecode]
  · rfl

theorem collisionFree_sample
    {batch : List AggregateItem}
    (h : ∀ it ∈ batch, it = packedItem ∨ it = fallbackItem) :
    CollisionFree sampleLibraries batch := by
  have hpacked : ∀ it ∈ batch, ∀ b, dataEncoding sampleLibraries it = some b →
      dataEncoding sampleLibraries packedItem = some b := by
    intro it hit b hb
    rcases h it hit with rfl | rfl
    · exact hb
    · rw [dataEncoding_fallbackItem] at hb
      cases hb
  intro it hit it' hit' b b' hb hb' _
  exact Option.some.inj ((hpacked it hit b hb).symm.trans (hpacked it' hit' b' hb'))

/-- Two items, a held tick and an emitting tick. -/
theorem run_receive_receive_hold_emit
    {lib : Libraries}
    (it it' : AggregateItem)
    {t : Tick}
    (h : (LoopEvent.emitTick t).Feasible (receive lib (receive lib Loop.start it) it')) :
    LoopRun lib [.receive it, .receive it', .heldTick, .emitTick t]
      (buildAndEmit lib (receive lib (receive lib Loop.start it) it') t).1
      (buildAndEmit lib (receive lib (receive lib Loop.start it) it') t).2 := by
  exact (((LoopRun.start.step (.receive it) trivial).step (.receive it') trivial).step
    .heldTick trivial).step (.emitTick t) h

theorem mem_received_sampleEvents
    {it : AggregateItem}
    (h : it ∈ received sampleEvents) :
    it = packedItem ∨ it = fallbackItem := by
  simpa [received, sampleEvents] using h

theorem canonical_sample
    {it : AggregateItem}
    (h : it = packedItem ∨ it = fallbackItem) :
    it.Canonical "6a95a1a9" := by
  rcases h with rfl | rfl
  · exact ⟨⟨5, rfl⟩, rfl⟩
  · exact ⟨⟨5, rfl⟩, rfl⟩

theorem receivedPairs_sample :
    receivedPairs sampleLibraries sampleEvents =
      {(sampleTopic, sampleAttestation), (sampleTopic, [0xFF])} := by
  have hpacked : uncompressed literalSnappy (literalSnappy.encode sampleAttestation) =
      sampleAttestation := by
    simp only [uncompressed, literalSnappy_lawful.decode_encode
      (show sampleAttestation.length < snappyMaxBlock by simp [sampleAttestation, snappyMaxBlock])]
  have hfallback : uncompressed literalSnappy [0xFF] = [0xFF] := by
    rfl
  simp only [receivedPairs, sampleEvents, received, List.map_cons, List.map_nil,
    AggregateItem.pair, packedItem, fallbackItem, sampleLibraries, hpacked, hfallback]
  rfl

theorem emitted_and_held_eq_received_sample :
    ∃ s emitted, LoopRun sampleLibraries sampleEvents s emitted ∧
      emittedPairs sampleLibraries "6a95a1a9" emitted +
        (s.packer.pairs sampleLibraries "6a95a1a9" +
          uncompressedPairs literalSnappy (GoMap.pairs s.byTopic)) =
        {(sampleTopic, sampleAttestation), (sampleTopic, [0xFF])} := by
  have hrun : LoopRun sampleLibraries sampleEvents _ _ :=
    run_receive_receive_hold_emit packedItem fallbackItem (feasible_tickOf sampleLoop)
  have hlib : sampleLibraries.Lawful :=
    ⟨literalSnappy_lawful, wireCodec_lawful⟩
  refine ⟨_, _, hrun, ?_⟩
  rw [← receivedPairs_sample]
  refine emitted_and_held_eq_received hlib hrun ?_ ?_
  · intro it hit
    exact canonical_sample (mem_received_sampleEvents hit)
  · intro past hpast
    refine collisionFree_sample ?_
    intro it hit
    obtain ⟨rest, hrest⟩ := hpast
    refine mem_received_sampleEvents ?_
    rw [← hrest, received_append]
    exact List.mem_append_left _ (mem_received_of_mem_currentBatch hit)

end Sample

end Aggregator
end OptimumGateway
