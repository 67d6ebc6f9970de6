import OptimumGateway.Foundation.FirstSeen
import OptimumGateway.GossipsubGateway.MeshToCL

/-!
# The order in which an aggregated message is unpacked

`handleAggregatedMessages` visits the topics of the decoded message in the order of a Go
map, which is any order.  Each payload is looked up in the cache of seen hashes and stored
there, so that the payloads of the visited topics, one after another, are deduplicated by
their hash.

Role, propagation switch, joined topics and publish outcomes are fixed.  What is published
is then the same in every order exactly when no attestation that a topic would publish on
its own shares its hash with a payload of another joined attestation topic
(`unpacked_order_iff`).  A copy under a second topic takes the place of the first one
whenever its topic happens to be visited before.
-/

namespace OptimumGateway
namespace GossipsubGateway

open Foundation Foundation.Prog Foundation.Protobuf Protocol Aggregator MessageRouter

section Unpacking

/-- What is fixed while a message is unpacked. -/
structure UnpackEnv extends Environment where
  digest : String
  publish : String → Bytes → Option GoError

/-- The cache of hashes, and what was published to the CL. -/
structure UnpackState where
  seen : Finset UInt64
  published : List (String × Bytes)

/-- The answer of the router if nothing changes meanwhile. -/
def routerForwards
    (w : RouterState)
    (kind : TopicKind)
    (slot : UInt64)
    (message : Bytes) : Bool :=
  (eval (fun op w => (RouterState.answer op w, RouterState.after op w))
    (shouldForwardMessageToCLP2P kind slot message) w).1

/-- The memory of a run that visits the topics of the decoded message in the given order. -/
def unpackSem (env : UnpackEnv) (order : List String) : Sem ProxyOp ProxyOp.Ans UnpackState
  | .activeDigest, st, r, st' => r = env.digest ∧ st' = st
  | .propagationEnabled, st, r, st' => r = env.propagationEnabled ∧ st' = st
  | .rangeTopics _, st, r, st' => r = order ∧ st' = st
  | .topicLoad topic, st, r, st' => r = env.joined topic ∧ st' = st
  | .messageGet hash, st, r, st' => r = decide (hash ∈ st.seen) ∧ st' = st
  | .messagePut hash, st, _, st' => st' = { st with seen := insert hash st.seen }
  | .shouldForwardToCLP2P kind slot message, st, r, st' =>
      r = routerForwards env.router kind slot message ∧ st' = st
  | .clPublish topic message, st, r, st' =>
      r = env.publish topic message ∧
        st' = { st with published := st.published ++ if r = none then [(topic, message)] else [] }
  | _, st, _, st' => st' = st

variable (s : ProxyService) (env : UnpackEnv)

/-- The attestation is published if it is not a duplicate. -/
def publishes (x : String × Bytes) : Bool :=
  routerForwards env.router (parseTopicMeta x.1).kind 0 x.2 &&
    (decodeGossip s.lib.snappy x.2 SingleAttestation.zero).isOk &&
    (env.publish x.1 x.2).isNone

def UnpackState.take (st : UnpackState) (x : String × Bytes) : UnpackState :=
  if s.lib.xxHash x.2 ∈ st.seen then st
  else ⟨insert (s.lib.xxHash x.2) st.seen,
    st.published ++ if publishes s env x then [x] else []⟩

variable {s env} {order : List String} {st st' : UnpackState} {topic : String} {payload : Bytes}
variable {u : Unit}

theorem returns_publishToCLTopic_iff
    {r : Option GoError}
    (hjoined : env.joined topic = true) :
    Returns (unpackSem env order) (publishToCLTopic payload topic) st r st'
      ↔
    r = env.publish topic payload ∧
      st' = { st with
        published := st.published ++
          if env.publish topic payload = none then [(topic, payload)] else [] } := by
  rw [publishToCLTopic, returns_bind_of_iff fun _ _ => returns_op_iff, hjoined, if_pos rfl,
    returns_op_iff]
  constructor
  · intro h
    obtain ⟨rfl, rfl⟩ := h
    exact ⟨rfl, rfl⟩
  · intro h
    obtain ⟨rfl, rfl⟩ := h
    exact ⟨rfl, rfl⟩

theorem returns_forwardExpanded_iff
    (hjoined : env.joined topic = true) :
    Returns (unpackSem env order) (forwardExpanded s topic (parseTopicMeta topic) payload) st u st'
      ↔
    st' = { st with
      published := st.published ++
        if publishes s env (topic, payload) then [(topic, payload)] else [] } := by
  rw [forwardExpanded, returns_bind_of_iff fun _ _ => returns_op_iff, publishes]
  cases hforward : routerForwards env.router (parseTopicMeta topic).kind 0 payload with
  | false => simp
  | true =>
      cases hdecode : decodeGossip s.lib.snappy payload SingleAttestation.zero with
      | error err => simp [Except.isOk, Except.toBool]
      | ok att =>
          simp only [if_true]
          rw [returns_bind_of_iff fun _ _ => returns_publishToCLTopic_iff hjoined]
          simp [Except.isOk, Except.toBool]

theorem returns_isDuplicateMessage_iff
    {duplicate : Bool} :
    Returns (unpackSem env order) (isDuplicateMessage s payload) st duplicate st'
      ↔
    duplicate = decide (s.lib.xxHash payload ∈ st.seen) ∧
      st' = { st with seen := insert (s.lib.xxHash payload) st.seen } := by
  rw [isDuplicateMessage, returns_bind_of_iff fun _ _ => returns_op_iff]
  by_cases hmem : s.lib.xxHash payload ∈ st.seen
  · simp [hmem]
  · rw [if_neg (by simp [hmem]), returns_bind_iff]
    simp [hmem, returns_op_iff, unpackSem]

theorem returns_expandPayload_iff
    (hjoined : env.joined topic = true) :
    Returns (unpackSem env order) (expandPayload s topic (parseTopicMeta topic) payload) st u st'
      ↔
    st' = st.take s env (topic, payload) := by
  rw [expandPayload, returns_bind_of_iff fun _ _ => returns_isDuplicateMessage_iff,
    UnpackState.take]
  by_cases hmem : s.lib.xxHash payload ∈ st.seen
  · simp [hmem]
  · rw [if_neg (by simp [hmem]), if_neg hmem, returns_forwardExpanded_iff hjoined]

/-- A loop whose body has one outcome folds it. -/
theorem returns_forEach_iff
    {β : Type} {body : β → ProxyProg Unit} {f : UnpackState → β → UnpackState}
    (h : ∀ x st st', Returns (unpackSem env order) (body x) st () st' ↔ st' = f st x)
    (xs : List β) :
    Returns (unpackSem env order) (forEach body xs) st () st' ↔ st' = xs.foldl f st := by
  induction xs generalizing st with
  | nil => simp [forEach]
  | cons x xs ih =>
      rw [forEach, returns_bind_of_iff (a := ()) fun _ v => by simpa using h x st v, ih,
        List.foldl_cons]

/-- The attestations that a topic offers to the CL. -/
def offered
    (env : UnpackEnv)
    (decoded : GoMap String (List Bytes))
    (topic : String) : List (String × Bytes) :=
  if env.joined topic && (parseTopicMeta topic).isAttestation then
    (GoMap.getAll decoded topic).map (Prod.mk topic)
  else []

theorem returns_expandTopic_iff
    (decoded : GoMap String (List Bytes)) :
    Returns (unpackSem env order) (expandTopic s decoded topic) st () st'
      ↔
    st' = (offered env decoded topic).foldl (UnpackState.take s env) st := by
  rw [expandTopic, returns_bind_of_iff fun _ _ => returns_op_iff, offered]
  by_cases hkind : (env.joined topic && (parseTopicMeta topic).isAttestation) = true
  · have hjoined : env.joined topic = true := by
      simp_all
    rw [if_pos hkind, if_pos hkind, List.foldl_map,
      returns_forEach_iff fun x st st' => returns_expandPayload_iff hjoined]
  · rw [if_neg hkind, if_neg hkind]
    simp

/-- The payloads are deduplicated by their hash. -/
theorem published_foldl_take
    (xs : List (String × Bytes))
    (st : UnpackState) :
    (xs.foldl (UnpackState.take s env) st).published =
      st.published ++
        (firsts (fun x => s.lib.xxHash x.2) st.seen xs).filter (publishes s env) := by
  induction xs generalizing st with
  | nil => simp [firsts]
  | cons x xs ih =>
      rw [List.foldl_cons, ih, firsts, UnpackState.take]
      split
      case isTrue hmem => rfl
      case isFalse hnot =>
        rw [List.filter_cons, List.append_assoc]
        split
        · rfl
        · rfl

variable {decoded : GoMap String (List Bytes)} {msg : P2PMessage} {seen : Finset UInt64}
variable {x : String × Bytes}

theorem returns_handleAggregatedMessages_iff
    (hdecode : decodeAggregatedMessage s.lib env.digest msg.message = .ok decoded) :
    Returns (unpackSem env order) (handleAggregatedMessages s msg) st () st'
      ↔
    st' = if env.propagationEnabled then
      (order.flatMap (offered env decoded)).foldl (UnpackState.take s env) st
    else st := by
  rw [handleAggregatedMessages, returns_bind_of_iff fun _ _ => returns_op_iff, hdecode]
  simp only
  rw [returns_bind_of_iff fun _ _ => returns_op_iff]
  cases hswitch : env.propagationEnabled with
  | false => simp
  | true =>
      rw [if_pos rfl, if_pos rfl, returns_bind_of_iff fun _ _ => returns_op_iff,
        returns_forEach_iff fun x st st' => returns_expandTopic_iff decoded,
        List.foldl_flatMap]

theorem mem_published_iff
    (hdecode : decodeAggregatedMessage s.lib env.digest msg.message = .ok decoded)
    (hreturns : Returns (unpackSem env order) (handleAggregatedMessages s msg) ⟨seen, []⟩ () st') :
    x ∈ st'.published
      ↔
    env.propagationEnabled = true ∧ publishes s env x = true ∧
      x ∈ firsts (fun x => s.lib.xxHash x.2) seen (order.flatMap (offered env decoded)) := by
  rw [(returns_handleAggregatedMessages_iff hdecode).mp hreturns]
  cases hswitch : env.propagationEnabled with
  | false => simp
  | true =>
      rw [if_pos rfl, published_foldl_take]
      simp [and_comm]

/-- The attestation is one that its topic would publish if the message had no other. -/
structure OwnPublication
    (s : ProxyService)
    (env : UnpackEnv)
    (seen : Finset UInt64)
    (decoded : GoMap String (List Bytes))
    (topic : String)
    (payload : Bytes) : Prop where
  propagates : env.propagationEnabled = true
  joined : env.joined topic = true
  attestation : (parseTopicMeta topic).isAttestation = true
  publishes : publishes s env (topic, payload) = true
  unseen : s.lib.xxHash payload ∉ seen
  /-- It is the first payload of its topic with its hash. -/
  first : ∃ before after, GoMap.getAll decoded topic = before ++ payload :: after ∧
    ∀ q ∈ before, s.lib.xxHash q ≠ s.lib.xxHash payload

theorem mem_offered_iff :
    x ∈ offered env decoded topic
      ↔
    x.1 = topic ∧ env.joined topic = true ∧ (parseTopicMeta topic).isAttestation = true ∧
      x.2 ∈ GoMap.getAll decoded topic := by
  obtain ⟨t, payload⟩ := x
  rw [offered]
  split
  case isTrue h =>
    simp only [Bool.and_eq_true] at h
    simp [h, and_comm, eq_comm]
  case isFalse h =>
    simp only [Bool.and_eq_true] at h
    simp only [List.not_mem_nil, false_iff]
    tauto

theorem mem_firsts_offered_iff
    (hswitch : env.propagationEnabled = true) :
    x ∈ firsts (fun x => s.lib.xxHash x.2) seen (offered env decoded topic) ∧
        publishes s env x = true
      ↔
    x.1 = topic ∧ OwnPublication s env seen decoded topic x.2 := by
  rw [mem_firsts_iff]
  constructor
  · intro h
    obtain ⟨⟨hunseen, before, after, hsplit, hbefore⟩, hpublishes⟩ := h
    obtain ⟨rfl, hjoined, hkind, -⟩ := mem_offered_iff.mp
      (show x ∈ offered env decoded topic by simp [hsplit])
    refine ⟨rfl, hswitch, hjoined, hkind, hpublishes, hunseen, before.map Prod.snd,
      after.map Prod.snd, ?_, ?_⟩
    · have hpayloads := congrArg (List.map Prod.snd) hsplit
      simpa [offered, hjoined, hkind, Function.comp_def] using hpayloads
    · intro q hq
      obtain ⟨y, hy, rfl⟩ := List.mem_map.mp hq
      exact hbefore y hy
  · intro h
    obtain ⟨t, payload⟩ := x
    obtain ⟨rfl, -, hjoined, hkind, hpublishes, hunseen, before, after, hsplit, hbefore⟩ := h
    refine ⟨⟨hunseen, before.map (Prod.mk t), after.map (Prod.mk t), ?_, ?_⟩, hpublishes⟩
    · simp [offered, hjoined, hkind, hsplit]
    · intro y hy
      obtain ⟨q, hq, rfl⟩ := List.mem_map.mp hy
      exact hbefore q hq

theorem mem_keys_of_mem_getAll
    (h : payload ∈ GoMap.getAll decoded topic) :
    topic ∈ decoded.keys := by
  by_contra hnot
  rw [GoMap.getAll_of_notMem hnot] at h
  cases h

theorem OwnPublication.mem_keys
    (h : OwnPublication s env seen decoded topic payload) :
    topic ∈ decoded.keys := by
  obtain ⟨before, after, hsplit, -⟩ := h.first
  have hmem : payload ∈ GoMap.getAll decoded topic := by
    simp [hsplit]
  exact mem_keys_of_mem_getAll hmem

/-- No attestation that its topic would publish shares its hash with a payload of another
joined attestation topic. -/
def Unshadowed
    (s : ProxyService)
    (env : UnpackEnv)
    (seen : Finset UInt64)
    (decoded : GoMap String (List Bytes)) : Prop :=
  ∀ topic payload, OwnPublication s env seen decoded topic payload →
    ∀ other copy, other ≠ topic → env.joined other = true →
      (parseTopicMeta other).isAttestation = true → copy ∈ GoMap.getAll decoded other →
      s.lib.xxHash copy ≠ s.lib.xxHash payload

theorem separate_iff_unshadowed
    (hswitch : env.propagationEnabled = true) :
    Separate (fun x => s.lib.xxHash x.2) seen (offered env decoded) decoded.keys
        (fun x => publishes s env x = true)
      ↔
    Unshadowed s env seen decoded := by
  constructor
  · intro h topic payload hown other copy hne hjoined hkind hcopy
    obtain ⟨hfirst, hpublishes⟩ := (mem_firsts_offered_iff (x := (topic, payload)) hswitch).mpr
      ⟨rfl, hown⟩
    exact h topic hown.mem_keys other (mem_keys_of_mem_getAll hcopy) hne _ hfirst hpublishes
      (other, copy) (mem_offered_iff.mpr ⟨rfl, hjoined, hkind, hcopy⟩)
  · intro h topic _ other _ hne x hfirst hpublishes y hy
    obtain ⟨-, hown⟩ := (mem_firsts_offered_iff hswitch).mp ⟨hfirst, hpublishes⟩
    obtain ⟨-, hjoined, hkind, hcopy⟩ := mem_offered_iff.mp hy
    exact h topic x.2 hown other y.2 hne hjoined hkind hcopy

theorem Unshadowed.mem_published_iff
    (h : Unshadowed s env seen decoded)
    (hdecode : decodeAggregatedMessage s.lib env.digest msg.message = .ok decoded)
    (horder : order.Perm decoded.keys)
    (hreturns : Returns (unpackSem env order) (handleAggregatedMessages s msg) ⟨seen, []⟩ () st') :
    x ∈ st'.published ↔ OwnPublication s env seen decoded x.1 x.2 := by
  rw [GossipsubGateway.mem_published_iff hdecode hreturns]
  constructor
  · intro hx
    obtain ⟨hswitch, hpublishes, hfirst⟩ := hx
    have hseparate := (separate_iff_unshadowed hswitch).mpr h
    obtain ⟨t, -, hx⟩ :=
      (hseparate.mem_firsts_iff decoded.nodupKeys horder hpublishes).mp hfirst
    obtain ⟨rfl, hown⟩ := (mem_firsts_offered_iff hswitch).mp ⟨hx, hpublishes⟩
    exact hown
  · intro hown
    have hswitch := hown.propagates
    have hseparate := (separate_iff_unshadowed hswitch).mpr h
    obtain ⟨hfirst, hpublishes⟩ := (mem_firsts_offered_iff hswitch).mpr ⟨rfl, hown⟩
    exact ⟨hswitch, hpublishes, (hseparate.mem_firsts_iff decoded.nodupKeys horder
      hpublishes).mpr ⟨x.1, hown.mem_keys, hfirst⟩⟩

/-- What is published to the CL is the same in every order of the topics, and no attestation
is kept from its topic by what stands under another, iff no attestation that its topic would
publish shares its hash with a payload of another joined attestation topic. -/
theorem unpacked_order_iff
    (hdecode : decodeAggregatedMessage s.lib env.digest msg.message = .ok decoded)
    (seen : Finset UInt64) :
    (∀ order, ∃ st',
        Returns (unpackSem env order) (handleAggregatedMessages s msg) ⟨seen, []⟩ () st') ∧
      (((∀ order₁ order₂ : List String, order₁.Perm decoded.keys → order₂.Perm decoded.keys →
            ∀ st₁ st₂,
            Returns (unpackSem env order₁) (handleAggregatedMessages s msg) ⟨seen, []⟩ () st₁ →
            Returns (unpackSem env order₂) (handleAggregatedMessages s msg) ⟨seen, []⟩ () st₂ →
            ∀ x, x ∈ st₁.published ↔ x ∈ st₂.published) ∧
          ∀ order : List String, order.Perm decoded.keys → ∀ st',
            Returns (unpackSem env order) (handleAggregatedMessages s msg) ⟨seen, []⟩ () st' →
            ∀ topic payload, OwnPublication s env seen decoded topic payload →
              (topic, payload) ∈ st'.published)
        ↔
      Unshadowed s env seen decoded) := by
  have hruns : ∀ order, ∃ st',
      Returns (unpackSem env order) (handleAggregatedMessages s msg) ⟨seen, []⟩ () st' := by
    intro order
    exact ⟨_, (returns_handleAggregatedMessages_iff hdecode).mpr rfl⟩
  refine ⟨hruns, ⟨?_, ?_⟩⟩
  · intro h topic payload hown
    have hswitch := hown.propagates
    have hseparate : Separate (fun x => s.lib.xxHash x.2) seen (offered env decoded)
        decoded.keys (fun x => publishes s env x = true) := by
      refine (firsts_order_iff Prod.fst decoded.nodupKeys ?_).mp ?_
      · intro t y hy
        exact (mem_offered_iff.mp hy).1
      · intro order₁ order₂ horder₁ horder₂ x hpublishes
        obtain ⟨st₁, h₁⟩ := hruns order₁
        obtain ⟨st₂, h₂⟩ := hruns order₂
        have hsame := h.1 order₁ order₂ horder₁ horder₂ st₁ st₂ h₁ h₂ x
        rw [mem_published_iff hdecode h₁, mem_published_iff hdecode h₂] at hsame
        simpa [hswitch, hpublishes] using hsame
    exact (separate_iff_unshadowed hswitch).mp hseparate topic payload hown
  · intro h
    refine ⟨?_, ?_⟩
    · intro order₁ order₂ horder₁ horder₂ st₁ st₂ h₁ h₂ x
      rw [h.mem_published_iff hdecode horder₁ h₁, h.mem_published_iff hdecode horder₂ h₂]
    · intro order horder st' hreturns topic payload hown
      exact (h.mem_published_iff hdecode horder hreturns).mpr hown

end Unpacking

section Copies

/-- The topic of the attestations' own subnet, and that of another. -/
def ownTopic : String := "/eth2/6a95a1a9/beacon_attestation_5/ssz_snappy"

def otherTopic : String := "/eth2/6a95a1a9/beacon_attestation_6/ssz_snappy"

def copiedPayload : Bytes :=
  literalSnappy.encode SingleAttestation.zero.encoding

/-- One attestation under two topics. -/
def copiedMsg : Msg :=
  ⟨0, [⟨ownTopic, [copiedPayload]⟩, ⟨otherTopic, [copiedPayload]⟩]⟩

def copiedMessage : P2PMessage where
  topic := aggregatedMessagesTopic
  message := prefixed prefixNaive (encodeFields copiedMsg.fields)
  sourceNodeID := "16Uiu2HAmOther"
  upstreamPeerID := "16Uiu2HAmOther"

/-- A gateway that has joined the topics of a list. -/
def joinedEnv (topics : List String) : UnpackEnv where
  router := partnerEnvironment.router
  propagationEnabled := true
  joined topic := topics.contains topic
  currentSlot := 0
  digest := "6a95a1a9"
  publish _ _ := none

def copiedTopics : GoMap String (List Bytes) :=
  unpackContainers copiedMsg.container

theorem decode_copiedMessage
    (topics : List String) :
    decodeAggregatedMessage sampleService.lib (joinedEnv topics).digest copiedMessage.message =
      .ok copiedTopics := by
  refine decodeAggregatedMessage_naive ?_
  obtain ⟨blob, hblob, hread⟩ := wireCodec_lawful.msg copiedMsg
  obtain rfl := Except.ok.inj hblob
  exact hread

theorem keys_copiedTopics :
    [ownTopic, otherTopic].Perm copiedTopics.keys := by
  have hkeys : copiedTopics.keys = [otherTopic, ownTopic] := by
    simp [copiedTopics, unpackContainers, copiedMsg, GoMap.keys_appendAt, ownTopic, otherTopic]
  rw [hkeys]
  exact List.Perm.swap otherTopic ownTopic []

variable {topic : String}

theorem getAll_copiedTopics
    (h : topic ∈ [ownTopic, otherTopic]) :
    GoMap.getAll copiedTopics topic = [copiedPayload] := by
  have hne : ownTopic ≠ otherTopic := by
    decide
  simp only [List.mem_cons, List.not_mem_nil, or_false] at h
  rcases h with rfl | rfl
  · simp [copiedTopics, unpackContainers, copiedMsg, GoMap.getAll_appendAt_of_ne, hne]
  · simp [copiedTopics, unpackContainers, copiedMsg, GoMap.getAll_appendAt_of_ne, hne.symm]

theorem attestation_topics
    (h : topic ∈ [ownTopic, otherTopic]) :
    (parseTopicMeta topic).kind = .attestation := by
  revert topic
  decide +kernel

theorem publishes_copied
    (topics : List String)
    (h : topic ∈ [ownTopic, otherTopic]) :
    publishes sampleService (joinedEnv topics) (topic, copiedPayload) = true := by
  have hforward : routerForwards partnerEnvironment.router .attestation 0 copiedPayload =
      true := by
    rfl
  have hdecode : decodeGossip sampleService.lib.snappy copiedPayload SingleAttestation.zero =
      .ok SingleAttestation.zero :=
    decodeGossip_singleAttestation literalSnappy_lawful _ _
  simp only [publishes, joinedEnv, attestation_topics h, hforward, hdecode]
  rfl

theorem offered_copied
    (topics : List String)
    (h : topic ∈ [ownTopic, otherTopic])
    (hjoined : topic ∈ topics) :
    offered (joinedEnv topics) copiedTopics topic =
      [(topic, copiedPayload)] := by
  have hkind : (parseTopicMeta topic).isAttestation = true := by
    simp [TopicMeta.isAttestation, attestation_topics h]
  simp [offered, joinedEnv, hjoined, hkind, getAll_copiedTopics h]

/-- The topic that is visited first gets the attestation, the other does not. -/
theorem published_copied
    (topic topic' : String)
    (h : topic ∈ [ownTopic, otherTopic])
    (h' : topic' ∈ [ownTopic, otherTopic]) :
    ∃ st, Returns (unpackSem (joinedEnv [ownTopic, otherTopic]) [topic, topic'])
        (handleAggregatedMessages sampleService copiedMessage) ⟨∅, []⟩ () st ∧
      st.published = [(topic, copiedPayload)] := by
  refine ⟨_, (returns_handleAggregatedMessages_iff (decode_copiedMessage _)).mpr rfl, ?_⟩
  have hoffered : [topic, topic'].flatMap (offered (joinedEnv [ownTopic, otherTopic])
      copiedTopics) =
      [(topic, copiedPayload), (topic', copiedPayload)] := by
    simp [offered_copied _ h h, offered_copied _ h' h']
  have hswitch : (joinedEnv [ownTopic, otherTopic]).propagationEnabled = true := by
    rfl
  rw [if_pos hswitch, hoffered, published_foldl_take]
  simp [firsts, publishes_copied _ h]

/-- An attestation under two joined topics is published on the one that is visited first. -/
theorem copy_shadows_attestation :
    decodeAggregatedMessage sampleService.lib "6a95a1a9" copiedMessage.message =
        .ok copiedTopics ∧
      [ownTopic, otherTopic].Perm copiedTopics.keys ∧
      [otherTopic, ownTopic].Perm copiedTopics.keys ∧
      ∃ st₁ st₂,
      Returns (unpackSem (joinedEnv [ownTopic, otherTopic]) [ownTopic, otherTopic])
        (handleAggregatedMessages sampleService copiedMessage) ⟨∅, []⟩ () st₁ ∧
      Returns (unpackSem (joinedEnv [ownTopic, otherTopic]) [otherTopic, ownTopic])
        (handleAggregatedMessages sampleService copiedMessage) ⟨∅, []⟩ () st₂ ∧
      st₁.published = [(ownTopic, copiedPayload)] ∧
      st₂.published = [(otherTopic, copiedPayload)] := by
  obtain ⟨st₁, h₁, hpublished₁⟩ := published_copied ownTopic otherTopic
    (by simp) (by simp)
  obtain ⟨st₂, h₂, hpublished₂⟩ := published_copied otherTopic ownTopic
    (by simp) (by simp)
  exact ⟨decode_copiedMessage [], keys_copiedTopics,
    (List.Perm.swap ownTopic otherTopic []).trans keys_copiedTopics, st₁, st₂, h₁, h₂,
    hpublished₁, hpublished₂⟩

/-- Where only one of the topics is joined, the copy under the other does not matter. -/
theorem unpacked_order_one_joined :
    ∃ st', Returns (unpackSem (joinedEnv [ownTopic]) [otherTopic, ownTopic])
        (handleAggregatedMessages sampleService copiedMessage) ⟨∅, []⟩ () st' ∧
      (ownTopic, copiedPayload) ∈ st'.published := by
  have hjoined : ∀ topic, (joinedEnv [ownTopic]).joined topic = true → topic = ownTopic := by
    simp [joinedEnv]
  have hunshadowed : Unshadowed sampleService (joinedEnv [ownTopic]) ∅ copiedTopics := by
    intro topic payload hown other copy hne hother
    exact absurd ((hjoined other hother).trans (hjoined topic hown.joined).symm) hne
  have hown : OwnPublication sampleService (joinedEnv [ownTopic]) ∅ copiedTopics ownTopic
      copiedPayload :=
    { propagates := rfl
      joined := by simp [joinedEnv]
      attestation := by simp [TopicMeta.isAttestation, attestation_topics]
      publishes := publishes_copied _ (by simp)
      unseen := Finset.notMem_empty _
      first := ⟨[], [], getAll_copiedTopics (by simp), by simp⟩ }
  have horder : [otherTopic, ownTopic].Perm copiedTopics.keys :=
    (List.Perm.swap ownTopic otherTopic []).trans keys_copiedTopics
  obtain ⟨hruns, hiff⟩ := unpacked_order_iff (decode_copiedMessage [ownTopic]) ∅
  obtain ⟨st', hreturns⟩ := hruns [otherTopic, ownTopic]
  exact ⟨st', hreturns, (hiff.mpr hunshadowed).2 _ horder st' hreturns ownTopic copiedPayload hown⟩

end Copies

end GossipsubGateway
end OptimumGateway
