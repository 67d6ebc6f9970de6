import OptimumGateway.Aggregator.Conservation
import OptimumGateway.Foundation.AtomicProgram
import OptimumGateway.Foundation.TextEncoding
import OptimumGateway.Protocol.BeaconBlock
import OptimumGateway.Protocol.Forks
import OptimumGateway.Protocol.Slots

/-!
# The handlers between the two networks

This module models `messages_proxy.go`, `messages_proxy_aggregated.go` and
`beacon_block_measures.go` of `pkg/service/gossipsub-gateway`.

A handler is a program over the operations of the service: the two caches, the clock,
the configuration, the router, and publishing.  The caches are memory, and one `Get` or
`Put` is one operation.  Everything else is answered by the environment.  An entry of a
cache leaves it, and the fork digests change, by operations that no handler issues.
-/

namespace OptimumGateway
namespace GossipsubGateway

open Foundation Foundation.Prog Protocol Aggregator

/-- `entities.Source`. -/
inductive Source where
  | libP2P
  | mumP2P
deriving DecidableEq, Repr

def Source.text : Source → String
  | .libP2P => "libp2p"
  | .mumP2P => "mump2p"

structure CLMessage where
  topic : String
  message : Bytes
  receivedFrom : String

structure P2PMessage where
  topic : String
  message : Bytes
  sourceNodeID : String
  upstreamPeerID : String

/-- `streamhub.BlockEvent`. -/
structure BlockEvent where
  slot : UInt64
  proposerIndex : UInt64
  parentRoot : Bytes
  stateRoot : Bytes
  blockSizeBytes : Nat
  topic : String
  source : Source
  receivedAtMs : Int64
  gatewayID : String
  forkDigest : String
  stale : Bool
  raw : Bytes
deriving DecidableEq

/-- The arguments of `HandleBeaconBlock`. -/
structure BlockArrival where
  source : Source
  slot : UInt64
  proposerIndex : UInt64
  blockSize : Nat
  recvAt : Int64
  originGatewayID : String
  upstreamPeerID : String
deriving DecidableEq

inductive ProxyOp where
  | topicSupported (topic : String)
  | activeDigest
  | forkCall (call : ForkCall)
  | unixMilli
  | currentSlot
  | lastBlockStore (recvAt : Int64)
  | handleBeaconBlock (arrival : BlockArrival)
  | streamGet (key : String)
  | streamPut (key : String)
  | streamExpire (key : String)
  | streamEmit (event : BlockEvent)
  | messageGet (hash : UInt64)
  | messagePut (hash : UInt64)
  | messageExpire (hash : UInt64)
  | skipMessagesFromSelf
  | propagationEnabled
  | shouldForwardToMumP2P (kind : TopicKind) (topic : String) (message : Bytes)
  | shouldForwardToCLP2P (kind : TopicKind) (slot : UInt64) (message : Bytes)
  | enqueue (topic : String) (topicMeta : TopicMeta) (message : Bytes)
  | mumP2PPublish (topic : String) (message : Bytes)
  | recordMumPublishedAt (slot : UInt64) (publishedAt : Int64)
  | topicLoad (topic : String)
  | clPublish (topic : String) (message : Bytes)
  | rangeTopics (topics : List String)
deriving DecidableEq

/-- Answers: a lookup says whether the key is there, publishing returns an error or
nil. -/
abbrev ProxyOp.Ans : ProxyOp → Type
  | .topicSupported _ | .streamGet _ | .messageGet _ | .skipMessagesFromSelf
  | .propagationEnabled | .shouldForwardToMumP2P .. | .shouldForwardToCLP2P ..
  | .topicLoad _ => Bool
  | .activeDigest => String
  | .unixMilli => Int64
  | .currentSlot => UInt64
  | .mumP2PPublish .. | .clPublish .. => Option GoError
  | .rangeTopics _ => List String
  | _ => Unit

abbrev ProxyProg := Prog ProxyOp ProxyOp.Ans

abbrev ProxyCall := Call ProxyOp ProxyOp.Ans

abbrev proxy (op : ProxyOp) : ProxyProg op.Ans := Prog.op op

/-- What is fixed when the service runs. -/
structure ProxyService where
  lib : Libraries
  /-- `nodeMumP2P` is not nil. -/
  hasMumP2P : Bool
  nodeMumP2PStr : String
  /-- `streamHub` is not nil. -/
  hasStreamHub : Bool
  gatewayID : String

/-- The loop over a list. -/
def forEach {β : Type} (body : β → ProxyProg Unit) : List β → ProxyProg Unit
  | [] => pure ()
  | x :: xs => do
      body x
      forEach body xs

section Blocks

def staleSlotThreshold : UInt64 := 3

/-- `%x` of a byte string. -/
def hexText (b : Bytes) : String :=
  String.ofList (b.flatMap fun x => [hexDigit (x.toNat / 16), hexDigit x.toNat])

def streamDedupKey (source : Source) (header : BeaconBlockHeader) : String :=
  source.text ++ "|" ++ toString header.slot.toNat ++ "|" ++
    toString header.proposerIndex.toNat ++ "|" ++ hexText header.stateRoot

variable (s : ProxyService)

/-- Stream a block unless the same source brought it before. -/
def streamObservation
    (header : BeaconBlockHeader)
    (topic : String)
    (msg : Bytes)
    (recvAt : Int64)
    (source : Source)
    (stale : Bool) : ProxyProg Unit :=
  if s.hasStreamHub then do
    let dup ← proxy (.streamGet (streamDedupKey source header))
    if dup then
      pure ()
    else do
      proxy (.streamPut (streamDedupKey source header))
      let forkDigest ← proxy .activeDigest
      proxy (.streamEmit {
        slot := header.slot
        proposerIndex := header.proposerIndex
        parentRoot := header.parentRoot
        stateRoot := header.stateRoot
        blockSizeBytes := msg.length
        topic := topic
        source := source
        receivedAtMs := recvAt
        gatewayID := s.gatewayID
        forkDigest := forkDigest
        stale := stale
        raw := msg })
  else
    pure ()

/-- The slot of a block, and whether it is fresh enough to forward. -/
def processBeaconBlockArrival
    (topic : String)
    (msg : Bytes)
    (recvAt : Int64)
    (source : Source)
    (originGatewayID upstreamPeerID : String) : ProxyProg (UInt64 × Bool) := do
  proxy (.lastBlockStore recvAt)
  match decodeBeaconBlockHeader s.lib.snappy msg with
  | .error _ => pure (0, false)
  | .ok block => do
      proxy (.handleBeaconBlock {
        source := source
        slot := block.header.slot
        proposerIndex := block.header.proposerIndex
        blockSize := msg.length
        recvAt := recvAt
        originGatewayID := originGatewayID
        upstreamPeerID := upstreamPeerID })
      let currentSlot ← proxy .currentSlot
      let stale := decide (diffUint64 block.header.slot currentSlot > staleSlotThreshold)
      streamObservation s block.header topic msg recvAt source stale
      pure (block.header.slot, !stale)

end Blocks

section Handlers

variable (s : ProxyService)

/-- Whether a message was seen before; a new one is remembered. -/
def isDuplicateMessage (message : Bytes) : ProxyProg Bool := do
  let present ← proxy (.messageGet (s.lib.xxHash message))
  if present then
    pure true
  else do
    proxy (.messagePut (s.lib.xxHash message))
    pure false

/-- What follows the dedup of a block from the CL. -/
def forwardCLBeaconBlock (msg : CLMessage) (slot : UInt64) : ProxyProg Unit :=
  if s.hasMumP2P then do
    let publishedAt ← proxy .unixMilli
    let err ← proxy (.mumP2PPublish msg.topic msg.message)
    if err.isSome then
      pure ()
    else if slot > 0 then
      proxy (.recordMumPublishedAt slot publishedAt)
    else
      pure ()
  else
    pure ()

def processCLBeaconBlock (msg : CLMessage) : ProxyProg Unit := do
  let recvAt ← proxy .unixMilli
  let arrival ← processBeaconBlockArrival s msg.topic msg.message recvAt .libP2P ""
    msg.receivedFrom
  if arrival.2 then do
    let duplicate ← isDuplicateMessage s msg.message
    if duplicate then pure () else forwardCLBeaconBlock s msg arrival.1
  else
    pure ()

/-- What follows the dedup of an attestation from the CL. -/
def forwardCLAttestation (msg : CLMessage) (topicMeta : TopicMeta) : ProxyProg Unit := do
  let forward ← proxy (.shouldForwardToMumP2P topicMeta.kind msg.topic msg.message)
  if forward then proxy (.enqueue msg.topic topicMeta msg.message) else pure ()

def processCLAttestation (msg : CLMessage) (topicMeta : TopicMeta) : ProxyProg Unit := do
  let duplicate ← isDuplicateMessage s msg.message
  if duplicate then pure () else forwardCLAttestation msg topicMeta

/-- The body of the loop over the messages from the CL. -/
def handleMessageFromCL (msg : CLMessage) : ProxyProg Unit := do
  let supported ← proxy (.topicSupported msg.topic)
  if supported then
    if (parseTopicMeta msg.topic).isBeaconBlock then
      processCLBeaconBlock s msg
    else if (parseTopicMeta msg.topic).isAttestation then
      processCLAttestation s msg (parseTopicMeta msg.topic)
    else
      pure ()
  else
    pure ()

def handleMessagesFromCL (msgs : List CLMessage) : ProxyProg Unit :=
  forEach (handleMessageFromCL s) msgs

def publishToCLTopic (data : Bytes) (topic : String) : ProxyProg (Option GoError) := do
  let ok ← proxy (.topicLoad topic)
  if ok then proxy (.clPublish topic data) else pure none

def processMumP2PBeaconBlock (msg : P2PMessage) (slot : UInt64) : ProxyProg Unit := do
  let enabled ← proxy .propagationEnabled
  if enabled then do
    let forward ← proxy (.shouldForwardToCLP2P .beaconBlock slot msg.message)
    if forward then do
      let _ ← publishToCLTopic msg.message msg.topic
      pure ()
    else
      pure ()
  else
    pure ()

/-- What follows the dedup of an attestation in an aggregated message. -/
def forwardExpanded
    (topic : String)
    (topicMeta : TopicMeta)
    (payload : Bytes) : ProxyProg Unit := do
  let forward ← proxy (.shouldForwardToCLP2P topicMeta.kind 0 payload)
  if forward then
    match decodeGossip s.lib.snappy payload SingleAttestation.zero with
    | .error _ => pure ()
    | .ok _ => do
        let _ ← publishToCLTopic payload topic
        pure ()
  else
    pure ()

def expandPayload
    (topic : String)
    (topicMeta : TopicMeta)
    (payload : Bytes) : ProxyProg Unit := do
  let duplicate ← isDuplicateMessage s payload
  if duplicate then pure () else forwardExpanded s topic topicMeta payload

/-- The body of the loop over the topics of an aggregated message. -/
def expandTopic (decoded : GoMap String (List Bytes)) (topic : String) : ProxyProg Unit := do
  let ok ← proxy (.topicLoad topic)
  if ok && (parseTopicMeta topic).isAttestation then
    forEach (expandPayload s topic (parseTopicMeta topic)) (GoMap.getAll decoded topic)
  else
    pure ()

def handleAggregatedMessages (msg : P2PMessage) : ProxyProg Unit := do
  let digest ← proxy .activeDigest
  match decodeAggregatedMessage s.lib digest msg.message with
  | .error _ => pure ()
  | .ok decoded => do
      let enabled ← proxy .propagationEnabled
      if enabled then do
        let order ← proxy (.rangeTopics decoded.keys)
        forEach (expandTopic s decoded) order
      else
        pure ()

/-- What follows the dedup of a message from the mesh. -/
def dispatchMumP2PMessage (msg : P2PMessage) (slot : UInt64) : ProxyProg Unit :=
  if (parseTopicMeta msg.topic).isBeaconBlock then
    processMumP2PBeaconBlock msg slot
  else if msg.topic = aggregatedMessagesTopic then
    handleAggregatedMessages s msg
  else
    pure ()

def messageFromSelf (msg : P2PMessage) : Bool :=
  msg.sourceNodeID == s.nodeMumP2PStr

/-- The switch is read only for messages of this node. -/
def skipFromSelf (msg : P2PMessage) : ProxyProg Bool :=
  if messageFromSelf s msg then proxy .skipMessagesFromSelf else pure false

/-- Blocks are measured also when this node sent them. -/
def measureMumP2PArrival (msg : P2PMessage) : ProxyProg (UInt64 × Bool) :=
  if (parseTopicMeta msg.topic).isBeaconBlock then do
    let recvAt ← proxy .unixMilli
    processBeaconBlockArrival s msg.topic msg.message recvAt .mumP2P msg.sourceNodeID
      msg.upstreamPeerID
  else
    pure (0, true)

def processMumP2PMessage (msg : P2PMessage) : ProxyProg Unit := do
  let skip ← skipFromSelf s msg
  if skip then
    pure ()
  else do
    let arrival ← measureMumP2PArrival s msg
    if !arrival.2 || messageFromSelf s msg then
      pure ()
    else do
      let duplicate ← isDuplicateMessage s msg.message
      if duplicate then pure () else dispatchMumP2PMessage s msg arrival.1

/-- The body of the loop over the messages from the mesh. -/
def handleMessageFromMumP2PNode (msg : P2PMessage) : ProxyProg Unit := do
  let supported ← proxy (.topicSupported msg.topic)
  if supported then processMumP2PMessage s msg else pure ()

def handleMessagesFromMumP2PNode (msgs : List P2PMessage) : ProxyProg Unit :=
  forEach (handleMessageFromMumP2PNode s) msgs

/-- Called by the aggregator for each payload. -/
def emitAggregatedMessage (payload : Bytes) : ProxyProg Unit :=
  if s.hasMumP2P then do
    let duplicate ← isDuplicateMessage s payload
    if duplicate then
      pure ()
    else do
      let _ ← proxy (.mumP2PPublish aggregatedMessagesTopic payload)
      pure ()
  else
    pure ()

end Handlers

section Operations

/-- The operations that stream a block. -/
def StreamsBlock : ProxyOp → Prop
  | .streamGet _ | .streamPut _ | .activeDigest | .streamEmit _ => True
  | _ => False

/-- The operations that measure the arrival of a block, apart from the report. -/
def MeasuresBlock : ProxyOp → Prop
  | .lastBlockStore _ | .currentSlot => True
  | op => StreamsBlock op

/-- The operations on the cache of the messages. -/
def Dedups : ProxyOp → Prop
  | .messageGet _ | .messagePut _ => True
  | _ => False

/-- The operations that bring a block from the CL to the mesh. -/
def ForwardsToMumP2P : ProxyOp → Prop
  | .unixMilli | .mumP2PPublish .. | .recordMumPublishedAt .. => True
  | _ => False

/-- The operations that bring a message from the mesh to the CL. -/
def ForwardsToCL : ProxyOp → Prop
  | .activeDigest | .propagationEnabled | .rangeTopics _ | .topicLoad _
  | .shouldForwardToCLP2P .. | .clPublish .. => True
  | op => Dedups op

theorem StreamsBlock.measures
    {op : ProxyOp}
    (h : StreamsBlock op) :
    MeasuresBlock op := by
  cases op <;> first | exact h | trivial

theorem Dedups.forwards
    {op : ProxyOp}
    (h : Dedups op) :
    ForwardsToCL op := by
  cases op <;> first | exact h | trivial

variable (s : ProxyService) {P : ProxyOp → Prop}

theorem forall_forEach
    {β : Type} {body : β → ProxyProg Unit} {xs : List β}
    (h : ∀ x ∈ xs, (body x).Forall P) :
    (forEach body xs).Forall P := by
  induction xs with
  | nil => exact trivial
  | cons x xs ih =>
      refine (h x List.mem_cons_self).bind fun _ => ih ?_
      intro y hy
      exact h y (List.mem_cons_of_mem x hy)

theorem forall_streamObservation
    (header : BeaconBlockHeader)
    (topic : String)
    (msg : Bytes)
    (recvAt : Int64)
    (source : Source)
    (stale : Bool) :
    (streamObservation s header topic msg recvAt source stale).Forall StreamsBlock := by
  unfold streamObservation
  split
  · refine ⟨trivial, fun dup => ?_⟩
    cases dup with
    | true => exact trivial
    | false => exact ⟨trivial, fun _ => ⟨trivial, fun _ => ⟨trivial, fun _ => trivial⟩⟩⟩
  · exact trivial

/-- A block that is decoded is reported, and nothing else is. -/
theorem forall_processBeaconBlockArrival
    {topic : String} {msg : Bytes} {recvAt : Int64} {source : Source}
    {originGatewayID upstreamPeerID : String}
    (hmeasure : ∀ op, MeasuresBlock op → P op)
    (harrival : ∀ block, decodeBeaconBlockHeader s.lib.snappy msg = .ok block →
      P (.handleBeaconBlock ⟨source, block.header.slot, block.header.proposerIndex, msg.length,
        recvAt, originGatewayID, upstreamPeerID⟩)) :
    (processBeaconBlockArrival s topic msg recvAt source originGatewayID
      upstreamPeerID).Forall P := by
  refine ⟨hmeasure _ trivial, fun _ => ?_⟩
  dsimp only [Prog.bind]
  cases hdecode : decodeBeaconBlockHeader s.lib.snappy msg with
  | error err => exact trivial
  | ok block =>
      refine ⟨harrival block hdecode, fun _ => ⟨hmeasure _ trivial, fun currentSlot => ?_⟩⟩
      exact ((forall_streamObservation s block.header topic msg recvAt source _).mono
        fun op h => hmeasure op h.measures).bind fun _ => trivial

theorem forall_isDuplicateMessage
    (message : Bytes) :
    (isDuplicateMessage s message).Forall Dedups := by
  refine ⟨trivial, fun present => ?_⟩
  cases present with
  | true => exact trivial
  | false => exact ⟨trivial, fun _ => trivial⟩

theorem forall_dedup
    {message : Bytes} {p : ProxyProg Unit}
    (hdedup : ∀ op, Dedups op → P op)
    (hp : p.Forall P) :
    (do let duplicate ← isDuplicateMessage s message
        if duplicate then pure () else p : ProxyProg Unit).Forall P := by
  refine ((forall_isDuplicateMessage s message).mono hdedup).bind fun duplicate => ?_
  split
  · exact trivial
  · exact hp

theorem forall_forwardCLBeaconBlock
    (msg : CLMessage)
    (slot : UInt64) :
    (forwardCLBeaconBlock s msg slot).Forall ForwardsToMumP2P := by
  unfold forwardCLBeaconBlock
  split
  · refine ⟨trivial, fun publishedAt => ⟨trivial, fun err => ?_⟩⟩
    cases err with
    | some err => exact trivial
    | none =>
        by_cases hpositive : slot > 0
        · rw [if_pos hpositive]
          exact ⟨trivial, fun _ => trivial⟩
        · rw [if_neg hpositive]
          exact trivial
  · exact trivial

theorem forall_publishToCLTopic
    (data : Bytes)
    (topic : String) :
    (do let _ ← publishToCLTopic data topic
        pure () : ProxyProg Unit).Forall ForwardsToCL := by
  refine ⟨trivial, fun ok => ?_⟩
  cases ok with
  | true => exact ⟨trivial, fun _ => trivial⟩
  | false => exact trivial

theorem forall_expandPayload
    (topic : String)
    (topicMeta : TopicMeta)
    (payload : Bytes) :
    (expandPayload s topic topicMeta payload).Forall ForwardsToCL := by
  refine forall_dedup s (fun _ => Dedups.forwards) ⟨trivial, fun forward => ?_⟩
  cases forward with
  | false => exact trivial
  | true =>
      cases decodeGossip s.lib.snappy payload SingleAttestation.zero with
      | error err => exact trivial
      | ok att => exact forall_publishToCLTopic payload topic

theorem forall_handleAggregatedMessages
    (msg : P2PMessage) :
    (handleAggregatedMessages s msg).Forall ForwardsToCL := by
  refine ⟨trivial, fun digest => ?_⟩
  dsimp only [Prog.bind]
  cases decodeAggregatedMessage s.lib digest msg.message with
  | error err => exact trivial
  | ok decoded =>
      refine ⟨trivial, fun enabled => ?_⟩
      cases enabled with
      | false => exact trivial
      | true =>
          refine ⟨trivial, fun order => forall_forEach fun topic _ => ⟨trivial, fun ok => ?_⟩⟩
          dsimp only [Prog.bind]
          split
          · exact forall_forEach fun payload _ => forall_expandPayload s topic _ payload
          · exact trivial

theorem forall_dispatchMumP2PMessage
    (msg : P2PMessage)
    (slot : UInt64) :
    (dispatchMumP2PMessage s msg slot).Forall ForwardsToCL := by
  unfold dispatchMumP2PMessage
  split
  · refine ⟨trivial, fun enabled => ?_⟩
    cases enabled with
    | false => exact trivial
    | true =>
        refine ⟨trivial, fun forward => ?_⟩
        cases forward with
        | false => exact trivial
        | true => exact forall_publishToCLTopic msg.message msg.topic
  · split
    · exact forall_handleAggregatedMessages s msg
    · exact trivial

end Operations

end GossipsubGateway
end OptimumGateway
