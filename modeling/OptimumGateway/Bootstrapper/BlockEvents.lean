import OptimumGateway.Bootstrapper.BlockTelemetry
import OptimumGateway.Foundation.Implementation
import OptimumGateway.GossipsubGateway.NoEcho

/-!
# The queue of block events

The two handlers offer block events to a queue of bounded length, and one worker composes
them.  An event that finds the queue full is dropped.

The handler of the CL offers the arrival of a block, and later, once the block is published,
the publish.  Its publishes are therefore composed after their arrivals, provided the
arrivals are not dropped: `publish_after_arrival` says so for the runs in which no arrival
from libp2p is offered to a full queue.  A dropped arrival leaves the publish alone, and
the record it creates never gets the fields that only an arrival brings
(`dropped_arrival_never_composed`).
-/

namespace OptimumGateway
namespace Bootstrapper

open Foundation Foundation.Prog BlockArrival GossipsubGateway Protocol

section Queue

def blockEventsCap : Nat := 1024

structure QueueState where
  caches : ProxyState
  blockEvents : List BlockArrival
  telemetry : Telemetry

/-- The event that `HandleBeaconBlock` offers. -/
def arrivalEvent (a : GossipsubGateway.BlockArrival) : BlockArrival where
  source := some a.source
  slot := a.slot
  proposerIndex := a.proposerIndex
  blockSize := UInt64.ofNat a.blockSize
  recvAt := a.recvAt
  originGatewayID := a.originGatewayID
  upstreamPeerID := a.upstreamPeerID

def enqueueBlockEvent (ev : BlockArrival) (queue : List BlockArrival) : List BlockArrival :=
  if queue.length < blockEventsCap then queue ++ [ev] else queue

variable (svc : Service)

def handleBeaconBlock
    (a : GossipsubGateway.BlockArrival)
    (queue : List BlockArrival) : List BlockArrival :=
  if svc.telemetryEnable then enqueueBlockEvent (arrivalEvent a) queue else queue

def recordMumPublishedAt
    (slot : UInt64)
    (publishedAt : Int64)
    (queue : List BlockArrival) : List BlockArrival :=
  if !svc.telemetryEnable || slot = 0 then queue
  else enqueueBlockEvent { slot := slot, publishedAt := publishedAt } queue

/-- Operations of the handlers, of the worker, and a record that expires. -/
inductive QueueOp where
  | proxy (op : ProxyOp)
  | receive
  | compose (ev : BlockArrival)
  | expireRecord (slot : UInt64)

abbrev QueueOp.Ans : QueueOp → Type
  | .proxy op => op.Ans
  | .receive => BlockArrival
  | _ => Unit

abbrev QueueProg := Prog QueueOp QueueOp.Ans

abbrev QueueCall := Call QueueOp QueueOp.Ans

/-- What an operation of a handler does to the queue. -/
def offered : ProxyOp → List BlockArrival → List BlockArrival
  | .handleBeaconBlock a => handleBeaconBlock svc a
  | .recordMumPublishedAt slot publishedAt => recordMumPublishedAt svc slot publishedAt
  | _ => id

def queueSem : Sem QueueOp QueueOp.Ans QueueState
  | .proxy op, q, r, q' =>
      proxySem op q.caches r q'.caches ∧ q'.blockEvents = offered svc op q.blockEvents ∧
        q'.telemetry = q.telemetry
  | .receive, q, ev, q' =>
      q.blockEvents = ev :: q'.blockEvents ∧ q'.caches = q.caches ∧ q'.telemetry = q.telemetry
  | .compose ev, q, _, q' =>
      q' = { q with telemetry := handleBlockEvent svc q.telemetry ev }
  | .expireRecord slot, q, _, q' =>
      q' = { q with telemetry :=
        { q.telemetry with trackedSlots := q.telemetry.trackedSlots.erase slot } }

/-- The first rounds of the worker's loop. -/
def blockEventsWorker : Nat → QueueProg Unit
  | 0 => pure ()
  | n + 1 => do
      let ev ← Prog.op QueueOp.receive
      Prog.op (QueueOp.compose ev)
      blockEventsWorker n

def expireRecords : List UInt64 → QueueProg Unit
  | [] => pure ()
  | slot :: slots => do
      Prog.op (QueueOp.expireRecord slot)
      expireRecords slots

inductive QueueParty where
  | handler (i : ProxyParty)
  | worker
  | records
deriving DecidableEq

structure QueueInput where
  messages : ProxyInput
  rounds : Nat
  expiries : List UInt64

def QueueInput.program (s : ProxyService) (input : QueueInput) : QueueParty → QueueProg Unit
  | .handler i => (input.messages.program s i).rename QueueOp.proxy
  | .worker => blockEventsWorker input.rounds
  | .records => expireRecords input.expiries

abbrev QueueConfig := Config QueueParty QueueOp QueueOp.Ans (fun _ => Unit) QueueState

abbrev QueueEvent := Event QueueParty QueueOp QueueOp.Ans

def QueueInput.config (s : ProxyService) (input : QueueInput) (q : QueueState) : QueueConfig :=
  ⟨input.program s, q⟩

end Queue

section Handlers

/-- The arrival that an operation reports. -/
def arrivalOf : ProxyOp → Option GossipsubGateway.BlockArrival
  | .handleBeaconBlock a => some a
  | _ => none

/-- The arrival that was reported last. -/
def latestArrival
    (calls : List ProxyCall) : Option GossipsubGateway.BlockArrival :=
  calls.foldl (fun last c => (arrivalOf c.1).or last) none

theorem latestArrival_concat
    (calls : List ProxyCall)
    (c : ProxyCall) :
    latestArrival (calls ++ [c]) = (arrivalOf c.1).or (latestArrival calls) := by
  simp [latestArrival]

/-- The arrival reported last is one of the block of the slot, from libp2p. -/
def ArrivedFromCL (calls : List ProxyCall) (slot : UInt64) : Prop :=
  ∃ a, latestArrival calls = some a ∧ a.source = .libP2P ∧ a.slot = slot

/-- A publish is reported after the arrival of the block. -/
def AfterArrival (calls : List ProxyCall) (op : ProxyOp) : Prop :=
  ∀ slot publishedAt, op = .recordMumPublishedAt slot publishedAt → ArrivedFromCL calls slot

def Unpublished (op : ProxyOp) : Prop :=
  ∀ slot publishedAt, op ≠ .recordMumPublishedAt slot publishedAt

/-- Operations that report nothing. -/
def Silent (op : ProxyOp) : Prop :=
  arrivalOf op = none ∧ Unpublished op

variable {op : ProxyOp}

theorem Unpublished.afterArrival
    (h : Unpublished op)
    (calls : List ProxyCall) :
    AfterArrival calls op := by
  intro slot publishedAt hop
  exact absurd hop (h slot publishedAt)

theorem along_silent
    {α : Type} {p : ProxyProg α} {calls : List ProxyCall}
    (h : p.Forall Silent) :
    p.Along AfterArrival (fun calls' _ => latestArrival calls' = latestArrival calls) calls := by
  refine h.along_keeps (fun calls' o ho => ho.2.afterArrival calls') ?_ rfl
  intro calls' o r ho
  rw [latestArrival_concat, ho.1, Option.none_or]

variable (s : ProxyService)

theorem Silent.of_measures
    (h : MeasuresBlock op) :
    Silent op := by
  cases op <;> first | exact h.elim | exact ⟨rfl, nofun⟩

theorem Silent.of_dedups
    (h : Dedups op) :
    Silent op := by
  cases op <;> first | exact h.elim | exact ⟨rfl, nofun⟩

theorem Silent.of_forwardsToCL
    (h : ForwardsToCL op) :
    Silent op := by
  cases op <;> first | exact h.elim | exact ⟨rfl, nofun⟩

theorem silent_isDuplicateMessage
    (message : Bytes) :
    (isDuplicateMessage s message).Forall Silent :=
  (forall_isDuplicateMessage s message).mono fun _ => Silent.of_dedups

/-- A block that may be forwarded was reported last. -/
theorem reports_processBeaconBlockArrival
    {calls : List ProxyCall}
    (topic : String)
    (msg : Bytes)
    (recvAt : Int64)
    (source : Source)
    (originGatewayID upstreamPeerID : String) :
    (processBeaconBlockArrival s topic msg recvAt source originGatewayID
      upstreamPeerID).Along AfterArrival
      (fun calls' arrival => arrival.2 = true →
        ∃ a, latestArrival calls' = some a ∧ a.source = source ∧ a.slot = arrival.1) calls := by
  simp only [processBeaconBlockArrival, op_bind]
  refine ⟨nofun, fun _ => ?_⟩
  cases decodeBeaconBlockHeader s.lib.snappy msg with
  | error err =>
      intro hforward
      cases hforward
  | ok block =>
      refine ⟨nofun, fun _ => ⟨nofun, fun currentSlot => ?_⟩⟩
      refine (along_silent ((forall_streamObservation s block.header topic msg
        recvAt source _).mono fun _ h => Silent.of_measures h.measures)).bind ?_
      intro calls' _ hkeep _
      rw [hkeep, latestArrival_concat, latestArrival_concat]
      exact ⟨_, rfl, rfl, rfl⟩

/-- The publish of a block is reported after its arrival. -/
theorem afterArrival_processCLBeaconBlock
    (msg : CLMessage)
    (calls : List ProxyCall) :
    (processCLBeaconBlock s msg).Along AfterArrival (fun _ _ => True)
      calls := by
  refine ⟨nofun, fun recvAt => ?_⟩
  refine (reports_processBeaconBlockArrival s msg.topic msg.message recvAt .libP2P ""
    msg.receivedFrom).bind ?_
  intro calls' arrival harrival
  split
  · rename_i hforward
    obtain ⟨a, hlatest, hsource, hslot⟩ := harrival hforward
    refine (along_silent (silent_isDuplicateMessage s msg.message)).bind ?_
    intro calls'' duplicate hkeep
    split
    · exact trivial
    · unfold forwardCLBeaconBlock
      split
      · refine ⟨nofun, fun publishedAt => ⟨nofun, fun err => ?_⟩⟩
        cases err with
        | some err => exact trivial
        | none =>
            by_cases hpositive : arrival.1 > 0
            · rw [if_pos hpositive]
              refine ⟨?_, fun _ => trivial⟩
              intro slot publishedAt' hop
              cases hop
              rw [ArrivedFromCL, latestArrival_concat, latestArrival_concat]
              exact ⟨a, hkeep.trans hlatest, hsource, hslot⟩
            · rw [if_neg hpositive]
              exact trivial
      · exact trivial
  · exact trivial

theorem afterArrival_processCLAttestation
    (msg : CLMessage)
    (topicMeta : TopicMeta)
    (calls : List ProxyCall) :
    (processCLAttestation s msg topicMeta).Along AfterArrival
      (fun _ _ => True) calls := by
  refine (along_silent (silent_isDuplicateMessage s msg.message)).bind ?_
  intro calls' duplicate _
  split
  · exact trivial
  · refine ⟨nofun, fun forward => ?_⟩
    cases forward with
    | true => exact ⟨nofun, fun _ => trivial⟩
    | false => exact trivial

theorem afterArrival_handleMessagesFromCL
    (msgs : List CLMessage)
    (calls : List ProxyCall) :
    (handleMessagesFromCL s msgs).Along AfterArrival (fun _ _ => True)
      calls := by
  induction msgs generalizing calls with
  | nil => exact trivial
  | cons msg msgs ih =>
      have hbody : (handleMessageFromCL s msg).Along AfterArrival
          (fun _ _ => True) calls := by
        refine ⟨nofun, fun supported => ?_⟩
        cases supported with
        | false => exact trivial
        | true =>
            by_cases hblock : (parseTopicMeta msg.topic).isBeaconBlock = true
            · rw [if_pos hblock]
              exact afterArrival_processCLBeaconBlock s msg _
            · rw [if_neg hblock]
              split
              · exact afterArrival_processCLAttestation s msg _ _
              · exact trivial
      exact hbody.bind fun calls' _ _ => ih calls'

section Reports

variable {P : ProxyOp → Prop} (hsilent : ∀ op, Silent op → P op)
include hsilent

/-- What the mesh handler may report about a message. -/
def ReportOf (s : ProxyService) (msg : P2PMessage) (a : GossipsubGateway.BlockArrival) : Prop :=
  a.source = .mumP2P ∧ a.originGatewayID = msg.sourceNodeID ∧
    a.upstreamPeerID = msg.upstreamPeerID ∧
    ∃ block, decodeBeaconBlockHeader s.lib.snappy msg.message = .ok block ∧
      a.slot = block.header.slot

theorem forall_processMumP2PMessage
    {msg : P2PMessage}
    (harrival : ∀ a, ReportOf s msg a → P (.handleBeaconBlock a)) :
    (processMumP2PMessage s msg).Forall P := by
  have hskip : (skipFromSelf s msg).Forall P := by
    unfold skipFromSelf
    split
    · exact ⟨hsilent _ ⟨rfl, nofun⟩, fun _ => trivial⟩
    · exact trivial
  have hmeasure : (measureMumP2PArrival s msg).Forall P := by
    unfold measureMumP2PArrival
    split
    · refine ⟨hsilent _ ⟨rfl, nofun⟩, fun recvAt => ?_⟩
      refine forall_processBeaconBlockArrival s (fun _ h => hsilent _ (.of_measures h))
        fun block hdecode => ?_
      exact harrival _ ⟨rfl, rfl, rfl, block, hdecode, rfl⟩
    · exact trivial
  refine hskip.bind fun skip => ?_
  split
  · exact trivial
  · refine hmeasure.bind fun arrival => ?_
    split
    · exact trivial
    · exact forall_dedup s (fun _ h => hsilent _ (.of_dedups h))
        ((forall_dispatchMumP2PMessage s msg arrival.1).mono fun op h =>
          hsilent op (Silent.of_forwardsToCL h))

/-- What the handlers other than that of the CL report: arrivals from the mesh. -/
theorem forall_program
    {input : ProxyInput} {i : ProxyParty}
    (harrival : ∀ msg ∈ input.mumP2PMessages, ∀ a, ReportOf s msg a → P (.handleBeaconBlock a))
    (hi : i ≠ .cl) :
    (input.program s i).Forall P := by
  cases i with
  | cl => exact absurd rfl hi
  | mumP2P =>
      refine forall_forEach ?_
      intro msg hmsg
      refine ⟨hsilent _ ⟨rfl, nofun⟩, fun supported => ?_⟩
      cases supported with
      | true => exact forall_processMumP2PMessage s hsilent (harrival msg hmsg)
      | false => exact trivial
  | aggregator =>
      refine forall_forEach ?_
      intro payload _
      unfold emitAggregatedMessage
      split
      · exact forall_dedup s (fun _ h => hsilent _ (.of_dedups h))
          ⟨hsilent _ ⟨rfl, nofun⟩, fun _ => trivial⟩
      · exact trivial
  | caches =>
      refine forall_forEach ?_
      intro e _
      cases e with
      | message hash | stream key => exact ⟨hsilent _ ⟨rfl, nofun⟩, fun _ => trivial⟩

/-- What the handler of the CL reports: arrivals from libp2p, and publishes. -/
theorem forall_handleMessagesFromCL
    (harrival : ∀ a : GossipsubGateway.BlockArrival, a.source = .libP2P → P (.handleBeaconBlock a))
    (hpublish : ∀ slot publishedAt, P (.recordMumPublishedAt slot publishedAt))
    (msgs : List CLMessage) :
    (handleMessagesFromCL s msgs).Forall P := by
  refine forall_forEach ?_
  intro msg _
  have hblock : (processCLBeaconBlock s msg).Forall P := by
    refine ⟨hsilent _ ⟨rfl, nofun⟩, fun recvAt => ?_⟩
    refine (forall_processBeaconBlockArrival s (fun _ h => hsilent _ (.of_measures h))
      fun block _ => harrival _ rfl).bind ?_
    intro arrival
    split
    · refine forall_dedup s (fun _ h => hsilent _ (.of_dedups h)) ?_
      refine (forall_forwardCLBeaconBlock s msg arrival.1).mono ?_
      intro op h
      cases op <;> first | exact h.elim | exact hpublish _ _ | exact hsilent _ ⟨rfl, nofun⟩
    · exact trivial
  have hattestation : ∀ topicMeta,
      (processCLAttestation s msg topicMeta).Forall P := by
    intro topicMeta
    refine forall_dedup s (fun _ h => hsilent _ (.of_dedups h))
      ⟨hsilent _ ⟨rfl, nofun⟩, fun forward => ?_⟩
    cases forward with
    | true => exact ⟨hsilent _ ⟨rfl, nofun⟩, fun _ => trivial⟩
    | false => exact trivial
  refine ⟨hsilent _ ⟨rfl, nofun⟩, fun supported => ?_⟩
  cases supported with
  | false => exact trivial
  | true =>
      by_cases hkind : (parseTopicMeta msg.topic).isBeaconBlock = true
      · rw [if_pos hkind]
        exact hblock
      · rw [if_neg hkind]
        split
        · exact hattestation _
        · exact trivial

end Reports

/-- Only the handler of the CL reports publishes. -/
theorem unpublished_program
    (input : ProxyInput)
    {i : ProxyParty}
    (hi : i ≠ .cl) :
    (input.program s i).Forall Unpublished :=
  forall_program s (fun _ h => h.2) (fun _ _ _ _ => nofun) hi

end Handlers

section Promises

variable {tr : List QueueEvent}

def proxyCall : QueueCall → Option ProxyCall
  | ⟨.proxy op, r⟩ => some ⟨op, r⟩
  | _ => none

def receivedEvent : QueueCall → Option BlockArrival
  | ⟨.receive, ev⟩ => some ev
  | _ => none

def composedEvent : QueueCall → Option BlockArrival
  | ⟨.compose ev, _⟩ => some ev
  | _ => none

/-- What the handler of the CL has called. -/
def clCalls (tr : List QueueEvent) : List ProxyCall :=
  (callsOf (.handler .cl) tr).filterMap proxyCall

/-- What the worker has taken from the queue. -/
def receivedBy (tr : List QueueEvent) : List BlockArrival :=
  (callsOf .worker tr).filterMap receivedEvent

/-- What the worker has composed. -/
def composedBy (tr : List QueueEvent) : List BlockArrival :=
  (callsOf .worker tr).filterMap composedEvent

/-- What the goroutines promise about their operations. -/
def Promise : QueueParty → List QueueCall → QueueOp → Prop
  | .handler i, calls, .proxy op =>
      (i = .cl → AfterArrival (calls.filterMap proxyCall) op) ∧ (i ≠ .cl → Unpublished op)
  | .worker, calls, .receive =>
      calls.filterMap receivedEvent = calls.filterMap composedEvent
  | .worker, calls, .compose ev =>
      calls.filterMap receivedEvent = calls.filterMap composedEvent ++ [ev]
  | .records, _, .expireRecord _ => True
  | _, _, _ => False

theorem filterMap_proxyCall_rename
    (calls : List ProxyCall) :
    (calls.map (Call.rename QueueOp.proxy)).filterMap proxyCall = calls := by
  rw [List.filterMap_map]
  exact List.filterMap_some

theorem promise_worker
    (n : Nat)
    (calls : List QueueCall)
    (h : calls.filterMap receivedEvent = calls.filterMap composedEvent) :
    (blockEventsWorker n).Along (Promise .worker)
      (fun calls' _ => calls'.filterMap receivedEvent = calls'.filterMap composedEvent)
      calls := by
  induction n generalizing calls with
  | zero => exact h
  | succ n ih =>
      refine ⟨h, fun ev => ⟨?_, fun _ => ih _ ?_⟩⟩
      · simp only [Promise, List.filterMap_append, h, List.append_assoc]
        rfl
      · simp only [List.filterMap_append, h, List.append_assoc]
        rfl

theorem promise_program
    (s : ProxyService)
    (input : QueueInput)
    (i : QueueParty) :
    (input.program s i).Along (Promise i) (fun _ _ => True) [] := by
  cases i with
  | handler i =>
      have halong : (input.messages.program s i).Along
          (fun calls op => (i = .cl → AfterArrival calls op) ∧ (i ≠ .cl → Unpublished op))
          (fun _ _ => True) [] := by
        by_cases hi : i = .cl
        · subst hi
          exact (afterArrival_handleMessagesFromCL s input.messages.clMessages []).imp
            fun calls op h => ⟨fun _ => h, fun hne => absurd rfl hne⟩
        · exact Forall.along (unpublished_program s input.messages hi)
            fun calls op h => ⟨fun heq => absurd heq hi, fun _ => h⟩
      refine Along.rename (h := []) (halong.imp ?_)
      intro calls op h
      simp only [Promise]
      rwa [filterMap_proxyCall_rename]
  | worker => exact (promise_worker input.rounds [] rfl).mono fun _ _ _ => trivial
  | records =>
      unfold QueueInput.program
      generalize ([] : List QueueCall) = calls
      induction input.expiries generalizing calls with
      | nil => exact trivial
      | cons slot slots ih => exact ⟨trivial, fun _ => ih _⟩

end Promises

section Order

variable {svc : Service} {s : ProxyService} {input : QueueInput}
variable {tr : List QueueEvent} {q : QueueState} {a : GossipsubGateway.BlockArrival}
variable {q' : QueueState} {e : QueueEvent}

/-- An arrival, as opposed to a publish. -/
def BlockArrival.isArrival (ev : BlockArrival) : Bool :=
  ev.source.isSome && !ev.isPublish

theorem isArrival_arrivalEvent
    (a : GossipsubGateway.BlockArrival) :
    (arrivalEvent a).isArrival = true := by
  rfl

theorem arrivalEvent_unpublished
    (a : GossipsubGateway.BlockArrival) :
    ¬ (arrivalEvent a).publishedAt > 0 := by
  change ¬ (0 : Int64) > 0
  decide

/-- The events in the order in which they were taken into the queue. -/
def line (tr : List QueueEvent) (q : QueueState) : List BlockArrival :=
  receivedBy tr ++ q.blockEvents

/-- The arrival that the CL handler had reported last when it reported the publish. -/
def TriggeredBy
    (tr : List QueueEvent)
    (p : BlockArrival)
    (a : GossipsubGateway.BlockArrival) : Prop :=
  a.source = .libP2P ∧ a.slot = p.slot ∧
    ∃ before after, clCalls tr =
        before ++ ⟨.recordMumPublishedAt p.slot p.publishedAt, ()⟩ :: after ∧
      latestArrival before = some a

/-- No arrival from libp2p is offered to a full queue. -/
def ArrivalsFit (c : QueueConfig) (e : QueueEvent) : Prop :=
  ∀ a, e.op = .proxy (.handleBeaconBlock a) → a.source = .libP2P →
    c.state.blockEvents.length < blockEventsCap

/-- Arrivals of the CL are in line, and publishes stand behind their arrivals. -/
structure InLine (svc : Service) (tr : List QueueEvent) (q : QueueState) : Prop where
  arrivals :
    svc.telemetryEnable = true →
      ∀ a, ⟨.handleBeaconBlock a, ()⟩ ∈ clCalls tr → a.source = .libP2P →
        arrivalEvent a ∈ line tr q
  publishes :
    ∀ before p, before ++ [p] <+: line tr q → p.isArrival = false →
      ∃ a, TriggeredBy tr p a ∧ arrivalEvent a ∈ before

theorem clCalls_append
    (tr tr' : List QueueEvent) :
    clCalls (tr ++ tr') = clCalls tr ++ clCalls tr' := by
  rw [clCalls, callsOf_append, List.filterMap_append]
  rfl

theorem TriggeredBy.mono
    {p : BlockArrival}
    (h : TriggeredBy tr p a)
    (tr' : List QueueEvent) :
    TriggeredBy (tr ++ tr') p a := by
  obtain ⟨hsource, hslot, before, after, hcalls, hlatest⟩ := h
  refine ⟨hsource, hslot, before, after ++ clCalls tr', ?_, hlatest⟩
  rw [clCalls_append, hcalls, List.append_assoc, List.cons_append]

theorem arrivalOf_eq_some_iff
    {op : ProxyOp} :
    arrivalOf op = some a ↔ op = .handleBeaconBlock a := by
  constructor
  · intro h
    cases op with
    | handleBeaconBlock b => rw [Option.some.inj h]
    | _ => cases h
  · rintro rfl
    rfl

theorem mem_of_latestArrival
    {calls : List ProxyCall}
    (h : latestArrival calls = some a) :
    ⟨.handleBeaconBlock a, ()⟩ ∈ calls := by
  induction calls using List.reverseRecOn with
  | nil => cases h
  | append_singleton calls c ih =>
      rw [latestArrival_concat] at h
      obtain ⟨op, r⟩ := c
      cases hop : arrivalOf op with
      | none =>
          rw [hop, Option.none_or] at h
          exact List.mem_append_left _ (ih h)
      | some b =>
          rw [hop, Option.some_or] at h
          obtain rfl := Option.some.inj h
          obtain rfl := arrivalOf_eq_some_iff.mp hop
          exact List.mem_append_right _ (List.mem_singleton.mpr rfl)

theorem InLine.keep
    (h : InLine svc tr q)
    (hline : line (tr ++ [e]) q' = line tr q)
    (hcalls : svc.telemetryEnable = true → ∀ a,
      (⟨.handleBeaconBlock a, ()⟩ : ProxyCall) ∈ clCalls [e] →
        a.source ≠ .libP2P) :
    InLine svc (tr ++ [e]) q' where
  arrivals henabled a ha hsource := by
    rw [clCalls_append] at ha
    rw [hline]
    rcases List.mem_append.mp ha with hold | hnew
    · exact h.arrivals henabled a hold hsource
    · exact absurd hsource (hcalls henabled a hnew)
  publishes before p hbefore hp := by
    rw [hline] at hbefore
    obtain ⟨a, htrigger, hmem⟩ := h.publishes before p hbefore hp
    exact ⟨a, htrigger.mono [e], hmem⟩

theorem InLine.push
    {ev : BlockArrival}
    (h : InLine svc tr q)
    (hline : line (tr ++ [e]) q' = line tr q ++ [ev])
    (hcalls : ∀ a, (⟨.handleBeaconBlock a, ()⟩ : ProxyCall) ∈ clCalls [e] →
      ev = arrivalEvent a)
    (htrigger : ev.isArrival = false →
      ∃ a, TriggeredBy (tr ++ [e]) ev a ∧ arrivalEvent a ∈ line tr q) :
    InLine svc (tr ++ [e]) q' where
  arrivals henabled a ha hsource := by
    rw [clCalls_append] at ha
    rw [hline]
    rcases List.mem_append.mp ha with hold | hnew
    · exact List.mem_append_left _ (h.arrivals henabled a hold hsource)
    · exact List.mem_append_right _ (List.mem_singleton.mpr (hcalls a hnew).symm)
  publishes before p hbefore hp := by
    rw [hline] at hbefore
    rcases List.prefix_concat_iff.mp hbefore with heq | hold
    · obtain ⟨rfl, hev⟩ := List.append_inj' heq rfl
      obtain rfl : p = ev := List.singleton_inj.mp hev
      exact htrigger hp
    · obtain ⟨a, htrig, hmem⟩ := h.publishes before p hold hp
      exact ⟨a, htrig.mono [e], hmem⟩

theorem clCalls_proxy
    (j : ProxyParty)
    (op : ProxyOp)
    (r : op.Ans) :
    clCalls [⟨.handler j, .proxy op, r⟩] = if j = .cl then [⟨op, r⟩] else [] := by
  rw [clCalls, callsOf_singleton]
  by_cases hj : j = .cl
  · subst hj
    rfl
  · rw [if_neg (fun h => hj (QueueParty.handler.inj h)), if_neg hj]
    rfl

theorem clCalls_other
    (h : e.thread ≠ .handler .cl) :
    clCalls [e] = [] := by
  rw [clCalls, callsOf_singleton, if_neg h]
  rfl

theorem line_other
    (tr : List QueueEvent)
    (e : QueueEvent)
    (q' : QueueState)
    (h : e.thread ≠ .worker) :
    line (tr ++ [e]) q' = receivedBy tr ++ q'.blockEvents := by
  rw [line, receivedBy, callsOf_append, callsOf_singleton, if_neg h, List.append_nil]
  rfl

/-- Only arrivals and publishes are offered. -/
theorem offered_silent
    {op : ProxyOp}
    (h : Silent op)
    (queue : List BlockArrival) :
    offered svc op queue = queue := by
  cases op with
  | handleBeaconBlock a => cases h.1
  | recordMumPublishedAt slot publishedAt => exact absurd rfl (h.2 slot publishedAt)
  | _ => rfl

theorem enqueueBlockEvent_eq
    (ev : BlockArrival)
    (queue : List BlockArrival) :
    enqueueBlockEvent ev queue = queue ∨ enqueueBlockEvent ev queue = queue ++ [ev] := by
  unfold enqueueBlockEvent
  split
  · exact Or.inr rfl
  · exact Or.inl rfl

theorem mem_clCalls_arrival
    {j : ProxyParty} {b : GossipsubGateway.BlockArrival}
    (h : ⟨.handleBeaconBlock b, ()⟩ ∈
      clCalls [⟨.handler j, .proxy (.handleBeaconBlock a), ()⟩]) :
    b = a := by
  rw [clCalls_proxy] at h
  split at h
  · cases List.mem_singleton.mp h
    rfl
  · cases h

theorem InLine.arrival
    {j : ProxyParty}
    (h : InLine svc tr q)
    (hfit : a.source = .libP2P → q.blockEvents.length < blockEventsCap)
    (hq' : q'.blockEvents = handleBeaconBlock svc a q.blockEvents) :
    InLine svc (tr ++ [⟨.handler j, .proxy (.handleBeaconBlock a), ()⟩]) q' := by
  have hline := line_other tr ⟨.handler j, .proxy (.handleBeaconBlock a), ()⟩ q' nofun
  rw [hq', handleBeaconBlock] at hline
  by_cases henabled : svc.telemetryEnable = true
  · rw [if_pos henabled, enqueueBlockEvent] at hline
    by_cases hroom : q.blockEvents.length < blockEventsCap
    · rw [if_pos hroom, ← List.append_assoc] at hline
      refine h.push hline ?_ ?_
      · intro b hb
        rw [mem_clCalls_arrival hb]
      · intro hnot
        rw [isArrival_arrivalEvent] at hnot
        cases hnot
    · rw [if_neg hroom] at hline
      refine h.keep hline ?_
      intro _ b hb hsource
      rw [mem_clCalls_arrival hb] at hsource
      exact hroom (hfit hsource)
  · rw [if_neg henabled] at hline
    exact h.keep hline fun h => absurd h henabled

theorem InLine.publish
    {slot : UInt64} {publishedAt : Int64}
    (h : InLine svc tr q)
    (harrived : ArrivedFromCL (clCalls tr) slot)
    (hq' : q'.blockEvents = recordMumPublishedAt svc slot publishedAt q.blockEvents) :
    InLine svc (tr ++ [⟨.handler .cl, .proxy (.recordMumPublishedAt slot publishedAt), ()⟩])
      q' := by
  have hline := line_other tr
    ⟨.handler .cl, .proxy (.recordMumPublishedAt slot publishedAt), ()⟩ q' nofun
  have hcalls := clCalls_proxy .cl (.recordMumPublishedAt slot publishedAt) ()
  rw [if_pos rfl] at hcalls
  have hnone : ∀ a, (⟨.handleBeaconBlock a, ()⟩ : ProxyCall) ∉
      clCalls [⟨.handler .cl, .proxy (.recordMumPublishedAt slot publishedAt), ()⟩] := by
    intro a ha
    rw [hcalls] at ha
    cases List.mem_singleton.mp ha
  rw [hq', recordMumPublishedAt] at hline
  split at hline
  · exact h.keep hline fun _ a ha => absurd ha (hnone a)
  · rename_i hreport
    rcases enqueueBlockEvent_eq { slot := slot, publishedAt := publishedAt }
      q.blockEvents with hfull | hroom
    · rw [hfull] at hline
      exact h.keep hline fun _ a ha => absurd ha (hnone a)
    · rw [hroom, ← List.append_assoc] at hline
      refine h.push hline (fun a ha => absurd ha (hnone a)) ?_
      intro _
      obtain ⟨a, hlatest, hsource, hslot⟩ := harrived
      have henabled : svc.telemetryEnable = true := by
        cases henabled : svc.telemetryEnable with
        | true => rfl
        | false => simp [henabled] at hreport
      refine ⟨a, ⟨hsource, hslot, clCalls tr, [], ?_, hlatest⟩,
        h.arrivals henabled a (mem_of_latestArrival hlatest) hsource⟩
      rw [clCalls_append, hcalls]

theorem InLine.other
    {i : QueueParty} {o : QueueOp} {r : o.Ans}
    (h : InLine svc tr q)
    (hi : i ≠ .handler .cl)
    (hline : line (tr ++ [⟨i, o, r⟩]) q' = line tr q) :
    InLine svc (tr ++ [⟨i, o, r⟩]) q' := by
  refine h.keep hline ?_
  intro _ a ha
  rw [clCalls_other hi] at ha
  cases ha

theorem InLine.step
    {c : QueueConfig} {i : QueueParty} {o : QueueOp} {r : o.Ans}
    (h : InLine svc tr c.state)
    (hfit : ArrivalsFit c ⟨i, o, r⟩)
    (hpromise : Promise i (callsOf i tr) o)
    (hsem : queueSem svc o c.state r q') :
    InLine svc (tr ++ [⟨i, o, r⟩]) q' := by
  cases o with
  | proxy op =>
      cases i with
      | worker | records => exact hpromise.elim
      | handler j =>
          obtain ⟨-, hq', -⟩ := hsem
          by_cases hsilent : Silent op
          · have hline := line_other tr ⟨.handler j, .proxy op, r⟩ q' nofun
            rw [hq', offered_silent hsilent] at hline
            refine h.keep hline ?_
            intro _ a ha
            rw [clCalls_proxy] at ha
            split at ha
            · cases List.mem_singleton.mp ha
              cases hsilent.1
            · cases ha
          · cases op with
            | handleBeaconBlock a => exact h.arrival (fun hsource => hfit a rfl hsource) hq'
            | recordMumPublishedAt slot publishedAt =>
                obtain rfl : j = .cl := by
                  by_contra hj
                  exact hpromise.2 hj slot publishedAt rfl
                exact h.publish (hpromise.1 rfl slot publishedAt rfl) hq'
            | _ => exact absurd ⟨rfl, nofun⟩ hsilent
  | receive =>
      cases i with
      | handler j | records => exact hpromise.elim
      | worker =>
          obtain ⟨hqueue, -, -⟩ := hsem
          refine h.other nofun ?_
          rw [line, receivedBy, callsOf_append, List.filterMap_append, List.append_assoc, line,
            hqueue]
          rfl
  | compose ev =>
      cases i with
      | handler j | records => exact hpromise.elim
      | worker =>
          refine h.other nofun ?_
          rw [line, receivedBy, callsOf_append, List.filterMap_append, hsem]
          exact congrArg (· ++ c.state.blockEvents) (List.append_nil _)
  | expireRecord slot =>
      cases i with
      | handler j | worker => exact hpromise.elim
      | records =>
          refine h.other nofun ?_
          rw [line_other _ _ _ (by simp), hsem]
          rfl

/-- Publishes stand behind their arrivals, all along a run. -/
theorem inLine_of_run
    {d : QueueConfig}
    (hempty : q.blockEvents = [])
    (hrun : Run (queueSem svc) ArrivalsFit (input.config s q) tr d) :
    InLine svc tr d.state := by
  refine hrun.guarded_invariant (promise_program s input) ?_ ?_
  · constructor
    · intro _ a ha
      cases ha
    · intro before p hbefore
      have hnil : line [] q = [] := hempty
      change before ++ [p] <+: line [] q at hbefore
      rw [hnil] at hbefore
      simp at hbefore
  · intro tr c i o r q' h hfit hpromise hsem
    exact h.step hfit hpromise hsem

/-- A publish that is composed finds its arrival composed. -/
theorem composed_before
    {d : QueueConfig} {before after : List QueueEvent} {p : BlockArrival}
    (hempty : q.blockEvents = [])
    (hrun : Run (queueSem svc) ArrivalsFit (input.config s q)
      (before ++ ⟨.worker, .compose p, ()⟩ :: after) d)
    (hp : p.isArrival = false) :
    ∃ a, TriggeredBy before p a ∧ arrivalEvent a ∈ composedBy before := by
  obtain ⟨m, hfront, hrest⟩ := hrun.split
  obtain ⟨m', -, hstep, -⟩ := hrest.of_cons
  have hline := inLine_of_run hempty hfront
  have halong := hfront.along (i := .worker) (promise_program s input .worker)
  cases hstep with
  | thread hprog hsem =>
      rw [hprog] at halong
      have hreceived : receivedBy before = composedBy before ++ [p] := halong.1
      obtain ⟨a, htrigger, hmem⟩ := hline.publishes (composedBy before) p (by
        rw [line, hreceived]
        exact List.prefix_append _ _) hp
      exact ⟨a, htrigger, hmem⟩

end Order

section Records

variable {svc : Service} {s : ProxyService} {input : QueueInput}
variable {tr : List QueueEvent} {q : QueueState} {slot : UInt64}
variable {own : List BlockArrival} {r : LatencyComparator} {ev : BlockArrival} {d : QueueConfig}

/-- The record has the Ethereum arrival of one of the events. -/
def HasEthArrival (own : List BlockArrival) (r : LatencyComparator) : Prop :=
  ∃ a ∈ own, a.arrivesFrom .libP2P = true ∧ r.ethSeenAtMs = a.recvAt ∧
    r.ethUpstreamPeerID = a.upstreamPeerID

/-- What only the creation by an arrival sets. -/
def CreatedFor (svc : Service) (first : BlockArrival) (r : LatencyComparator) : Prop :=
  r.validatorIndex = first.proposerIndex ∧ r.blockSize = first.blockSize ∧
    r.gatewayPeerID = svc.nodeMumP2PStr

/-- Where the fields of a record come from. -/
structure Sourced (svc : Service) (own : List BlockArrival) (r : LatencyComparator) : Prop where
  created :
    ∃ first rest, own = first :: rest ∧ (first.isArrival = true → CreatedFor svc first r)
  eth : (r.ethSeenAtMs ≠ 0 ∨ ∃ a ∈ own, a.arrivesFrom .libP2P = true) → HasEthArrival own r
  published : r.mumPublishedAtMs ≠ 0 → ∃ p ∈ own, p.isPublish = true

theorem HasEthArrival.concat
    {r' : LatencyComparator}
    (h : HasEthArrival own r)
    (hseen : r'.ethSeenAtMs = r.ethSeenAtMs)
    (hpeer : r'.ethUpstreamPeerID = r.ethUpstreamPeerID) :
    HasEthArrival (own ++ [ev]) r' := by
  obtain ⟨a, ha, hfrom, hseen', hpeer'⟩ := h
  exact ⟨a, List.mem_append_left _ ha, hfrom, hseen.trans hseen', hpeer.trans hpeer'⟩

/-- An update that is no libp2p arrival leaves the Ethereum fields alone. -/
theorem Sourced.concat_of_eth_eq
    {r' : LatencyComparator}
    (h : Sourced svc own r)
    (hnot : ev.arrivesFrom .libP2P = false)
    (hcreated : ∀ first, CreatedFor svc first r → CreatedFor svc first r')
    (hseen : r'.ethSeenAtMs = r.ethSeenAtMs)
    (hpeer : r'.ethUpstreamPeerID = r.ethUpstreamPeerID)
    (hpublished : r'.mumPublishedAtMs = r.mumPublishedAtMs ∨ ev.isPublish = true) :
    Sourced svc (own ++ [ev]) r' where
  created := by
    obtain ⟨first, rest, rfl, hfirst⟩ := h.created
    exact ⟨first, rest ++ [ev], rfl, fun harrival => hcreated first (hfirst harrival)⟩
  eth hsome := by
    refine (h.eth ?_).concat hseen hpeer
    rcases hsome with hne | ⟨a, ha, hfrom⟩
    · exact Or.inl (by rwa [hseen] at hne)
    · rcases List.mem_append.mp ha with hold | hnew
      · exact Or.inr ⟨a, hold, hfrom⟩
      · rw [List.mem_singleton.mp hnew, hnot] at hfrom
        cases hfrom
  published hne := by
    rcases hpublished with heq | hpub
    · rw [heq] at hne
      obtain ⟨p, hp, his⟩ := h.published hne
      exact ⟨p, List.mem_append_left _ hp, his⟩
    · exact ⟨ev, by simp, hpub⟩

theorem Sourced.concat_libP2P
    (h : Sourced svc own r)
    (hpub : ¬ ev.publishedAt > 0)
    (hsource : ev.source = some .libP2P) :
    Sourced svc (own ++ [ev]) (composed svc ev (some r)) := by
  obtain ⟨-, hfrom, -⟩ := arrival_kind hpub hsource
  rw [composed_libP2P hpub hsource]
  refine ⟨?_, ?_, ?_⟩
  · obtain ⟨first, rest, rfl, hfirst⟩ := h.created
    exact ⟨first, rest ++ [ev], rfl, hfirst⟩
  · intro _
    by_cases hzero : r.ethSeenAtMs = 0
    · simp only [hzero, if_true]
      exact ⟨ev, by simp, hfrom, rfl, rfl⟩
    · simp only [hzero, if_false]
      exact (h.eth (Or.inl hzero)).concat rfl rfl
  · intro hne
    obtain ⟨p, hp, his⟩ := h.published hne
    exact ⟨p, List.mem_append_left _ hp, his⟩

theorem Sourced.concat
    (h : Sourced svc own r) :
    Sourced svc (own ++ [ev]) (composed svc ev (some r)) := by
  by_cases hpub : ev.publishedAt > 0
  · obtain ⟨his, hfrom, -, -⟩ := publish_kind hpub
    rw [composed_publish hpub]
    exact h.concat_of_eth_eq (hfrom _) (fun _ hcreated => hcreated) rfl rfl (Or.inr his)
  · cases hsource : ev.source with
    | none =>
        have hfrom : ev.arrivesFrom .libP2P = false := by
          simp [BlockArrival.arrivesFrom, hsource]
        have hcomposed : composed svc ev (some r) = { r with chainID := svc.appChainID } := by
          rw [composed, if_neg hpub, Option.map_some, Option.getD_some, updateOnArrival, hsource]
        rw [hcomposed]
        exact h.concat_of_eth_eq hfrom (fun _ hcreated => hcreated) rfl rfl (Or.inl rfl)
    | some src =>
        cases src with
        | libP2P => exact h.concat_libP2P hpub hsource
        | mumP2P =>
            obtain ⟨-, -, hnot⟩ := arrival_kind hpub hsource
            rw [composed_mumP2P hpub hsource]
            exact h.concat_of_eth_eq (hnot .libP2P (by decide)) (fun _ hcreated => hcreated)
              rfl rfl (Or.inl rfl)

theorem Sourced.first :
    Sourced svc [ev] (composed svc ev none) := by
  by_cases hpub : ev.publishedAt > 0
  · obtain ⟨his, hfrom, -, -⟩ := publish_kind hpub
    rw [composed, if_pos hpub]
    refine ⟨⟨ev, [], rfl, ?_⟩, ?_, fun _ => ⟨ev, by simp, his⟩⟩
    · intro harrival
      simp [BlockArrival.isArrival, his] at harrival
    · rintro (hne | ⟨a, ha, hsome⟩)
      · exact absurd rfl hne
      · rw [List.mem_singleton.mp ha, hfrom] at hsome
        cases hsome
  · rw [composed, if_neg hpub, Option.map_none, Option.getD_none]
    refine ⟨⟨ev, [], rfl, fun _ => ?_⟩, ?_, ?_⟩
    · unfold createdByArrival
      split <;> exact ⟨rfl, rfl, rfl⟩
    · cases hsource : ev.source with
      | none => simp [createdByArrival, hsource, BlockArrival.arrivesFrom]
      | some src =>
          obtain ⟨-, hfrom, hnot⟩ := arrival_kind hpub hsource
          cases src with
          | libP2P =>
              intro _
              exact ⟨ev, by simp, hfrom, by simp [createdByArrival, hsource],
                by simp [createdByArrival, hsource]⟩
          | mumP2P => simp [createdByArrival, hsource, hnot .libP2P (by decide)]
    · cases hsource : ev.source with
      | none => simp [createdByArrival, hsource]
      | some src => cases src <;> simp [createdByArrival, hsource]

/-- There is a record as soon as an event of the slot was composed. -/
def Accounted (svc : Service) (own : List BlockArrival) : Option LatencyComparator → Prop
  | none => own = []
  | some r => Sourced svc own r

theorem Accounted.concat
    {record : Option LatencyComparator}
    (h : Accounted svc own record) :
    Accounted svc (own ++ [ev]) (some (composed svc ev record)) := by
  cases record with
  | none =>
      obtain rfl : own = [] := h
      exact Sourced.first
  | some r => exact Sourced.concat h

theorem composedBy_concat
    (i : QueueParty)
    (o : QueueOp)
    (r : o.Ans) :
    composedBy (tr ++ [⟨i, o, r⟩]) =
      composedBy tr ++ if i = .worker then (composedEvent ⟨o, r⟩).toList else [] := by
  rw [composedBy, callsOf_append, List.filterMap_append, callsOf_singleton]
  by_cases hi : i = .worker
  · rw [if_pos hi, if_pos hi]
    cases hev : composedEvent ⟨o, r⟩ <;> simp [Event.call, hev, composedBy]
  · rw [if_neg hi, if_neg hi]
    rfl

/-- While the record of a slot does not expire, it is made of the slot's events. -/
theorem accounted_of_run
    {G : QueueConfig → QueueEvent → Prop}
    (hnew : q.telemetry.trackedSlots.lookup slot = none)
    (hrun : Run (queueSem svc) G (input.config s q) tr d)
    (hlives : ∀ i, ⟨i, .expireRecord slot, ()⟩ ∉ tr) :
    Accounted svc (ownEvents slot (composedBy tr))
      (d.state.telemetry.trackedSlots.lookup slot) := by
  have hguarded : Run (queueSem svc) (fun _ e => e.op ≠ .expireRecord slot) (input.config s q)
      tr d := by
    refine hrun.guarded ?_
    rintro a ⟨i, o, r⟩ b m rfl - rfl
    exact hlives i (List.mem_append_right _ List.mem_cons_self)
  refine hguarded.guarded_invariant (promise_program s input) (I := fun tr q' =>
    Accounted svc (ownEvents slot (composedBy tr)) (q'.telemetry.trackedSlots.lookup slot)) ?_ ?_
  · change Accounted svc [] (q.telemetry.trackedSlots.lookup slot)
    rw [hnew]
    rfl
  · intro tr c i o r q' h hguard hpromise hsem
    rw [composedBy_concat, ownEvents_append]
    -- only the worker's compositions count
    have hkeep : q'.telemetry.trackedSlots.lookup slot =
          c.state.telemetry.trackedSlots.lookup slot →
        composedEvent ⟨o, r⟩ = none →
        Accounted svc (ownEvents slot (composedBy tr) ++ ownEvents slot
          (if i = .worker then (composedEvent ⟨o, r⟩).toList else []))
          (q'.telemetry.trackedSlots.lookup slot) := by
      intro hrecord hnone
      have hnil : ownEvents slot
          (if i = .worker then (composedEvent ⟨o, r⟩).toList else []) = [] := by
        rw [hnone, Option.toList_none, ite_self]
        rfl
      rw [hrecord, hnil, List.append_nil]
      exact h
    cases o with
    | proxy op | receive => exact hkeep (by rw [hsem.2.2]) rfl
    | compose ev =>
        obtain rfl : i = .worker := by
          cases i with
          | worker => rfl
          | handler j | records => exact hpromise.elim
        have hcomposed : (if QueueParty.worker = .worker then
            (composedEvent ⟨.compose ev, r⟩).toList else []) = [ev] := rfl
        rw [hcomposed, hsem, lookup_handleBlockEvent]
        by_cases hslot : slot = ev.slot
        · subst hslot
          rw [if_pos rfl, ownEvents_self]
          exact h.concat
        · rw [if_neg hslot, ownEvents_other hslot, List.append_nil]
          exact h
    | expireRecord other =>
        have hother : slot ≠ other := by
          rintro rfl
          exact hguard rfl
        exact hkeep (by rw [hsem, AList.lookup_erase_ne hother]) rfl

/-- A record with a publish time has the proposer index, the block size and the gateway's peer
of an arrival of its slot, and the Ethereum arrival of one. -/
def Complete
    (svc : Service)
    (slot : UInt64)
    (events : List BlockArrival)
    (r : LatencyComparator) : Prop :=
  (∃ first ∈ ownEvents slot events, first.isArrival = true ∧ CreatedFor svc first r) ∧
    HasEthArrival (ownEvents slot events) r

/-- The worker composes what it has taken, in that order. -/
theorem composedBy_isPrefix
    {G : QueueConfig → QueueEvent → Prop}
    (hrun : Run (queueSem svc) G (input.config s q) tr d) :
    composedBy tr <+: line tr d.state := by
  have halong := hrun.along (i := .worker) (promise_worker input.rounds [] rfl)
  have hreceived : composedBy tr <+: receivedBy tr := by
    refine halong.here (K := fun calls =>
      calls.filterMap composedEvent <+: calls.filterMap receivedEvent) ?_ ?_
    · intro o hpromise
      cases o with
      | proxy op | expireRecord slot => exact hpromise.elim
      | receive => rw [hpromise]
      | compose ev =>
          rw [hpromise]
          exact List.prefix_append _ _
    · intro _ heq
      rw [heq]
  exact hreceived.trans (List.prefix_append _ _)

/-- Before an event that is no arrival, an arrival of its slot from libp2p was composed. -/
theorem arrival_before
    {before after : List BlockArrival} {p : BlockArrival}
    (hempty : q.blockEvents = [])
    (hrun : Run (queueSem svc) ArrivalsFit (input.config s q) tr d)
    (hcomposed : composedBy tr = before ++ p :: after)
    (hp : p.isArrival = false) :
    ∃ a ∈ ownEvents p.slot before, a.arrivesFrom .libP2P = true ∧ a.isArrival = true := by
  have hinline : before ++ [p] <+: line tr d.state := by
    refine List.IsPrefix.trans ?_ (composedBy_isPrefix hrun)
    rw [hcomposed]
    exact ⟨after, by simp⟩
  obtain ⟨a, ⟨hsource, hslot, -⟩, hmem⟩ :=
    (inLine_of_run hempty hrun).publishes before p hinline hp
  refine ⟨arrivalEvent a, List.mem_filter.mpr ⟨hmem, beq_iff_eq.mpr hslot⟩, ?_,
    isArrival_arrivalEvent a⟩
  exact (arrival_kind (arrivalEvent_unpublished a) (congrArg some hsource)).2.1

/-- When arrivals fit in the queue, a record with a publish time is complete. -/
theorem complete_of_run
    (hempty : q.blockEvents = [])
    (hnew : q.telemetry.trackedSlots.lookup slot = none)
    (hrun : Run (queueSem svc) ArrivalsFit (input.config s q) tr d)
    (hlives : ∀ i, ⟨i, .expireRecord slot, ()⟩ ∉ tr)
    (hr : d.state.telemetry.trackedSlots.lookup slot = some r)
    (hpublished : r.mumPublishedAtMs ≠ 0) :
    Complete svc slot (composedBy tr) r := by
  have haccounted := accounted_of_run hnew hrun hlives
  rw [hr] at haccounted
  have hsourced : Sourced svc (ownEvents slot (composedBy tr)) r := haccounted
  constructor
  · obtain ⟨first, rest, hown, hcreated⟩ := hsourced.created
    obtain ⟨before, after, hcomposed, hbefore, -⟩ := List.filter_eq_cons_iff.mp hown
    have hslot : first.slot = slot := by
      have hmem : first ∈ ownEvents slot (composedBy tr) := by
        rw [hown]
        exact List.mem_cons_self
      exact beq_iff_eq.mp (List.mem_filter.mp hmem).2
    have harrival : first.isArrival = true := by
      by_contra hnot
      obtain ⟨a, ha, -⟩ := arrival_before hempty hrun hcomposed (Bool.eq_false_iff.mpr hnot)
      obtain ⟨hmem, hown⟩ := List.mem_filter.mp ha
      rw [hslot] at hown
      exact hbefore a hmem hown
    refine ⟨first, ?_, harrival, hcreated harrival⟩
    rw [hown]
    exact List.mem_cons_self
  · obtain ⟨p, hp, his⟩ := hsourced.published hpublished
    obtain ⟨hmem, hslot⟩ := List.mem_filter.mp hp
    obtain rfl : p.slot = slot := beq_iff_eq.mp hslot
    obtain ⟨before, after, hcomposed⟩ := List.append_of_mem hmem
    obtain ⟨a, ha, hfrom, -⟩ := arrival_before hempty hrun hcomposed (by
      rw [BlockArrival.isArrival, his, Bool.not_true, Bool.and_false])
    refine hsourced.eth (Or.inr ⟨a, ?_, hfrom⟩)
    rw [hcomposed, ownEvents_append]
    exact List.mem_append_left _ ha

end Records

section Main

/-- When no arrival from libp2p is offered to a full queue, a publish is composed after the
arrival that triggered it, and a record with a publish time is complete as long as it does
not expire. -/
theorem publish_after_arrival
    (svc : Service)
    (s : ProxyService)
    (input : QueueInput)
    {q : QueueState}
    {tr : List QueueEvent}
    {d : QueueConfig}
    (hempty : q.blockEvents = [])
    (hrun : Run (queueSem svc) ArrivalsFit (input.config s q) tr d) :
    (∀ before p after, tr = before ++ ⟨.worker, .compose p, ()⟩ :: after →
      p.isArrival = false →
        ∃ a, TriggeredBy before p a ∧ arrivalEvent a ∈ composedBy before) ∧
    (∀ slot r, q.telemetry.trackedSlots.lookup slot = none →
      (∀ i, ⟨i, .expireRecord slot, ()⟩ ∉ tr) →
        d.state.telemetry.trackedSlots.lookup slot = some r → r.mumPublishedAtMs ≠ 0 →
          Complete svc slot (composedBy tr) r) := by
  refine ⟨?_, ?_⟩
  · rintro before p after rfl hp
    exact composed_before hempty hrun hp
  · intro slot r hnew hlives hr hpublished
    exact complete_of_run hempty hnew hrun hlives hr hpublished

end Main

section Sample

variable {svc : Service}

def oldSlot : UInt64 := 12345000

/-- A block of an earlier slot. -/
def oldBlock : Bytes :=
  literalSnappy.encode (leBytes 4 100 ++ List.replicate 96 1 ++ putUint64 oldSlot ++
    putUint64 7 ++ List.replicate 96 2)

def oldHeader : SignedBeaconBlockHeader where
  header := ⟨oldSlot, 7, List.replicate 32 2, List.replicate 32 2, none⟩
  signature := List.replicate 96 1

theorem decode_oldBlock :
    decodeBeaconBlockHeader sampleService.lib.snappy oldBlock = .ok oldHeader := by
  exact eq_ok_of_toOption (by decide +kernel)

def oldMessage : P2PMessage :=
  ⟨blockTopic, oldBlock, "16Uiu2HAmOther", "16Uiu2HAmOther"⟩

def oldArrival : GossipsubGateway.BlockArrival :=
  ⟨.mumP2P, oldSlot, 7, oldBlock.length, 900, "16Uiu2HAmOther", "16Uiu2HAmOther"⟩

def clArrival : GossipsubGateway.BlockArrival :=
  ⟨.libP2P, blockSlot, 7, sampleBlock.length, 1000, "", "16Uiu2HAmCLPeer"⟩

def publishEvent : BlockArrival :=
  { slot := blockSlot, publishedAt := 1002 }

/-- What the mesh handler does with a stale block. -/
def oldCalls : List ProxyCall :=
  [⟨.topicSupported blockTopic, true⟩, ⟨.unixMilli, 900⟩, ⟨.lastBlockStore 900, ()⟩,
    ⟨.handleBeaconBlock oldArrival, ()⟩, ⟨.currentSlot, blockSlot⟩]

/-- The arrival of a stale block, and what the mesh handler does with it. -/
def staleArrival
    (msg : P2PMessage)
    (block : SignedBeaconBlockHeader) : GossipsubGateway.BlockArrival :=
  ⟨.mumP2P, block.header.slot, block.header.proposerIndex, msg.message.length, 900,
    msg.sourceNodeID, msg.upstreamPeerID⟩

def staleCalls
    (msg : P2PMessage)
    (block : SignedBeaconBlockHeader) : List ProxyCall :=
  ⟨.topicSupported msg.topic, true⟩ ::
    ((if messageFromSelf sampleService msg then [⟨.skipMessagesFromSelf, false⟩] else []) ++
      [⟨.unixMilli, 900⟩, ⟨.lastBlockStore 900, ()⟩,
        ⟨.handleBeaconBlock (staleArrival msg block), ()⟩, ⟨.currentSlot, blockSlot⟩])

theorem path_staleCalls
    {msg : P2PMessage} {block : SignedBeaconBlockHeader}
    (hblock : (parseTopicMeta msg.topic).isBeaconBlock = true)
    (hdecode : decodeBeaconBlockHeader sampleService.lib.snappy msg.message =
      .ok block)
    (hstale : decide (diffUint64 block.header.slot blockSlot >
      staleSlotThreshold) = true) :
    Path (handleMessageFromMumP2PNode sampleService msg)
      (staleCalls msg block) (.ret ()) := by
  have hstream : ∀ stale, streamObservation sampleService block.header
      msg.topic msg.message 900 .mumP2P stale = .ret () := by
    intro stale
    rfl
  have harrival : Path (processBeaconBlockArrival sampleService msg.topic msg.message 900 .mumP2P
      msg.sourceNodeID msg.upstreamPeerID) [⟨.lastBlockStore 900, ()⟩,
        ⟨.handleBeaconBlock (staleArrival msg block), ()⟩, ⟨.currentSlot, blockSlot⟩]
      (.ret (block.header.slot, false)) := by
    unfold processBeaconBlockArrival
    simp only [hdecode, hstream]
    refine Path.cons (Path.cons (Path.cons ?_))
    show Path (.ret (block.header.slot, !decide (diffUint64 block.header.slot
      blockSlot > staleSlotThreshold))) [] _
    rw [hstale]
    exact Path.nil _
  refine path_measuredBlock hblock ?_ harrival (Path.nil _)
  unfold skipFromSelf
  split
  · exact path_op_ret_iff.mpr rfl
  · exact Path.nil _

theorem path_oldCalls :
    Path (handleMessageFromMumP2PNode sampleService oldMessage) oldCalls
      (.ret ()) := by
  have hcalls : staleCalls oldMessage oldHeader = oldCalls := by
    rfl
  rw [← hcalls]
  exact path_staleCalls isBeaconBlock_blockTopic decode_oldBlock (by decide)

/-- The mesh handler works through stale blocks. -/
def manyOldCalls (n : Nat) : List ProxyCall :=
  (List.replicate n oldCalls).flatten

theorem path_manyOldCalls
    (n : Nat) :
    Path (handleMessagesFromMumP2PNode sampleService
      (List.replicate n oldMessage)) (manyOldCalls n) (.ret ()) := by
  induction n with
  | zero => exact Path.nil _
  | succ n ih => exact path_oldCalls.bind ih

/-- The queue after some calls of a handler. -/
def offeredBy
    (svc : Service)
    (calls : List ProxyCall)
    (queue : List BlockArrival) : List BlockArrival :=
  calls.foldl (fun queue c => offered svc c.1 queue) queue

theorem exec_rename
    {caches caches' : ProxyState} {calls : List ProxyCall}
    (svc : Service)
    (queue : List BlockArrival)
    (t : Telemetry)
    (h : Exec proxySem caches calls caches') :
    Exec (queueSem svc) ⟨caches, queue, t⟩ (calls.map (Call.rename QueueOp.proxy))
      ⟨caches', offeredBy svc calls queue, t⟩ := by
  induction h generalizing queue with
  | nil s => exact Exec.nil _
  | @cons a b c o r l head tail ih =>
      exact Exec.cons (t := ⟨b, offered svc o queue, t⟩) ⟨head, rfl, rfl⟩ (ih _)

theorem exec_manyOldCalls
    (n : Nat) :
    Exec proxySem emptyCaches (manyOldCalls n) emptyCaches := by
  induction n with
  | zero => exact Exec.nil _
  | succ n ih =>
      exact Exec.cons rfl (Exec.cons rfl (Exec.cons rfl (Exec.cons rfl (Exec.cons rfl ih))))

theorem offeredBy_append
    (calls calls' : List ProxyCall)
    (queue : List BlockArrival) :
    offeredBy svc (calls ++ calls') queue = offeredBy svc calls' (offeredBy svc calls queue) := by
  exact List.foldl_append ..

/-- Stale blocks fill the queue. -/
theorem offeredBy_manyOldCalls
    (henabled : svc.telemetryEnable = true)
    {n : Nat}
    (hn : n ≤ blockEventsCap) :
    offeredBy svc (manyOldCalls n) [] = List.replicate n (arrivalEvent oldArrival) := by
  have hqueue : ∀ (n k : Nat), k + n ≤ blockEventsCap →
      offeredBy svc (manyOldCalls n) (List.replicate k (arrivalEvent oldArrival)) =
        List.replicate (k + n) (arrivalEvent oldArrival) := by
    intro n
    induction n with
    | zero =>
        intro k _
        rfl
    | succ n ih =>
        intro k hk
        have hroom : k < blockEventsCap := by omega
        have hone : offeredBy svc oldCalls (List.replicate k (arrivalEvent oldArrival)) =
            List.replicate (k + 1) (arrivalEvent oldArrival) := by
          show handleBeaconBlock svc oldArrival
            (List.replicate k (arrivalEvent oldArrival)) = _
          rw [handleBeaconBlock, if_pos henabled, enqueueBlockEvent,
            if_pos (by rw [List.length_replicate]; exact hroom), List.replicate_succ']
        have hsplit : manyOldCalls (n + 1) = oldCalls ++ manyOldCalls n := rfl
        rw [hsplit, offeredBy_append, hone, ih (k + 1) (by omega)]
        congr 1
        omega
  have hall := hqueue n 0 (by omega)
  rwa [Nat.zero_add] at hall

/-- What the worker does with events. -/
def drainCalls (events : List BlockArrival) : List QueueCall :=
  events.flatMap fun ev => [⟨.receive, ev⟩, ⟨.compose ev, ()⟩]

theorem path_drainCalls
    (events : List BlockArrival)
    (m : Nat) :
    Path (blockEventsWorker (events.length + m)) (drainCalls events) (blockEventsWorker m) := by
  induction events with
  | nil =>
      rw [List.length_nil, Nat.zero_add]
      exact Path.nil _
  | cons ev events ih =>
      rw [List.length_cons, Nat.add_right_comm]
      exact Path.cons (Path.cons ih)

theorem exec_drainCalls
    (svc : Service)
    (caches : ProxyState)
    (events rest : List BlockArrival)
    (t : Telemetry) :
    Exec (queueSem svc) ⟨caches, events ++ rest, t⟩ (drainCalls events)
      ⟨caches, rest, bgHandleBlockEvents svc t events⟩ := by
  induction events generalizing t with
  | nil => exact Exec.nil _
  | cons ev events ih =>
      have hreceive : queueSem svc .receive ⟨caches, ev :: events ++ rest, t⟩ ev
          ⟨caches, events ++ rest, t⟩ := ⟨rfl, rfl, rfl⟩
      have hcompose : queueSem svc (.compose ev) ⟨caches, events ++ rest, t⟩ ()
          ⟨caches, events ++ rest, handleBlockEvent svc t ev⟩ := rfl
      exact Exec.cons hreceive (Exec.cons hcompose (ih _))

/-- The worker has nothing composed and nothing to compose. -/
def emptyQueue : QueueState where
  caches := emptyCaches
  blockEvents := []
  telemetry := noTelemetry

/-- Stale blocks from the mesh and one block from the CL. -/
def blocksInput (stale rounds : Nat) : QueueInput where
  messages := ⟨[clBlock], List.replicate stale oldMessage, [], []⟩
  rounds := rounds
  expiries := []

def aloneIn (i : QueueParty) (calls : List QueueCall) : List QueueEvent :=
  calls.map fun x => ⟨i, x.1, x.2⟩

def handlerCalls (calls : List ProxyCall) : List QueueCall :=
  calls.map (Call.rename QueueOp.proxy)

/-- One block from the mesh, which is reported as stale and composed. -/
def oneBlockInput (msg : P2PMessage) : QueueInput where
  messages := ⟨[], [msg], [], []⟩
  rounds := 1
  expiries := []

def oneBlockTrace
    (msg : P2PMessage)
    (block : SignedBeaconBlockHeader) : List QueueEvent :=
  aloneIn (.handler .mumP2P) (handlerCalls (staleCalls msg block)) ++
    aloneIn .worker (drainCalls [arrivalEvent (staleArrival msg block)])

theorem run_oneBlockTrace
    {msg : P2PMessage} {block : SignedBeaconBlockHeader}
    (hpath : Path (handleMessageFromMumP2PNode sampleService msg)
      (staleCalls msg block) (.ret ())) :
    ∃ d, Run (queueSem raceService) anyStep ((oneBlockInput msg).config sampleService emptyQueue)
        (oneBlockTrace msg block) d ∧
      d.state.telemetry =
        bgHandleBlockEvents raceService noTelemetry [arrivalEvent (staleArrival msg block)] := by
  have hall : Path (handleMessagesFromMumP2PNode sampleService [msg])
      (staleCalls msg block ++ []) (.ret ()) := hpath.bind (Path.nil _)
  rw [List.append_nil] at hall
  have hskip : Exec proxySem emptyCaches
      (if messageFromSelf sampleService msg then [⟨.skipMessagesFromSelf, false⟩] else [])
      emptyCaches := by
    split
    · exact Exec.cons rfl (Exec.nil _)
    · exact Exec.nil _
  have hcalls : Exec proxySem emptyCaches (staleCalls msg block) emptyCaches :=
    Exec.cons rfl (Exec.append hskip (Exec.cons rfl (Exec.cons rfl (Exec.cons rfl
      (Exec.cons rfl (Exec.nil _))))))
  have hhandler := run_of_path (c := (oneBlockInput msg).config sampleService emptyQueue)
    (G := anyStep) (i := .handler .mumP2P)
    (@Path.rename _ _ QueueOp.Ans _ QueueOp.proxy _ _ _ hall)
    (exec_rename raceService [] noTelemetry hcalls) (fun _ _ _ _ => trivial)
  have hoffered : offeredBy raceService (staleCalls msg block) [] =
      [arrivalEvent (staleArrival msg block)] := by
    unfold staleCalls
    split
    · rfl
    · rfl
  rw [hoffered] at hhandler
  have hdrained := exec_drainCalls raceService emptyCaches
    [arrivalEvent (staleArrival msg block)] [] noTelemetry
  have hdrain := path_drainCalls [arrivalEvent (staleArrival msg block)] 0
  exact ⟨_, hhandler.trans (run_of_path (i := QueueParty.worker) hdrain hdrained
    (fun _ _ _ _ => trivial)), rfl⟩

def clLookup : List ProxyCall :=
  lookupCalls .libP2P 1000 "" "16Uiu2HAmCLPeer" false

/-- Stale blocks arrive from the mesh, then the block from the CL; the worker composes
`first`; the block is published, and the worker composes `last`. -/
def blocksTrace (stale : Nat) (first last : List BlockArrival) : List QueueEvent :=
  aloneIn (.handler .mumP2P) (handlerCalls (manyOldCalls stale)) ++
    (aloneIn (.handler .cl) (handlerCalls clLookup) ++
      (aloneIn .worker (drainCalls first) ++
        (aloneIn (.handler .cl) (handlerCalls (forwardToMumP2PCalls 1002)) ++
          aloneIn .worker (drainCalls last))))

theorem calls_aloneIn
    (i : QueueParty)
    (calls : List QueueCall) :
    (aloneIn i calls).map Event.call = calls := by
  exact calls_map i calls

theorem callsOf_aloneIn
    (i j : QueueParty)
    (calls : List QueueCall) :
    callsOf i (aloneIn j calls) = if j = i then calls else [] := by
  exact callsOf_map i j calls

theorem callsOf_blocksTrace
    (stale : Nat)
    (first last : List BlockArrival) :
    callsOf (.handler .cl) (blocksTrace stale first last) =
        handlerCalls (clLookup ++ forwardToMumP2PCalls 1002) ∧
      callsOf (.handler .mumP2P) (blocksTrace stale first last) =
        handlerCalls (manyOldCalls stale) ∧
      callsOf .worker (blocksTrace stale first last) = drainCalls first ++ drainCalls last := by
  simp [blocksTrace, callsOf_append, callsOf_aloneIn, handlerCalls]

theorem path_blocksTrace
    (stale : Nat)
    (first last : List BlockArrival)
    (i : QueueParty) :
    Path ((blocksInput stale (first.length + last.length)).program sampleService i)
      (callsOf i (blocksTrace stale first last)) (.ret ()) := by
  obtain ⟨hcl, hmesh, hworker⟩ := callsOf_blocksTrace stale first last
  cases i with
  | worker =>
      rw [hworker]
      exact (path_drainCalls first last.length).append (path_drainCalls last 0)
  | records =>
      simp only [blocksTrace, callsOf_append, callsOf_aloneIn]
      exact Path.nil _
  | handler i =>
      cases i with
      | cl =>
          rw [hcl]
          exact @Path.rename _ _ QueueOp.Ans _ QueueOp.proxy _ _ _ (path_cl 1000 1002)
      | mumP2P =>
          rw [hmesh]
          exact @Path.rename _ _ QueueOp.Ans _ QueueOp.proxy _ _ _ (path_manyOldCalls stale)
      | aggregator | caches =>
          simp only [blocksTrace, callsOf_append, callsOf_aloneIn]
          exact Path.nil _

theorem run_blocksTrace
    (stale : Nat)
    (first : List BlockArrival)
    (hstale : stale ≤ blockEventsCap)
    (hfirst : enqueueBlockEvent (arrivalEvent clArrival)
      (List.replicate stale (arrivalEvent oldArrival)) = first) :
    Run (queueSem raceService) anyStep
      ((blocksInput stale (first.length + 1)).config sampleService emptyQueue)
      (blocksTrace stale first [publishEvent])
      ⟨fun _ => .ret (), ⟨blockStored emptyCaches, [],
        bgHandleBlockEvents raceService noTelemetry (first ++ [publishEvent])⟩⟩ := by
  refine run_of_paths (path_blocksTrace stale first [publishEvent]) ?_
  simp only [blocksTrace, List.map_append, calls_aloneIn]
  have hold := exec_rename raceService [] noTelemetry
    (exec_manyOldCalls stale)
  rw [offeredBy_manyOldCalls rfl hstale] at hold
  have hlookup := exec_rename raceService (List.replicate stale (arrivalEvent oldArrival))
    noTelemetry
    (exec_lookupCalls .libP2P 1000 "" "16Uiu2HAmCLPeer" emptyCaches)
  have hqueue : offeredBy raceService clLookup
      (List.replicate stale (arrivalEvent oldArrival)) = first := hfirst
  have hdrain := exec_drainCalls raceService emptyCaches first [] noTelemetry
  rw [List.append_nil] at hdrain
  have hforward := exec_rename raceService [] (bgHandleBlockEvents raceService noTelemetry first)
    (exec_forwardToMumP2PCalls 1002 emptyCaches)
  have hlast := exec_drainCalls raceService (blockStored emptyCaches) [publishEvent] []
    (bgHandleBlockEvents raceService noTelemetry first)
  have hlookup' := hqueue ▸ hlookup
  have hall := hold.append (hlookup'.append (hdrain.append (hforward.append hlast)))
  rw [bgHandleBlockEvents_concat]
  exact hall

theorem length_offered_le
    (svc : Service)
    (op : ProxyOp)
    (queue : List BlockArrival) :
    (offered svc op queue).length ≤ queue.length + 1 := by
  have henqueue : ∀ ev, (enqueueBlockEvent ev queue).length ≤ queue.length + 1 := by
    intro ev
    rcases enqueueBlockEvent_eq ev queue with h | h <;> rw [h] <;> simp
  cases op with
  | handleBeaconBlock a =>
      show (handleBeaconBlock svc a queue).length ≤ _
      unfold handleBeaconBlock
      split
      · exact henqueue _
      · omega
  | recordMumPublishedAt slot publishedAt =>
      show (recordMumPublishedAt svc slot publishedAt queue).length ≤ _
      unfold recordMumPublishedAt
      split
      · omega
      · exact henqueue _
  | _ => exact Nat.le_succ _

theorem length_blockEvents_le
    {c d : QueueConfig} {tr : List QueueEvent}
    {G : QueueConfig → QueueEvent → Prop}
    (hrun : Run (queueSem svc) G c tr d) :
    d.state.blockEvents.length ≤ c.state.blockEvents.length + tr.length := by
  induction hrun with
  | nil => simp
  | @snoc m m' tr e _ _ last ih =>
      have hstep : m'.state.blockEvents.length ≤ m.state.blockEvents.length + 1 := by
        cases last with
        | @thread i o k r t hprog hsem =>
            cases o with
            | proxy op =>
                show t.blockEvents.length ≤ _
                rw [hsem.2.1]
                exact length_offered_le svc op _
            | receive =>
                rw [hsem.1, List.length_cons]
                exact Nat.le_add_right_of_le (Nat.le_succ _)
            | compose ev | expireRecord slot =>
                subst hsem
                exact Nat.le_succ _
      rw [List.length_append, List.length_singleton]
      omega

theorem expired_blocksTrace
    {stale : Nat} {first last : List BlockArrival} {slot : UInt64}
    (i : QueueParty) :
    ⟨i, .expireRecord slot, ()⟩ ∉ blocksTrace stale first last := by
  intro hmem
  obtain ⟨before, after, hcalls⟩ := List.append_of_mem (call_mem_callsOf hmem)
  have hpath := path_blocksTrace stale first last i
  rw [show callsOf i _ = before ++ ⟨.expireRecord slot, ()⟩ :: after from hcalls] at hpath
  have hpromise := hpath.along (h := []) (promise_program sampleService _ i)
  cases i with
  | handler i | worker => exact hpromise
  | records =>
      simp [blocksTrace, callsOf_append, callsOf_aloneIn] at hcalls

/-- The arrival of the CL is composed, then the publish it triggered. -/
theorem publish_after_arrival_single :
    ∃ (d : QueueConfig) (r : LatencyComparator),
      Run (queueSem raceService) ArrivalsFit ((blocksInput 0 2).config sampleService emptyQueue)
        (blocksTrace 0 [arrivalEvent clArrival] [publishEvent]) d ∧
      d.state.telemetry.trackedSlots.lookup blockSlot = some r ∧ r.mumPublishedAtMs = 1002 ∧
      Complete raceService blockSlot
        (composedBy (blocksTrace 0 [arrivalEvent clArrival] [publishEvent])) r := by
  have hrun := run_blocksTrace 0 [arrivalEvent clArrival] (Nat.zero_le _) rfl
  have hfit : Run (queueSem raceService) ArrivalsFit
      ((blocksInput 0 2).config sampleService emptyQueue)
      (blocksTrace 0 [arrivalEvent clArrival] [publishEvent]) _ := hrun.guarded (by
    intro a e b m htr hfront _ _ _
    have hlength := length_blockEvents_le hfront
    have hshort : (blocksTrace 0 [arrivalEvent clArrival] [publishEvent]).length ≤ 20 := by
      decide
    rw [htr, List.length_append] at hshort
    have hzero : ((blocksInput 0 ([arrivalEvent clArrival].length + 1)).config sampleService
        emptyQueue).state.blockEvents.length = 0 := rfl
    show _ < 1024
    omega)
  refine ⟨_, _, hfit, rfl, rfl, ?_⟩
  refine (publish_after_arrival raceService sampleService (blocksInput 0 2) rfl hfit).2 blockSlot
    _ rfl ?_ rfl (by decide)
  intro i hmem
  exact expired_blocksTrace i hmem

theorem composedBy_blocksTrace
    (stale : Nat)
    (first last : List BlockArrival) :
    composedBy (blocksTrace stale first last) = first ++ last := by
  have hdrain : ∀ events : List BlockArrival,
      (drainCalls events).filterMap composedEvent = events := by
    intro events
    induction events with
    | nil => rfl
    | cons ev events ih => exact congrArg (ev :: ·) ih
  rw [composedBy, (callsOf_blocksTrace stale first last).2.2, List.filterMap_append, hdrain,
    hdrain]

theorem lookup_bgHandleBlockEvents_other
    (svc : Service)
    {t : Telemetry}
    {slot : UInt64}
    {events : List BlockArrival}
    (hother : ∀ ev ∈ events, ev.slot ≠ slot)
    (hnew : t.trackedSlots.lookup slot = none) :
    (bgHandleBlockEvents svc t events).trackedSlots.lookup slot = none := by
  induction events generalizing t with
  | nil => exact hnew
  | cons ev events ih =>
      refine ih (fun e he => hother e (List.mem_cons_of_mem _ he)) ?_
      rw [lookup_handleBlockEvent, if_neg (Ne.symm (hother ev List.mem_cons_self)), hnew]

/-- A full queue drops the arrival of the block; its publish is composed alone, and the record
lacks what only an arrival brings. -/
theorem dropped_arrival_never_composed :
    ∃ (tr before : List QueueEvent) (d : QueueConfig) (r : LatencyComparator),
      Run (queueSem raceService) anyStep
        ((blocksInput blockEventsCap (blockEventsCap + 1)).config sampleService emptyQueue) tr d ∧
      tr = before ++ [⟨.worker, .compose publishEvent, ()⟩] ∧
      publishEvent.isPublish = true ∧
      (¬ ∃ a, TriggeredBy before publishEvent a ∧ arrivalEvent a ∈ composedBy before) ∧
      d.state.telemetry.trackedSlots.lookup blockSlot = some r ∧ r.mumPublishedAtMs = 1002 ∧
      r.validatorIndex = 0 ∧ r.blockSize = 0 ∧ r.gatewayPeerID = "" ∧ r.ethSeenAtMs = 0 := by
  have hfull : enqueueBlockEvent (arrivalEvent clArrival)
      (List.replicate blockEventsCap (arrivalEvent oldArrival)) =
        List.replicate blockEventsCap (arrivalEvent oldArrival) := by
    rw [enqueueBlockEvent, List.length_replicate, if_neg (Nat.lt_irrefl _)]
  have hrun := run_blocksTrace _ _ (Nat.le_refl blockEventsCap) hfull
  rw [List.length_replicate] at hrun
  have hlast : blocksTrace blockEventsCap (List.replicate blockEventsCap
        (arrivalEvent oldArrival)) [publishEvent] =
      (aloneIn (.handler .mumP2P) (handlerCalls (manyOldCalls blockEventsCap)) ++
        (aloneIn (.handler .cl) (handlerCalls clLookup) ++
          (aloneIn .worker (drainCalls (List.replicate blockEventsCap
              (arrivalEvent oldArrival))) ++
            (aloneIn (.handler .cl) (handlerCalls (forwardToMumP2PCalls 1002)) ++
              [⟨.worker, .receive, publishEvent⟩])))) ++
        [⟨.worker, .compose publishEvent, ()⟩] := by
    simp only [blocksTrace, List.append_assoc]
    rfl
  refine ⟨_, _, _, createdByPublish raceService publishEvent, hrun, hlast, rfl, ?_, ?_, rfl, rfl,
    rfl, rfl, rfl⟩
  · rintro ⟨a, ⟨-, hslot, -⟩, hmem⟩
    have hcomposed := composedBy_blocksTrace blockEventsCap
      (List.replicate blockEventsCap (arrivalEvent oldArrival)) [publishEvent]
    rw [hlast, composedBy_concat] at hcomposed
    have hbefore := List.append_cancel_right hcomposed
    rw [hbefore] at hmem
    have hold := List.eq_of_mem_replicate hmem
    have hslots : blockSlot = oldSlot := hslot.symm.trans (congrArg BlockArrival.slot hold)
    exact absurd hslots (by decide)
  · show (bgHandleBlockEvents raceService noTelemetry _).trackedSlots.lookup blockSlot = _
    have hother : ∀ ev ∈ List.replicate blockEventsCap (arrivalEvent oldArrival),
        ev.slot ≠ publishEvent.slot := by
      intro ev hev
      rw [List.eq_of_mem_replicate hev]
      decide
    have hnone := lookup_bgHandleBlockEvents_other raceService hother
      (show noTelemetry.trackedSlots.lookup publishEvent.slot = none from rfl)
    rw [bgHandleBlockEvents_concat, lookup_handleBlockEvent, if_pos (by rfl), hnone]
    rfl

end Sample

end Bootstrapper
end OptimumGateway
