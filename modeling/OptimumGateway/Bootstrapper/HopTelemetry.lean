import OptimumGateway.Bootstrapper.BlockEvents

/-!
# The sender in the latency record

A message from the mesh passes through five functions before its sender is recorded: the
reader of the subscription, `processMumP2PMessage`, `processBeaconBlockArrival`, the queue of
block events, and `composeBlockTelemetry`.  Each of them passes the upstream peer on.

The reader of `pkg/service/mum_p2p/topics.go` puts the id of its own host there, and the peer
that delivered the message into the source.  `upstream_names_sender_iff` follows the two values
to the record, in any interleaving of the handlers, the worker and expiring records: the
upstream peer is this node, so that it names the sender only if that is this node.
-/

namespace OptimumGateway
namespace Bootstrapper

open Foundation Foundation.Prog BlockArrival
open GossipsubGateway (Source ProxyOp ProxyService ProxyParty P2PMessage)

section Reader

/-- A message of a subscription; the peer is the one that delivered it. -/
structure PubsubMessage where
  receivedFrom : String
  data : Bytes

/-- Why `Next` returns no message. -/
inductive NextError where
  | canceled
  | subscriptionCancelled
  | other (err : GoError)

/-- What `handleSubscription` broadcasts for a message. -/
def broadcastMessage (hID topicName : String) (msg : PubsubMessage) : P2PMessage where
  topic := topicName
  message := msg.data
  sourceNodeID := msg.receivedFrom
  upstreamPeerID := hID

/-- `handleSubscription`, on what `Next` returns: it ends with the context or the
subscription, and goes on after other errors. -/
def handleSubscription (hID topicName : String) :
    List (Except NextError PubsubMessage) → List P2PMessage
  | [] => []
  | .ok msg :: rest => broadcastMessage hID topicName msg :: handleSubscription hID topicName rest
  | .error (.other _) :: rest => handleSubscription hID topicName rest
  | .error _ :: _ => []

theorem mem_handleSubscription
    {hID topicName : String} {results : List (Except NextError PubsubMessage)}
    {msg : P2PMessage}
    (h : msg ∈ handleSubscription hID topicName results) :
    ∃ delivered, .ok delivered ∈ results ∧ msg = broadcastMessage hID topicName delivered := by
  induction results with
  | nil => exact absurd h List.not_mem_nil
  | cons result rest ih =>
      have hrest : msg ∈ handleSubscription hID topicName rest →
          ∃ delivered, .ok delivered ∈ result :: rest ∧
            msg = broadcastMessage hID topicName delivered := by
        intro hmem
        obtain ⟨delivered, hin, heq⟩ := ih hmem
        exact ⟨delivered, List.mem_cons_of_mem _ hin, heq⟩
      cases result with
      | ok delivered =>
          rcases List.mem_cons.mp h with rfl | hmem
          · exact ⟨delivered, List.mem_cons_self, rfl⟩
          · exact hrest hmem
      | error err =>
          cases err with
          | other err => exact hrest h
          | canceled | subscriptionCancelled => exact absurd h List.not_mem_nil

/-- The readers of the node have broadcast the message. -/
def FromReaders (hID : String) (msg : P2PMessage) : Prop :=
  ∃ topicName results, msg ∈ handleSubscription hID topicName results

end Reader

section Events

variable {svc : Service} {s : ProxyService} {msgs : List P2PMessage} {hID : String}

/-- The event is the arrival of a message of the mesh. -/
def ArrivalOf (s : ProxyService) (msg : P2PMessage) (ev : BlockArrival) : Prop :=
  ev.originGatewayID = msg.sourceNodeID ∧ ev.upstreamPeerID = msg.upstreamPeerID ∧
    ∃ block, Protocol.decodeBeaconBlockHeader s.lib.snappy msg.message = .ok block ∧
      ev.slot = block.header.slot

/-- Arrivals from mump2p are arrivals of messages. -/
def Traced (s : ProxyService) (msgs : List P2PMessage) (ev : BlockArrival) : Prop :=
  ev.arrivesFrom .mumP2P = true → ∃ msg ∈ msgs, ArrivalOf s msg ev

/-- What a handler may offer to the queue. -/
def OffersTraced (s : ProxyService) (msgs : List P2PMessage) (op : ProxyOp) : Prop :=
  ∀ a, arrivalOf op = some a → Traced s msgs (arrivalEvent a)

theorem offersTraced_of_silent
    {op : ProxyOp}
    (h : Silent op) :
    OffersTraced s msgs op := by
  intro a ha
  rw [h.1] at ha
  exact nomatch ha

theorem offersTraced_program
    (input : GossipsubGateway.ProxyInput)
    (i : ProxyParty) :
    (input.program s i).Forall (OffersTraced s input.mumP2PMessages) := by
  by_cases hi : i = .cl
  · subst hi
    refine forall_handleMessagesFromCL s (fun _ => offersTraced_of_silent) ?_ ?_ _
    · intro a hsource a' ha' hfrom
      cases ha'
      have hother : (arrivalEvent a).arrivesFrom .mumP2P = false :=
        (arrival_kind (arrivalEvent_unpublished a) (congrArg some hsource)).2.2 .mumP2P
          (by decide)
      rw [hother] at hfrom
      exact nomatch hfrom
    · intro slot publishedAt a ha
      exact nomatch ha
  · refine forall_program s (fun _ => offersTraced_of_silent) ?_ hi
    intro msg hmsg a hreport a' ha' _
    cases ha'
    exact ⟨msg, hmsg, hreport.2.1, hreport.2.2.1, hreport.2.2.2⟩

/-- What a goroutine promises: a handler offers arrivals of messages, and the worker composes
what it has received. -/
def HopPromise (s : ProxyService) (msgs : List P2PMessage) :
    QueueParty → List QueueCall → QueueOp → Prop
  | .handler _, _, .proxy op => OffersTraced s msgs op
  | .worker, _, .receive => True
  | .worker, calls, .compose ev => ⟨.receive, ev⟩ ∈ calls
  | .records, _, .expireRecord _ => True
  | _, _, _ => False

theorem hopPromise_program
    (input : QueueInput)
    (i : QueueParty) :
    (input.program s i).Along (HopPromise s input.messages.mumP2PMessages i)
      (fun _ _ => True) [] := by
  cases i with
  | handler i =>
      refine Along.rename (h := []) ((offersTraced_program input.messages i).along ?_)
      intro calls op h
      exact h
  | worker =>
      unfold QueueInput.program
      generalize ([] : List QueueCall) = calls
      induction input.rounds generalizing calls with
      | zero => exact trivial
      | succ n ih =>
          refine ⟨trivial, fun ev => ⟨?_, fun _ => ih _⟩⟩
          exact List.mem_append_right _ (List.mem_singleton.mpr rfl)
  | records =>
      unfold QueueInput.program
      generalize ([] : List QueueCall) = calls
      induction input.expiries generalizing calls with
      | nil => exact trivial
      | cons slot slots ih => exact ⟨trivial, fun _ => ih _⟩

end Events

section Records

variable {svc : Service} {s : ProxyService} {hID : String} {ev : BlockArrival} {q : QueueState}

/-- The events of which the record of a slot is made: those composed since it last expired. -/
def recordEvents (slot : UInt64) (tr : List QueueEvent) : List BlockArrival :=
  tr.foldl (fun own e =>
    match e.op with
    | .compose ev => if ev.slot = slot then own ++ [ev] else own
    | .expireRecord other => if other = slot then [] else own
    | _ => own) []

/-- The first arrival from mump2p among the events of the record. -/
def firstMumArrival (slot : UInt64) (tr : List QueueEvent) : Option BlockArrival :=
  (recordEvents slot tr).find? (arrivesFrom .mumP2P)

/-- The record names this node once something has arrived from mump2p. -/
def NamesNode (hID : String) (own : List BlockArrival) : Option LatencyComparator → Prop
  | none => own = []
  | some r => r.upstreamPeerID = if own.any (arrivesFrom .mumP2P) then hID else ""

/-- Only an arrival from mump2p fills the upstream peer, and only if there is none. -/
theorem upstreamPeerID_composed
    (ev : BlockArrival)
    (record : Option LatencyComparator) :
    (composed svc ev record).upstreamPeerID =
      if ev.arrivesFrom .mumP2P = true ∧ (record.map LatencyComparator.upstreamPeerID).getD "" = ""
      then ev.upstreamPeerID
      else (record.map LatencyComparator.upstreamPeerID).getD "" := by
  by_cases hpub : ev.publishedAt > 0
  · obtain ⟨-, hfrom, -, -⟩ := publish_kind hpub
    rw [hfrom, composed, if_pos hpub]
    cases record with
    | none | some r => rfl
  · rw [composed, if_neg hpub]
    cases hsource : ev.source with
    | none =>
        have hfrom : ev.arrivesFrom .mumP2P = false := by
          simp [arrivesFrom, hsource]
        rw [hfrom]
        cases record with
        | none => simp [createdByArrival, hsource]
        | some r => simp [updateOnArrival, hsource]
    | some src =>
        obtain ⟨-, hfrom, hnot⟩ := arrival_kind hpub hsource
        cases src with
        | libP2P =>
            rw [hnot .mumP2P (by decide)]
            cases record with
            | none => simp [createdByArrival, hsource]
            | some r =>
                by_cases hzero : r.ethSeenAtMs = 0
                · simp [updateOnArrival, hsource, hzero]
                · simp [updateOnArrival, hsource, hzero]
        | mumP2P =>
            rw [hfrom]
            cases record with
            | none => simp [createdByArrival, hsource]
            | some r =>
                by_cases hpeer : r.upstreamPeerID = ""
                · simp [updateOnArrival, hsource, hpeer]
                · simp [updateOnArrival, hsource, hpeer]

theorem NamesNode.concat
    {own : List BlockArrival} {record : Option LatencyComparator}
    (h : NamesNode hID own record)
    (hev : ev.arrivesFrom .mumP2P = true → ev.upstreamPeerID = hID) :
    NamesNode hID (own ++ [ev]) (some (composed svc ev record)) := by
  have hold : (record.map LatencyComparator.upstreamPeerID).getD "" =
      if own.any (arrivesFrom .mumP2P) then hID else "" := by
    cases record with
    | none =>
        obtain rfl : own = [] := h
        rfl
    | some r => exact h
  change (composed svc ev record).upstreamPeerID = _
  rw [upstreamPeerID_composed, hold, List.any_append, List.any_cons, List.any_nil, Bool.or_false]
  cases hfrom : ev.arrivesFrom .mumP2P with
  | true =>
      rw [hev hfrom, Bool.or_true]
      cases own.any (arrivesFrom .mumP2P) with
      | true | false => simp
  | false => simp

theorem recordEvents_concat
    (slot : UInt64)
    (tr : List QueueEvent)
    (e : QueueEvent) :
    recordEvents slot (tr ++ [e]) =
      match e.op with
      | .compose ev => if ev.slot = slot then recordEvents slot tr ++ [ev] else recordEvents slot tr
      | .expireRecord other => if other = slot then [] else recordEvents slot tr
      | _ => recordEvents slot tr := by
  simp only [recordEvents, List.foldl_append, List.foldl_cons, List.foldl_nil]

theorem mem_offered
    {op : ProxyOp} {queue : List BlockArrival}
    (h : ev ∈ offered svc op queue) :
    ev ∈ queue ∨ (∃ a, arrivalOf op = some a ∧ ev = arrivalEvent a) ∨ ev.source = none := by
  have henqueue : ∀ ev', ev ∈ enqueueBlockEvent ev' queue → ev ∈ queue ∨ ev = ev' := by
    intro ev' hmem
    rcases enqueueBlockEvent_eq ev' queue with heq | heq
    · rw [heq] at hmem
      exact Or.inl hmem
    · rw [heq] at hmem
      exact (List.mem_append.mp hmem).imp_right List.mem_singleton.mp
  cases op with
  | handleBeaconBlock a =>
      change ev ∈ handleBeaconBlock svc a queue at h
      unfold handleBeaconBlock at h
      split at h
      · exact (henqueue _ h).imp_right fun heq => Or.inl ⟨a, rfl, heq⟩
      · exact Or.inl h
  | recordMumPublishedAt slot publishedAt =>
      change ev ∈ recordMumPublishedAt svc slot publishedAt queue at h
      unfold recordMumPublishedAt at h
      split at h
      · exact Or.inl h
      · refine (henqueue _ h).imp_right fun heq => Or.inr ?_
        rw [heq]
  | _ => exact Or.inl h

/-- What holds throughout a run. -/
structure Hops
    (s : ProxyService)
    (msgs : List P2PMessage)
    (hID : String)
    (tr : List QueueEvent)
    (q : QueueState) : Prop where
  queued : ∀ ev ∈ q.blockEvents, Traced s msgs ev
  received : ∀ i ev, ⟨i, .receive, ev⟩ ∈ tr → Traced s msgs ev
  made : ∀ slot, ∀ ev ∈ recordEvents slot tr, ev.slot = slot ∧ Traced s msgs ev
  records : ∀ slot,
    NamesNode hID (recordEvents slot tr) (q.telemetry.trackedSlots.lookup slot)

variable {input : QueueInput} {tr : List QueueEvent} {msgs : List P2PMessage}

theorem Hops.aside
    {q' : QueueState} {e : QueueEvent}
    (h : Hops s msgs hID tr q)
    (hcompose : ∀ ev, e.op ≠ .compose ev)
    (hexpire : ∀ slot, e.op ≠ .expireRecord slot)
    (hqueued : ∀ ev ∈ q'.blockEvents, Traced s msgs ev)
    (hreceived : ∀ i ev, e = ⟨i, .receive, ev⟩ → Traced s msgs ev)
    (htelemetry : q'.telemetry = q.telemetry) :
    Hops s msgs hID (tr ++ [e]) q' := by
  have hsame : ∀ slot, recordEvents slot (tr ++ [e]) = recordEvents slot tr := by
    intro slot
    rw [recordEvents_concat]
    cases hop : e.op with
    | compose ev => exact absurd hop (hcompose ev)
    | expireRecord other => exact absurd hop (hexpire other)
    | proxy op | receive => rfl
  refine ⟨hqueued, ?_, ?_, ?_⟩
  · intro i ev hmem
    rcases List.mem_append.mp hmem with hold | hnew
    · exact h.received i ev hold
    · exact hreceived i ev (List.mem_singleton.mp hnew).symm
  · intro slot
    rw [hsame]
    exact h.made slot
  · intro slot
    rw [hsame, htelemetry]
    exact h.records slot

theorem Hops.compose
    {i : QueueParty}
    (hmsgs : ∀ msg ∈ msgs, msg.upstreamPeerID = hID)
    (h : Hops s msgs hID tr q)
    (hev : Traced s msgs ev) :
    Hops s msgs hID (tr ++ [⟨i, .compose ev, ()⟩])
      { q with telemetry := handleBlockEvent svc q.telemetry ev } := by
  have hnode : ev.arrivesFrom .mumP2P = true → ev.upstreamPeerID = hID := by
    intro hfrom
    obtain ⟨msg, hmsg, -, hupstream, -⟩ := hev hfrom
    rw [hupstream, hmsgs msg hmsg]
  refine ⟨h.queued, ?_, ?_, ?_⟩
  · intro j ev' hmem
    rcases List.mem_append.mp hmem with hold | hnew
    · exact h.received j ev' hold
    · exact absurd (congrArg Event.op (List.mem_singleton.mp hnew)) nofun
  · intro slot ev' hmem
    rw [recordEvents_concat] at hmem
    by_cases hslot : ev.slot = slot
    · simp only [hslot, if_true] at hmem
      rcases List.mem_append.mp hmem with hold | hnew
      · exact h.made slot ev' hold
      · rw [List.mem_singleton.mp hnew]
        exact ⟨hslot, hev⟩
    · simp only [hslot, if_false] at hmem
      exact h.made slot ev' hmem
  · intro slot
    rw [recordEvents_concat, lookup_handleBlockEvent]
    by_cases hslot : ev.slot = slot
    · subst hslot
      simp only [if_true]
      exact (h.records ev.slot).concat hnode
    · simp only [hslot, Ne.symm hslot, if_false]
      exact h.records slot

theorem Hops.expire
    {i : QueueParty} {other : UInt64}
    (h : Hops s msgs hID tr q) :
    Hops s msgs hID (tr ++ [⟨i, .expireRecord other, ()⟩])
      { q with telemetry :=
        { q.telemetry with trackedSlots := q.telemetry.trackedSlots.erase other } } := by
  refine ⟨h.queued, ?_, ?_, ?_⟩
  · intro j ev' hmem
    rcases List.mem_append.mp hmem with hold | hnew
    · exact h.received j ev' hold
    · exact absurd (congrArg Event.op (List.mem_singleton.mp hnew)) nofun
  · intro slot ev' hmem
    rw [recordEvents_concat] at hmem
    by_cases hslot : other = slot
    · simp only [hslot, if_true] at hmem
      exact absurd hmem List.not_mem_nil
    · simp only [hslot, if_false] at hmem
      exact h.made slot ev' hmem
  · intro slot
    rw [recordEvents_concat]
    by_cases hslot : other = slot
    · subst hslot
      simp only [if_true, AList.lookup_erase]
      rfl
    · simp only [hslot, if_false, AList.lookup_erase_ne (Ne.symm hslot)]
      exact h.records slot

theorem hops_of_run
    {G : QueueConfig → QueueEvent → Prop} {d : QueueConfig}
    (hmsgs : ∀ msg ∈ input.messages.mumP2PMessages, msg.upstreamPeerID = hID)
    (hempty : q.blockEvents = [])
    (hnew : ∀ slot, q.telemetry.trackedSlots.lookup slot = none)
    (hrun : Run (queueSem svc) G (input.config s q) tr d) :
    Hops s input.messages.mumP2PMessages hID tr d.state := by
  refine hrun.guarded_invariant (hopPromise_program input) ?_ ?_
  · refine ⟨?_, fun i ev hmem => absurd hmem List.not_mem_nil,
      fun slot ev hmem => absurd hmem List.not_mem_nil, ?_⟩
    · intro ev hev
      have hnil : ev ∈ q.blockEvents := hev
      rw [hempty] at hnil
      exact absurd hnil List.not_mem_nil
    · intro slot
      change NamesNode hID [] (q.telemetry.trackedSlots.lookup slot)
      rw [hnew]
      rfl
  · intro tr c i o r q' h _ hpromise hsem
    cases o with
    | proxy op =>
        obtain ⟨-, hqueue, htelemetry⟩ := hsem
        have hoffers : OffersTraced s input.messages.mumP2PMessages op := by
          cases i with
          | handler j => exact hpromise
          | worker | records => exact hpromise.elim
        refine h.aside (by simp) (by simp) ?_ (by simp) htelemetry
        intro ev hev
        rw [hqueue] at hev
        rcases mem_offered hev with hold | ⟨a, ha, rfl⟩ | hnone
        · exact h.queued ev hold
        · exact hoffers a ha
        · intro hfrom
          simp [arrivesFrom, hnone] at hfrom
    | receive =>
        obtain ⟨hqueue, -, htelemetry⟩ := hsem
        refine h.aside (by simp) (by simp) ?_ ?_ htelemetry
        · intro ev hev
          exact h.queued ev (by rw [hqueue]; exact List.mem_cons_of_mem _ hev)
        · intro j ev heq
          cases heq
          exact h.queued _ (by rw [hqueue]; exact List.mem_cons_self)
    | compose ev =>
        obtain rfl := hsem
        have hreceived : ⟨.receive, ev⟩ ∈ callsOf i tr := by
          cases i with
          | worker => exact hpromise
          | handler j | records => exact hpromise.elim
        exact h.compose hmsgs (h.received i ev (mem_of_mem_callsOf hreceived))
    | expireRecord slot =>
        obtain rfl := hsem
        exact h.expire

/-- The upstream peer in the record of a slot names the peer that delivered its first arrival
from mump2p only if that peer is this node. -/
theorem upstream_names_sender_iff
    {q : QueueState} {d : QueueConfig} {slot : UInt64} {r : LatencyComparator}
    {ev : BlockArrival}
    (hreaders : ∀ msg ∈ input.messages.mumP2PMessages, FromReaders hID msg)
    (hempty : q.blockEvents = [])
    (hnew : ∀ slot, q.telemetry.trackedSlots.lookup slot = none)
    (hrun : Run (queueSem svc) anyStep (input.config s q) tr d)
    (hr : d.state.telemetry.trackedSlots.lookup slot = some r)
    (hfirst : firstMumArrival slot tr = some ev) :
    ∃ topicName delivered block,
      broadcastMessage hID topicName delivered ∈ input.messages.mumP2PMessages ∧
        Protocol.decodeBeaconBlockHeader s.lib.snappy delivered.data = .ok block ∧
        block.header.slot = slot ∧ ev.originGatewayID = delivered.receivedFrom ∧
        (r.upstreamPeerID = delivered.receivedFrom ↔ delivered.receivedFrom = hID) := by
  have hmsgs : ∀ msg ∈ input.messages.mumP2PMessages, msg.upstreamPeerID = hID := by
    intro msg hmsg
    obtain ⟨topicName, results, hmem⟩ := hreaders msg hmsg
    obtain ⟨delivered, -, rfl⟩ := mem_handleSubscription hmem
    rfl
  have hhops := hops_of_run hmsgs hempty hnew hrun
  have hmem := List.mem_of_find?_eq_some hfirst
  have hfrom : ev.arrivesFrom .mumP2P = true := List.find?_some hfirst
  obtain ⟨hslot, htraced⟩ := hhops.made slot ev hmem
  obtain ⟨msg, hmsg, horigin, -, block, hdecode, hblock⟩ := htraced hfrom
  obtain ⟨topicName, results, hread⟩ := hreaders msg hmsg
  obtain ⟨delivered, -, rfl⟩ := mem_handleSubscription hread
  have hnode : r.upstreamPeerID = hID := by
    have hrecord := hhops.records slot
    have hany : (recordEvents slot tr).any (arrivesFrom .mumP2P) = true :=
      List.any_eq_true.mpr ⟨ev, hmem, hfrom⟩
    rw [hr] at hrecord
    change r.upstreamPeerID = _ at hrecord
    rwa [hany, if_pos rfl] at hrecord
  refine ⟨topicName, delivered, block, hmsg, hdecode, hblock.symm.trans hslot, horigin, ?_⟩
  rw [hnode, eq_comm]

end Records

section Sample

open GossipsubGateway (sampleService blockTopic emptyCaches isBeaconBlock_blockTopic)

/-- A block that another peer delivers to the reader. -/
def deliveredBlock : PubsubMessage :=
  ⟨"16Uiu2HAmOther", oldBlock⟩

def readMessage : P2PMessage :=
  broadcastMessage "16Uiu2HAmGateway" blockTopic deliveredBlock

theorem readMessage_mem :
    readMessage ∈ handleSubscription "16Uiu2HAmGateway" blockTopic [.ok deliveredBlock] := by
  exact List.mem_singleton.mpr rfl

/-- The handler reports the block, and the worker composes it. -/
def readTrace : List QueueEvent :=
  oneBlockTrace readMessage oldHeader

theorem run_readTrace :
    ∃ d, Run (queueSem raceService) anyStep
        ((oneBlockInput readMessage).config sampleService emptyQueue) readTrace d ∧
      d.state.telemetry = bgHandleBlockEvents raceService noTelemetry
        [arrivalEvent (staleArrival readMessage oldHeader)] := by
  refine run_oneBlockTrace (path_staleCalls isBeaconBlock_blockTopic ?_ (by decide))
  simp only [readMessage, broadcastMessage, deliveredBlock]
  exact decode_oldBlock

theorem firstMumArrival_readTrace :
    firstMumArrival oldSlot readTrace =
      some (arrivalEvent (staleArrival readMessage oldHeader)) := by
  rfl

/-- The record names this gateway as the peer that sent the block. -/
theorem sender_not_named :
    ∃ d r, Run (queueSem raceService) anyStep
        ((oneBlockInput readMessage).config sampleService emptyQueue) readTrace d ∧
      d.state.telemetry.trackedSlots.lookup oldSlot = some r ∧
      firstMumArrival oldSlot readTrace =
        some (arrivalEvent (staleArrival readMessage oldHeader)) ∧
      (oneBlockInput readMessage).messages.mumP2PMessages = [readMessage] ∧
      deliveredBlock.receivedFrom = "16Uiu2HAmOther" ∧
      r.upstreamPeerID = "16Uiu2HAmGateway" := by
  obtain ⟨d, hrun, htelemetry⟩ := run_readTrace
  refine ⟨d, composed raceService (arrivalEvent (staleArrival readMessage oldHeader)) none, hrun,
    ?_, firstMumArrival_readTrace, rfl, rfl, rfl⟩
  rw [htelemetry]
  rfl

/-- The block as this node gets it from itself. -/
def ownMessage : P2PMessage :=
  broadcastMessage "16Uiu2HAmGateway" blockTopic ⟨"16Uiu2HAmGateway", oldBlock⟩

theorem upstream_names_sender_other :
    (∃ d r, Run (queueSem raceService) anyStep
        ((oneBlockInput readMessage).config sampleService emptyQueue) readTrace d ∧
      d.state.telemetry.trackedSlots.lookup oldSlot = some r ∧
      ∃ topicName delivered block,
        broadcastMessage "16Uiu2HAmGateway" topicName delivered ∈
            (oneBlockInput readMessage).messages.mumP2PMessages ∧
          Protocol.decodeBeaconBlockHeader sampleService.lib.snappy delivered.data = .ok block ∧
          block.header.slot = oldSlot ∧
          (arrivalEvent (staleArrival readMessage oldHeader)).originGatewayID =
            delivered.receivedFrom ∧
          (r.upstreamPeerID = delivered.receivedFrom ↔
            delivered.receivedFrom = "16Uiu2HAmGateway")) ∧
    ∃ d r, Run (queueSem raceService) anyStep
        ((oneBlockInput ownMessage).config sampleService emptyQueue)
        (oneBlockTrace ownMessage oldHeader) d ∧
      d.state.telemetry.trackedSlots.lookup oldSlot = some r ∧
      r.upstreamPeerID = ownMessage.sourceNodeID := by
  refine ⟨?_, ?_⟩
  · obtain ⟨d, hrun, htelemetry⟩ := run_readTrace
    have hr : d.state.telemetry.trackedSlots.lookup oldSlot =
        some (composed raceService (arrivalEvent (staleArrival readMessage oldHeader)) none) := by
      rw [htelemetry]
      rfl
    exact ⟨d, _, hrun, hr, upstream_names_sender_iff
      (fun msg hmsg => ⟨blockTopic, [.ok deliveredBlock],
        List.mem_singleton.mp hmsg ▸ readMessage_mem⟩) rfl (fun _ => rfl) hrun hr
      firstMumArrival_readTrace⟩
  · have hdecode : Protocol.decodeBeaconBlockHeader sampleService.lib.snappy ownMessage.message =
        .ok oldHeader := by
      simp only [ownMessage, broadcastMessage]
      exact decode_oldBlock
    have hpath : Path (GossipsubGateway.handleMessageFromMumP2PNode sampleService ownMessage)
        (staleCalls ownMessage oldHeader) (.ret ()) :=
      path_staleCalls isBeaconBlock_blockTopic hdecode (by decide)
    obtain ⟨d, hrun, htelemetry⟩ := run_oneBlockTrace hpath
    have hr : d.state.telemetry.trackedSlots.lookup oldSlot =
        some (composed raceService (arrivalEvent (staleArrival ownMessage oldHeader)) none) := by
      rw [htelemetry]
      rfl
    obtain ⟨-, delivered, -, -, -, -, hdelivered, hiff⟩ := upstream_names_sender_iff
      (fun msg hmsg => ⟨blockTopic, [.ok ⟨"16Uiu2HAmGateway", oldBlock⟩], hmsg⟩) rfl
      (fun _ => rfl) hrun hr rfl
    refine ⟨d, _, hrun, hr, (hiff.mpr hdelivered.symm).trans hdelivered.symm⟩

end Sample

end Bootstrapper
end OptimumGateway
