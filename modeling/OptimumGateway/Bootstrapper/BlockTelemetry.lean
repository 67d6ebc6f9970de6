import OptimumGateway.Foundation.FirstSeen
import OptimumGateway.Foundation.GoMap
import OptimumGateway.GossipsubGateway.MessagesProxy
import OptimumGateway.Protocol.Slots

/-!
# The latency record of a slot

This module models the worker of `pkg/service/bootstrapper/beacon_block_measures.go`:
`bgHandleBlockEvents` takes the events of the block queue one by one and composes the
record of each slot.

An event is an arrival from one of the two networks, or a publish of this gateway.  The
first event of a slot creates the record, and the later ones update it.  Two fields are
markers for others:

* a record with an Ethereum arrival time keeps its Ethereum peer;
* a record with a mump2p peer keeps that peer, the origin gateway, and the arrival time,
  which a publish may have set before any peer was known.

`composed_record` says that the fields are those of the first event of each kind, however
creations and updates are mixed.
-/

namespace OptimumGateway
namespace Bootstrapper

open Foundation Protocol
open GossipsubGateway (Source)

section Worker

/-- `blockArrival`; an event without a source is a publish. -/
structure BlockArrival where
  source : Option Source := none
  slot : UInt64
  proposerIndex : UInt64 := 0
  blockSize : UInt64 := 0
  recvAt : Int64 := 0
  originGatewayID : String := ""
  upstreamPeerID : String := ""
  publishedAt : Int64 := 0
deriving DecidableEq

/-- `entities.LatencyComparator`. -/
structure LatencyComparator where
  gatewayID : String
  gatewayPeerID : String := ""
  chainID : UInt64
  blockSlot : UInt64
  slotTime : Int64
  validatorIndex : UInt64 := 0
  blockSize : UInt64 := 0
  ethSeenAtMs : Int64 := 0
  mumSeenAtMs : Int64 := 0
  mumPublishedAtMs : Int64 := 0
  originGatewayID : String := ""
  upstreamPeerID : String := ""
  ethUpstreamPeerID : String := ""
deriving DecidableEq

/-- What is fixed when the service runs. -/
structure Service where
  telemetryEnable : Bool
  gatewayID : String
  nodeMumP2PStr : String
  appChainID : UInt64
  genesis : Time
  enabledMetrics : Bool

structure Telemetry where
  trackedSlots : GoMap UInt64 LatencyComparator
  sendSlotsChan : List UInt64
  blocksFirstSeen : Source → Nat

def sendSlotsCap : Nat := 100

/-- `TTLMap.Upsert` while the entry lives. -/
def upsert
    (m : GoMap UInt64 LatencyComparator)
    (slot : UInt64)
    (update : LatencyComparator → LatencyComparator)
    (created : LatencyComparator) :
    GoMap UInt64 LatencyComparator :=
  match m.lookup slot with
  | some value => m.insert slot (update value)
  | none => m.insert slot created

variable (s : Service)

def enqueueSlotForTracking (slot : UInt64) (t : Telemetry) : Telemetry :=
  if t.sendSlotsChan.length < sendSlotsCap then
    { t with sendSlotsChan := t.sendSlotsChan ++ [slot] }
  else t

def incBlocksFirstSeen (source : Option Source) (t : Telemetry) : Telemetry :=
  match s.enabledMetrics, source with
  | true, some src =>
      { t with blocksFirstSeen :=
          Function.update t.blocksFirstSeen src (t.blocksFirstSeen src + 1) }
  | _, _ => t

def slotTimeMs (slot : UInt64) : Int64 :=
  (slotStartTime s.genesis slot).unixMilli

def updateOnPublish (ev : BlockArrival) (value : LatencyComparator) : LatencyComparator :=
  { value with
    chainID := s.appChainID
    mumPublishedAtMs := ev.publishedAt
    mumSeenAtMs := if value.mumSeenAtMs = 0 then ev.publishedAt else value.mumSeenAtMs }

def createdByPublish (ev : BlockArrival) : LatencyComparator where
  gatewayID := s.gatewayID
  chainID := s.appChainID
  blockSlot := ev.slot
  slotTime := slotTimeMs s ev.slot
  mumPublishedAtMs := ev.publishedAt
  mumSeenAtMs := ev.publishedAt

def composePublishTelemetry (ev : BlockArrival) (t : Telemetry) : Telemetry :=
  enqueueSlotForTracking ev.slot
    { t with trackedSlots :=
        upsert t.trackedSlots ev.slot (updateOnPublish s ev) (createdByPublish s ev) }

def createdByArrival (ev : BlockArrival) : LatencyComparator :=
  let created : LatencyComparator :=
    { gatewayID := s.gatewayID
      gatewayPeerID := s.nodeMumP2PStr
      chainID := s.appChainID
      blockSlot := ev.slot
      validatorIndex := ev.proposerIndex
      slotTime := slotTimeMs s ev.slot
      blockSize := ev.blockSize }
  match ev.source with
  | some .mumP2P =>
      { created with
        mumSeenAtMs := ev.recvAt
        originGatewayID := ev.originGatewayID
        upstreamPeerID := ev.upstreamPeerID }
  | some .libP2P =>
      { created with
        ethSeenAtMs := ev.recvAt
        ethUpstreamPeerID := ev.upstreamPeerID }
  | none => created

def updateOnArrival (ev : BlockArrival) (old : LatencyComparator) : LatencyComparator :=
  let value := { old with chainID := s.appChainID }
  match ev.source with
  | some .libP2P =>
      if value.ethSeenAtMs = 0 then
        { value with
          ethSeenAtMs := ev.recvAt
          ethUpstreamPeerID := ev.upstreamPeerID }
      else value
  | some .mumP2P =>
      -- a publish sets the arrival time with no peer, so the first copy fills the peer
      if value.upstreamPeerID = "" then
        { value with
          mumSeenAtMs := if value.mumSeenAtMs = 0 then ev.recvAt else value.mumSeenAtMs
          originGatewayID := ev.originGatewayID
          upstreamPeerID := ev.upstreamPeerID }
      else value
  | none => value

def composeBlockTelemetry (ev : BlockArrival) (t : Telemetry) : Telemetry :=
  let firstForSlot := (t.trackedSlots.lookup ev.slot).isNone
  let tracked : Telemetry :=
    { t with trackedSlots :=
        upsert t.trackedSlots ev.slot (updateOnArrival s ev) (createdByArrival s ev) }
  enqueueSlotForTracking ev.slot
    (if firstForSlot then incBlocksFirstSeen s ev.source tracked else tracked)

/-- The body of the worker's loop. -/
def handleBlockEvent (t : Telemetry) (ev : BlockArrival) : Telemetry :=
  if ev.publishedAt > 0 then composePublishTelemetry s ev t
  else composeBlockTelemetry s ev t

/-- The worker, on the events it takes from the queue. -/
def bgHandleBlockEvents (t : Telemetry) (events : List BlockArrival) : Telemetry :=
  events.foldl (handleBlockEvent s) t

end Worker

section Record

variable (s : Service)

/-- What an event makes of the record of its slot. -/
def composed (ev : BlockArrival) (record : Option LatencyComparator) : LatencyComparator :=
  if ev.publishedAt > 0 then
    (record.map (updateOnPublish s ev)).getD (createdByPublish s ev)
  else
    (record.map (updateOnArrival s ev)).getD (createdByArrival s ev)

theorem lookup_upsert
    (m : GoMap UInt64 LatencyComparator)
    (slot k : UInt64)
    (update : LatencyComparator → LatencyComparator)
    (created : LatencyComparator) :
    (upsert m slot update created).lookup k =
      if k = slot then some (((m.lookup slot).map update).getD created)
      else m.lookup k := by
  unfold upsert
  by_cases hk : k = slot
  · subst hk
    cases m.lookup k <;> simp
  · cases m.lookup slot <;> simp [AList.lookup_insert_ne hk, hk]

@[simp] theorem trackedSlots_enqueueSlotForTracking
    (slot : UInt64)
    (t : Telemetry) :
    (enqueueSlotForTracking slot t).trackedSlots = t.trackedSlots := by
  unfold enqueueSlotForTracking
  split <;> rfl

@[simp] theorem blocksFirstSeen_enqueueSlotForTracking
    (slot : UInt64)
    (t : Telemetry) :
    (enqueueSlotForTracking slot t).blocksFirstSeen = t.blocksFirstSeen := by
  unfold enqueueSlotForTracking
  split <;> rfl

@[simp] theorem trackedSlots_incBlocksFirstSeen
    (source : Option Source)
    (t : Telemetry) :
    (incBlocksFirstSeen s source t).trackedSlots = t.trackedSlots := by
  unfold incBlocksFirstSeen
  split <;> rfl

theorem lookup_handleBlockEvent
    (t : Telemetry)
    (ev : BlockArrival)
    (slot : UInt64) :
    (handleBlockEvent s t ev).trackedSlots.lookup slot =
      if slot = ev.slot then some (composed s ev (t.trackedSlots.lookup ev.slot))
      else t.trackedSlots.lookup slot := by
  by_cases hpub : ev.publishedAt > 0
  · rw [handleBlockEvent, if_pos hpub, composePublishTelemetry,
      trackedSlots_enqueueSlotForTracking, lookup_upsert, composed, if_pos hpub]
  · have htracked : (handleBlockEvent s t ev).trackedSlots =
        upsert t.trackedSlots ev.slot (updateOnArrival s ev) (createdByArrival s ev) := by
      rw [handleBlockEvent, if_neg hpub, composeBlockTelemetry,
        trackedSlots_enqueueSlotForTracking]
      split
      · exact trackedSlots_incBlocksFirstSeen s ev.source _
      · rfl
    rw [htracked, lookup_upsert, composed, if_neg hpub]

theorem blocksFirstSeen_handleBlockEvent
    (t : Telemetry)
    (ev : BlockArrival)
    (src : Source) :
    (handleBlockEvent s t ev).blocksFirstSeen src =
      t.blocksFirstSeen src +
        if s.enabledMetrics ∧ t.trackedSlots.lookup ev.slot = none ∧
            ¬ ev.publishedAt > 0 ∧ ev.source = some src then 1 else 0 := by
  by_cases hpub : ev.publishedAt > 0
  · rw [handleBlockEvent, if_pos hpub, composePublishTelemetry,
      blocksFirstSeen_enqueueSlotForTracking, if_neg (fun h => h.2.2.1 hpub)]
    rfl
  · rw [handleBlockEvent, if_neg hpub, composeBlockTelemetry,
      blocksFirstSeen_enqueueSlotForTracking]
    cases hold : t.trackedSlots.lookup ev.slot with
    | some value => simp
    | none =>
        cases hmetrics : s.enabledMetrics with
        | false => simp [incBlocksFirstSeen, hmetrics]
        | true =>
            cases hsource : ev.source with
            | none => simp [incBlocksFirstSeen, hmetrics]
            | some other =>
                by_cases hsrc : other = src
                · subst hsrc
                  simp [incBlocksFirstSeen, hmetrics, hpub]
                · simp [incBlocksFirstSeen, hmetrics, hsrc, Function.update_of_ne (Ne.symm hsrc)]

end Record

namespace BlockArrival

def isPublish (ev : BlockArrival) : Bool :=
  decide (ev.publishedAt > 0)

def arrivesFrom (src : Source) (ev : BlockArrival) : Bool :=
  !ev.isPublish && decide (ev.source = some src)

/-- The gateway has the block on mump2p: a copy arrived there, or it was published. -/
def onMum (ev : BlockArrival) : Bool :=
  ev.isPublish || ev.arrivesFrom .mumP2P

def mumTime (ev : BlockArrival) : Int64 :=
  if ev.isPublish then ev.publishedAt else ev.recvAt

/-- A publish, or an arrival with a positive time and a peer. -/
def Timed (ev : BlockArrival) : Prop :=
  ev.publishedAt > 0 ∨ (ev.source.isSome ∧ ev.recvAt > 0 ∧ ev.upstreamPeerID ≠ "")

end BlockArrival

open BlockArrival

section FirstSeenFields

/-- The fields of a record are those of the first event of each kind, and its publish time
is that of the last publish. -/
structure FieldsOf (events : List BlockArrival) (r : LatencyComparator) : Prop where
  ethSeenAtMs : r.ethSeenAtMs = firstValue (arrivesFrom .libP2P) recvAt 0 events
  ethUpstreamPeerID :
    r.ethUpstreamPeerID =
      firstValue (arrivesFrom .libP2P) BlockArrival.upstreamPeerID "" events
  mumSeenAtMs : r.mumSeenAtMs = firstValue onMum mumTime 0 events
  originGatewayID :
    r.originGatewayID =
      firstValue (arrivesFrom .mumP2P) BlockArrival.originGatewayID "" events
  upstreamPeerID :
    r.upstreamPeerID =
      firstValue (arrivesFrom .mumP2P) BlockArrival.upstreamPeerID "" events
  mumPublishedAtMs : r.mumPublishedAtMs = lastValue isPublish publishedAt 0 events

/-- The first-seen fields that `r` has are the same in `r'`. -/
structure Keeps (r r' : LatencyComparator) : Prop where
  eth :
    r.ethSeenAtMs ≠ 0 →
      r'.ethSeenAtMs = r.ethSeenAtMs ∧ r'.ethUpstreamPeerID = r.ethUpstreamPeerID
  mum : r.mumSeenAtMs ≠ 0 → r'.mumSeenAtMs = r.mumSeenAtMs
  peer :
    r.upstreamPeerID ≠ "" →
      r'.originGatewayID = r.originGatewayID ∧ r'.upstreamPeerID = r.upstreamPeerID

variable {s : Service} {events : List BlockArrival} {r : LatencyComparator} {ev : BlockArrival}

theorem BlockArrival.Timed.kind
    (h : ev.Timed) :
    ev.publishedAt > 0 ∨
      (¬ ev.publishedAt > 0 ∧ ev.recvAt > 0 ∧ ev.upstreamPeerID ≠ "" ∧
        (ev.source = some .libP2P ∨ ev.source = some .mumP2P)) := by
  by_cases hpub : ev.publishedAt > 0
  · exact Or.inl hpub
  · obtain ⟨hsource, hrecv, hpeer⟩ := h.resolve_left hpub
    obtain ⟨src, hsrc⟩ := Option.isSome_iff_exists.mp hsource
    refine Or.inr ⟨hpub, hrecv, hpeer, ?_⟩
    cases src with
    | libP2P => exact Or.inl hsrc
    | mumP2P => exact Or.inr hsrc

theorem BlockArrival.Timed.of_arrivesFrom
    {src : Source}
    (h : ev.Timed)
    (hfrom : ev.arrivesFrom src) :
    ev.recvAt ≠ 0 ∧ ev.upstreamPeerID ≠ "" := by
  have hpub : ¬ ev.publishedAt > 0 := by
    intro hpub
    simp [arrivesFrom, isPublish, hpub] at hfrom
  obtain ⟨-, hrecv, hpeer⟩ := h.resolve_left hpub
  exact ⟨(Int64.ne_of_lt hrecv).symm, hpeer⟩

theorem BlockArrival.Timed.mumTime_ne
    (h : ev.Timed)
    (hon : ev.onMum) :
    ev.mumTime ≠ 0 := by
  rcases Bool.or_eq_true_iff.mp hon with hpub | hfrom
  · rw [mumTime, if_pos hpub]
    exact (Int64.ne_of_lt (of_decide_eq_true hpub)).symm
  · have hpub : ev.isPublish ≠ true := by
      simp only [arrivesFrom, Bool.and_eq_true, Bool.not_eq_true'] at hfrom
      simp [hfrom.1]
    rw [mumTime, if_neg hpub]
    exact (h.of_arrivesFrom hfrom).1

theorem publish_kind
    (hpub : ev.publishedAt > 0) :
    ev.isPublish = true ∧ (∀ src, ev.arrivesFrom src = false) ∧ ev.onMum = true ∧
      ev.mumTime = ev.publishedAt := by
  have his : ev.isPublish = true := decide_eq_true hpub
  exact ⟨his, by simp [arrivesFrom, his], by simp [onMum, his], by simp [mumTime, his]⟩

theorem arrival_kind
    {src : Source}
    (hpub : ¬ ev.publishedAt > 0)
    (hsource : ev.source = some src) :
    ev.isPublish = false ∧ ev.arrivesFrom src = true ∧
      ∀ other, src ≠ other → ev.arrivesFrom other = false := by
  have his : ev.isPublish = false := decide_eq_false hpub
  refine ⟨his, by simp [arrivesFrom, his, hsource], ?_⟩
  intro other hne
  simp [arrivesFrom, his, hsource, hne]

theorem composed_publish
    (hpub : ev.publishedAt > 0) :
    composed s ev (some r) = updateOnPublish s ev r := by
  rw [composed, if_pos hpub]
  rfl

theorem composed_libP2P
    (hpub : ¬ ev.publishedAt > 0)
    (hsource : ev.source = some .libP2P) :
    composed s ev (some r) =
      { r with
        chainID := s.appChainID
        ethSeenAtMs := if r.ethSeenAtMs = 0 then ev.recvAt else r.ethSeenAtMs
        ethUpstreamPeerID :=
          if r.ethSeenAtMs = 0 then ev.upstreamPeerID else r.ethUpstreamPeerID } := by
  rw [composed, if_neg hpub, Option.map_some, Option.getD_some, updateOnArrival, hsource]
  dsimp only
  split <;> rfl

theorem composed_mumP2P
    (hpub : ¬ ev.publishedAt > 0)
    (hsource : ev.source = some .mumP2P) :
    composed s ev (some r) =
      { r with
        chainID := s.appChainID
        mumSeenAtMs :=
          if r.upstreamPeerID = "" ∧ r.mumSeenAtMs = 0 then ev.recvAt else r.mumSeenAtMs
        originGatewayID :=
          if r.upstreamPeerID = "" then ev.originGatewayID else r.originGatewayID
        upstreamPeerID :=
          if r.upstreamPeerID = "" then ev.upstreamPeerID else r.upstreamPeerID } := by
  rw [composed, if_neg hpub, Option.map_some, Option.getD_some, updateOnArrival, hsource]
  dsimp only
  by_cases hpeer : r.upstreamPeerID = "" <;> simp [hpeer]

namespace FieldsOf

variable (h : FieldsOf events r) (htimed : ∀ ev ∈ events, ev.Timed)
include h htimed

theorem eth_iff :
    r.ethSeenAtMs = 0 ↔ events.find? (arrivesFrom .libP2P) = none := by
  rw [h.ethSeenAtMs]
  exact firstValue_eq_iff fun y hy hp => ((htimed y hy).of_arrivesFrom hp).1

theorem mum_iff :
    r.mumSeenAtMs = 0 ↔ events.find? onMum = none := by
  rw [h.mumSeenAtMs]
  exact firstValue_eq_iff fun y hy hp => (htimed y hy).mumTime_ne hp

theorem peer_iff :
    r.upstreamPeerID = "" ↔ events.find? (arrivesFrom .mumP2P) = none := by
  rw [h.upstreamPeerID]
  exact firstValue_eq_iff fun y hy hp => ((htimed y hy).of_arrivesFrom hp).2

omit h htimed in
/-- A copy from mump2p is an event on mump2p. -/
theorem find?_onMum_ne_none
    (hpeer : events.find? (arrivesFrom .mumP2P) ≠ none) :
    events.find? onMum ≠ none := by
  intro hnone
  refine hpeer (List.find?_eq_none.mpr ?_)
  intro y hy hfrom
  exact List.find?_eq_none.mp hnone y hy (by rw [onMum, hfrom, Bool.or_true])

/-- An update puts the record in step with one more event. -/
theorem concat
    (hev : ev.Timed) :
    FieldsOf (events ++ [ev]) (composed s ev (some r)) := by
  have heth := h.eth_iff htimed
  have hmum := h.mum_iff htimed
  have hpeer := h.peer_iff htimed
  rcases hev.kind with hpub | ⟨hpub, hrecv, hup, hsource | hsource⟩
  · obtain ⟨his, hfrom, hon, htime⟩ := publish_kind hpub
    rw [composed_publish hpub]
    exact
      { ethSeenAtMs := h.ethSeenAtMs.trans (firstValue_concat_of_not (hfrom _)).symm
        ethUpstreamPeerID :=
          h.ethUpstreamPeerID.trans (firstValue_concat_of_not (hfrom _)).symm
        mumSeenAtMs := by
          rw [firstValue_concat_of hon, htime, ← h.mumSeenAtMs]
          exact if_congr hmum rfl rfl
        originGatewayID := h.originGatewayID.trans (firstValue_concat_of_not (hfrom _)).symm
        upstreamPeerID := h.upstreamPeerID.trans (firstValue_concat_of_not (hfrom _)).symm
        mumPublishedAtMs := (lastValue_concat_of (f := publishedAt) his).symm }
  · obtain ⟨his, hfrom, hnot⟩ := arrival_kind hpub hsource
    have hon : ev.onMum = false := by
      rw [onMum, his, hnot .mumP2P (by decide), Bool.or_false]
    rw [composed_libP2P hpub hsource]
    exact
      { ethSeenAtMs := by
          rw [firstValue_concat_of hfrom, ← h.ethSeenAtMs]
          exact if_congr heth rfl rfl
        ethUpstreamPeerID := by
          rw [firstValue_concat_of hfrom, ← h.ethUpstreamPeerID]
          exact if_congr heth rfl rfl
        mumSeenAtMs := h.mumSeenAtMs.trans (firstValue_concat_of_not hon).symm
        originGatewayID :=
          h.originGatewayID.trans (firstValue_concat_of_not (hnot _ (by decide))).symm
        upstreamPeerID :=
          h.upstreamPeerID.trans (firstValue_concat_of_not (hnot _ (by decide))).symm
        mumPublishedAtMs := h.mumPublishedAtMs.trans (lastValue_concat_of_not his).symm }
  · obtain ⟨his, hfrom, hnot⟩ := arrival_kind hpub hsource
    have hon : ev.onMum = true := by
      rw [onMum, hfrom, Bool.or_true]
    have htime : ev.mumTime = ev.recvAt := by
      rw [mumTime, his, if_neg Bool.false_ne_true]
    -- without an event on mump2p there is no copy from it either
    have hfirst : r.upstreamPeerID = "" ∧ r.mumSeenAtMs = 0 ↔ events.find? onMum = none := by
      rw [hmum, hpeer]
      exact and_iff_right_of_imp fun hnone => not_not.mp fun hsome =>
        find?_onMum_ne_none hsome hnone
    rw [composed_mumP2P hpub hsource]
    exact
      { ethSeenAtMs :=
          h.ethSeenAtMs.trans (firstValue_concat_of_not (hnot _ (by decide))).symm
        ethUpstreamPeerID :=
          h.ethUpstreamPeerID.trans (firstValue_concat_of_not (hnot _ (by decide))).symm
        mumSeenAtMs := by
          rw [firstValue_concat_of hon, htime, ← h.mumSeenAtMs]
          exact if_congr hfirst rfl rfl
        originGatewayID := by
          rw [firstValue_concat_of hfrom, ← h.originGatewayID]
          exact if_congr hpeer rfl rfl
        upstreamPeerID := by
          rw [firstValue_concat_of hfrom, ← h.upstreamPeerID]
          exact if_congr hpeer rfl rfl
        mumPublishedAtMs := h.mumPublishedAtMs.trans (lastValue_concat_of_not his).symm }

omit h htimed in
/-- The first event creates a record that is in step with it. -/
theorem first
    (hev : ev.Timed) :
    FieldsOf [ev] (composed s ev none) := by
  rcases hev.kind with hpub | ⟨hpub, -, -, hsource | hsource⟩
  · obtain ⟨his, hfrom, hon, htime⟩ := publish_kind hpub
    constructor <;>
      simp [composed, createdByPublish, lastValue, firstValue_singleton, hpub, his, hfrom, hon,
        htime]
  · obtain ⟨his, hfrom, hnot⟩ := arrival_kind hpub hsource
    have hother := hnot .mumP2P (by decide)
    constructor <;>
      simp [composed, createdByArrival, lastValue, firstValue_singleton, onMum, hpub, hsource,
        his, hfrom, hother]
  · obtain ⟨his, hfrom, hnot⟩ := arrival_kind hpub hsource
    have hother := hnot .libP2P (by decide)
    constructor <;>
      simp [composed, createdByArrival, lastValue, firstValue_singleton, onMum, mumTime, hpub,
        hsource, his, hfrom, hother]

end FieldsOf

theorem FieldsOf.keeps
    {later : List BlockArrival}
    {r' : LatencyComparator}
    (h : FieldsOf events r)
    (h' : FieldsOf (events ++ later) r')
    (htimed : ∀ ev ∈ events, ev.Timed) :
    Keeps r r' where
  eth hseen := by
    have hfound := mt (h.eth_iff htimed).mpr hseen
    rw [h'.ethSeenAtMs, h'.ethUpstreamPeerID, h.ethSeenAtMs, h.ethUpstreamPeerID]
    exact ⟨by rw [firstValue_append, if_neg hfound], by rw [firstValue_append, if_neg hfound]⟩
  mum hseen := by
    have hfound := mt (h.mum_iff htimed).mpr hseen
    rw [h'.mumSeenAtMs, h.mumSeenAtMs, firstValue_append, if_neg hfound]
  peer hseen := by
    have hfound := mt (h.peer_iff htimed).mpr hseen
    rw [h'.originGatewayID, h'.upstreamPeerID, h.originGatewayID, h.upstreamPeerID]
    exact ⟨by rw [firstValue_append, if_neg hfound], by rw [firstValue_append, if_neg hfound]⟩

end FirstSeenFields

section Runs

/-- The events of one slot. -/
def ownEvents (slot : UInt64) (events : List BlockArrival) : List BlockArrival :=
  events.filter fun ev => ev.slot == slot

theorem ownEvents_append
    (slot : UInt64)
    (events events' : List BlockArrival) :
    ownEvents slot (events ++ events') = ownEvents slot events ++ ownEvents slot events' := by
  exact List.filter_append ..

theorem ownEvents_self
    (ev : BlockArrival) :
    ownEvents ev.slot [ev] = [ev] := by
  simp [ownEvents]

variable {ev : BlockArrival}

theorem ownEvents_other
    {slot : UInt64}
    (h : slot ≠ ev.slot) :
    ownEvents slot [ev] = [] := by
  simp [ownEvents, h.symm]

/-- There is a record as soon as there was an event, and its fields are those of the
events. -/
def InStep (own : List BlockArrival) : Option LatencyComparator → Prop
  | none => own = []
  | some r => own ≠ [] ∧ FieldsOf own r

variable {s : Service} {t : Telemetry} {slot : UInt64} {events : List BlockArrival}

theorem InStep.concat
    {own : List BlockArrival}
    {record : Option LatencyComparator}
    (h : InStep own record)
    (htimed : ∀ ev ∈ own, ev.Timed)
    (hev : ev.Timed) :
    InStep (own ++ [ev]) (some (composed s ev record)) := by
  refine ⟨by simp, ?_⟩
  cases record with
  | none =>
      obtain rfl : own = [] := h
      exact FieldsOf.first hev
  | some r => exact h.2.concat htimed hev

variable (hnew : t.trackedSlots.lookup slot = none)
variable (htimed : ∀ ev ∈ events, ev.slot = slot → ev.Timed)
include htimed

theorem mem_ownEvents
    (hmem : ev ∈ ownEvents slot events) :
    ev.Timed := by
  obtain ⟨hin, hslot⟩ := List.mem_filter.mp hmem
  exact htimed ev hin (beq_iff_eq.mp hslot)

omit htimed in
theorem bgHandleBlockEvents_concat
    (s : Service)
    (t : Telemetry)
    (events : List BlockArrival)
    (ev : BlockArrival) :
    bgHandleBlockEvents s t (events ++ [ev]) =
      handleBlockEvent s (bgHandleBlockEvents s t events) ev := by
  simp [bgHandleBlockEvents]

include hnew

/-- The record of a slot follows the slot's events, whatever is composed for other slots
in between. -/
theorem composed_record :
    InStep (ownEvents slot events)
      ((bgHandleBlockEvents s t events).trackedSlots.lookup slot) := by
  induction events using List.reverseRecOn with
  | nil =>
      rw [bgHandleBlockEvents, List.foldl_nil, hnew]
      rfl
  | append_singleton events ev ih =>
      have hbefore : ∀ ev ∈ events, ev.slot = slot → ev.Timed := fun e he =>
        htimed e (List.mem_append_left [ev] he)
      have hstep := ih hbefore
      rw [bgHandleBlockEvents_concat, lookup_handleBlockEvent, ownEvents_append]
      by_cases hslot : slot = ev.slot
      · subst hslot
        rw [if_pos rfl, ownEvents_self]
        exact hstep.concat (fun e => mem_ownEvents hbefore) (htimed ev (by simp) rfl)
      · rw [if_neg hslot, ownEvents_other hslot, List.append_nil]
        exact hstep

/-- A record of a run from an empty entry is in step with the slot's events. -/
theorem fieldsOf_record
    {r : LatencyComparator}
    (hr : (bgHandleBlockEvents s t events).trackedSlots.lookup slot = some r) :
    FieldsOf (ownEvents slot events) r := by
  have hstep := composed_record (s := s) hnew htimed
  rw [hr] at hstep
  exact hstep.2

theorem exists_record
    (hown : ownEvents slot events ≠ []) :
    ∃ r, (bgHandleBlockEvents s t events).trackedSlots.lookup slot = some r := by
  have hstep := composed_record (s := s) hnew htimed
  cases hr : (bgHandleBlockEvents s t events).trackedSlots.lookup slot with
  | none =>
      rw [hr] at hstep
      exact absurd hstep hown
  | some r => exact ⟨r, rfl⟩

omit hnew htimed

/-- The first-seen fields of a slot come from the first event of their kind, stay what they
are, and only the first event of the slot counts in the race, for its source. -/
theorem first_seen_written_once
    (s : Service)
    {t : Telemetry}
    {slot : UInt64}
    {events : List BlockArrival}
    (hnew : t.trackedSlots.lookup slot = none)
    (htimed : ∀ ev ∈ events, ev.slot = slot → ev.Timed) :
    (ownEvents slot events ≠ [] →
      ∃ r, (bgHandleBlockEvents s t events).trackedSlots.lookup slot = some r ∧
        FieldsOf (ownEvents slot events) r) ∧
    (∀ before after, events = before ++ after →
      ∀ r, (bgHandleBlockEvents s t before).trackedSlots.lookup slot = some r →
        ∃ r', (bgHandleBlockEvents s t events).trackedSlots.lookup slot = some r' ∧
          Keeps r r') ∧
    (∀ before ev after, events = before ++ ev :: after → ev.slot = slot →
      ∀ src,
        (bgHandleBlockEvents s t (before ++ [ev])).blocksFirstSeen src =
          (bgHandleBlockEvents s t before).blocksFirstSeen src +
            if s.enabledMetrics ∧ ownEvents slot before = [] ∧ ev.arrivesFrom src
            then 1 else 0) := by
  refine ⟨?_, ?_, ?_⟩
  · intro hown
    obtain ⟨r, hr⟩ := exists_record (s := s) hnew htimed hown
    exact ⟨r, hr, fieldsOf_record hnew htimed hr⟩
  · rintro before after rfl r hr
    have hbefore : ∀ ev ∈ before, ev.slot = slot → ev.Timed := fun e he =>
      htimed e (List.mem_append_left after he)
    have hown : ownEvents slot before ≠ [] := by
      have hstep := composed_record (s := s) hnew hbefore
      rw [hr] at hstep
      exact hstep.1
    obtain ⟨r', hr'⟩ := exists_record (s := s) hnew htimed (by
      rw [ownEvents_append]
      exact List.append_ne_nil_of_left_ne_nil hown _)
    have hfields := fieldsOf_record hnew htimed hr'
    rw [ownEvents_append] at hfields
    exact ⟨r', hr',
      (fieldsOf_record hnew hbefore hr).keeps hfields fun e => mem_ownEvents hbefore⟩
  · rintro before ev after rfl rfl src
    have hbefore : ∀ e ∈ before, e.slot = ev.slot → e.Timed := fun e he =>
      htimed e (List.mem_append_left (ev :: after) he)
    have hstep := composed_record (s := s) hnew hbefore
    have hfirst : (bgHandleBlockEvents s t before).trackedSlots.lookup ev.slot = none
        ↔ ownEvents ev.slot before = [] := by
      cases hr : (bgHandleBlockEvents s t before).trackedSlots.lookup ev.slot with
      | none =>
          rw [hr] at hstep
          exact iff_of_true rfl hstep
      | some r =>
          rw [hr] at hstep
          exact iff_of_false (Option.some_ne_none r) hstep.1
    have hfrom : ev.arrivesFrom src ↔ ¬ ev.publishedAt > 0 ∧ ev.source = some src := by
      simp [arrivesFrom, isPublish]
    rw [bgHandleBlockEvents_concat, blocksFirstSeen_handleBlockEvent]
    simp only [hfirst, hfrom]

def raceService : Service where
  telemetryEnable := true
  gatewayID := "gw"
  nodeMumP2PStr := "self"
  appChainID := 560048
  genesis := genesisTime 1742213400
  enabledMetrics := true

def noTelemetry : Telemetry where
  trackedSlots := ∅
  sendSlotsChan := []
  blocksFirstSeen := fun _ => 0

/-- A publish, an event of another slot, two copies from mump2p, and the block from
libp2p. -/
def raceEvents : List BlockArrival :=
  [{ slot := 7, publishedAt := 100 },
   { slot := 8 },
   { source := some .mumP2P, slot := 7, recvAt := 120, originGatewayID := "a",
     upstreamPeerID := "p" },
   { source := some .mumP2P, slot := 7, recvAt := 130, originGatewayID := "b",
     upstreamPeerID := "q" },
   { source := some .libP2P, slot := 7, proposerIndex := 3, recvAt := 140,
     upstreamPeerID := "cl" }]

theorem first_seen_written_once_race :
    ∃ r, (bgHandleBlockEvents raceService noTelemetry raceEvents).trackedSlots.lookup 7 =
        some r ∧
      FieldsOf (ownEvents 7 raceEvents) r ∧
      r.mumSeenAtMs = 100 ∧ r.originGatewayID = "a" ∧ r.ethSeenAtMs = 140 := by
  have htimed : ∀ ev ∈ raceEvents, ev.slot = 7 → ev.Timed := by
    simp only [raceEvents, List.forall_mem_cons, BlockArrival.Timed]
    decide
  obtain ⟨r, hr, hfields⟩ :=
    (first_seen_written_once raceService (t := noTelemetry) rfl htimed).1 (by decide)
  exact ⟨r, hr, hfields, hfields.mumSeenAtMs, hfields.originGatewayID, hfields.ethSeenAtMs⟩

end Runs

end Bootstrapper
end OptimumGateway
