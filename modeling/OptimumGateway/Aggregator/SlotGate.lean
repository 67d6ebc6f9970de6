import OptimumGateway.Aggregator.Conservation
import OptimumGateway.Protocol.Slots

/-!
# The slot gate of the aggregator

This module models `shouldHoldForSlotGate` of `pkg/service/aggregator/aggregator.go` and
the loop under it.  A tick emits when the gate lets it through.

ADR-0009 states the gate as a window: it opens at `release` and closes eight seconds into
the slot.  The rule is written over integers in nanoseconds; the source compares
milliseconds of instants and a duration.  `shouldHoldForSlotGate_eq_false` says that the
two agree.  What a run can emit follows from the rule, because the recorded arrival is
the latest one as long as arrivals are recorded in time order.
-/

namespace OptimumGateway
namespace Aggregator

open Foundation Protocol

/-- The delay after a block is seen, in milliseconds. -/
def blockSeenPublishDelay : Int64 := 2000

def getAttestationPublishGate : Duration :=
  4000 * Duration.millisecond

def getAttestationPublishCap : Duration :=
  8000 * Duration.millisecond

/-- The gate; without a configuration it never holds. -/
def shouldHoldForSlotGate
    (hasConfig : Bool)
    (genesis systemNow now : Time)
    (lastBlockMs : Int64) : Bool :=
  if !hasConfig then
    false
  else if getAttestationPublishGate ≤ 0 then
    false
  else
    let slotStart := slotStartTime genesis (currentSlot genesis systemNow now)
    let elapsed := now.sub slotStart
    let shouldEmit : Bool :=
      if 0 < lastBlockMs ∧ slotStart.unixMilli < lastBlockMs then
        lastBlockMs + blockSeenPublishDelay ≤ now.unixMilli
      else
        (slotStart.add getAttestationPublishGate).unixMilli ≤ now.unixMilli
    if !shouldEmit then
      true
    else
      decide (0 < getAttestationPublishCap ∧ getAttestationPublishCap ≤ elapsed)

section Rule

/-- When the window of a slot opens. -/
def release (slotStart lastArrival : Int) : Int :=
  if slotStart < lastArrival then lastArrival + 2000000000 else slotStart + 4000000000

/-- The instants at which the rule emits. -/
structure InWindow (genesis now lastArrival : Int) : Prop where
  opened : release (slotStartOf genesis now) lastArrival ≤ now
  closes : now < slotStartOf genesis now + 8000000000

theorem InWindow.two_seconds
    {genesis now lastArrival : Int}
    (h : InWindow genesis now lastArrival) :
    slotStartOf genesis now + 2000000000 ≤ now := by
  have hopened := h.opened
  unfold release at hopened
  split at hopened
  · omega
  · omega

theorem InWindow.after_arrival
    {genesis now lastArrival arrival : Int}
    (h : InWindow genesis now lastArrival)
    (hlast : arrival ≤ lastArrival) :
    arrival + 2000000000 ≤ now := by
  have hopened := h.opened
  unfold release at hopened
  split at hopened
  · omega
  · omega

end Rule

section Gate

/-- The gate is the rule, for arrivals recorded within the range of the clock. -/
theorem shouldHoldForSlotGate_eq_false
    {ts : UInt64} {now : Time} {lastBlockMs : Int64}
    (hgenesis : ts.toNat * 1000000000 ≤ now.nanos)
    (hnow : now.nanos < 2 ^ 63)
    (hlast : lastBlockMs.toInt * 1000000 < 2 ^ 63)
    (systemNow : Time) :
    shouldHoldForSlotGate true (genesisTime ts) systemNow now lastBlockMs = false
      ↔
    InWindow (ts.toNat * 1000000000) now.nanos (lastBlockMs.toInt * 1000000) := by
  have hstart := nanos_currentSlotStart hgenesis hnow systemNow
  have hlow := le_slotStartOf hgenesis
  have hle := slotStartOf_le (ts.toNat * 1000000000) now.nanos
  -- The slot starts on a whole second, so its milliseconds are exact.
  obtain ⟨sec, hsec⟩ := slotStartOf_whole_second ts.toNat now.nanos
  have hwindow : InWindow (ts.toNat * 1000000000) now.nanos (lastBlockMs.toInt * 1000000) ↔
      release (slotStartOf (ts.toNat * 1000000000) now.nanos) (lastBlockMs.toInt * 1000000) ≤
          now.nanos ∧
        now.nanos < slotStartOf (ts.toNat * 1000000000) now.nanos + 8000000000 :=
    ⟨fun h => ⟨h.opened, h.closes⟩, fun h => ⟨h.1, h.2⟩⟩
  rw [hwindow]
  unfold shouldHoldForSlotGate release
  have hmono : (slotStartTime (genesisTime ts)
      (currentSlot (genesisTime ts) systemNow now)).mono = none := by
    rfl
  generalize slotStartOf (ts.toNat * 1000000000) now.nanos = start at *
  generalize slotStartTime (genesisTime ts) (currentSlot (genesisTime ts) systemNow now) =
    slotStart at *
  have hstartMilli : slotStart.unixMilli.toInt = start / 1000000 := by
    rw [Time.toInt_unixMilli (by omega) (by omega), hstart]
  have hnowMilli : now.unixMilli.toInt = now.nanos / 1000000 := by
    rw [Time.toInt_unixMilli (by omega) (by omega)]
  have hgate : getAttestationPublishGate.toInt = 4000000000 := by
    decide
  have hcap : getAttestationPublishCap.toInt = 8000000000 := by
    decide
  have hfallback : (slotStart.add getAttestationPublishGate).nanos = start + 4000000000 := by
    rw [Time.add, hgate, hstart]
  have hfallbackMilli : (slotStart.add getAttestationPublishGate).unixMilli.toInt =
      (start + 4000000000) / 1000000 := by
    rw [Time.toInt_unixMilli (by omega) (by omega), hfallback]
  have helapsed : (now.sub slotStart).toInt = now.nanos - start := by
    rw [Time.toInt_sub_of_none hmono (by omega) (by omega), hstart]
  have hdelay : (lastBlockMs + blockSeenPublishDelay).toInt = lastBlockMs.toInt + 2000 := by
    have hmin := Int64.le_toInt lastBlockMs
    have htwo : blockSeenPublishDelay.toInt = 2000 := by
      decide
    rw [Int64.toInt_add, htwo]
    exact Int.bmod_eq_of_le (by omega) (by omega)
  have hthisSlot : (0 < lastBlockMs.toInt ∧ start / 1000000 < lastBlockMs.toInt) ↔
      start < lastBlockMs.toInt * 1000000 := by
    omega
  simp only [Bool.not_true, Bool.false_eq_true, if_false,
    Int64.lt_iff_toInt_lt, Int64.le_iff_toInt_le, hstartMilli, hnowMilli, hfallbackMilli,
    hdelay, hgate, hcap, helapsed, Int64.toInt_zero, hthisSlot]
  by_cases harrival : start < lastBlockMs.toInt * 1000000
  · simp only [harrival, if_true]
    by_cases hemit : lastBlockMs.toInt + 2000 ≤ now.nanos / 1000000
    · simp [hemit]
      omega
    · simp [hemit]
      omega
  · simp only [harrival, if_false]
    by_cases hemit : (start + 4000000000) / 1000000 ≤ now.nanos / 1000000
    · simp [hemit]
      omega
    · simp [hemit]
      omega

end Gate

section Runs

variable (lib : Libraries) (ts : UInt64)

/-- The loop together with the arrival time that the gateway recorded last. -/
structure GatedLoop where
  loop : Loop
  lastBlockReceivedAt : Int64

def GatedLoop.start : GatedLoop :=
  ⟨Loop.start, 0⟩

/-- What can happen: the gateway records a block arrival, or the loop takes one of its
cases.  A tick reads the clock. -/
inductive GateEvent where
  | arrival (recvAt : Int64)
  | receive (it : AggregateItem)
  | failedTick
  | tick (now systemNow : Time) (t : Tick)

/-- The case of the loop that an event takes. -/
def GateEvent.loopEvent (s : GatedLoop) : GateEvent → Option LoopEvent
  | .arrival _ => none
  | .receive it => some (.receive it)
  | .failedTick => some .failedTick
  | .tick now systemNow t =>
      if shouldHoldForSlotGate true (genesisTime ts) systemNow now s.lastBlockReceivedAt then
        some .heldTick
      else
        some (.emitTick t)

/-- The arrival time after an event. -/
def GateEvent.recorded (s : GatedLoop) : GateEvent → Int64
  | .arrival recvAt => recvAt
  | _ => s.lastBlockReceivedAt

/-- The state after an event, and what the event emits. -/
def gatedStep (s : GatedLoop) (e : GateEvent) : GatedLoop × List Bytes :=
  match e.loopEvent ts s with
  | none => (⟨s.loop, e.recorded s⟩, [])
  | some event => (⟨(step lib s.loop event).1, e.recorded s⟩, (step lib s.loop event).2)

def GateEvent.Feasible (s : GatedLoop) (e : GateEvent) : Prop :=
  ∀ event, e.loopEvent ts s = some event → event.Feasible s.loop

inductive GatedRun : List GateEvent → GatedLoop → List Bytes → Prop where
  | start : GatedRun [] GatedLoop.start []
  | step {events : List GateEvent} {s : GatedLoop} {emitted : List Bytes}
      (h : GatedRun events s emitted)
      (e : GateEvent)
      (hfeasible : e.Feasible ts s) :
      GatedRun (events ++ [e]) (gatedStep lib ts s e).1
        (emitted ++ (gatedStep lib ts s e).2)

/-- The instant of an arrival or of a tick, in nanoseconds. -/
def GateEvent.instant : GateEvent → Option Int
  | .arrival recvAt => some (recvAt.toInt * 1000000)
  | .tick now _ _ => some now.nanos
  | _ => none

/-- An arrival is not later than an arrival or a tick that follows it. -/
def TimeOrdered (events : List GateEvent) : Prop :=
  events.Pairwise fun e e' =>
    ∀ recvAt, e = .arrival recvAt → ∀ b ∈ e'.instant, recvAt.toInt * 1000000 ≤ b

variable {lib} {ts}
variable {events : List GateEvent} {s : GatedLoop} {emitted : List Bytes}

def GateEvent.item : GateEvent → Option AggregateItem
  | .receive it => some it
  | _ => none

theorem GateEvent.received_loopEvent
    (s : GatedLoop)
    (e : GateEvent) :
    received (e.loopEvent ts s).toList = [e].filterMap GateEvent.item := by
  cases e with
  | tick now systemNow t =>
      simp only [GateEvent.loopEvent]
      split <;> rfl
  | _ => rfl

variable (hrun : GatedRun lib ts events s emitted)
include hrun

/-- A gated run is a run of the loop with the same items. -/
theorem GatedRun.loopRun :
    ∃ loopEvents, LoopRun lib loopEvents s.loop emitted ∧
      received loopEvents = events.filterMap GateEvent.item := by
  induction hrun with
  | start => exact ⟨[], LoopRun.start, rfl⟩
  | @step events s emitted _ e hfeasible ih =>
      obtain ⟨loopEvents, hloop, hitems⟩ := ih
      have hitem := @GateEvent.received_loopEvent ts s e
      rw [List.filterMap_append, ← hitems, ← hitem, ← received_append]
      unfold gatedStep
      cases hevent : e.loopEvent ts s with
      | none => exact ⟨loopEvents, by simpa using hloop, by simp⟩
      | some event => exact ⟨_, hloop.step event (hfeasible event hevent), rfl⟩

omit hrun in
theorem gatedStep_recorded
    (s : GatedLoop)
    (e : GateEvent) :
    (gatedStep lib ts s e).1.lastBlockReceivedAt = e.recorded s := by
  unfold gatedStep
  cases e.loopEvent ts s with
  | none | some event => rfl

/-- The recorded arrival is the latest one. -/
theorem GatedRun.arrival_le
    (hordered : TimeOrdered events)
    {recvAt : Int64}
    (harrival : .arrival recvAt ∈ events) :
    .arrival s.lastBlockReceivedAt ∈ events ∧
      recvAt.toInt ≤ s.lastBlockReceivedAt.toInt := by
  induction hrun with
  | start => cases harrival
  | @step events s emitted _ e _ ih =>
      obtain ⟨hbefore, -, hlast⟩ := List.pairwise_append.mp hordered
      rw [gatedStep_recorded]
      rcases List.mem_append.mp harrival with hmem | hmem
      · obtain ⟨hrecorded, hle⟩ := ih hbefore hmem
        cases e with
        | arrival recvAt' =>
            have hafter := hlast _ hmem (.arrival recvAt') (List.mem_singleton_self _)
              _ rfl _ rfl
            refine ⟨List.mem_append_right _ (List.mem_singleton_self _), ?_⟩
            simp only [GateEvent.recorded]
            omega
        | receive _ | failedTick | tick _ _ _ => exact ⟨List.mem_append_left _ hrecorded, hle⟩
      · rw [List.mem_singleton] at hmem
        subst hmem
        exact ⟨List.mem_append_right _ (List.mem_singleton_self _), Int.le_refl _⟩

/-- Without an arrival nothing is recorded. -/
theorem GatedRun.recorded_cases :
    s.lastBlockReceivedAt = 0 ∨ .arrival s.lastBlockReceivedAt ∈ events := by
  induction hrun with
  | start => exact Or.inl rfl
  | @step events s emitted _ e _ ih =>
      rw [gatedStep_recorded]
      have hkeep : s.lastBlockReceivedAt = 0 ∨
          .arrival s.lastBlockReceivedAt ∈ events ++ [e] := by
        rcases ih with hzero | hmem
        · exact Or.inl hzero
        · exact Or.inr (List.mem_append_left _ hmem)
      cases e with
      | arrival recvAt => exact Or.inr (List.mem_append_right _ (List.mem_singleton_self _))
      | receive _ | failedTick | tick _ _ _ => exact hkeep

omit hrun in
/-- A tick that emits was let through by the gate. -/
theorem not_hold_of_emitted
    {now systemNow : Time} {t : Tick}
    (h : (gatedStep lib ts s (.tick now systemNow t)).2 ≠ []) :
    shouldHoldForSlotGate true (genesisTime ts) systemNow now s.lastBlockReceivedAt =
      false := by
  cases hhold : shouldHoldForSlotGate true (genesisTime ts) systemNow now
      s.lastBlockReceivedAt with
  | false => rfl
  | true => simp [gatedStep, GateEvent.loopEvent, hhold, step] at h

/-- A tick that emits stands in the window for the recorded arrival. -/
theorem GatedRun.inWindow
    {now systemNow : Time} {t : Tick}
    (hordered : TimeOrdered (events ++ [.tick now systemNow t]))
    (hgenesis : ts.toNat * 1000000000 ≤ now.nanos)
    (hnow : now.nanos < 2 ^ 63)
    (hemits : (gatedStep lib ts s (.tick now systemNow t)).2 ≠ []) :
    InWindow (ts.toNat * 1000000000) now.nanos (s.lastBlockReceivedAt.toInt * 1000000) := by
  have hlast : s.lastBlockReceivedAt.toInt * 1000000 < 2 ^ 63 := by
    rcases hrun.recorded_cases with hzero | hmem
    · rw [hzero]
      decide
    · have hle := (List.pairwise_append.mp hordered).2.2 _ hmem _
        (List.mem_singleton_self _) _ rfl _ rfl
      omega
  exact (shouldHoldForSlotGate_eq_false hgenesis hnow hlast systemNow).mp
    (not_hold_of_emitted hemits)

end Runs

/-- The gate is the rule of ADR-0009, and in every run of arrivals in time order and ticks
a tick emits only from two to eight seconds into its slot, two seconds or more after
every arrival, and not at all after an arrival at six seconds or later. -/
theorem slot_gate
    (lib : Libraries)
    (ts : UInt64) :
    (∀ (now systemNow : Time) (lastBlockMs : Int64),
        ts.toNat * 1000000000 ≤ now.nanos → now.nanos < 2 ^ 63 →
        lastBlockMs.toInt * 1000000 < 2 ^ 63 →
        (shouldHoldForSlotGate true (genesisTime ts) systemNow now lastBlockMs = false
          ↔
        release (slotStartOf (ts.toNat * 1000000000) now.nanos)
            (lastBlockMs.toInt * 1000000) ≤ now.nanos ∧
          now.nanos < slotStartOf (ts.toNat * 1000000000) now.nanos + 8000000000)) ∧
      ∀ (events : List GateEvent) (s : GatedLoop) (emitted : List Bytes)
        (now systemNow : Time) (t : Tick), GatedRun lib ts events s emitted →
        TimeOrdered (events ++ [.tick now systemNow t]) →
        ts.toNat * 1000000000 ≤ now.nanos → now.nanos < 2 ^ 63 →
        (gatedStep lib ts s (.tick now systemNow t)).2 ≠ [] →
        slotStartOf (ts.toNat * 1000000000) now.nanos + 2000000000 ≤ now.nanos ∧
          now.nanos < slotStartOf (ts.toNat * 1000000000) now.nanos + 8000000000 ∧
          ∀ recvAt, .arrival recvAt ∈ events →
            recvAt.toInt * 1000000 + 2000000000 ≤ now.nanos ∧
              recvAt.toInt * 1000000 <
                slotStartOf (ts.toNat * 1000000000) now.nanos + 6000000000 := by
  constructor
  · intro now systemNow lastBlockMs hgenesis hnow hlast
    rw [shouldHoldForSlotGate_eq_false hgenesis hnow hlast]
    exact ⟨fun h => ⟨h.opened, h.closes⟩, fun h => ⟨h.1, h.2⟩⟩
  · intro events s emitted now systemNow t hrun hordered hgenesis hnow hemits
    have hwindow := hrun.inWindow hordered hgenesis hnow hemits
    refine ⟨hwindow.two_seconds, hwindow.closes, ?_⟩
    intro recvAt harrival
    have hbefore := (List.pairwise_append.mp hordered).1
    have hle := (hrun.arrival_le hbefore harrival).2
    have hafter : recvAt.toInt * 1000000 + 2000000000 ≤ now.nanos :=
      hwindow.after_arrival (by omega)
    have hcloses := hwindow.closes
    exact ⟨hafter, by omega⟩

section Delays

variable {lib : Libraries} {ts : UInt64} {digest : String}
variable {events : List GateEvent} {s : GatedLoop} {emitted : List Bytes}

theorem getAll_takeBatch
    (acc : GoMap String (List Bytes) × List Container)
    (x topic : String) :
    GoMap.getAll (takeBatch acc x).1 topic =
      if topic = x then [] else GoMap.getAll acc.1 topic := by
  by_cases hbatch : GoMap.getAll acc.1 x = []
  · by_cases hx : topic = x <;> simp [takeBatch, hbatch, hx]
  · by_cases hx : topic = x
    · have herased : GoMap.getAll (acc.1.erase x) x = [] := by simp [GoMap.getAll]
      simp [takeBatch, hbatch, hx, herased]
    · simp [takeBatch, hbatch, hx, GoMap.getAll_erase_of_ne]

/-- A topic is empty once the loop over `byTopic` has visited it. -/
theorem getAll_foldl_takeBatch
    (order : List String)
    (acc : GoMap String (List Bytes) × List Container)
    (topic : String) :
    GoMap.getAll (order.foldl takeBatch acc).1 topic =
      if topic ∈ order then [] else GoMap.getAll acc.1 topic := by
  induction order generalizing acc with
  | nil => rfl
  | cons x order ih =>
      rw [List.foldl_cons, ih, getAll_takeBatch]
      by_cases hmem : topic ∈ order <;> simp [hmem]

theorem heldPairs_buildAndEmit
    {l : Loop} {t : Tick}
    (hfeasible : (LoopEvent.emitTick t).Feasible l) :
    heldPairs lib digest (buildAndEmit lib l t).1 = 0 := by
  have hempty : ∀ m : GoMap String (List Bytes), (∀ topic, GoMap.getAll m topic = []) →
      uncompressedPairs lib.snappy (GoMap.pairs m) = 0 := by
    intro m hm
    simp [GoMap.pairs, hm, uncompressedPairs]
  have hvisited : ∀ topic,
      GoMap.getAll (t.topicOrder.foldl takeBatch (l.byTopic, [])).1 topic = [] := by
    intro topic
    rw [getAll_foldl_takeBatch]
    split
    · rfl
    · rename_i hmem
      exact GoMap.getAll_of_notMem (mt hfeasible.2.mem_iff.mpr hmem)
  have hclean : (l.packer.clean).pairs lib digest = 0 := rfl
  unfold buildAndEmit heldPairs
  simp only
  split
  · rename_i hkeys
    simp only [hclean, zero_add]
    refine hempty l.byTopic fun topic => GoMap.getAll_of_notMem ?_
    rw [List.isEmpty_iff.mp hkeys]
    exact List.not_mem_nil
  · split <;> simp only [hclean, zero_add] <;> exact hempty _ hvisited

theorem GatedRun.accounts
    (hlib : lib.Lawful)
    (hrun : GatedRun lib ts events s emitted)
    (hcanonical : ∀ it ∈ events.filterMap GateEvent.item, it.Canonical digest)
    (hfree : CollisionFree lib (events.filterMap GateEvent.item)) :
    emittedPairs lib digest emitted + heldPairs lib digest s.loop =
      ((events.filterMap GateEvent.item).map (AggregateItem.pair lib) : List _) := by
  obtain ⟨loopEvents, hloop, hitems⟩ := hrun.loopRun
  rw [← hitems] at hcanonical hfree ⊢
  exact (run_spec hlib hloop hcanonical fun past => hfree.within).2

/-- The slot gate delays and loses nothing.  At every moment of every run the messages that
were received are those that the emitted payloads stand for, and those that are held; and
after a tick in the window of a slot everything that was received is out. -/
theorem gate_only_delays
    (hlib : lib.Lawful)
    (hrun : GatedRun lib ts events s emitted)
    (hcanonical : ∀ it ∈ events.filterMap GateEvent.item, it.Canonical digest)
    (hfree : CollisionFree lib (events.filterMap GateEvent.item)) :
    emittedPairs lib digest emitted + heldPairs lib digest s.loop =
        ((events.filterMap GateEvent.item).map (AggregateItem.pair lib) : List _) ∧
      ∀ now systemNow t, (GateEvent.tick now systemNow t).Feasible ts s →
        ts.toNat * 1000000000 ≤ now.nanos → now.nanos < 2 ^ 63 →
        s.lastBlockReceivedAt.toInt * 1000000 < 2 ^ 63 →
        InWindow (ts.toNat * 1000000000) now.nanos (s.lastBlockReceivedAt.toInt * 1000000) →
        emittedPairs lib digest (emitted ++ (gatedStep lib ts s (.tick now systemNow t)).2) =
          ((events.filterMap GateEvent.item).map (AggregateItem.pair lib) : List _) := by
  refine ⟨hrun.accounts hlib hcanonical hfree, ?_⟩
  intro now systemNow t hfeasible hgenesis hnow hlast hwindow
  have hopen := (shouldHoldForSlotGate_eq_false hgenesis hnow hlast systemNow).mpr hwindow
  have hevent : (GateEvent.tick now systemNow t).loopEvent ts s = some (.emitTick t) := by
    simp [GateEvent.loopEvent, hopen]
  have hsame : (events ++ [GateEvent.tick now systemNow t]).filterMap GateEvent.item =
      events.filterMap GateEvent.item := by
    simp [GateEvent.item]
  have haccounts := (hrun.step (.tick now systemNow t) hfeasible).accounts hlib
    (by rwa [hsame]) (by rwa [hsame])
  have hheld : heldPairs lib digest (gatedStep lib ts s (.tick now systemNow t)).1.loop = 0 := by
    simp only [gatedStep, hevent]
    exact heldPairs_buildAndEmit (hfeasible _ hevent)
  rwa [hheld, add_zero, hsame] at haccounts

end Delays

section Sample

/-- Genesis of the Hoodi chain. -/
def hoodiGenesis : UInt64 := 1742213400

/-- A message that waits for the naive payload. -/
def plainItem : AggregateItem :=
  ⟨"voluntary_exit", none, [1]⟩

def plainTick : Tick :=
  ⟨1742213403500, 1742213403500, [], ["voluntary_exit"]⟩

/-- Three and a half seconds into the first slot. -/
def sampleNow : Time :=
  ⟨1742213403500000000, none⟩

/-- A block one second into the slot, then a message. -/
def arrivalThenMessage : List GateEvent :=
  [.arrival 1742213401000, .receive plainItem]

theorem run_arrivalThenMessage
    (lib : Libraries)
    (ts : UInt64)
    (recvAt : Int64)
    (it : AggregateItem) :
    GatedRun lib ts [.arrival recvAt, .receive it] ⟨receive lib Loop.start it, recvAt⟩ [] := by
  refine (GatedRun.start.step (.arrival recvAt) ?_).step (.receive it) ?_
  · intro event hevent
    cases hevent
  · intro event hevent
    cases hevent
    exact trivial

theorem slot_gate_sample :
    slotStartOf (hoodiGenesis.toNat * 1000000000) sampleNow.nanos + 2000000000 ≤
        sampleNow.nanos ∧
      shouldHoldForSlotGate true (genesisTime hoodiGenesis) sampleNow sampleNow
        1742213401000 = false ∧
      (1742213401000 : Int64).toInt * 1000000 + 2000000000 ≤ sampleNow.nanos := by
  have hgenesis : (hoodiGenesis.toNat : Int) * 1000000000 ≤ sampleNow.nanos := by
    decide
  have hnow : sampleNow.nanos < 2 ^ 63 := by
    decide
  have hemits : (gatedStep sampleLibraries hoodiGenesis
      ⟨receive sampleLibraries Loop.start plainItem, 1742213401000⟩
      (.tick sampleNow sampleNow plainTick)).2 ≠ [] := by
    decide +kernel
  have hordered : TimeOrdered (arrivalThenMessage ++ [.tick sampleNow sampleNow plainTick]) := by
    simp [TimeOrdered, arrivalThenMessage, GateEvent.instant]
    decide
  obtain ⟨hgate, hruns⟩ := slot_gate sampleLibraries hoodiGenesis
  have hwindow := hruns arrivalThenMessage _ [] sampleNow sampleNow plainTick
    (run_arrivalThenMessage sampleLibraries hoodiGenesis _ _) hordered hgenesis hnow hemits
  refine ⟨hwindow.1, ?_, (hwindow.2.2 1742213401000 List.mem_cons_self).1⟩
  rw [hgate sampleNow sampleNow _ hgenesis hnow (by decide)]
  exact ⟨by decide, hwindow.2.1⟩

theorem feasible_tick
    {ts : UInt64}
    (s : GatedLoop)
    (now systemNow : Time) :
    (GateEvent.tick now systemNow (tickOf s.loop)).Feasible ts s := by
  intro event hevent
  simp only [GateEvent.loopEvent] at hevent
  split at hevent
  · cases hevent
    exact trivial
  · cases hevent
    exact feasible_tickOf s.loop

/-- A block one second into the slot, an attestation, and a tick two and a half seconds
after the block. -/
theorem gate_only_delays_sample :
    emittedPairs sampleLibraries "6a95a1a9"
        (gatedStep sampleLibraries hoodiGenesis
          ⟨receive sampleLibraries Loop.start packedItem, 1742213401000⟩
          (.tick sampleNow sampleNow (tickOf (receive sampleLibraries Loop.start packedItem)))).2 =
      {packedItem.pair sampleLibraries} := by
  have hitem : ∀ it ∈ [.arrival 1742213401000, .receive packedItem].filterMap GateEvent.item,
      it = packedItem ∨ it = fallbackItem := by
    intro it hit
    exact Or.inl (List.mem_singleton.mp hit)
  have hout := (gate_only_delays ⟨literalSnappy_lawful, wireCodec_lawful⟩
    (run_arrivalThenMessage sampleLibraries hoodiGenesis 1742213401000 packedItem)
    (fun it hit => canonical_sample (hitem it hit)) (collisionFree_sample hitem)).2
    _ _ _ (feasible_tick _ sampleNow sampleNow) (by decide) (by decide) (by decide)
    ⟨by decide, by decide⟩
  simp only [List.nil_append] at hout
  rw [hout]
  rfl

end Sample

end Aggregator
end OptimumGateway
