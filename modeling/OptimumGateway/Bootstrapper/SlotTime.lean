import OptimumGateway.Bootstrapper.BlockEvents

/-!
# The slot time in the latency record

Both functions that create a record write the start of the slot, in milliseconds, as
`SlotStartTime` computes it.  The slot is what the header of a block says, and the block is
reported before its slot is compared with the current one, so that any peer may choose it.

The seconds of a slot are a `uint64` product that is converted to a duration and multiplied
again.  `slotTimeMs_exact_iff` says up to which slot the result is the exact time.  As the slot
time of a record never changes, this is what every record of a run shows
(`recorded_slotTime_exact_iff`); from slot 768614337 on it is another time.
-/

namespace OptimumGateway
namespace Bootstrapper

open Foundation Foundation.Prog Protocol BlockArrival
open GossipsubGateway (Source ProxyService)

section Arithmetic

variable {svc : Service} {sec : Int}

theorem nanos_slotStartTime_eq
    (genesis : Time)
    (slot : UInt64) :
    (slotStartTime genesis slot).nanos =
      genesis.nanos + ((slot * secondsPerSlot).toInt64 * Duration.second).toInt := by
  rfl

/-- The slot time is genesis and twelve seconds for each slot as long as that is a duration. -/
theorem slotTimeMs_exact_iff
    (hgenesis : svc.genesis.nanos = sec * 1000000000)
    (hlow : 0 ≤ sec)
    (hhigh : sec < 2 ^ 53)
    (slot : UInt64) :
    (slotTimeMs svc slot).toInt = sec * 1000 + 12 * 1000 * slot.toNat
      ↔
    slot.toNat ≤ 768614336 := by
  have hexact := fun h => (@toInt_slotTime slot h).2
  have hmin := Int64.le_toInt ((slot * secondsPerSlot).toInt64 * Duration.second)
  have hmax := Int64.toInt_lt ((slot * secondsPerSlot).toInt64 * Duration.second)
  have hstart := nanos_slotStartTime_eq svc.genesis slot
  rw [hgenesis] at hstart
  generalize ((slot * secondsPerSlot).toInt64 * Duration.second).toInt = offset at *
  rw [slotTimeMs, Time.toInt_unixMilli (by omega) (by omega), hstart]
  constructor
  · intro htime
    omega
  · intro hslot
    have hoffset := hexact hslot
    unfold slotNanos at hoffset
    omega

end Arithmetic

section Records

variable {svc : Service} {s : ProxyService} {input : QueueInput} {q : QueueState}
variable {tr : List QueueEvent} {d : QueueConfig}

theorem slotTime_composed
    (ev : BlockArrival)
    {record : Option LatencyComparator}
    (h : ∀ r, record = some r → r.slotTime = slotTimeMs svc ev.slot) :
    (composed svc ev record).slotTime = slotTimeMs svc ev.slot := by
  unfold composed
  cases record with
  | none =>
      split
      · rfl
      · rw [Option.map_none, Option.getD_none, createdByArrival]
        split <;> rfl
  | some r =>
      have hr := h r rfl
      split
      · exact hr
      · rw [Option.map_some, Option.getD_some, updateOnArrival]
        split
        · split <;> exact hr
        · split <;> exact hr
        · exact hr

/-- The slot time of every record is computed from its slot. -/
def SlotTimes (svc : Service) (q : QueueState) : Prop :=
  ∀ slot r, q.telemetry.trackedSlots.lookup slot = some r → r.slotTime = slotTimeMs svc slot

theorem SlotTimes.step
    {o : QueueOp} {a : o.Ans} {q' : QueueState}
    (h : SlotTimes svc q)
    (hsem : queueSem svc o q a q') :
    SlotTimes svc q' := by
  intro slot r hr
  cases o with
  | proxy op | receive => exact h slot r (hsem.2.2 ▸ hr)
  | compose ev =>
      obtain rfl := hsem
      have hlookup := lookup_handleBlockEvent svc q.telemetry ev slot
      rw [hr] at hlookup
      split at hlookup
      · rename_i hslot
        subst hslot
        rw [Option.some.inj hlookup]
        exact slotTime_composed ev (h ev.slot)
      · exact h slot r hlookup.symm
  | expireRecord expired =>
      obtain rfl := hsem
      by_cases hslot : slot = expired
      · subst hslot
        exact nomatch (AList.lookup_erase _ _).symm.trans hr
      · exact h slot r ((AList.lookup_erase_ne hslot).symm.trans hr)

theorem slotTimes_of_run
    (hnew : ∀ slot, q.telemetry.trackedSlots.lookup slot = none)
    (hrun : Run (queueSem svc) anyStep (input.config s q) tr d) :
    SlotTimes svc d.state := by
  refine hrun.invariant (I := fun _ c => SlotTimes svc c.state) ?_ ?_
  · intro slot r hr
    exact nomatch (hnew slot).symm.trans hr
  · intro tr c e c' h _ hstep
    cases hstep with
    | thread hprog hsem => exact h.step hsem

/-- The slot time of a record is genesis and twelve seconds for each slot up to slot
768614336, and another time from there on. -/
theorem recorded_slotTime_exact_iff
    {sec : Int}
    (hgenesis : svc.genesis.nanos = sec * 1000000000)
    (hlow : 0 ≤ sec)
    (hhigh : sec < 2 ^ 53)
    (hnew : ∀ slot, q.telemetry.trackedSlots.lookup slot = none)
    (hrun : Run (queueSem svc) anyStep (input.config s q) tr d)
    {slot : UInt64} {r : LatencyComparator}
    (hr : d.state.telemetry.trackedSlots.lookup slot = some r) :
    r.slotTime.toInt = sec * 1000 + 12 * 1000 * slot.toNat ↔ slot.toNat ≤ 768614336 := by
  rw [slotTimes_of_run hnew hrun slot r hr]
  exact slotTimeMs_exact_iff hgenesis hlow hhigh slot

end Records

section Sample

open GossipsubGateway (sampleService blockTopic isBeaconBlock_blockTopic)

/-- A block that names the last slot there is. -/
def farSlot : UInt64 := 18446744073709551615

def farBytes : Bytes :=
  leBytes 4 100 ++ (List.replicate 96 1 ++ (putUint64 farSlot ++ (putUint64 7 ++
    (List.replicate 32 2 ++ (List.replicate 32 2 ++ List.replicate 40 0)))))

def farHeader : SignedBeaconBlockHeader where
  header := ⟨farSlot, 7, List.replicate 32 2, List.replicate 32 2, none⟩
  signature := List.replicate 96 1

def farMessage : GossipsubGateway.P2PMessage :=
  ⟨blockTopic, literalSnappy.encode farBytes, "16Uiu2HAmOther", "16Uiu2HAmOther"⟩

theorem decode_farMessage :
    decodeBeaconBlockHeader sampleService.lib.snappy farMessage.message = .ok farHeader := by
  have hlength : farBytes.length = 220 := by
    simp only [farBytes, List.length_append, length_leBytes, List.length_replicate,
      length_putUint64, Nat.reduceAdd]
  have hlayout := headerAt_layout (β := Unit)
    (s := ⟨⟨farSlot, 7, List.replicate 32 2, List.replicate 32 2, ()⟩, List.replicate 96 1⟩)
    (List.length_replicate ..) (List.length_replicate ..) (List.length_replicate ..)
    (show farBytes = _ from rfl)
  refine (decodeBeaconBlockHeader_eq_ok_iff literalSnappy_lawful).mpr ⟨farBytes,
    literalSnappy_lawful.decode_encode (by rw [hlength]; decide), by rw [hlength]; decide,
    by omega, hlayout.1, hlayout.2.symm⟩

/-- A stale block gets a record for the slot that it names. -/
theorem run_staleBlock
    (msg : GossipsubGateway.P2PMessage)
    {block : SignedBeaconBlockHeader}
    (hblock : (parseTopicMeta msg.topic).isBeaconBlock = true)
    (hdecode : decodeBeaconBlockHeader sampleService.lib.snappy msg.message = .ok block)
    (hstale : decide (diffUint64 block.header.slot GossipsubGateway.blockSlot >
      GossipsubGateway.staleSlotThreshold) = true) :
    ∃ d r, Run (queueSem raceService) anyStep
        ((oneBlockInput msg).config sampleService emptyQueue) (oneBlockTrace msg block) d ∧
      d.state.telemetry.trackedSlots.lookup block.header.slot = some r := by
  obtain ⟨d, hrun, htelemetry⟩ := run_oneBlockTrace (path_staleCalls hblock hdecode hstale)
  refine ⟨d, composed raceService (arrivalEvent (staleArrival msg block)) none, hrun, ?_⟩
  rw [htelemetry]
  exact AList.lookup_insert _

/-- The record of the block says that its slot began twelve seconds before genesis. -/
theorem slotTime_wraps :
    ∃ d r, Run (queueSem raceService) anyStep
        ((oneBlockInput farMessage).config sampleService emptyQueue)
        (oneBlockTrace farMessage farHeader) d ∧
      decodeBeaconBlockHeader sampleService.lib.snappy farMessage.message = .ok farHeader ∧
      farHeader.header.slot = farSlot ∧
      d.state.telemetry.trackedSlots.lookup farSlot = some r ∧
      r.slotTime.toInt = 1742213400 * 1000 - 12 * 1000 ∧
      r.slotTime.toInt ≠ 1742213400 * 1000 + 12 * 1000 * farSlot.toNat := by
  obtain ⟨d, r, hrun, hr⟩ :=
    run_staleBlock farMessage isBeaconBlock_blockTopic decode_farMessage (by decide)
  have htime : r.slotTime.toInt = 1742213400 * 1000 - 12 * 1000 := by
    rw [slotTimes_of_run (fun _ => rfl) hrun farSlot r hr]
    decide
  refine ⟨d, r, hrun, decode_farMessage, rfl, hr, htime, ?_⟩
  rw [htime]
  decide

theorem recorded_slotTime_exact_iff_far :
    (∃ d r, Run (queueSem raceService) anyStep
        ((oneBlockInput farMessage).config sampleService emptyQueue)
        (oneBlockTrace farMessage farHeader) d ∧
      d.state.telemetry.trackedSlots.lookup farSlot = some r ∧
      (r.slotTime.toInt = 1742213400 * 1000 + 12 * 1000 * farSlot.toNat ↔
        farSlot.toNat ≤ 768614336)) ∧
    ∃ d r, Run (queueSem raceService) anyStep
        ((oneBlockInput oldMessage).config sampleService emptyQueue)
        (oneBlockTrace oldMessage oldHeader) d ∧
      d.state.telemetry.trackedSlots.lookup oldSlot = some r ∧
      r.slotTime.toInt = 1742213400 * 1000 + 12 * 1000 * oldSlot.toNat := by
  refine ⟨?_, ?_⟩
  · obtain ⟨d, r, hrun, hr⟩ :=
      run_staleBlock farMessage isBeaconBlock_blockTopic decode_farMessage (by decide)
    exact ⟨d, r, hrun, hr, recorded_slotTime_exact_iff (by decide) (by decide) (by decide)
      (fun _ => rfl) hrun hr⟩
  · obtain ⟨d, r, hrun, hr⟩ :=
      run_staleBlock oldMessage isBeaconBlock_blockTopic decode_oldBlock (by decide)
    exact ⟨d, r, hrun, hr, (recorded_slotTime_exact_iff (by decide) (by decide) (by decide)
      (fun _ => rfl) hrun hr).mpr (by decide)⟩

end Sample

end Bootstrapper
end OptimumGateway
