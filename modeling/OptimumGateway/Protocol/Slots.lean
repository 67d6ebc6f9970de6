import OptimumGateway.Foundation.GoTime

/-!
# Slots

This module models `pkg/protocol/consensus/slots.go`, the slot helpers of
`pkg/protocol/chain_state`, and `DiffUint64` of `pkg/utils/numbers.go`, the distance of two
slots.

The source computes with durations and `uint64` slot numbers.  For a genesis on a whole
second and an instant from genesis on, the start of the current slot is what plain
integer arithmetic gives (`nanos_slotStartTime`).  Up to slot 768614336 no value overflows;
within these bounds the two functions are inverse to each other in the way of a rounding
division and its multiplication (`slots_galois`).
-/

namespace OptimumGateway
namespace Protocol

open Foundation

def diffUint64 (a b : UInt64) : UInt64 :=
  if a > b then a - b else b - a

def secondsPerSlot : UInt64 := 12

def slotAt (genesis t : Time) : UInt64 :=
  if !t.after genesis then
    0
  else
    (t.sub genesis / Duration.second).toUInt64 / secondsPerSlot

def slotStartTime (genesis : Time) (slot : UInt64) : Time :=
  (genesis.add ((slot * secondsPerSlot).toInt64 * Duration.second)).utc

/-- The genesis instant that `LoadGenesisState` stores for a chain. -/
def genesisTime (ts : UInt64) : Time :=
  (Time.unix ts.toInt64).utc

/-- The slot at an instant; the zero instant stands for the system's own time. -/
def currentSlot (genesis systemNow t : Time) : UInt64 :=
  slotAt genesis (if t.isZero then systemNow else t)

/-- Length of a slot in nanoseconds. -/
def slotNanos : Int := 12000000000

/-- The start of the slot that contains `now`, by integer arithmetic. -/
def slotStartOf (genesis now : Int) : Int :=
  genesis + (now - genesis) / slotNanos * slotNanos

theorem slotStartOf_le
    (genesis now : Int) :
    slotStartOf genesis now ≤ now := by
  unfold slotStartOf slotNanos
  omega

theorem le_slotStartOf
    {genesis now : Int}
    (h : genesis ≤ now) :
    genesis ≤ slotStartOf genesis now := by
  unfold slotStartOf slotNanos
  omega

section Arithmetic

/-- A result of `Int64` arithmetic that fits is exact. -/
theorem bmod_of_nonneg
    {n : Int}
    (hlow : 0 ≤ n)
    (hhigh : n < 2 ^ 63) :
    n.bmod (2 ^ 64) = n := by
  exact Int.bmod_eq_of_le (by omega) (by omega)

theorem toInt_toInt64
    {n : UInt64}
    (h : n.toNat < 2 ^ 63) :
    n.toInt64.toInt = n.toNat := by
  rw [UInt64.toInt64, Int64.toInt]
  exact BitVec.toInt_eq_toNat_of_lt (by
    show 2 * n.toNat < 2 ^ 64
    omega)

theorem toNat_toUInt64
    {d : Int64}
    (h : 0 ≤ d.toInt) :
    (d.toUInt64.toNat : Int) = d.toInt := by
  have hd : 0 ≤ d := by
    rw [Int64.le_iff_toInt_le]
    exact h
  rw [Int64.toNat_toUInt64_of_le hd, Int64.toNatClampNeg]
  omega

end Arithmetic

theorem nanos_genesisTime
    {ts : UInt64}
    (h : ts.toNat < 2 ^ 63) :
    (genesisTime ts).nanos = ts.toNat * 1000000000 := by
  simp [genesisTime, Time.utc, Time.unix, toInt_toInt64 h]

variable {genesis now t : Time} {slot : UInt64}

variable (hmono : genesis.mono = none)
include hmono

theorem toNat_slotAt
    (hle : genesis.nanos ≤ now.nanos)
    (hrange : now.nanos - genesis.nanos < 2 ^ 63) :
    ((slotAt genesis now).toNat : Int) = (now.nanos - genesis.nanos) / slotNanos := by
  have hafter : now.after genesis = decide (genesis.nanos < now.nanos) := by
    rw [Time.after, Time.readings_of_none now hmono]
  unfold slotAt
  rw [hafter]
  by_cases heq : genesis.nanos < now.nanos
  · have hsub := Time.toInt_sub_of_none (t := now) hmono (by omega) hrange
    have hquot : (now.sub genesis / Duration.second).toInt =
        (now.nanos - genesis.nanos) / 1000000000 := by
      have hsecond : Duration.second.toInt = 1000000000 := by
        decide
      rw [Int64.toInt_div, hsub, hsecond, Int.tdiv_eq_ediv_of_nonneg (by omega)]
      exact bmod_of_nonneg (by omega) (by omega)
    have hnat : ((now.sub genesis / Duration.second).toUInt64.toNat : Int) =
        (now.nanos - genesis.nanos) / 1000000000 := by
      rw [toNat_toUInt64 (by omega), hquot]
    have htwelve : secondsPerSlot.toNat = 12 := by
      decide
    rw [decide_eq_true heq, Bool.not_true, if_neg Bool.false_ne_true, UInt64.toNat_div,
      htwelve, slotNanos]
    omega
  · rw [decide_eq_false heq, Bool.not_false, if_pos rfl, slotNanos]
    simp only [UInt64.toNat_zero]
    omega

/-- The last slot whose start is a duration after genesis. -/
def lastSlot : Nat := 768614336

omit hmono in
/-- The time of a slot in seconds and in nanoseconds, as the source computes it, without
overflow. -/
theorem toInt_slotTime
    (h : slot.toNat ≤ lastSlot) :
    (slot * secondsPerSlot).toInt64.toInt = slot.toNat * 12 ∧
      ((slot * secondsPerSlot).toInt64 * Duration.second).toInt = slot.toNat * slotNanos := by
  unfold lastSlot at h
  have htwelve : secondsPerSlot.toNat = 12 := by
    decide
  have hsecond : Duration.second.toInt = 1000000000 := by
    decide
  have hmul : (slot * secondsPerSlot).toNat = slot.toNat * 12 := by
    rw [UInt64.toNat_mul, htwelve]
    exact Nat.mod_eq_of_lt (by omega)
  have hsecs : (slot * secondsPerSlot).toInt64.toInt = slot.toNat * 12 := by
    rw [toInt_toInt64 (by omega), hmul]
    rfl
  refine ⟨hsecs, ?_⟩
  rw [Int64.toInt_mul, hsecs, hsecond, slotNanos, bmod_of_nonneg (by omega) (by omega)]
  omega

omit hmono in
theorem nanos_slotStartTime_of_le
    (h : slot.toNat ≤ lastSlot)
    (genesis : Time) :
    (slotStartTime genesis slot).nanos = genesis.nanos + slot.toNat * slotNanos := by
  simp only [slotStartTime, Time.utc, Time.add, (toInt_slotTime h).2]

theorem nanos_slotStartTime
    (hle : genesis.nanos ≤ now.nanos)
    (hrange : now.nanos - genesis.nanos < 2 ^ 63) :
    (slotStartTime genesis (slotAt genesis now)).nanos =
      slotStartOf genesis.nanos now.nanos := by
  have hslot := toNat_slotAt hmono hle hrange
  have hlast : (slotAt genesis now).toNat ≤ lastSlot := by
    unfold slotNanos at hslot
    unfold lastSlot
    omega
  rw [nanos_slotStartTime_of_le hlast, hslot, slotStartOf]

theorem slotAt_of_le
    (hle : t.nanos ≤ genesis.nanos) :
    slotAt genesis t = 0 := by
  have hafter : t.after genesis = false := by
    rw [Time.after, Time.readings_of_none t hmono]
    exact decide_eq_false (by omega)
  rw [slotAt, hafter, Bool.not_false, if_pos rfl]

theorem slotAt_mono
    {t' : Time}
    (hle : t.nanos ≤ t'.nanos)
    (hrange : t'.nanos - genesis.nanos < 2 ^ 63) :
    slotAt genesis t ≤ slotAt genesis t' := by
  rw [UInt64.le_iff_toNat_le]
  by_cases hbefore : t.nanos ≤ genesis.nanos
  · rw [slotAt_of_le hmono hbefore]
    exact Nat.zero_le _
  · have hslot := toNat_slotAt hmono (show genesis.nanos ≤ t.nanos by omega) (by omega)
    have hslot' := toNat_slotAt hmono (show genesis.nanos ≤ t'.nanos by omega) hrange
    unfold slotNanos at hslot hslot'
    omega

theorem le_slotAt_iff
    (hle : genesis.nanos ≤ t.nanos)
    (hrange : t.nanos - genesis.nanos < 2 ^ 63)
    (hslot : slot.toNat ≤ lastSlot) :
    slot ≤ slotAt genesis t ↔ (slotStartTime genesis slot).nanos ≤ t.nanos := by
  have hat := toNat_slotAt hmono hle hrange
  unfold slotNanos at hat
  rw [UInt64.le_iff_toNat_le, nanos_slotStartTime_of_le hslot, slotNanos]
  omega

theorem slotAt_slotStartTime
    (hslot : slot.toNat ≤ lastSlot) :
    slotAt genesis (slotStartTime genesis slot) = slot := by
  have hstart := nanos_slotStartTime_of_le hslot genesis
  unfold lastSlot at hslot
  unfold slotNanos at hstart
  have hat := toNat_slotAt hmono
    (show genesis.nanos ≤ (slotStartTime genesis slot).nanos by omega) (by omega)
  unfold slotNanos at hat
  exact UInt64.toNat_inj.mp (by omega)

omit hmono

/-- For a genesis on a whole second: an instant up to 2^63 - 1 nanoseconds after genesis is
within the twelve seconds of its slot, later instants are in later slots, and slots up to the
last one begin twelve seconds apart, each in itself, with every value computed on the way
exact. -/
theorem slots_galois
    (sec : Int64) :
    (∀ t, ((Time.unix sec).utc.nanos ≤ t.nanos ∧
        t.nanos ≤ (Time.unix sec).utc.nanos + (2 ^ 63 - 1)) →
      (t.sub (Time.unix sec).utc).toInt = t.nanos - (Time.unix sec).utc.nanos ∧
      (slotStartTime (Time.unix sec).utc (slotAt (Time.unix sec).utc t)).nanos ≤ t.nanos ∧
      t.nanos < (slotStartTime (Time.unix sec).utc (slotAt (Time.unix sec).utc t)).nanos +
        12 * 1000000000 ∧
      ∀ slot : UInt64, slot.toNat ≤ 768614336 → (slot ≤ slotAt (Time.unix sec).utc t ↔
        (slotStartTime (Time.unix sec).utc slot).nanos ≤ t.nanos)) ∧
    (∀ t t', t.nanos ≤ t'.nanos → t'.nanos ≤ (Time.unix sec).utc.nanos + (2 ^ 63 - 1) →
      slotAt (Time.unix sec).utc t ≤ slotAt (Time.unix sec).utc t') ∧
    (∀ slot : UInt64, slot.toNat ≤ 768614336 →
      slotAt (Time.unix sec).utc (slotStartTime (Time.unix sec).utc slot) = slot ∧
      (slot * secondsPerSlot).toInt64.toInt = slot.toNat * 12 ∧
      ((slot * secondsPerSlot).toInt64 * Duration.second).toInt =
        slot.toNat * (12 * 1000000000)) ∧
    ∀ slot : UInt64, slot.toNat + 1 ≤ 768614336 →
      (slotStartTime (Time.unix sec).utc (slot + 1)).nanos =
        (slotStartTime (Time.unix sec).utc slot).nanos + 12 * 1000000000 := by
  generalize hgenesis : (Time.unix sec).utc = genesis
  have hmono : genesis.mono = none := by
    rw [← hgenesis]
    rfl
  refine ⟨?_, ?_, ?_, ?_⟩
  · rintro t ⟨hle, hrange⟩
    have hstart := nanos_slotStartTime hmono hle (by omega)
    have hlow := slotStartOf_le genesis.nanos t.nanos
    have hhigh : t.nanos < slotStartOf genesis.nanos t.nanos + 12 * 1000000000 := by
      unfold slotStartOf slotNanos
      omega
    rw [hstart]
    exact ⟨Time.toInt_sub_of_none hmono (by omega) (by omega), hlow, hhigh,
      fun slot hslot => le_slotAt_iff hmono hle (by omega) hslot⟩
  · intro t t' hle hrange
    exact slotAt_mono hmono hle (by omega)
  · intro slot hslot
    exact ⟨slotAt_slotStartTime hmono hslot, toInt_slotTime hslot⟩
  · intro slot hslot
    have hnext : (slot + 1).toNat = slot.toNat + 1 := by
      rw [UInt64.toNat_add]
      exact Nat.mod_eq_of_lt (by rw [UInt64.toNat_one]; omega)
    rw [nanos_slotStartTime_of_le (show slot.toNat ≤ lastSlot by unfold lastSlot; omega),
      nanos_slotStartTime_of_le (show (slot + 1).toNat ≤ lastSlot by rw [hnext]; exact hslot),
      hnext, slotNanos]
    omega

/-- The same for the genesis of a chain and an instant that fits in an `Int64`. -/
theorem nanos_currentSlotStart
    {ts : UInt64}
    (hgenesis : ts.toNat * 1000000000 ≤ now.nanos)
    (hnow : now.nanos < 2 ^ 63)
    (systemNow : Time) :
    (slotStartTime (genesisTime ts) (currentSlot (genesisTime ts) systemNow now)).nanos =
      slotStartOf (ts.toNat * 1000000000) now.nanos := by
  have hnanos : (genesisTime ts).nanos = ts.toNat * 1000000000 :=
    nanos_genesisTime (by omega)
  have hzero : now.isZero = false := by
    refine decide_eq_false ?_
    simp only [Time.zero]
    omega
  rw [currentSlot, hzero, if_neg Bool.false_ne_true,
    nanos_slotStartTime rfl (by omega) (by omega), hnanos]

theorem slotStartOf_whole_second
    (sec now : Int) :
    ∃ start, slotStartOf (sec * 1000000000) now = start * 1000000000 := by
  refine ⟨sec + (now - sec * 1000000000) / slotNanos * 12, ?_⟩
  unfold slotStartOf slotNanos
  omega

end Protocol
end OptimumGateway
