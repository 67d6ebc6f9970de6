import Mathlib.Data.List.MinMax
import Mathlib.Logic.Function.Iterate
import Mathlib.Tactic.Common

/-!
# Polling and retrying

`poll` looks at a condition at regular ticks, as long as the ticks are taken, and `retry`
repeats an attempt at later and later instants.  Both are bounded by a number of rounds.
`poll_isSome_iff` says that enough rounds find the condition whenever it holds at a tick that
is taken, and `exists_retry_iff` says which attempt a retry that is not bounded ends with.
Instants are natural numbers there.

Instants of an unbounded clock are `Spaced` if they are some gap apart.  Then a window holds
at most one more of them than it holds gaps (`Spaced.length_window_le`).
-/

namespace OptimumGateway
namespace Foundation

section Poll

variable (taken holds : Nat → Bool) (interval : Nat)

/-- The first tick at which the condition holds, unless a tick before it is not taken. -/
def poll : Nat → Nat → Option Nat
  | 0, _ => none
  | rounds + 1, tick =>
      if taken tick then
        if holds tick then some tick else poll rounds (tick + interval)
      else
        none

variable {taken holds interval} {rounds tick : Nat}

theorem poll_eq_some
    {found : Nat}
    (h : poll taken holds interval rounds tick = some found) :
    ∃ k, found = tick + k * interval ∧ taken found = true ∧ holds found = true := by
  induction rounds generalizing tick with
  | zero => exact nomatch h
  | succ rounds ih =>
      rw [poll] at h
      split at h
      · next htaken =>
        split at h
        · next hholds =>
          cases h
          exact ⟨0, by simp, htaken, hholds⟩
        · obtain ⟨k, hk, hfound⟩ := ih h
          exact ⟨k + 1, by rw [hk, Nat.succ_mul]; omega, hfound⟩
      · exact nomatch h

/-- Ticks are taken up to some instant. -/
def TakenUpTo (taken : Nat → Bool) : Prop :=
  ∀ t t', t ≤ t' → taken t' = true → taken t = true

theorem poll_isSome_of_holds
    {k : Nat}
    (hdown : TakenUpTo taken)
    (hrounds : k < rounds)
    (htaken : taken (tick + k * interval) = true)
    (hholds : holds (tick + k * interval) = true) :
    (poll taken holds interval rounds tick).isSome = true := by
  induction rounds generalizing tick k with
  | zero => exact absurd hrounds (Nat.not_lt_zero k)
  | succ rounds ih =>
      have hfirst : taken tick = true := hdown _ _ (Nat.le_add_right _ _) htaken
      rw [poll, if_pos hfirst]
      split
      · rfl
      · next hnot =>
        cases k with
        | zero =>
            rw [Nat.zero_mul, Nat.add_zero] at hholds
            exact absurd hholds hnot
        | succ k =>
            have hshift : tick + (k + 1) * interval = tick + interval + k * interval := by
              rw [Nat.succ_mul]
              omega
            rw [hshift] at htaken hholds
            exact ih (by omega) htaken hholds

/-- Enough rounds find the condition if it holds at a tick that is taken. -/
theorem poll_isSome_iff
    (hdown : TakenUpTo taken)
    (henough : taken (tick + rounds * interval) = false) :
    (poll taken holds interval rounds tick).isSome = true
      ↔
    ∃ k, taken (tick + k * interval) = true ∧ holds (tick + k * interval) = true := by
  constructor
  · intro h
    obtain ⟨found, hfound⟩ := Option.isSome_iff_exists.mp h
    obtain ⟨k, rfl, htaken, hholds⟩ := poll_eq_some hfound
    exact ⟨k, htaken, hholds⟩
  · rintro ⟨k, htaken, hholds⟩
    refine poll_isSome_of_holds hdown ?_ htaken hholds
    by_contra hle
    have hlate : tick + rounds * interval ≤ tick + k * interval :=
      Nat.add_le_add_left (Nat.mul_le_mul_right _ (Nat.le_of_not_lt hle)) _
    rw [hdown _ _ hlate htaken] at henough
    exact nomatch henough

end Poll

section Retry

variable {β : Type} (attempt : Nat → Option β) (next : Nat → Nat)

/-- Attempts from an instant on, until one has a result. -/
def retry : Nat → Nat → Option β
  | 0, _ => none
  | rounds + 1, now =>
      match attempt now with
      | some b => some b
      | none => retry rounds (next now)

variable {attempt next}

/-- Some number of rounds has a result iff some attempt has one. -/
theorem exists_retry_iff
    {now : Nat} :
    (∃ rounds, (retry attempt next rounds now).isSome = true)
      ↔
    ∃ i, (attempt (next^[i] now)).isSome = true := by
  constructor
  · rintro ⟨rounds, h⟩
    induction rounds generalizing now with
    | zero => exact nomatch h
    | succ rounds ih =>
        rw [retry] at h
        cases hnow : attempt now with
        | some b => exact ⟨0, by rw [Function.iterate_zero_apply, hnow]; rfl⟩
        | none =>
            rw [hnow] at h
            obtain ⟨i, hi⟩ := ih h
            exact ⟨i + 1, by rwa [Function.iterate_succ_apply]⟩
  · rintro ⟨i, h⟩
    induction i generalizing now with
    | zero =>
        rw [Function.iterate_zero_apply] at h
        obtain ⟨b, hb⟩ := Option.isSome_iff_exists.mp h
        exact ⟨1, by rw [retry, hb]; rfl⟩
    | succ i ih =>
        rw [Function.iterate_succ_apply] at h
        obtain ⟨rounds, hrounds⟩ := ih h
        refine ⟨rounds + 1, ?_⟩
        rw [retry]
        cases attempt now with
        | some b => rfl
        | none => exact hrounds

end Retry

section Spacing

/-- Instants, in their order, that are at least `gap` apart. -/
def Spaced (gap : Int) (instants : List Int) : Prop :=
  instants.Pairwise fun a b => a + gap ≤ b

variable {gap : Int} {instants : List Int}

theorem Spaced.nil :
    Spaced gap [] :=
  List.Pairwise.nil

theorem Spaced.concat
    {now : Int}
    (h : Spaced gap instants)
    (hnow : ∀ a ∈ instants, a + gap ≤ now) :
    Spaced gap (instants ++ [now]) := by
  rw [Spaced, List.pairwise_append]
  refine ⟨h, List.pairwise_singleton _ now, ?_⟩
  intro a ha b hb
  rw [List.mem_singleton.mp hb]
  exact hnow a ha

/-- The gaps between instants of a window fit in it. -/
theorem Spaced.length_mul_le
    {lo hi : Int}
    (h : Spaced gap instants)
    (hwindow : ∀ a ∈ instants, lo ≤ a ∧ a ≤ hi)
    (hlen : lo ≤ hi + gap) :
    instants.length * gap ≤ hi - lo + gap := by
  induction instants generalizing lo with
  | nil =>
      rw [List.length_nil, Int.natCast_zero, Int.zero_mul]
      omega
  | cons a instants ih =>
      obtain ⟨hfirst, hrest⟩ := List.pairwise_cons.mp h
      obtain ⟨hlo, hhi⟩ := hwindow a (List.mem_cons_self ..)
      have hshort := ih hrest
        (fun b hb => ⟨hfirst b hb, (hwindow b (List.mem_cons_of_mem a hb)).2⟩) (by omega)
      rw [List.length_cons, Int.natCast_succ, Int.add_mul, Int.one_mul]
      omega

/-- A window holds at most one more instant than gaps. -/
theorem Spaced.length_window_le
    {start length : Int}
    (h : Spaced gap instants)
    (hgap : 0 < gap)
    (hlength : 0 ≤ length) :
    ((instants.filter fun a => start ≤ a ∧ a ≤ start + length).length : Int) ≤
      length / gap + 1 := by
  have hkept : Spaced gap (instants.filter fun a => start ≤ a ∧ a ≤ start + length) :=
    List.Pairwise.filter _ h
  have hwindow : ∀ a ∈ instants.filter fun a => start ≤ a ∧ a ≤ start + length,
      start ≤ a ∧ a ≤ start + length := by
    intro a ha
    simpa using (List.mem_filter.mp ha).2
  have hmul := hkept.length_mul_le hwindow (by omega)
  rw [← Int.add_mul_ediv_right length 1 (by omega), Int.one_mul]
  rw [Int.le_ediv_iff_mul_le hgap]
  omega

end Spacing

end Foundation
end OptimumGateway
