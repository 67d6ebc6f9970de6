import OptimumGateway.Auth.Mint
import OptimumGateway.Foundation.GoTime
import OptimumGateway.Foundation.Polling
import Mathlib.Algebra.Order.GroupWithZero.Basic
import Mathlib.Tactic.Positivity

/-!
# The refresh loop of the gateway token

This module models `refreshLoop` of `pkg/service/auth_token/manager.go`, with
`NextRetryBackoff` and `MintErrorIsTerminal`.  A round of the loop waits, mints, and decides
from the outcome how long the next wait is:

* after a success, and at first, it draws a number of seconds (`randBetween`);
* after a failure it waits for the backoff, whose zero value means that there was none.

The draws and the outcomes of `mint` are free, and so is the instant of a cancellation.  A
mint that does not return has no outcome, and the loop stays in it.  The loop is cut off
after a number of rounds, which is arbitrary; `RefreshEnd.running` is the end by that cut.

`RefreshRequires` says what each operation requires of the calls before it.  The schedule of
the waits and the ends of the loop follow from it, and the distance of the attempts follows
once the waits take time (`refreshSem`).
-/

namespace OptimumGateway
namespace Auth

open Foundation Foundation.Prog

section Programs

def refreshIntervalMinSec : Int64 := 600

def refreshIntervalMaxSec : Int64 := 1200

/-- The cases of the select on the cancellation and the timer. -/
inductive WaitCase where
  | done
  | elapsed
deriving DecidableEq

inductive RefreshOp where
  | randBetween (lo hi : Int64)
  | wait (d : Duration)
  | mint
  | ctxErr
deriving DecidableEq

abbrev RefreshOp.Ans : RefreshOp → Type
  | .randBetween .. => Except GoError Int64
  | .wait _ => WaitCase
  | .mint => Except GoError String
  | .ctxErr => Bool

abbrev RefreshProg := Prog RefreshOp RefreshOp.Ans

abbrev RefreshCall := Call RefreshOp RefreshOp.Ans

abbrev refreshOp (op : RefreshOp) : RefreshProg op.Ans := Prog.op op

inductive RefreshEnd where
  | cancelled
  | terminal (err : GoError)
  /-- The rounds are over, with this backoff. -/
  | running (backoff : Duration)
deriving DecidableEq

def nextRetryBackoff (current : Duration) : Duration :=
  if current = 0 then Duration.minute else min (current * 2) (30 * Duration.minute)

def mintErrorIsTerminal (cfg : MintConfig) (err : GoError) : Bool :=
  if err.is errKeyRevoked || err.is errKeySuspended then
    true
  else
    !cfg.hasCred && err.is errUnknownKey

/-- The wait for a draw, which is not used if it failed or is not positive. -/
def drawnWait (draw : Except GoError Int64) : Duration :=
  let sleepSec :=
    match draw with
    | .error _ => refreshIntervalMinSec
    | .ok sleepSec => if sleepSec ≤ 0 then refreshIntervalMinSec else sleepSec
  sleepSec * Duration.second

def refreshWait (backoff : Duration) : RefreshProg Duration :=
  if backoff = 0 then do
    let draw ← refreshOp (.randBetween refreshIntervalMinSec refreshIntervalMaxSec)
    pure (drawnWait draw)
  else
    pure backoff

def refreshLoop (cfg : MintConfig) : Nat → Duration → RefreshProg RefreshEnd
  | 0, backoff => pure (.running backoff)
  | rounds + 1, backoff => do
      let wait ← refreshWait backoff
      match ← refreshOp (.wait wait) with
      | .done => pure .cancelled
      | .elapsed => do
          match ← refreshOp .mint with
          | .ok _ => refreshLoop cfg rounds 0
          | .error err => do
              if ← refreshOp .ctxErr then
                pure .cancelled
              else if mintErrorIsTerminal cfg err then
                pure (.terminal err)
              else
                refreshLoop cfg rounds (nextRetryBackoff backoff)

end Programs

section Backoff

/-- The backoff after a number of failures in a row. -/
def backoffAfter : Nat → Duration
  | 0 => 0
  | k + 1 => Int64.ofNat (min (2 ^ k) 30) * Duration.minute

theorem backoffAfter_large
    {k : Nat}
    (h : 6 ≤ k) :
    backoffAfter k = 30 * Duration.minute := by
  obtain ⟨j, rfl⟩ := Nat.exists_eq_add_of_le h
  have hpow : 30 ≤ 2 ^ (5 + j) := by
    calc 30 ≤ 2 ^ 5 := by decide
      _ ≤ 2 ^ (5 + j) := Nat.pow_le_pow_right (by decide) (Nat.le_add_right 5 j)
  rw [show 6 + j = (5 + j) + 1 by omega, backoffAfter, Nat.min_eq_right hpow]
  rfl

theorem nextRetryBackoff_backoffAfter
    (k : Nat) :
    nextRetryBackoff (backoffAfter k) = backoffAfter (k + 1) := by
  by_cases hlarge : 6 ≤ k
  · rw [backoffAfter_large hlarge, backoffAfter_large (by omega)]
    decide
  · have hall : ∀ j : Fin 6, nextRetryBackoff (backoffAfter j) = backoffAfter (j + 1) := by
      decide
    exact hall ⟨k, by omega⟩

/-- In nanoseconds: the powers of two up to half an hour. -/
theorem toInt_backoffAfter
    (k : Nat) :
    (backoffAfter (k + 1)).toInt = min (2 ^ k) 30 * (60 * 1000000000) := by
  by_cases hlarge : 5 ≤ k
  · have hpow : (30 : Int) ≤ 2 ^ k := by
      calc (30 : Int) ≤ 2 ^ 5 := by decide
        _ ≤ 2 ^ k := pow_le_pow_right₀ (by decide) hlarge
    rw [backoffAfter_large (by omega), min_eq_right hpow]
    decide
  · have hall : ∀ j : Fin 5,
        (backoffAfter (j + 1)).toInt = min (2 ^ j.val) 30 * (60 * 1000000000) := by
      decide
    exact hall ⟨k, by omega⟩

theorem backoffAfter_eq_zero_iff
    {k : Nat} :
    backoffAfter k = 0 ↔ k = 0 := by
  cases k with
  | zero => simp [backoffAfter]
  | succ k =>
      have hvalue := toInt_backoffAfter k
      have hpos : (0 : Int) < min (2 ^ k) 30 := lt_min (by positivity) (by decide)
      have hne : backoffAfter (k + 1) ≠ 0 := by
        intro hzero
        have hnone : (0 : Int64).toInt = 0 := rfl
        rw [hzero, hnone] at hvalue
        omega
      exact iff_of_false hne (Nat.succ_ne_zero k)

end Backoff

section Calls

/-- The outcome of an attempt. -/
def mintOutcome : RefreshCall → Option (Except GoError String)
  | ⟨.mint, outcome⟩ => some outcome
  | _ => none

/-- The outcomes of the attempts, in their order. -/
def mintsOf (calls : List RefreshCall) : List (Except GoError String) :=
  calls.filterMap mintOutcome

def isFailure : Except GoError String → Bool
  | .error _ => true
  | .ok _ => false

/-- The number of failures since the last success. -/
def failures (calls : List RefreshCall) : Nat :=
  ((mintsOf calls).reverse.takeWhile isFailure).length

variable (calls : List RefreshCall)

theorem mintsOf_mint
    (outcome : Except GoError String) :
    mintsOf (calls ++ [⟨.mint, outcome⟩]) = mintsOf calls ++ [outcome] := by
  simp [mintsOf, mintOutcome]

/-- Calls other than attempts have no outcome. -/
theorem mintsOf_quiet
    {c : RefreshCall}
    (h : mintOutcome c = none) :
    mintsOf (calls ++ [c]) = mintsOf calls := by
  simp [mintsOf, h]

theorem length_mintsOf_mint
    {calls waited : List RefreshCall} {rounds total : Nat}
    (hwaited : mintsOf waited = mintsOf calls)
    (htotal : (mintsOf calls).length + (rounds + 1) = total)
    (outcome : Except GoError String) :
    (mintsOf (waited ++ [⟨.mint, outcome⟩])).length + rounds = total := by
  rw [mintsOf_mint, hwaited, List.length_append, List.length_singleton]
  omega

theorem failures_congr
    {calls calls' : List RefreshCall}
    (h : mintsOf calls = mintsOf calls') :
    failures calls = failures calls' := by
  rw [failures, h, failures]

theorem failures_ok
    (token : String) :
    failures (calls ++ [⟨.mint, .ok token⟩]) = 0 := by
  simp [failures, mintsOf_mint, isFailure]

theorem failures_error
    (err : GoError) :
    failures (calls ++ [⟨.mint, .error err⟩]) = failures calls + 1 := by
  simp [failures, mintsOf_mint, List.takeWhile_cons, isFailure]

end Calls

section Requirements

/-- The wait of a round: for the last draw if there was no failure, and else for the backoff. -/
def WaitsFor (calls : List RefreshCall) (d : Duration) : Prop :=
  (failures calls = 0 ∧ ∃ before draw,
    calls = before ++ [⟨.randBetween refreshIntervalMinSec refreshIntervalMaxSec, draw⟩] ∧
      d = drawnWait draw) ∨
    (failures calls ≠ 0 ∧ d = backoffAfter (failures calls))

def RefreshRequires (calls : List RefreshCall) : RefreshOp → Prop
  | .randBetween lo hi =>
      failures calls = 0 ∧ lo = refreshIntervalMinSec ∧ hi = refreshIntervalMaxSec
  | .wait d => WaitsFor calls d
  | .mint => ∃ before d, calls = before ++ [⟨.wait d, .elapsed⟩]
  | .ctxErr => ∃ before err, calls = before ++ [⟨.mint, .error err⟩]

/-- How the loop ends: at a cancellation that it saw, with a terminal error of the last
attempt, or after all its rounds. -/
def EndsWith (cfg : MintConfig) (rounds : Nat) (calls : List RefreshCall) : RefreshEnd → Prop
  | .cancelled => ∃ before,
      (∃ d, calls = before ++ [⟨.wait d, .done⟩]) ∨ calls = before ++ [⟨.ctxErr, true⟩]
  | .terminal err => mintErrorIsTerminal cfg err = true ∧
      ∃ before, calls = before ++ [⟨.mint, .error err⟩] ++ [⟨.ctxErr, false⟩]
  | .running _ => (mintsOf calls).length = rounds

variable {cfg : MintConfig} {calls : List RefreshCall}

theorem along_refreshWait :
    (refreshWait (backoffAfter (failures calls))).Along RefreshRequires
      (fun h d => mintsOf h = mintsOf calls ∧ WaitsFor h d) calls := by
  unfold refreshWait
  split
  · next hzero =>
    have hnone := backoffAfter_eq_zero_iff.mp hzero
    refine ⟨⟨hnone, rfl, rfl⟩, ?_⟩
    intro draw
    have hmints := mintsOf_quiet calls
      (c := ⟨.randBetween refreshIntervalMinSec refreshIntervalMaxSec, draw⟩) rfl
    exact ⟨hmints, Or.inl ⟨(failures_congr hmints).trans hnone, calls, draw, rfl, rfl⟩⟩
  · next hnonzero =>
    exact ⟨rfl, Or.inr ⟨fun h => hnonzero (backoffAfter_eq_zero_iff.mpr h), rfl⟩⟩

/-- The loop meets its requirements, from any backoff that fits the attempts before. -/
theorem along_refreshLoop
    {rounds total : Nat}
    (htotal : (mintsOf calls).length + rounds = total) :
    (refreshLoop cfg rounds (backoffAfter (failures calls))).Along RefreshRequires
      (EndsWith cfg total) calls := by
  induction rounds generalizing calls with
  | zero => exact htotal
  | succ rounds ih =>
      refine Along.bind along_refreshWait ?_
      rintro h d ⟨hmints, hwait⟩
      refine ⟨hwait, ?_⟩
      intro r
      cases r with
      | done => exact ⟨h, Or.inl ⟨d, rfl⟩⟩
      | elapsed =>
          refine ⟨⟨h, d, rfl⟩, ?_⟩
          have hwaited : mintsOf (h ++ [⟨.wait d, .elapsed⟩]) = mintsOf calls :=
            (mintsOf_quiet h rfl).trans hmints
          generalize h ++ [⟨.wait d, .elapsed⟩] = h at hwaited
          intro outcome
          have hlen := length_mintsOf_mint hwaited htotal outcome
          cases outcome with
          | ok token =>
              have hnext := ih hlen
              rw [failures_ok] at hnext
              exact hnext
          | error err =>
              refine ⟨⟨h, err, rfl⟩, ?_⟩
              intro cancelled
              cases cancelled with
              | true => exact ⟨_, Or.inr rfl⟩
              | false =>
                  change Along _ _ _ (if mintErrorIsTerminal cfg err then _ else _)
                  split
                  · next hterminal => exact ⟨hterminal, h, rfl⟩
                  · have hfailed := mintsOf_quiet (h ++ [⟨.mint, .error err⟩])
                      (c := ⟨.ctxErr, false⟩) rfl
                    rw [← hfailed] at hlen
                    have hnext := ih hlen
                    rw [failures_congr hfailed, failures_error, failures_congr hwaited,
                      ← nextRetryBackoff_backoffAfter] at hnext
                    exact hnext

end Requirements

section Time

/-- The clock in nanoseconds, whether the context is cancelled, and the instants of the
attempts. -/
structure RefreshState where
  now : Int
  cancelled : Bool
  attempts : List Int

/-- Time passes, and a cancellation stays. -/
def Later (s t : RefreshState) : Prop :=
  s.now ≤ t.now ∧ (s.cancelled = true → t.cancelled = true)

theorem later_refl
    (s : RefreshState) :
    Later s s :=
  ⟨le_refl s.now, id⟩

/-- What `RandBetween` may return: a value in its range or not positive, or an error. -/
def LawfulDraw (lo hi : Int64) (draw : Except GoError Int64) : Prop :=
  ∀ v, draw = .ok v → v ≤ 0 ∨ (lo ≤ v ∧ v ≤ hi)

/-- A timer does not fire early, and a cancellation is seen only if there is one. -/
def refreshSem : Sem RefreshOp RefreshOp.Ans RefreshState
  | .randBetween lo hi, s, draw, t =>
      Later s t ∧ t.attempts = s.attempts ∧ LawfulDraw lo hi draw
  | .wait d, s, r, t =>
      Later s t ∧ t.attempts = s.attempts ∧
        match r with
        | .done => t.cancelled = true
        | .elapsed => s.now + d.toInt ≤ t.now
  | .mint, s, _, t =>
      Later s t ∧ ∃ start, s.now ≤ start ∧ start ≤ t.now ∧ t.attempts = s.attempts ++ [start]
  | .ctxErr, s, r, t =>
      Later s t ∧ t.attempts = s.attempts ∧ (r = true → t.cancelled = true)

/-- The wait of a draw: the seconds of the draw, or the least number of seconds. -/
def DrawnWait (draw : Except GoError Int64) (d : Duration) : Prop :=
  (∃ v, draw = .ok v ∧ refreshIntervalMinSec ≤ v ∧ v ≤ refreshIntervalMaxSec ∧
    d.toInt = v.toInt * 1000000000) ∨
    ((∀ v, draw = .ok v → v ≤ 0) ∧ d.toInt = refreshIntervalMinSec.toInt * 1000000000)

/-- The schedule: a wait for a draw after a success and at first, and after `k` failures the
least of `2 ^ (k - 1)` and 30 minutes. -/
def ScheduledWait (calls : List RefreshCall) (d : Duration) : Prop :=
  (failures calls = 0 → ∃ before draw,
    calls = before ++ [⟨.randBetween refreshIntervalMinSec refreshIntervalMaxSec, draw⟩] ∧
      DrawnWait draw d) ∧
    (failures calls ≠ 0 → d.toInt = min (2 ^ (failures calls - 1)) 30 * (60 * 1000000000))

variable {s t : RefreshState} {calls : List RefreshCall} {d : Duration}

theorem toInt_seconds
    {v : Int64}
    (hlo : refreshIntervalMinSec ≤ v)
    (hhi : v ≤ refreshIntervalMaxSec) :
    (v * Duration.second).toInt = v.toInt * 1000000000 := by
  have hmin : refreshIntervalMinSec.toInt = 600 := by
    decide
  have hmax : refreshIntervalMaxSec.toInt = 1200 := by
    decide
  have hsecond : Duration.second.toInt = 1000000000 := by
    decide
  rw [Int64.le_iff_toInt_le] at hlo hhi
  rw [Int64.toInt_mul, hsecond]
  exact Int.bmod_eq_of_le (by omega) (by omega)

theorem drawnWait_scheduled
    {draw : Except GoError Int64}
    (h : LawfulDraw refreshIntervalMinSec refreshIntervalMaxSec draw) :
    DrawnWait draw (drawnWait draw) := by
  have hmin := toInt_seconds (v := refreshIntervalMinSec) (by decide) (by decide)
  cases draw with
  | error err => exact Or.inr ⟨by simp, hmin⟩
  | ok v =>
      by_cases hv : v ≤ 0
      · refine Or.inr ⟨by simpa using hv, ?_⟩
        rw [drawnWait, if_pos hv]
        exact hmin
      · rcases h v rfl with hneg | ⟨hlo, hhi⟩
        · exact absurd hneg hv
        · refine Or.inl ⟨v, rfl, hlo, hhi, ?_⟩
          rw [drawnWait, if_neg hv]
          exact toInt_seconds hlo hhi

theorem WaitsFor.scheduled
    (h : WaitsFor calls d)
    (hexec : Exec refreshSem s calls t) :
    ScheduledWait calls d := by
  rcases h with ⟨hnone, before, draw, hcalls, rfl⟩ | ⟨hsome, rfl⟩
  · refine ⟨fun _ => ⟨before, draw, hcalls, ?_⟩, fun hsome => absurd hnone hsome⟩
    have hmem : (⟨.randBetween refreshIntervalMinSec refreshIntervalMaxSec, draw⟩ : RefreshCall) ∈
        calls := by
      simp [hcalls]
    obtain ⟨u, v, -, -, hdraw⟩ := hexec.sem_of_mem hmem
    exact drawnWait_scheduled hdraw
  · refine ⟨fun hnone => absurd hnone hsome, fun _ => ?_⟩
    have hsucc : failures calls = failures calls - 1 + 1 := by
      omega
    rw [hsucc, toInt_backoffAfter, Nat.add_sub_cancel]

theorem ScheduledWait.minute_le
    (h : ScheduledWait calls d) :
    60 * 1000000000 ≤ d.toInt := by
  have hmin : refreshIntervalMinSec.toInt = 600 := by
    decide
  by_cases hnone : failures calls = 0
  · obtain ⟨before, draw, -, ⟨v, -, hlo, -, hd⟩ | ⟨-, hd⟩⟩ := h.1 hnone
    · rw [Int64.le_iff_toInt_le] at hlo
      omega
    · omega
  · have hd := h.2 hnone
    have hpos : (1 : Int) ≤ min (2 ^ (failures calls - 1)) 30 :=
      le_min (one_le_pow₀ (by decide)) (by decide)
    omega

/-- The attempts are a minute apart and in the past, and a wait that is over has put a minute
between them and the clock. -/
structure AttemptsSpaced (calls : List RefreshCall) (t : RefreshState) : Prop where
  spaced : Spaced (60 * 1000000000) t.attempts
  past : ∀ a ∈ t.attempts, a ≤ t.now
  waited : ∀ before d, calls = before ++ [⟨.wait d, .elapsed⟩] →
    ∀ a ∈ t.attempts, a + 60 * 1000000000 ≤ t.now
  length_eq : t.attempts.length = (mintsOf calls).length

theorem AttemptsSpaced.quiet
    {c : RefreshCall}
    (h : AttemptsSpaced calls s)
    (hlater : Later s t)
    (hsame : t.attempts = s.attempts)
    (hquiet : mintOutcome c = none)
    (hwait : ∀ d, c ≠ ⟨.wait d, .elapsed⟩) :
    AttemptsSpaced (calls ++ [c]) t where
  spaced := hsame ▸ h.spaced
  past := by
    intro a ha
    rw [hsame] at ha
    exact le_trans (h.past a ha) hlater.1
  waited := by
    intro before d hcalls
    exact absurd (List.append_inj' hcalls rfl).2 (by simpa using hwait d)
  length_eq := by
    rw [hsame, mintsOf_quiet calls hquiet, h.length_eq]

/-- What one call keeps, if it is made as the loop makes it. -/
theorem AttemptsSpaced.call
    {op : RefreshOp} {r : op.Ans}
    (h : AttemptsSpaced calls s)
    (hsem : refreshSem op s r t)
    (hattempt : op = .mint → ∃ before d, calls = before ++ [⟨.wait d, .elapsed⟩])
    (hwait : ∀ d, op = .wait d → 60 * 1000000000 ≤ d.toInt) :
    AttemptsSpaced (calls ++ [⟨op, r⟩]) t := by
  cases op with
  | randBetween lo hi | ctxErr => exact h.quiet hsem.1 hsem.2.1 rfl (by simp)
  | wait d =>
      obtain ⟨hlater, hsame, hcase⟩ := hsem
      cases r with
      | done => exact h.quiet hlater hsame rfl (by simp)
      | elapsed =>
          have hlong := hwait d rfl
          have hapart : ∀ a ∈ t.attempts, a + 60 * 1000000000 ≤ t.now := by
            intro a ha
            rw [hsame] at ha
            have hpast := h.past a ha
            omega
          exact {
            spaced := hsame ▸ h.spaced
            past := fun a ha => by
              have := hapart a ha
              omega
            waited := fun _ _ _ => hapart
            length_eq := by rw [hsame, mintsOf_quiet calls rfl, h.length_eq] }
  | mint =>
      obtain ⟨hlater, start, hstart, hend, hattempts⟩ := hsem
      obtain ⟨before, d, hcalls⟩ := hattempt rfl
      have hapart := h.waited before d hcalls
      refine ⟨?_, ?_, ?_, ?_⟩
      · rw [hattempts]
        exact h.spaced.concat fun a ha => le_trans (hapart a ha) hstart
      · intro a ha
        rw [hattempts, List.mem_append, List.mem_singleton] at ha
        rcases ha with ha | rfl
        · exact le_trans (h.past a ha) hlater.1
        · exact hend
      · intro before d hlast
        exact absurd (List.append_inj' hlast rfl).2 (by simp)
      · rw [hattempts, mintsOf_mint, List.length_append, List.length_append, h.length_eq]
        rfl

/-- Every call meets the requirement of its operation. -/
def CallsRequired (calls : List RefreshCall) : Prop :=
  ∀ before op r after, calls = before ++ ⟨op, r⟩ :: after → RefreshRequires before op

theorem CallsRequired.of_concat
    {c : RefreshCall}
    (h : CallsRequired (calls ++ [c])) :
    CallsRequired calls := by
  intro before op r after hcalls
  exact h before op r (after ++ [c]) (by simp [hcalls])

/-- The waits of a run follow the schedule. -/
theorem CallsRequired.scheduled
    {before after : List RefreshCall} {r : WaitCase}
    (h : CallsRequired calls)
    (hexec : Exec refreshSem s calls t)
    (hcalls : calls = before ++ ⟨.wait d, r⟩ :: after) :
    ScheduledWait before d := by
  have hwaits : WaitsFor before d := h before (.wait d) r after hcalls
  rw [hcalls] at hexec
  obtain ⟨u, hbefore, -⟩ := exec_append_iff.mp hexec
  exact hwaits.scheduled hbefore

/-- The attempts of a run are a minute apart. -/
theorem CallsRequired.attemptsSpaced
    (h : CallsRequired calls)
    (hexec : Exec refreshSem s calls t)
    (hs : s.attempts = []) :
    AttemptsSpaced calls t := by
  induction calls using List.reverseRecOn generalizing t with
  | nil =>
      obtain rfl := exec_nil_iff.mp hexec
      exact ⟨hs ▸ Spaced.nil, by simp [hs], by simp [hs], by simp [hs, mintsOf]⟩
  | append_singleton calls c ih =>
      obtain ⟨op, r⟩ := c
      obtain ⟨u, hbefore, hsem⟩ := exec_concat_iff.mp hexec
      apply (ih h.of_concat hbefore).call hsem
      · rintro rfl
        exact h calls .mint r [] rfl
      · rintro d rfl
        exact (h.scheduled hexec rfl).minute_le

end Time

section Liveness

/-- An outcome after which the loop goes on. -/
def GoesOn (cfg : MintConfig) (outcome : Except GoError String) : Prop :=
  ∀ err, outcome = .error err → mintErrorIsTerminal cfg err = false

variable {cfg : MintConfig} {draw : Except GoError Int64} {outcome : Except GoError String}

theorem exists_refreshWait
    (hdraw : LawfulDraw refreshIntervalMinSec refreshIntervalMaxSec draw)
    (backoff : Duration)
    (s : RefreshState) :
    ∃ calls d, Path (refreshWait backoff) calls (ret d) ∧ Exec refreshSem s calls s ∧
      mintsOf calls = [] := by
  unfold refreshWait
  split
  · exact ⟨[⟨.randBetween refreshIntervalMinSec refreshIntervalMaxSec, draw⟩], drawnWait draw,
      Path.cons (Path.nil _), Exec.cons ⟨later_refl s, rfl, hdraw⟩ (Exec.nil s), rfl⟩
  · exact ⟨[], backoff, Path.nil _, Exec.nil s, rfl⟩

/-- A round in which the wait elapses and the loop goes on. -/
theorem exists_round
    (hdraw : LawfulDraw refreshIntervalMinSec refreshIntervalMaxSec draw)
    (houtcome : GoesOn cfg outcome)
    (backoff : Duration)
    (s : RefreshState) :
    ∃ calls backoff' t, Exec refreshSem s calls t ∧ mintsOf calls = [outcome] ∧
      ∀ rounds rest q, Path (refreshLoop cfg rounds backoff') rest q →
        Path (refreshLoop cfg (rounds + 1) backoff) (calls ++ rest) q := by
  obtain ⟨drawn, d, hpath, hexec, hmints⟩ := exists_refreshWait hdraw backoff s
  let u : RefreshState := { s with now := max s.now (s.now + d.toInt) }
  let v : RefreshState := { u with attempts := u.attempts ++ [u.now] }
  have hwait : refreshSem (.wait d) s .elapsed u :=
    ⟨⟨le_max_left _ _, id⟩, rfl, le_max_right _ _⟩
  have hmint : refreshSem .mint u outcome v :=
    ⟨⟨le_refl _, id⟩, u.now, le_refl _, le_refl _, rfl⟩
  cases outcome with
  | ok token =>
      refine ⟨drawn ++ [⟨.wait d, .elapsed⟩, ⟨.mint, .ok token⟩], 0, v, ?_, ?_, ?_⟩
      · exact exec_append_iff.mpr ⟨s, hexec, .cons hwait (.cons hmint (.nil v))⟩
      · rw [mintsOf, List.filterMap_append, ← mintsOf, hmints]
        rfl
      · intro rounds rest q hrest
        rw [List.append_assoc]
        exact Path.bind hpath (.cons (.cons hrest))
  | error err =>
      have hctx : refreshSem .ctxErr v false v := ⟨later_refl v, rfl, by simp⟩
      refine ⟨drawn ++ [⟨.wait d, .elapsed⟩, ⟨.mint, .error err⟩, ⟨.ctxErr, false⟩],
        nextRetryBackoff backoff, v, ?_, ?_, ?_⟩
      · exact exec_append_iff.mpr
          ⟨s, hexec, .cons hwait (.cons hmint (.cons hctx (.nil v)))⟩
      · rw [mintsOf, List.filterMap_append, ← mintsOf, hmints]
        rfl
      · intro rounds rest q hrest
        rw [List.append_assoc]
        refine Path.bind hpath (.cons (.cons (.cons ?_)))
        have hnot : ¬ mintErrorIsTerminal cfg err = true := by
          simp [houtcome err rfl]
        exact (if_neg hnot).symm ▸ hrest

/-- The loop makes an attempt in every round, as long as it goes on. -/
theorem refreshLoop_goes_on
    {plan : List (Except GoError Int64 × Except GoError String)}
    (hplan : ∀ round ∈ plan,
      LawfulDraw refreshIntervalMinSec refreshIntervalMaxSec round.1 ∧ GoesOn cfg round.2)
    (backoff : Duration)
    (s : RefreshState) :
    ∃ calls backoff' t,
      Path (refreshLoop cfg plan.length backoff) calls (ret (.running backoff')) ∧
      Exec refreshSem s calls t ∧ mintsOf calls = plan.map Prod.snd := by
  induction plan generalizing backoff s with
  | nil => exact ⟨[], backoff, s, Path.nil _, Exec.nil s, rfl⟩
  | cons round plan ih =>
      obtain ⟨hdraw, houtcome⟩ := hplan round (List.mem_cons_self ..)
      obtain ⟨calls, next, u, hexec, hmints, hpath⟩ := exists_round hdraw houtcome backoff s
      obtain ⟨rest, last, t, hrest, hexec', hmints'⟩ :=
        ih (fun x hx => hplan x (List.mem_cons_of_mem round hx)) next u
      refine ⟨calls ++ rest, last, t, hpath plan.length rest _ hrest, ?_, ?_⟩
      · exact exec_append_iff.mpr ⟨u, hexec, hexec'⟩
      · rw [mintsOf, List.filterMap_append, ← mintsOf, ← mintsOf, hmints, hmints']
        rfl

end Liveness

section Results

/-- The guarantees for a run of the loop that made these calls and has this left to do. -/
structure RateBounded
    (cfg : MintConfig)
    (rounds : Nat)
    (calls : List RefreshCall)
    (left : RefreshProg RefreshEnd)
    (t : RefreshState) : Prop where
  /-- Every attempt comes right after a wait of a minute or more. -/
  attempt_waits : ∀ before outcome after, calls = before ++ ⟨.mint, outcome⟩ :: after →
    ∃ earlier d, before = earlier ++ [⟨.wait d, .elapsed⟩] ∧ 60 * 1000000000 ≤ d.toInt
  wait_scheduled : ∀ before d r after, calls = before ++ ⟨.wait d, r⟩ :: after →
    ScheduledWait before d
  ends : ∀ e, left = ret e → EndsWith cfg rounds calls e
  cancelled : left = ret .cancelled → t.cancelled = true
  /-- The log has one instant for each attempt. -/
  attempts_length : t.attempts.length = (mintsOf calls).length
  window : ∀ start length : Int, 0 ≤ length →
    ((t.attempts.filter fun a => start ≤ a ∧ a ≤ start + length).length : Int) ≤
      length / (60 * 1000000000) + 1

variable {cfg : MintConfig} {rounds : Nat} {calls : List RefreshCall}
  {left : RefreshProg RefreshEnd} {s t : RefreshState}

theorem along_refreshLoop_start
    (cfg : MintConfig)
    (rounds : Nat) :
    (refreshLoop cfg rounds 0).Along RefreshRequires (EndsWith cfg rounds) [] :=
  along_refreshLoop (Nat.zero_add rounds)

theorem cancelled_of_endsWith
    (h : EndsWith cfg rounds calls .cancelled)
    (hexec : Exec refreshSem s calls t) :
    t.cancelled = true := by
  obtain ⟨before, ⟨d, rfl⟩ | rfl⟩ := h
  · obtain ⟨u, -, hsem⟩ := exec_concat_iff.mp hexec
    exact hsem.2.2
  · obtain ⟨u, -, hsem⟩ := exec_concat_iff.mp hexec
    exact hsem.2.2 rfl

theorem rateBounded_of_run
    (hpath : Path (refreshLoop cfg rounds 0) calls left)
    (hexec : Exec refreshSem s calls t)
    (hs : s.attempts = []) :
    RateBounded cfg rounds calls left t := by
  have halong := along_refreshLoop_start cfg rounds
  have hrequired : CallsRequired calls := by
    rintro before op r after rfl
    exact Path.along hpath halong
  have hspaced := hrequired.attemptsSpaced hexec hs
  have hends : ∀ e, left = ret e → EndsWith cfg rounds calls e := by
    rintro e rfl
    exact Along.rest halong hpath
  refine ⟨?_, ?_, hends, ?_, hspaced.length_eq, ?_⟩
  · intro before outcome after hcalls
    obtain ⟨earlier, d, hbefore⟩ := hrequired before .mint outcome after hcalls
    have hwait : calls = earlier ++ ⟨.wait d, .elapsed⟩ :: ⟨.mint, outcome⟩ :: after := by
      rw [hcalls, hbefore, List.append_assoc]
      rfl
    exact ⟨earlier, d, hbefore, (hrequired.scheduled hexec hwait).minute_le⟩
  · intro before d r after hcalls
    exact hrequired.scheduled hexec hcalls
  · intro hleft
    exact cancelled_of_endsWith (hends .cancelled hleft) hexec
  · intro start length hlength
    exact hspaced.spaced.length_window_le (by decide) hlength

/-- The loop is bounded in every run, and it is live: whatever is drawn and however the
attempts end, it makes one attempt in every round unless it is cancelled or an error is
terminal. -/
theorem refreshLoop_bounded_and_live (cfg : MintConfig) :
    (∀ rounds calls left s t,
      Path (refreshLoop cfg rounds 0) calls left →
      Exec refreshSem s calls t →
      s.attempts = [] →
        RateBounded cfg rounds calls left t) ∧
    (∀ (plan : List (Except GoError Int64 × Except GoError String)) (s : RefreshState),
      (∀ round ∈ plan,
        LawfulDraw refreshIntervalMinSec refreshIntervalMaxSec round.1 ∧ GoesOn cfg round.2) →
        ∃ calls backoff t,
          Path (refreshLoop cfg plan.length 0) calls (ret (.running backoff)) ∧
          Exec refreshSem s calls t ∧
          mintsOf calls = plan.map Prod.snd) := by
  constructor
  · intro rounds calls left s t hpath hexec hs
    exact rateBounded_of_run hpath hexec hs
  · intro plan s hplan
    exact refreshLoop_goes_on hplan 0 s

/-- A failed draw before a failed attempt, a retry that succeeds, and a draw of zero. -/
theorem refreshLoop_three_rounds :
    let cfg : MintConfig := ⟨"key", false, "https://auth/token", "peer", "aud"⟩
    let reset : GoError := .new "connection reset"
    ∃ calls backoff t,
      Path (refreshLoop cfg 3 0) calls (ret (.running backoff)) ∧
      mintsOf calls = [.error reset, .ok "first", .ok "second"] ∧
      RateBounded cfg 3 calls (ret (.running backoff)) t := by
  intro cfg reset
  have hreset : mintErrorIsTerminal cfg reset = false := by
    decide +kernel
  obtain ⟨calls, backoff, t, hpath, hexec, hmints⟩ := (refreshLoop_bounded_and_live cfg).2
    [(.error reset, .error reset), (.ok 0, .ok "first"), (.ok 0, .ok "second")]
    ⟨0, false, []⟩
    (by simp [LawfulDraw, GoesOn, hreset])
  exact ⟨calls, backoff, t, hpath, hmints,
    (refreshLoop_bounded_and_live cfg).1 3 calls _ _ t hpath hexec rfl⟩

end Results

end Auth
end OptimumGateway
