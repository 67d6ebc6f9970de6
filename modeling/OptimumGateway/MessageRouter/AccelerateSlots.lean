import OptimumGateway.Foundation.AtomicProgram
import OptimumGateway.Foundation.TTLMap

/-!
# Slot-based block acceleration

This module models `pkg/service/message_router/accelerate.go`.

The router keeps the slots selected by the accelerate-list polls in a map with
expiring entries, and the horizon `to_slot` of the latest successful poll in an
atomic integer.  `ShouldAccelerateBlock` looks the slot up and then loads the
horizon; `RefreshAccelerateSlots` puts every listed slot and then stores the
horizon.  The map and the horizon are two memory cells, so a call and a poll
interleave at the granularity of these four operations.

The writer's order is meant to make a newly selected slot fail open until it is
on the list.  `accelerateDecision_ne_notOnList_iff` says exactly when it does:
the reader takes its lookup before its load, so a poll that runs entirely
between the two is seen by the load and missed by the lookup.
-/

namespace OptimumGateway
namespace MessageRouter

open Foundation Foundation.Prog

/-- Lifetime of a selected slot, three epochs, in nanoseconds. -/
def accelerateSlotTTL : Nat :=
  3 * 32 * 12 * 1000000000

structure AccelerateSlotsResponse where
  toSlot : Int64
  slots : List Int64
  generatedAtMs : Int64

inductive AccelerateVerdict where
  | onList
  | notOnList
  | failOpen
deriving DecidableEq, Repr

def decideAccelerate
    (toSlot : UInt64)
    (onList : Bool)
    (slot : UInt64) : AccelerateVerdict :=
  if onList then
    .onList
  else if toSlot = 0 ∨ slot > toSlot then
    .failOpen
  else
    .notOnList

/-- The verdict withholds a block exactly when the slot is not on the list and
the horizon covers it. -/
theorem decideAccelerate_eq_notOnList_iff
    (toSlot : UInt64)
    (onList : Bool)
    (slot : UInt64) :
    decideAccelerate toSlot onList slot = .notOnList
      ↔
    onList = false ∧ toSlot ≠ 0 ∧ slot ≤ toSlot := by
  unfold decideAccelerate
  cases onList with
  | true =>
      simp
  | false =>
      by_cases h : toSlot = 0 ∨ slot > toSlot
      · simp only [Bool.false_eq_true, if_false, if_pos h, reduceCtorEq,
          false_iff, true_and, not_and]
        intro hzero hle
        rcases h with h | h
        · exact hzero h
        · exact absurd h (UInt64.not_lt.mpr hle)
      · simp only [Bool.false_eq_true, if_false, if_neg h, true_and, true_iff]
        rw [not_or] at h
        exact ⟨h.1, UInt64.not_lt.mp h.2⟩

/-- The atomic operations on the accelerate state. -/
inductive AccelerateOp where
  | slotsGet (slot : UInt64)
  | slotsPut (slot : UInt64)
  | toSlotLoad
  | toSlotStore (toSlot : UInt64)
deriving DecidableEq

abbrev AccelerateOp.Ans : AccelerateOp → Type
  | .slotsGet _ => Bool
  | .slotsPut _ => Unit
  | .toSlotLoad => UInt64
  | .toSlotStore _ => Unit

abbrev AccelerateProg :=
  Prog AccelerateOp AccelerateOp.Ans

/-- Issue one operation on the accelerate state. -/
abbrev accelerate (op : AccelerateOp) : AccelerateProg op.Ans :=
  Prog.op op

/-- The accelerate state of the router and the clock its map reads. -/
structure AccelerateState where
  accelerateSlots : TTLMap UInt64 Unit
  accelerateToSlot : UInt64
  now : Nat

namespace AccelerateState

/-- The slot is on the list at the current instant. -/
def listed (s : AccelerateState) (slot : UInt64) : Bool :=
  (s.accelerateSlots.get s.now slot).isSome

def exec :
    (op : AccelerateOp) → AccelerateState → op.Ans × AccelerateState
  | .slotsGet slot, s => (s.listed slot, s)
  | .slotsPut slot, s =>
      ((), { s with
        accelerateSlots :=
          s.accelerateSlots.put s.now accelerateSlotTTL slot () })
  | .toSlotLoad, s => (s.accelerateToSlot, s)
  | .toSlotStore toSlot, s => ((), { s with accelerateToSlot := toSlot })

end AccelerateState

/-- The deterministic meaning of the operations. -/
abbrev accelerateSem : Sem AccelerateOp AccelerateOp.Ans AccelerateState :=
  Sem.ofFun AccelerateState.exec

/-- The verdict of `ShouldAccelerateBlock`: list lookup, horizon load, decision. -/
def accelerateDecision (slot : UInt64) : AccelerateProg AccelerateVerdict := do
  let onList ← accelerate (.slotsGet slot)
  let toSlot ← accelerate .toSlotLoad
  pure (decideAccelerate toSlot onList slot)

def shouldAccelerateBlock (slot : UInt64) : AccelerateProg Bool := do
  let decision ← accelerateDecision slot
  pure (decision ≠ .notOnList)

/-- What one poll of the accelerate list gets to see. -/
structure AcceleratePoll where
  chainID : String
  remoteBootstrapURL : String
  res : Option AccelerateSlotsResponse
  code : Nat
  err : Option String

/-- Put every non-negative slot of the list. -/
def putSlots : List Int64 → AccelerateProg Unit
  | [] => pure ()
  | slot :: rest =>
      if 0 ≤ slot then do
        accelerate (.slotsPut slot.toUInt64)
        putSlots rest
      else
        putSlots rest

def refreshAccelerateSlots (poll : AcceleratePoll) : AccelerateProg Unit :=
  if poll.chainID = "" ∨ poll.remoteBootstrapURL = "" then
    pure ()
  else
    match poll.err, poll.res with
    | none, some res =>
        if poll.code ≠ 200 then
          pure ()
        else if res.toSlot ≤ 0 then do
          -- the loaded horizon only decides whether the refusal is logged
          let _ ← accelerate .toSlotLoad
          pure ()
        else do
          putSlots res.slots
          accelerate (.toSlotStore res.toSlot.toUInt64)
          -- read back for the window gauge
          let _ ← accelerate .toSlotLoad
          pure ()
    | _, _ => pure ()

/-- The poll is successful with the response `res`. -/
structure AcceleratePoll.Succeeds
    (poll : AcceleratePoll)
    (res : AccelerateSlotsResponse) : Prop where
  chain : poll.chainID ≠ ""
  url : poll.remoteBootstrapURL ≠ ""
  noErr : poll.err = none
  status : poll.code = 200
  body : poll.res = some res
  positive : 0 < res.toSlot

/-- The slot is one of the response's slots, as an integer. -/
def AccelerateSlotsResponse.Lists
    (res : AccelerateSlotsResponse)
    (slot : UInt64) : Prop :=
  ∃ listed ∈ res.slots, 0 ≤ listed ∧ listed.toUInt64 = slot

theorem refreshAccelerateSlots_of_succeeds
    {poll : AcceleratePoll} {res : AccelerateSlotsResponse}
    (h : poll.Succeeds res) :
    refreshAccelerateSlots poll =
      (putSlots res.slots >>= fun _ =>
        accelerate (.toSlotStore res.toSlot.toUInt64) >>= fun _ =>
          accelerate .toSlotLoad >>= fun _ => pure ()) := by
  have hcfg : ¬ (poll.chainID = "" ∨ poll.remoteBootstrapURL = "") := by
    rintro (hc | hu)
    · exact h.chain hc
    · exact h.url hu
  have hpos : ¬ res.toSlot ≤ 0 := by
    exact Int64.not_le.mpr h.positive
  simp only [refreshAccelerateSlots, if_neg hcfg, h.noErr, h.body, h.status,
    ne_eq, not_true_eq_false, if_false, if_neg hpos]

theorem AcceleratePoll.Succeeds.toSlot_ne_zero
    {poll : AcceleratePoll} {res : AccelerateSlotsResponse}
    (h : poll.Succeeds res) :
    res.toSlot.toUInt64 ≠ 0 := by
  intro hzero
  have heq : res.toSlot = 0 := by
    cases hres : res.toSlot with
    | ofUInt64 v =>
        rw [hres] at hzero
        subst hzero
        rfl
  have hpos := h.positive
  rw [heq] at hpos
  exact absurd hpos (by decide)

section Interleaving

/-- The two parties: a caller of `ShouldAccelerateBlock` and the poll. -/
inductive AccelerateParty where
  | caller
  | refresher
deriving DecidableEq

abbrev AccelerateParty.Result : AccelerateParty → Type
  | .caller => AccelerateVerdict
  | .refresher => Unit

/-- One call and one poll over a shared accelerate state. -/
def accelerateConfig
    (slot : UInt64)
    (poll : AcceleratePoll)
    (s : AccelerateState) :
    Config AccelerateParty AccelerateOp AccelerateOp.Ans
      AccelerateParty.Result AccelerateState where
  progs
    | .caller => accelerateDecision slot
    | .refresher => refreshAccelerateSlots poll
  state := s

variable {l : List (Call AccelerateOp AccelerateOp.Ans)}

theorem putSlots_path_calls
    {slots : List Int64}
    {q : AccelerateProg Unit}
    (h : Path (putSlots slots) l q) :
    ∀ c ∈ l, ∃ slot, c.1 = .slotsPut slot := by
  induction slots generalizing l with
  | nil =>
      unfold putSlots at h
      rw [pure_eq, path_ret_iff] at h
      simp [h.1]
  | cons s rest ih =>
      unfold putSlots at h
      by_cases hs : 0 ≤ s
      · rw [if_pos hs, op_bind, path_call_iff] at h
        rcases h with ⟨rfl, _⟩ | ⟨r, l', rfl, htail⟩
        · simp
        · intro c hc
          rcases List.mem_cons.mp hc with rfl | hc
          · exact ⟨_, rfl⟩
          · exact ih htail c hc
      · rw [if_neg hs] at h
        exact ih h

/-- A successful poll puts slots, stores its own horizon and loads it back. -/
theorem refresh_path_calls
    {poll : AcceleratePoll} {res : AccelerateSlotsResponse}
    (hres : poll.Succeeds res)
    {q : AccelerateProg Unit}
    (h : Path (refreshAccelerateSlots poll) l q) :
    ∀ c ∈ l, (∃ slot, c.1 = .slotsPut slot) ∨
      c.1 = .toSlotStore res.toSlot.toUInt64 ∨ c.1 = .toSlotLoad := by
  rw [refreshAccelerateSlots_of_succeeds hres] at h
  rcases path_bind h with ⟨p', hp', _⟩ | ⟨_, l₁, l₂, rfl, h₁, h₂⟩
  · intro c hc
    exact Or.inl (putSlots_path_calls hp' c hc)
  · intro c hc
    rcases List.mem_append.mp hc with hc | hc
    · exact Or.inl (putSlots_path_calls h₁ c hc)
    · rw [op_bind, path_call_iff] at h₂
      rcases h₂ with ⟨rfl, _⟩ | ⟨_, l', rfl, h₂⟩
      · simp at hc
      · rcases List.mem_cons.mp hc with rfl | hc
        · exact Or.inr (Or.inl rfl)
        · rw [op_bind, path_call_iff] at h₂
          rcases h₂ with ⟨rfl, _⟩ | ⟨_, l'', rfl, h₂⟩
          · simp at hc
          · obtain ⟨rfl, _⟩ := path_ret_iff.mp h₂
            rw [List.mem_singleton] at hc
            subst hc
            exact Or.inr (Or.inr rfl)

/-- A list of calls adds exactly the slots it puts. -/
theorem exec_listed
    {s t : AccelerateState}
    (h : Exec accelerateSem s l t)
    (slot : UInt64) :
    t.listed slot = true
      ↔
    s.listed slot = true ∨ AccelerateOp.slotsPut slot ∈ l.map Sigma.fst := by
  induction h with
  | nil s =>
      simp
  | @cons s t u o r l head tail ih =>
      rw [ih]
      cases o with
      | slotsGet x | toSlotLoad =>
          cases head
          simp
      | toSlotStore x =>
          cases head
          simp [AccelerateState.listed]
      | slotsPut x =>
          cases head
          by_cases hx : slot = x
          · subst hx
            simp [AccelerateState.listed, TTLMap.get_put_self, accelerateSlotTTL]
          · simp [AccelerateState.listed, TTLMap.get_put_of_ne _ _ _ _ _ hx, hx]

/-- The horizon that a call stores. -/
def storedHorizon : Call AccelerateOp AccelerateOp.Ans → Option UInt64
  | ⟨.toSlotStore x, _⟩ => some x
  | _ => none

theorem writes_storedHorizon :
    Writes accelerateSem AccelerateState.accelerateToSlot storedHorizon := by
  intro o s r t head
  cases o <;> cases head <;> rfl

theorem storedHorizon_eq_some
    {c : Call AccelerateOp AccelerateOp.Ans} {v : UInt64}
    (h : storedHorizon c = some v) :
    c.1 = .toSlotStore v := by
  unfold storedHorizon at h
  split at h
  · rw [Option.some.inj h]
  · cases h

/-- Calls that store no other horizon than `v` leave the old one or `v`. -/
theorem exec_toSlot
    {s t : AccelerateState}
    {v : UInt64}
    (h : Exec accelerateSem s l t)
    (hv : ∀ x, AccelerateOp.toSlotStore x ∈ l.map Sigma.fst → x = v) :
    t.accelerateToSlot =
      if AccelerateOp.toSlotStore v ∈ l.map Sigma.fst then v
      else s.accelerateToSlot := by
  rw [h.cell writes_storedHorizon]
  cases hlast : lastWrite storedHorizon l with
  | none =>
      have hnone := lastWrite_eq_none_iff.mp hlast
      rw [if_neg]
      · rfl
      · intro hmem
        obtain ⟨⟨o, r⟩, hc, ho⟩ := List.mem_map.mp hmem
        cases ho
        exact nomatch hnone _ hc
  | some x =>
      obtain ⟨c, hc, hx⟩ := lastWrite_eq_some hlast
      have hmem : AccelerateOp.toSlotStore x ∈ l.map Sigma.fst :=
        List.mem_map.mpr ⟨c, hc, storedHorizon_eq_some hx⟩
      obtain rfl := hv x hmem
      rw [if_pos hmem]
      rfl

theorem accelerateDecision_calls
    {slot : UInt64} {v : AccelerateVerdict}
    (h : Path (accelerateDecision slot) l (Prog.ret v)) :
    ∃ onList toSlot,
      l = [⟨.slotsGet slot, onList⟩, ⟨.toSlotLoad, toSlot⟩] ∧
      v = decideAccelerate toSlot onList slot := by
  unfold accelerateDecision at h
  rw [op_bind, path_call_ret_iff] at h
  obtain ⟨onList, l₁, rfl, h⟩ := h
  rw [op_bind, path_call_ret_iff] at h
  obtain ⟨toSlot, l₂, rfl, h⟩ := h
  obtain ⟨rfl, hv⟩ := path_ret_iff.mp h
  exact ⟨onList, toSlot, rfl, Prog.ret.inj hv⟩

variable {slot : UInt64} {poll : AcceleratePoll}
variable {res : AccelerateSlotsResponse} {s : AccelerateState}
variable {tr : List (Event AccelerateParty AccelerateOp AccelerateOp.Ans)}
variable {d : Config AccelerateParty AccelerateOp AccelerateOp.Ans
  AccelerateParty.Result AccelerateState}

/-- In the part of a run before a read of the caller, an operation other than
the caller's own reads was made by the poll. -/
theorem refresher_of_op
    {a : List (Event AccelerateParty AccelerateOp AccelerateOp.Ans)}
    {o : AccelerateOp}
    (ho : o ∉ (callsOf .caller a).map Sigma.fst) :
    o ∈ (a.map Event.call).map Sigma.fst
      ↔
    (AccelerateParty.refresher, o) ∈ a.map Event.label := by
  rw [op_mem_iff, label_mem_iff]
  constructor
  · rintro ⟨i, hi⟩
    cases i with
    | caller => exact absurd hi ho
    | refresher => exact hi
  · intro h
    exact ⟨.refresher, h⟩

theorem run_stores
    (hres : poll.Succeeds res)
    (hrun : Run accelerateSem anyStep (accelerateConfig slot poll s) tr d)
    {x : UInt64}
    (hx : (AccelerateParty.refresher, AccelerateOp.toSlotStore x) ∈
      tr.map Event.label) :
    x = res.toSlot.toUInt64 := by
  rw [label_mem_iff] at hx
  obtain ⟨c, hc, hop⟩ := List.mem_map.mp hx
  rcases refresh_path_calls hres (hrun.path .refresher) c hc with
    ⟨y, hy⟩ | hy | hy
  · rw [hop] at hy
    cases hy
  · rw [hop] at hy
    exact AccelerateOp.toSlotStore.inj hy
  · rw [hop] at hy
    cases hy

/-- The lookup sees the old list and the slots put before it. -/
theorem lookup_reads
    (hrun : Run accelerateSem anyStep (accelerateConfig slot poll s) tr d)
    {onList : Bool} {toSlot : UInt64}
    (hcalls : callsOf .caller tr =
      [⟨.slotsGet slot, onList⟩, ⟨.toSlotLoad, toSlot⟩]) :
    onList = true
      ↔
    s.listed slot = true ∨
      Precedes tr (.refresher, .slotsPut slot) (.caller, .slotsGet slot) := by
  obtain ⟨a, b, rfl, ha, hb⟩ := callsOf_eq_append_cons (l := []) hcalls
  obtain ⟨u, v, hpre, hget, _⟩ := hrun.split_at
  have hon : u.listed slot = onList := (Prod.mk.inj hget).1
  rw [precedes_middle_iff (by rw [hb]; simp), ← hon, exec_listed hpre,
    refresher_of_op (by rw [ha]; simp)]
  rfl

/-- The load sees the poll's horizon when it was stored before, and the old one
otherwise. -/
theorem load_reads
    (hres : poll.Succeeds res)
    (hrun : Run accelerateSem anyStep (accelerateConfig slot poll s) tr d)
    {onList : Bool} {toSlot : UInt64}
    (hcalls : callsOf .caller tr =
      [⟨.slotsGet slot, onList⟩, ⟨.toSlotLoad, toSlot⟩]) :
    (Precedes tr (.refresher, .toSlotStore res.toSlot.toUInt64)
        (.caller, .toSlotLoad) ∧
      toSlot = res.toSlot.toUInt64) ∨
    (¬ Precedes tr (.refresher, .toSlotStore res.toSlot.toUInt64)
        (.caller, .toSlotLoad) ∧
      toSlot = s.accelerateToSlot) := by
  rw [← List.singleton_append] at hcalls
  obtain ⟨a, b, rfl, ha, hb⟩ := callsOf_eq_append_cons hcalls
  obtain ⟨u, v, hpre, hload, _⟩ := hrun.split_at
  have hto : u.accelerateToSlot = toSlot := (Prod.mk.inj hload).1
  have hmine : ∀ x, AccelerateOp.toSlotStore x ∉
      (callsOf .caller a).map Sigma.fst := by
    intro x
    rw [ha]
    simp
  have hstored := exec_toSlot hpre (v := res.toSlot.toUInt64) (by
    intro x hx
    rw [refresher_of_op (hmine x)] at hx
    exact run_stores hres hrun (by simp [hx]))
  rw [precedes_middle_iff (by rw [hb]; simp), ← refresher_of_op (hmine _), ← hto]
  by_cases h : AccelerateOp.toSlotStore res.toSlot.toUInt64 ∈
      (a.map Event.call).map Sigma.fst
  · exact Or.inl ⟨h, by rw [hstored, if_pos h]⟩
  · exact Or.inr ⟨h, by rw [hstored, if_neg h]; rfl⟩

/-- The call withholds the slot exactly when it was not listed before, no put of
the slot precedes the lookup, the store precedes the load, and the new horizon
covers the slot. -/
theorem accelerateDecision_ne_notOnList_iff
    (hres : poll.Succeeds res)
    (hold : s.accelerateToSlot < slot ∨ s.accelerateToSlot = 0)
    (hrun : Run accelerateSem anyStep (accelerateConfig slot poll s) tr d)
    {v : AccelerateVerdict}
    (hdone : d.progs .caller = Prog.ret v) :
    v ≠ .notOnList
      ↔
    ¬ (s.listed slot = false ∧
        ¬ Precedes tr (.refresher, .slotsPut slot) (.caller, .slotsGet slot) ∧
        Precedes tr (.refresher, .toSlotStore res.toSlot.toUInt64)
          (.caller, .toSlotLoad) ∧
        slot ≤ res.toSlot.toUInt64) := by
  have hpath := hrun.path .caller
  rw [hdone] at hpath
  obtain ⟨onList, toSlot, hcalls, rfl⟩ := accelerateDecision_calls hpath
  have hmiss : onList = false ↔
      s.listed slot = false ∧
        ¬ Precedes tr (.refresher, .slotsPut slot)
          (.caller, .slotsGet slot) := by
    rw [← Bool.not_eq_true, lookup_reads hrun hcalls, not_or, Bool.not_eq_true]
  rw [Ne, not_iff_not, decideAccelerate_eq_notOnList_iff, hmiss]
  rcases load_reads hres hrun hcalls with ⟨hstore, rfl⟩ | ⟨hstore, rfl⟩
  · have hne := hres.toSlot_ne_zero
    tauto
  · constructor
    · rintro ⟨_, hzero, hle⟩
      rcases hold with hlt | hz
      · exact absurd hlt (UInt64.not_lt.mpr hle)
      · exact absurd hz hzero
    · rintro ⟨_, _, hprec, _⟩
      exact absurd hprec hstore

/-- A poll that selects slot 5 with horizon 10. -/
def pollSelectingFive : AcceleratePoll where
  chainID := "hoodi"
  remoteBootstrapURL := "https://bootstrap.example.com"
  res := some ⟨10, [5], 1⟩
  code := 200
  err := none

theorem pollSelectingFive_succeeds :
    pollSelectingFive.Succeeds ⟨10, [5], 1⟩ where
  chain := by decide
  url := by decide
  noErr := rfl
  status := rfl
  body := rfl
  positive := by decide

/-- The state of a router that has not polled yet. -/
def unpolledState : AccelerateState :=
  ⟨TTLMap.empty, 0, 0⟩

/-- The lookup of slot 5 runs first, then the whole poll, then the load. -/
def lookupPollLoad :
    List (Event AccelerateParty AccelerateOp AccelerateOp.Ans) :=
  [⟨.caller, .slotsGet 5, false⟩,
    ⟨.refresher, .slotsPut 5, ()⟩,
    ⟨.refresher, .toSlotStore 10, ()⟩,
    ⟨.caller, .toSlotLoad, (10 : UInt64)⟩]

theorem lookupPollLoad_run :
    ∃ d, Run accelerateSem anyStep
        (accelerateConfig 5 pollSelectingFive unpolledState)
        lookupPollLoad d ∧
      d.progs .caller = Prog.ret .notOnList := by
  refine ⟨_, Run.next rfl rfl (Run.next rfl rfl (Run.next rfl rfl
        (Run.next rfl rfl (Run.nil _)))), ?_⟩
  rfl

theorem accelerateDecision_withholds_selected_slot :
    ¬ ∀ (slot : UInt64) (poll : AcceleratePoll)
        (res : AccelerateSlotsResponse) (s : AccelerateState)
        (tr : List (Event AccelerateParty AccelerateOp AccelerateOp.Ans))
        (d : Config AccelerateParty AccelerateOp AccelerateOp.Ans
          AccelerateParty.Result AccelerateState)
        (v : AccelerateVerdict),
      poll.Succeeds res → res.Lists slot →
      (s.accelerateToSlot < slot ∨ s.accelerateToSlot = 0) →
      Run accelerateSem anyStep (accelerateConfig slot poll s) tr d →
      d.progs .caller = Prog.ret v →
      v ≠ .notOnList := by
  intro h
  obtain ⟨d, hrun, hdone⟩ := lookupPollLoad_run
  exact h 5 pollSelectingFive ⟨10, [5], 1⟩ unpolledState _ d .notOnList
    pollSelectingFive_succeeds ⟨5, by simp, by decide, rfl⟩ (Or.inr rfl)
    hrun hdone rfl

/-- The slot is put before the lookup. -/
def pollLookupLoad :
    List (Event AccelerateParty AccelerateOp AccelerateOp.Ans) :=
  [⟨.refresher, .slotsPut 5, ()⟩,
    ⟨.caller, .slotsGet 5, true⟩,
    ⟨.refresher, .toSlotStore 10, ()⟩,
    ⟨.caller, .toSlotLoad, (10 : UInt64)⟩]

theorem accelerateDecision_ne_notOnList_iff_late_load :
    (∃ d, Run accelerateSem anyStep
        (accelerateConfig 5 pollSelectingFive unpolledState)
        lookupPollLoad d ∧
      d.progs .caller = Prog.ret .notOnList ∧
      (AccelerateVerdict.notOnList ≠ .notOnList
        ↔
      ¬ (unpolledState.listed 5 = false ∧
          ¬ Precedes lookupPollLoad
            (.refresher, .slotsPut 5) (.caller, .slotsGet 5) ∧
          Precedes lookupPollLoad
            (.refresher, .toSlotStore 10) (.caller, .toSlotLoad) ∧
          (5 : UInt64) ≤ 10))) ∧
    ∃ d v, Run accelerateSem anyStep
        (accelerateConfig 5 pollSelectingFive unpolledState)
        pollLookupLoad d ∧
      d.progs .caller = Prog.ret v ∧ v ≠ .notOnList := by
  refine ⟨?_, ?_⟩
  · obtain ⟨d, hrun, hdone⟩ := lookupPollLoad_run
    exact ⟨d, hrun, hdone, accelerateDecision_ne_notOnList_iff
      pollSelectingFive_succeeds (Or.inr rfl) hrun hdone⟩
  · have hrun : Run accelerateSem anyStep (accelerateConfig 5 pollSelectingFive unpolledState)
        pollLookupLoad _ :=
      Run.next rfl rfl (Run.next rfl rfl (Run.next rfl rfl (Run.next rfl rfl (Run.nil _))))
    refine ⟨_, .onList, hrun, rfl, (accelerateDecision_ne_notOnList_iff
      pollSelectingFive_succeeds (Or.inr rfl) hrun rfl).mpr ?_⟩
    rintro ⟨-, hput, -⟩
    exact hput (.cons_cons _ (.cons_cons _ (List.nil_sublist _)))

end Interleaving

end MessageRouter
end OptimumGateway
