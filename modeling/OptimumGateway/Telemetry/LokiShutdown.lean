import OptimumGateway.Telemetry.LokiWriter

/-!
# The Loki writer at shutdown

This module runs the loop of `pkg/service/telemetry/loki_writer.go` beside the goroutines
that call `Write` and the owner that cancels the context.

The channel is a queue: the lines that were put are those that were taken and then those in
the channel (`put_eq_taken_append`).  When the loop takes the cancellation it flushes the
buffer and returns.  It does not look at the channel again, so a line that was put before
the cancellation is delivered exactly if it had been taken by then (`drained_iff`).  Go's
`select` takes any case that is ready.
-/

namespace OptimumGateway
namespace Telemetry

open Foundation Foundation.Prog

section Pool

/-- The loop, the goroutines that log, and the owner of the context. -/
inductive LokiParty where
  | loop
  | logger (i : Nat)
  | owner
deriving DecidableEq

abbrev LokiParty.Res : LokiParty → Type
  | .loop => List LokiLine
  | .logger _ => PUnit
  | .owner => Unit

/-- The channel of lines, whether the context is cancelled, and whether `done` is closed. -/
structure LokiState where
  lines : List LokiLine
  cancelled : Bool
  closed : Bool

/-- A send that does not block finds room or drops the line.  The ticker may fire at any
time, and a push has any result. -/
def lokiSem : Sem LokiOp LokiOp.Ans LokiState
  | .unixNano, s, _, t => t = s
  | .send entry, s, true, t =>
      s.lines.length < lokiChannelSize ∧ t = { s with lines := s.lines ++ [entry] }
  | .send _, s, false, t => ¬ s.lines.length < lokiChannelSize ∧ t = s
  | .cancel, s, _, t => t = { s with cancelled := true }
  | .select, s, .done, t => s.cancelled = true ∧ t = s
  | .select, s, .line l, t => ∃ rest, s.lines = l :: rest ∧ t = { s with lines := rest }
  | .select, s, .tick, t => t = s
  | .push _, s, _, t => t = s
  | .closeDone, s, _, t => t = { s with closed := true }

/-- What one logger does. -/
def writeAll (texts : List String) : LokiProg PUnit :=
  texts.forM fun p => do
    let _ ← write p
    pure ⟨⟩

abbrev LokiEvent := Event LokiParty LokiOp LokiOp.Ans

abbrev LokiConfig := Config LokiParty LokiOp LokiOp.Ans LokiParty.Res LokiState

/-- The writer after `Start`, with the loop bounded by a number of rounds. -/
def lokiStart (lib : SliceLibrary LokiLine) (rounds : Nat) (texts : Nat → List String) :
    LokiConfig where
  progs
    | .loop => run lib rounds []
    | .logger i => writeAll (texts i)
    | .owner => loki .cancel
  state := { lines := [], cancelled := false, closed := false }

end Pool

section Queue

/-- The line that a call puts on the channel. -/
def putBy : LokiCall → List LokiLine
  | ⟨.send entry, true⟩ => [entry]
  | _ => []

def linesPut (calls : List LokiCall) : List LokiLine :=
  calls.flatMap putBy

theorem linesPut_append
    (calls calls' : List LokiCall) :
    linesPut (calls ++ calls') = linesPut calls ++ linesPut calls' := by
  exact List.flatMap_append

variable {s t : LokiState}

/-- What a call does: it puts lines at the end of the channel and takes them from its
front, and the flags are set by one operation each. -/
theorem lokiSem_spec
    {op : LokiOp} {r : op.Ans}
    (h : lokiSem op s r t) :
    s.lines ++ putBy ⟨op, r⟩ = takenBy ⟨op, r⟩ ++ t.lines ∧
      t.cancelled = (s.cancelled || decide (op = .cancel)) ∧
      t.closed = (s.closed || decide (op = .closeDone)) := by
  cases op with
  | unixNano =>
      obtain rfl : t = s := h
      simp [putBy, takenBy]
  | send entry =>
      cases r with
      | false =>
          obtain ⟨-, rfl⟩ : _ ∧ t = s := h
          simp [putBy, takenBy]
      | true =>
          obtain ⟨-, rfl⟩ : _ ∧ t = { s with lines := s.lines ++ [entry] } := h
          simp [putBy, takenBy]
  | cancel =>
      obtain rfl : t = { s with cancelled := true } := h
      simp [putBy, takenBy]
  | select =>
      cases r with
      | done =>
          obtain ⟨-, rfl⟩ : _ ∧ t = s := h
          simp [putBy, takenBy]
      | line l =>
          obtain ⟨rest, hlines, rfl⟩ : ∃ rest, s.lines = l :: rest ∧ t = { s with lines := rest } :=
            h
          simp [putBy, takenBy, hlines]
      | tick =>
          obtain rfl : t = s := h
          simp [putBy, takenBy]
  | push data =>
      obtain rfl : t = s := h
      simp [putBy, takenBy]
  | closeDone =>
      obtain rfl : t = { s with closed := true } := h
      simp [putBy, takenBy]

theorem put_eq_taken_append
    {calls : List LokiCall}
    (h : Exec lokiSem s calls t) :
    s.lines ++ linesPut calls = linesTaken calls ++ t.lines := by
  induction h with
  | nil s => exact List.append_nil s.lines
  | @cons s u t op r calls head tail ih =>
      have hput : linesPut (⟨op, r⟩ :: calls) = putBy ⟨op, r⟩ ++ linesPut calls := rfl
      have htaken : linesTaken (⟨op, r⟩ :: calls) = takenBy ⟨op, r⟩ ++ linesTaken calls := rfl
      calc s.lines ++ linesPut (⟨op, r⟩ :: calls)
          = s.lines ++ putBy ⟨op, r⟩ ++ linesPut calls := by
            rw [hput, List.append_assoc]
        _ = takenBy ⟨op, r⟩ ++ (u.lines ++ linesPut calls) := by
            rw [(lokiSem_spec head).1, List.append_assoc]
        _ = linesTaken (⟨op, r⟩ :: calls) ++ t.lines := by
            rw [ih, htaken, List.append_assoc]

/-- A flag that one operation sets is set by a call of that operation. -/
theorem exists_setter
    {flag : LokiState → Bool} {setter : LokiOp}
    (hflag : ∀ op s r t, lokiSem op s r t → flag t = (flag s || decide (op = setter)))
    {calls : List LokiCall}
    (h : Exec lokiSem s calls t)
    (hs : flag s = false)
    (ht : flag t = true) :
    ∃ call ∈ calls, call.1 = setter := by
  have hwrites : Writes lokiSem flag fun call =>
      if call.1 = setter then some true else none := by
    intro op s r t hsem
    rw [hflag op s r t hsem]
    by_cases hop : op = setter <;> simp [hop]
  have hcell := h.cell hwrites
  rw [hs, ht] at hcell
  cases hlast : lastWrite (fun call : LokiCall => if call.1 = setter then some true else none)
      calls with
  | none =>
      rw [hlast] at hcell
      cases hcell
  | some b =>
      obtain ⟨call, hmem, hcall⟩ := lastWrite_eq_some hlast
      refine ⟨call, hmem, ?_⟩
      by_contra hne
      rw [if_neg hne] at hcall
      cases hcall

end Queue

section Ending

variable {lib : SliceLibrary LokiLine} {calls : List LokiCall} {data : List LokiLine}

/-- How a loop that closed `done` ended: after some rounds it took the cancellation and
flushed the buffer once more. -/
structure EndedLoop (lib : SliceLibrary LokiLine) (data : List LokiLine)
    (front flushes : List LokiCall) (data' : List LokiLine) : Prop where
  first : ⟨.select, .done⟩ ∉ front
  rounds : ∃ done last err, Path (run lib done data) front (.ret last) ∧
    Path (flush lib last) flushes (.ret (data', err))

theorem forall_loopRound
    (data : List LokiLine) :
    (loopRound lib data).Forall fun op => op ≠ .closeDone := by
  have hflush : (flush lib data).Forall fun op => op ≠ .closeDone := by
    refine (forall_flush data).mono ?_
    rintro op ⟨chunk, rfl⟩
    nofun
  refine ⟨nofun, ?_⟩
  intro chosen
  cases chosen with
  | line l => trivial
  | done | tick => exact hflush.bind fun _ => trivial

theorem notMem_of_flush
    {q : LokiProg (List LokiLine × Option GoError)}
    (hpath : Path (flush lib data) calls q) :
    ⟨.select, .done⟩ ∉ calls := by
  intro hmem
  obtain ⟨chunk, hchunk⟩ := hpath.forall_mem (forall_flush data) _ hmem
  cases hchunk

/-- A round that is followed by another did not take the cancellation. -/
theorem notMem_of_again
    {next : List LokiLine}
    (hround : Path (loopRound lib data) calls (.ret (next, true))) :
    ⟨.select, .done⟩ ∉ calls := by
  rcases path_loopRound hround with ⟨l, rfl, -⟩ | ⟨chosen, flushes, err, rfl, hflush, hchosen⟩
  · intro hmem
    cases List.mem_singleton.mp hmem
  · rcases hchosen with ⟨-, hagain⟩ | ⟨rfl, -⟩
    · cases hagain
    · intro hmem
      rcases List.mem_cons.mp hmem with hselect | hflushes
      · cases hselect
      · exact notMem_of_flush hflush hflushes

/-- A loop that closed `done` has ended. -/
theorem ended_of_closeDone
    {rounds : Nat} {q : LokiProg (List LokiLine)}
    (hpath : Path (run lib rounds data) calls q)
    (hclose : ⟨.closeDone, ()⟩ ∈ calls) :
    ∃ front flushes data', q = .ret data' ∧
      calls = front ++ ⟨.select, .done⟩ :: (flushes ++ [⟨.closeDone, ()⟩]) ∧
      EndedLoop lib data front flushes data' := by
  induction rounds generalizing data calls with
  | zero =>
      obtain ⟨rfl, -⟩ := path_ret_iff.mp hpath
      cases hclose
  | succ rounds ih =>
      have hnever : ∀ {l p}, Path (loopRound lib data) l p → ⟨.closeDone, ()⟩ ∉ l := by
        intro l p hround hmem
        exact hround.forall_mem (forall_loopRound data) _ hmem rfl
      rcases path_bind hpath with ⟨p, hround, -⟩ | ⟨⟨next, again⟩, first, rest, rfl, hround, hrest⟩
      · exact absurd hclose (hnever hround)
      · have hlater := (List.mem_append.mp hclose).resolve_left (hnever hround)
        cases again with
        | true =>
            obtain ⟨front, flushes, data', rfl, rfl, hended⟩ := ih hrest hlater
            refine ⟨first ++ front, flushes, data', rfl, by rw [List.append_assoc], ?_, ?_⟩
            · intro hmem
              rcases List.mem_append.mp hmem with hmem | hmem
              · exact notMem_of_again hround hmem
              · exact hended.first hmem
            · obtain ⟨done, last, err, hfront, hflush⟩ := hended.rounds
              exact ⟨done + 1, last, err, hround.bind hfront, hflush⟩
        | false =>
            rcases path_loopRound hround with
              ⟨l, -, hagain, -⟩ | ⟨chosen, flushes, err, rfl, hflush, hchosen⟩
            · cases hagain
            · obtain ⟨rfl, -⟩ := hchosen.resolve_right fun h => Bool.noConfusion h.2
              rcases path_call_iff.mp hrest with ⟨rfl, -⟩ | ⟨_, l, rfl, hret⟩
              · cases hlater
              · obtain ⟨rfl, rfl⟩ := path_ret_iff.mp hret
                exact ⟨[], flushes, next, rfl, rfl, nofun, 0, data, err, Path.nil _, hflush⟩

/-- After the cancellation no line is taken. -/
theorem linesTaken_ended
    {data' : List LokiLine} {front flushes : List LokiCall}
    (h : EndedLoop lib data front flushes data') :
    linesTaken (front ++ ⟨.select, .done⟩ :: (flushes ++ [⟨.closeDone, ()⟩])) =
      linesTaken front := by
  obtain ⟨done, last, err, -, hflush⟩ := h.rounds
  have hflushes := linesTaken_flush hflush
  rw [linesTaken_append, ← List.singleton_append, linesTaken_append, linesTaken_append, hflushes]
  exact List.append_nil _

end Ending

section Shutdown

variable {lib : SliceLibrary LokiLine} {rounds : Nat} {texts : Nat → List String}
variable {tr before after : List LokiEvent} {d : LokiConfig}

/-- The part of a run before the context is cancelled. -/
def beforeCancel (tr : List LokiEvent) : List LokiEvent :=
  tr.takeWhile fun e => e.op ≠ .cancel

def sinceCancel (tr : List LokiEvent) : List LokiEvent :=
  tr.dropWhile fun e => e.op ≠ .cancel

/-- Every line that was put on the channel before the cancellation was accepted, or evicted
as the oldest of a full buffer. -/
def Drained (lib : SliceLibrary LokiLine) (rounds : Nat) (tr : List LokiEvent) : Prop :=
  ∃ (settled : List (LokiLine × Fate)) (data : List LokiLine),
    LoopAccount lib rounds [] (callsOf .loop tr) settled data ∧
    ∀ (j : Nat) (entry : LokiLine),
      (linesPut ((beforeCancel tr).map Event.call))[j]? = some entry →
        settled[j]? = some (entry, .accepted) ∨ settled[j]? = some (entry, .evicted)

/-- Where the loop takes the cancellation, the channel holds only lines that were put since
the context was cancelled. -/
def OnlyLateLines (lib : SliceLibrary LokiLine) (rounds : Nat) (texts : Nat → List String)
    (tr : List LokiEvent) : Prop :=
  ∀ before after m, tr = before ++ ⟨.loop, .select, .done⟩ :: after →
    Run lokiSem anyStep (lokiStart lib rounds texts) before m →
      m.state.lines.length ≤ (linesPut ((sinceCancel before).map Event.call)).length

/-- The operations of the loop. -/
def ofLoop : LokiOp → Bool
  | .select => true
  | .push _ => true
  | .closeDone => true
  | _ => false

theorem forall_writeAll
    (texts : List String) :
    (writeAll texts).Forall fun op => ofLoop op = false := by
  refine Forall.forM ?_
  intro p _
  refine Forall.bind ?_ fun _ => trivial
  unfold write
  dsimp only
  split
  · trivial
  · exact ⟨rfl, fun _ => ⟨rfl, fun _ => trivial⟩⟩

variable (hrun : Run lokiSem anyStep (lokiStart lib rounds texts) tr d)
include hrun

theorem thread_eq_loop
    {e : LokiEvent}
    (he : e ∈ tr)
    (hop : ofLoop e.op = true) :
    e.thread = .loop := by
  have hcall := call_mem_callsOf he
  have hpath := hrun.path e.thread
  have houtside : ∀ party, e.thread = party →
      ((lokiStart lib rounds texts).progs party).Forall (fun op => ofLoop op = false) → False := by
    intro party hparty hforall
    rw [hparty] at hpath hcall
    have hfalse : ofLoop e.op = false := hpath.forall_mem hforall _ hcall
    rw [hop] at hfalse
    cases hfalse
  cases hthread : e.thread with
  | loop => rfl
  | logger i => exact (houtside _ hthread (forall_writeAll (texts i))).elim
  | owner => exact (houtside _ hthread (forall_op rfl)).elim

omit hrun in
/-- Only the loop takes lines. -/
theorem linesTaken_callsOf
    (h : ∀ e ∈ tr, ofLoop e.op = true → e.thread = .loop) :
    linesTaken (tr.map Event.call) = linesTaken (callsOf .loop tr) := by
  induction tr with
  | nil => rfl
  | cons e tr ih =>
      have hrest := ih fun e' he' => h e' (List.mem_cons_of_mem _ he')
      rw [callsOf_cons, linesTaken_append, ← hrest, List.map_cons, ← List.singleton_append,
        linesTaken_append]
      by_cases hthread : e.thread = .loop
      · rw [if_pos hthread]
      · rw [if_neg hthread]
        have hop : ofLoop e.op = false := by
          by_contra hop
          exact hthread (h e (List.mem_cons_self ..) (Bool.not_eq_false _ ▸ hop))
        obtain ⟨i, op, r⟩ := e
        cases op with
        | select => cases hop
        | _ => rfl

omit hrun in
theorem beforeCancel_append
    (h : ∃ e ∈ tr, e.op = .cancel)
    (tr' : List LokiEvent) :
    beforeCancel (tr ++ tr') = beforeCancel tr := by
  unfold beforeCancel
  induction tr with
  | nil =>
      obtain ⟨e, he, -⟩ := h
      cases he
  | cons e tr ih =>
      by_cases hop : e.op = .cancel
      · simp [hop]
      · obtain ⟨e', he', hcancel⟩ := h
        have hrest : e' ∈ tr := by
          rcases List.mem_cons.mp he' with rfl | hmem
          · exact absurd hcancel hop
          · exact hmem
        simp only [List.cons_append, List.takeWhile_cons, hop, ne_eq, not_false_eq_true,
          decide_true, if_true, ih ⟨e', hrest, hcancel⟩]

/-- The loop takes the cancellation after the context was cancelled. -/
theorem cancel_mem_before
    (htr : tr = before ++ ⟨.loop, .select, .done⟩ :: after) :
    ∃ e ∈ before, e.op = .cancel := by
  rw [htr] at hrun
  obtain ⟨s, t, hexec, hselect, -⟩ := hrun.split_at
  have hcancelled : s.cancelled = true := hselect.1
  obtain ⟨call, hcall, hop⟩ := exists_setter (fun _ _ _ _ h => (lokiSem_spec h).2.1)
    hexec rfl hcancelled
  obtain ⟨e, he, rfl⟩ := List.mem_map.mp hcall
  exact ⟨e, he, hop⟩

/-- The lines put before and since the cancellation are those taken and those in the channel
when the loop takes the cancellation. -/
theorem put_at_done
    {m : LokiConfig}
    (htr : tr = before ++ ⟨.loop, .select, .done⟩ :: after)
    (hm : Run lokiSem anyStep (lokiStart lib rounds texts) before m) :
    linesPut ((beforeCancel tr).map Event.call) ++ linesPut ((sinceCancel before).map Event.call) =
      linesTaken (callsOf .loop before) ++ m.state.lines := by
  have hbefore : beforeCancel tr = beforeCancel before := by
    rw [htr]
    exact beforeCancel_append (cancel_mem_before hrun htr) _
  have hqueue := put_eq_taken_append hm.exec
  rw [linesTaken_callsOf fun e he => thread_eq_loop hm he] at hqueue
  rw [hbefore, ← linesPut_append, ← List.map_append, beforeCancel, sinceCancel,
    List.takeWhile_append_dropWhile]
  exact hqueue

/-- The end of a run in which `done` was closed. -/
theorem ended_of_closed
    (hclosed : d.state.closed = true) :
    ∃ front flushes data', d.progs .loop = .ret data' ∧
      callsOf .loop tr = front ++ ⟨.select, .done⟩ :: (flushes ++ [⟨.closeDone, ()⟩]) ∧
      EndedLoop lib [] front flushes data' := by
  obtain ⟨call, hcall, hop⟩ := exists_setter (fun _ _ _ _ h => (lokiSem_spec h).2.2)
    hrun.exec rfl hclosed
  obtain ⟨⟨party, op, r⟩, he, rfl⟩ := List.mem_map.mp hcall
  obtain rfl : op = .closeDone := hop
  obtain rfl : party = .loop := thread_eq_loop hrun he rfl
  exact ended_of_closeDone (hrun.path .loop) (call_mem_callsOf he)

/-- Every line that the loop has taken was taken before it took the cancellation. -/
theorem taken_at_done
    (hclosed : d.state.closed = true)
    (htr : tr = before ++ ⟨.loop, .select, .done⟩ :: after) :
    linesTaken (callsOf .loop tr) = linesTaken (callsOf .loop before) := by
  obtain ⟨front, flushes, data', -, hcalls, hended⟩ := ended_of_closed hrun hclosed
  have hlast : ⟨.select, .done⟩ ∉ flushes ++ [(⟨.closeDone, ()⟩ : LokiCall)] := by
    obtain ⟨done, last, err, -, hflush⟩ := hended.rounds
    intro hmem
    rcases List.mem_append.mp hmem with hmem | hmem
    · exact notMem_of_flush hflush hmem
    · cases List.mem_singleton.mp hmem
  have hsplit : front ++ ⟨.select, .done⟩ :: (flushes ++ [⟨.closeDone, ()⟩]) =
      callsOf .loop before ++ ⟨.select, .done⟩ :: callsOf .loop after := by
    rw [← hcalls, htr, callsOf_append, callsOf_cons_self]
  obtain ⟨hfront, -⟩ := (List.append_cons_inj_of_notMem hended.first hlast).mp hsplit
  rw [hcalls, linesTaken_ended hended, hfront]

omit hrun in
theorem final_buffer_empty
    (hlib : lib.Lawful)
    {front flushes : List LokiCall} {data' : List LokiLine}
    (hended : EndedLoop lib [] front flushes data')
    (haccepted : ∀ chunk result, ⟨.push chunk, result⟩ ∈ flushes →
      pushFate result = some .accepted) :
    data' = [] := by
  obtain ⟨done, last, err, hfront, hflush⟩ := hended.rounds
  obtain ⟨settled, haccount⟩ := account_run hlib (Nat.zero_le _) hfront
  refine (flushed_flush hlib haccount.bounded hflush).emptied ?_
  intro chunk result hmem
  rw [haccepted chunk result hmem]
  nofun

omit hrun in
/-- Without refused pushes every line that left the buffer was accepted or evicted. -/
theorem LoopAccount.accepted_or_evicted
    {calls : List LokiCall} {settled : List (LokiLine × Fate)} {data data' : List LokiLine}
    (h : LoopAccount lib rounds data calls settled data')
    (haccepted : ∀ chunk result, ⟨.push chunk, result⟩ ∈ calls →
      pushFate result = some .accepted)
    {j : Nat} {entry : LokiLine} {fate : Fate}
    (hj : settled[j]? = some (entry, fate)) :
    settled[j]? = some (entry, .accepted) ∨ settled[j]? = some (entry, .evicted) := by
  cases fate with
  | accepted => exact Or.inl hj
  | evicted => exact Or.inr hj
  | refused =>
      have hnone : linesPushed .refused calls = [] := by
        refine List.flatMap_eq_nil_iff.mpr ?_
        rintro ⟨op, result⟩ hcall
        cases op with
        | push chunk => simp [pushedTo, haccepted chunk result hcall]
        | _ => rfl
      have hmem : entry ∈ linesWith .refused settled := by
        exact List.mem_map.mpr ⟨(entry, .refused),
          List.mem_filter.mpr ⟨List.mem_of_getElem? hj, by simp⟩, rfl⟩
      rw [← h.account.refused, hnone] at hmem
      cases hmem

/-- A line that was put and not taken when the loop took the cancellation has no fate. -/
theorem onlyLateLines_of_drained
    (hclosed : d.state.closed = true)
    (h : Drained lib rounds tr) :
    OnlyLateLines lib rounds texts tr := by
  obtain ⟨settled, data, haccount, hfates⟩ := h
  intro before after m htr hm
  have hput := congrArg List.length (put_at_done hrun htr hm)
  have htaken : linesTaken (callsOf .loop tr) = settled.map Prod.fst ++ data :=
    haccount.account.taken
  rw [taken_at_done hrun hclosed htr] at htaken
  have hlength := congrArg List.length htaken
  rw [List.length_append, List.length_map] at hlength
  rw [List.length_append, List.length_append] at hput
  by_contra hmany
  have hj : settled.length < (linesPut ((beforeCancel tr).map Event.call)).length := by
    omega
  rcases hfates _ _ (List.getElem?_eq_getElem hj) with hfate | hfate
  · exact absurd (List.getElem?_eq_some_iff.mp hfate).1 (Nat.lt_irrefl _)
  · exact absurd (List.getElem?_eq_some_iff.mp hfate).1 (Nat.lt_irrefl _)

/-- The lines that were put before the cancellation are the first ones that were taken. -/
theorem put_prefix_taken
    (hclosed : d.state.closed = true)
    (hlate : OnlyLateLines lib rounds texts tr) :
    linesPut ((beforeCancel tr).map Event.call) <+: linesTaken (callsOf .loop tr) := by
  obtain ⟨front, flushes, data', -, hcalls, -⟩ := ended_of_closed hrun hclosed
  obtain ⟨before, after, htr, -, -⟩ := callsOf_eq_append_cons hcalls
  obtain ⟨m, hm, -⟩ := Run.split (htr ▸ hrun)
  have hput := put_at_done hrun htr hm
  have hlength := congrArg List.length hput
  have hchannel := hlate before after m htr hm
  rw [List.length_append, List.length_append] at hlength
  have hall : linesPut ((beforeCancel tr).map Event.call) <+:
      linesTaken (callsOf .loop before) ++ m.state.lines := by
    rw [← hput]
    exact List.prefix_append ..
  rw [taken_at_done hrun hclosed htr]
  exact List.prefix_of_prefix_length_le hall (List.prefix_append ..) (by omega)

omit hrun

/-- When `done` is closed and every push was accepted, the lines that were put before the
cancellation have been delivered exactly if none of them was left in the channel when the loop
took the cancellation. -/
theorem drained_iff
    (hlib : lib.Lawful)
    {tr : List LokiEvent} {d : LokiConfig}
    (hrun : Run lokiSem anyStep (lokiStart lib rounds texts) tr d)
    (hclosed : d.state.closed = true)
    (haccepted : ∀ chunk result, ⟨.loop, .push chunk, result⟩ ∈ tr →
      pushFate result = some .accepted) :
    Drained lib rounds tr
      ↔
    OnlyLateLines lib rounds texts tr := by
  refine ⟨onlyLateLines_of_drained hrun hclosed, ?_⟩
  intro hlate
  have hloop : ∀ chunk result, ⟨.push chunk, result⟩ ∈ callsOf .loop tr →
      pushFate result = some .accepted := by
    intro chunk result hmem
    exact haccepted chunk result (mem_of_mem_callsOf hmem)
  obtain ⟨front, flushes, data', hret, hcalls, hended⟩ := ended_of_closed hrun hclosed
  have hempty : data' = [] := by
    refine final_buffer_empty hlib hended ?_
    intro chunk result hmem
    refine hloop chunk result ?_
    rw [hcalls]
    simp [hmem]
  have hpath := hrun.path .loop
  rw [hret, hempty] at hpath
  obtain ⟨settled, haccount⟩ := account_run hlib (Nat.zero_le _) hpath
  refine ⟨settled, [], haccount, ?_⟩
  intro j entry hj
  have htaken : linesTaken (callsOf .loop tr) = settled.map Prod.fst ++ [] :=
    haccount.account.taken
  rw [List.append_nil] at htaken
  obtain ⟨rest, hrest⟩ := put_prefix_taken hrun hclosed hlate
  have hmap : (settled.map Prod.fst)[j]? = some entry := by
    rw [← htaken, ← hrest, List.getElem?_append_left (List.getElem?_eq_some_iff.mp hj).1]
    exact hj
  rw [List.getElem?_map] at hmap
  obtain ⟨⟨other, fate⟩, hsettled, rfl⟩ := Option.map_eq_some_iff.mp hmap
  exact haccount.accepted_or_evicted hloop hsettled

end Shutdown

section OneLine

/-- One goroutine writes one line. -/
def oneText : Nat → List String
  | 0 => ["line\n"]
  | _ + 1 => []

def oneLine : LokiLine where
  ts := 7
  line := "line"

/-- The goroutine puts its line on the channel. -/
def putLine : List LokiEvent :=
  [⟨.logger 0, .unixNano, oneLine.ts⟩, ⟨.logger 0, .send oneLine, true⟩]

theorem path_writeAll_oneText :
    Path (writeAll (oneText 0)) (callsOf (.logger 0) putLine) (.ret ⟨⟩) := by
  have hline : String.ofList ("line\n".toList.rdropWhile (· = '\n')) = "line" := by
    decide +kernel
  have hwrite : Path (write "line\n") (callsOf (.logger 0) putLine)
      (.ret "line\n".utf8ByteSize) := by
    unfold write
    rw [hline, if_neg (by decide)]
    exact .cons (.cons (.nil _))
  have hpath := (hwrite.bind (f := fun _ => (pure ⟨⟩ : LokiProg PUnit)) (Path.nil _)).bind
    (f := fun _ => (pure ⟨⟩ : LokiProg PUnit)) (Path.nil _)
  rwa [List.append_nil, List.append_nil] at hpath

/-- The pool with the loop's part of a trace. -/
theorem run_oneText
    {rounds : Nat} {tr : List LokiEvent} {t : LokiState}
    (hlogger : callsOf (.logger 0) tr = callsOf (.logger 0) putLine)
    (hidle : ∀ i, callsOf (.logger (i + 1)) tr = [])
    (howner : callsOf .owner tr = [⟨.cancel, ()⟩])
    (hloop : Path (run plainSlices rounds []) (callsOf .loop tr) (.ret []))
    (hexec : Exec lokiSem ⟨[], false, false⟩ (tr.map Event.call) t) :
    ∃ d : LokiConfig, Run lokiSem anyStep (lokiStart plainSlices rounds oneText) tr d ∧
      d.state = t := by
  have hpaths : ∀ party, ∃ q, Path ((lokiStart plainSlices rounds oneText).progs party)
      (callsOf party tr) q := by
    intro party
    cases party with
    | loop => exact ⟨_, hloop⟩
    | logger i =>
        cases i with
        | zero =>
            rw [hlogger]
            exact ⟨_, path_writeAll_oneText⟩
        | succ i =>
            rw [hidle i]
            exact ⟨_, Path.nil _⟩
    | owner =>
        rw [howner]
        exact ⟨_, .cons (.nil _)⟩
  choose q hq using hpaths
  exact ⟨⟨q, t⟩, run_of_paths hq hexec, rfl⟩

/-- The line is taken before the context is cancelled. -/
def deliveredTrace : List LokiEvent :=
  putLine ++ [⟨.loop, .select, .line oneLine⟩, ⟨.owner, .cancel, ()⟩, ⟨.loop, .select, .done⟩,
    ⟨.loop, .push [oneLine], .response 204 ""⟩, ⟨.loop, .closeDone, ()⟩]

/-- The loop was elsewhere when the line was put, and takes the cancellation first. -/
def lostTrace : List LokiEvent :=
  putLine ++ [⟨.owner, .cancel, ()⟩, ⟨.loop, .select, .done⟩, ⟨.loop, .closeDone, ()⟩]

theorem run_deliveredTrace :
    ∃ d : LokiConfig, Run lokiSem anyStep (lokiStart plainSlices 2 oneText) deliveredTrace d ∧
      d.state = ⟨[], true, true⟩ := by
  refine run_oneText rfl (fun _ => rfl) rfl ?_ ?_
  · exact .cons (.cons (.cons (.cons (.nil _))))
  · refine .cons rfl (.cons ⟨by decide, rfl⟩ (.cons ⟨[], rfl, rfl⟩ (.cons rfl
      (.cons ⟨rfl, rfl⟩ (.cons rfl (.cons rfl (.nil _)))))))

theorem run_lostTrace :
    ∃ d : LokiConfig, Run lokiSem anyStep (lokiStart plainSlices 1 oneText) lostTrace d ∧
      d.state = ⟨[oneLine], true, true⟩ := by
  refine run_oneText rfl (fun _ => rfl) rfl ?_ ?_
  · exact .cons (.cons (.nil _))
  · exact .cons rfl (.cons ⟨by decide, rfl⟩ (.cons rfl (.cons ⟨rfl, rfl⟩ (.cons rfl (.nil _)))))

theorem drained_iff_delivered :
    ∃ d : LokiConfig, Run lokiSem anyStep (lokiStart plainSlices 2 oneText) deliveredTrace d ∧
      d.state.closed = true ∧
      linesPut ((beforeCancel deliveredTrace).map Event.call) = [oneLine] ∧
      Drained plainSlices 2 deliveredTrace := by
  obtain ⟨d, hrun, hstate⟩ := run_deliveredTrace
  have hclosed : d.state.closed = true := by
    rw [hstate]
  refine ⟨d, hrun, hclosed, rfl, (drained_iff plainSlices_lawful hrun hclosed ?_).mpr ?_⟩
  · intro chunk result hmem
    have hpush : (⟨.push chunk, result⟩ : LokiCall) = ⟨.push [oneLine], .response 204 ""⟩ := by
      simpa [deliveredTrace, putLine] using hmem
    cases hpush
    decide
  · intro before after m htr hm
    have hsplit : (putLine ++ [⟨.loop, .select, .line oneLine⟩, ⟨.owner, .cancel, ()⟩]) ++
        (⟨.loop, .select, .done⟩ : LokiEvent) ::
          [⟨.loop, .push [oneLine], .response 204 ""⟩, ⟨.loop, .closeDone, ()⟩] =
        before ++ ⟨.loop, .select, .done⟩ :: after := htr
    obtain ⟨rfl, -⟩ := (List.append_cons_inj_of_notMem (by simp [putLine]) (by simp)).mp hsplit
    have hqueue : [oneLine] = [oneLine] ++ m.state.lines := put_eq_taken_append hm.exec
    rw [List.append_right_eq_self.mp hqueue.symm]
    exact Nat.zero_le _

/-- A line that was put before the cancellation is neither pushed nor evicted when `done`
closes. -/
theorem queued_line_lost :
    ∃ d : LokiConfig, Run lokiSem anyStep (lokiStart plainSlices 1 oneText) lostTrace d ∧
      d.state.closed = true ∧
      (∀ chunk result, ⟨.loop, .push chunk, result⟩ ∈ lostTrace →
        pushFate result = some .accepted) ∧
      linesPut ((beforeCancel lostTrace).map Event.call) = [oneLine] ∧
      ¬ Drained plainSlices 1 lostTrace := by
  obtain ⟨d, hrun, hstate⟩ := run_lostTrace
  refine ⟨d, hrun, by rw [hstate], ?_, rfl, ?_⟩
  · intro chunk result hmem
    simp [lostTrace, putLine] at hmem
  · rintro ⟨settled, data, haccount, hfates⟩
    have htaken : [] = settled.map Prod.fst ++ data := haccount.account.taken
    obtain ⟨hsettled, -⟩ := List.append_eq_nil_iff.mp htaken.symm
    obtain rfl := List.map_eq_nil_iff.mp hsettled
    rcases hfates 0 oneLine rfl with hfate | hfate
    · cases hfate
    · cases hfate

end OneLine

end Telemetry
end OptimumGateway
