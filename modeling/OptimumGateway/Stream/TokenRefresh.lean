import OptimumGateway.Stream.LoopOrder

/-!
# Refreshed tokens

The reader of a connection and its send loop share a channel with one slot.  The reader
drains it and then puts the new token; the loop may take a token before, between or after
these two steps.  The channel is empty between them whatever the loop does, because only
the reader puts tokens, so that a put never fails.

`Channel` relates the content of the slot to the calls of the two goroutines and is kept
by every step.  That the loop re-verifies the newest accepted token is a property of the
loop alone and is read off the order of its calls.
-/

namespace OptimumGateway
namespace Stream

open Foundation Foundation.Prog

section Effects

/-- The token that a call takes out of the channel. -/
def takenToken : StreamCall → Option String
  | ⟨.select _ _, .refresh t⟩ => some t
  | _ => none

/-- The token that a call puts into the channel, or tries to. -/
def offeredToken : StreamCall → Option String
  | ⟨.offer _ t, _⟩ => some t
  | _ => none

/-- What a call does to the channel of a connection. -/
inductive SlotStep (key : String) : Option String → StreamCall → Option String → Prop
  | take (ticks : Ticks) (t : String) :
      SlotStep key (some t) ⟨.select key ticks, .refresh t⟩ none
  | drain (slot : Option String) : SlotStep key slot ⟨.drain key, slot⟩ none
  | put (t : String) : SlotStep key none ⟨.offer key t, true⟩ (some t)
  | full (old t : String) : SlotStep key (some old) ⟨.offer key t, false⟩ (some old)
  | quiet
      {slot : Option String} {x : StreamCall}
      (htake : ∀ ticks t, x ≠ ⟨.select key ticks, .refresh t⟩)
      (hdrain : x.1 ≠ .drain key)
      (hoffer : ∀ t, x.1 ≠ .offer key t) :
      SlotStep key slot x slot

theorem slotStep_of_select
    {key k : String} {ticks : Ticks} {r : LoopCase} {s t : StreamState}
    (h : selectSem k ticks s r t) :
    SlotStep key (s.refresh key) ⟨.select k ticks, r⟩ (t.refresh key) := by
  cases r with
  | refresh v =>
      obtain ⟨hslot, rfl⟩ := h
      by_cases hk : k = key
      · subst hk
        rw [hslot]
        simpa [StreamState.setRefresh] using SlotStep.take ticks v
      · have hne : key ≠ k := fun heq => hk heq.symm
        simp only [StreamState.setRefresh, Function.update_of_ne hne]
        refine SlotStep.quiet ?_ (by simp) (by simp)
        intro ticks' v' heq
        cases heq
        exact hk rfl
  | events ev =>
      have hsame : t.refresh key = s.refresh key := by
        cases ev with
        | none => rw [h.2.2]
        | some ev =>
            obtain ⟨rest, -, rfl⟩ := h
            rfl
      rw [hsame]
      exact SlotStep.quiet (by simp) (by simp) (by simp)
  | done =>
      rw [show t = s from h]
      exact SlotStep.quiet (by simp) (by simp) (by simp)
  | reauth | heartbeat | ping =>
      rw [h.2]
      exact SlotStep.quiet (by simp) (by simp) (by simp)

theorem slotStep_of_sem
    (key : String)
    {o : StreamOp} {r : o.Ans} {s t : StreamState}
    (h : streamSem o s r t) :
    SlotStep key (s.refresh key) ⟨o, r⟩ (t.refresh key) := by
  cases o with
  | select k ticks => exact slotStep_of_select h
  | drain k =>
      obtain ⟨rfl, rfl⟩ := h
      by_cases hk : k = key
      · subst hk
        simpa [StreamState.setRefresh] using SlotStep.drain (s.refresh k)
      · have hne : key ≠ k := fun heq => hk heq.symm
        simp only [StreamState.setRefresh, Function.update_of_ne hne]
        exact SlotStep.quiet (by simp) (by simpa using hk) (by simp)
  | offer k v =>
      simp only [streamSem] at h
      by_cases hk : k = key
      · subst hk
        cases hslot : s.refresh k with
        | none =>
            rw [hslot, if_pos rfl] at h
            obtain ⟨rfl, rfl⟩ := h
            simpa [StreamState.setRefresh] using SlotStep.put v
        | some old =>
            rw [hslot, if_neg (by simp)] at h
            obtain ⟨rfl, rfl⟩ := h
            rw [hslot]
            exact SlotStep.full old v
      · have hne : key ≠ k := fun heq => hk heq.symm
        have hsame : t.refresh key = s.refresh key := by
          split at h
          · rw [h.2, StreamState.setRefresh]
            exact Function.update_of_ne hne _ _
          · rw [h.2]
        rw [hsame]
        exact SlotStep.quiet (by simp) (by simp) (by simpa using fun heq => absurd heq hk)
  | emit ev =>
      cases h
      exact SlotStep.quiet (by simp) (by simp) (by simp)
  | dropped k =>
      obtain ⟨-, rfl⟩ := h
      exact SlotStep.quiet (by simp) (by simp) (by simp)
  | close k | send k frame | now | authenticate token =>
      cases h
      exact SlotStep.quiet (by simp) (by simp) (by simp)

end Effects

section Channel

/-- The content of the slot against the calls of the send loop and of the reader. -/
structure Channel (key : String) (sender reader : List StreamCall) (slot : Option String) :
    Prop where
  order : (sender.filterMap takenToken ++ slot.toList).Sublist (reader.filterMap offeredToken)
  put : ∀ t ok, ⟨.offer key t, ok⟩ ∈ reader → ok = true
  newest : ∀ past t ok, reader = past ++ [⟨.offer key t, ok⟩] →
    slot = some t ∨ slot = none ∧ (sender.filterMap takenToken).getLast? = some t
  drained : ∀ past got, reader = past ++ [⟨.drain key, got⟩] → slot = none

variable {key : String} {sender reader : List StreamCall} {slot slot' : Option String}
variable {x : StreamCall}

theorem channel_start
    (key : String) :
    Channel key [] [] none where
  order := by simp
  put := by simp
  newest := by simp
  drained := by simp

theorem Channel.step_sender
    {cfg : Config} {c : Connection} {initial : String}
    (h : Channel c.key sender reader slot)
    (hstep : SlotStep c.key slot x slot')
    (hrequires : SenderRequires cfg c initial sender x.1) :
    Channel c.key (sender ++ [x]) reader slot' := by
  cases hstep with
  | take ticks t =>
      refine ⟨?_, h.put, ?_, ?_⟩
      · simpa [takenToken] using h.order
      · intro past t' ok hreader
        rcases h.newest past t' ok hreader with hslot | ⟨hslot, -⟩
        · cases hslot
          exact Or.inr ⟨rfl, by simp [takenToken]⟩
        · cases hslot
      · intro past got hreader
        rfl
  | drain slot | put t | full old t => exact absurd hrequires.2 id
  | quiet htake hdrain hoffer =>
      have hnone : takenToken x = none := by
        obtain ⟨o, r⟩ := x
        cases o with
        | select k ticks =>
            cases hrequires.2.1
            cases r with
            | refresh t => exact absurd rfl (htake ticks t)
            | _ => rfl
        | _ => rfl
      have htaken := filterMap_concat_none sender hnone
      refine ⟨?_, h.put, ?_, h.drained⟩
      · rw [htaken]
        exact h.order
      · rw [htaken]
        exact h.newest

theorem Channel.step_reader
    (h : Channel key sender reader slot)
    (hstep : SlotStep key slot x slot')
    (hrequires : ReaderRequires key reader x.1) :
    Channel key sender (reader ++ [x]) slot' := by
  cases hstep with
  | take ticks t => exact absurd hrequires id
  | drain slot =>
      refine ⟨?_, ?_, ?_, ?_⟩
      · rw [filterMap_concat_none reader rfl]
        exact ((List.nil_sublist _).append_left _).trans h.order
      · intro t ok hmem
        rcases List.mem_append.mp hmem with hmem | hmem
        · exact h.put t ok hmem
        · cases List.mem_singleton.mp hmem
      · intro past t ok hreader
        cases (List.append_inj' hreader rfl).2
      · intro past got hreader
        rfl
  | put t =>
      refine ⟨?_, ?_, ?_, ?_⟩
      · rw [List.filterMap_append]
        exact (by simpa using h.order : (sender.filterMap takenToken).Sublist _).append
          (List.Sublist.refl _)
      · intro t' ok hmem
        rcases List.mem_append.mp hmem with hmem | hmem
        · exact h.put t' ok hmem
        · cases List.mem_singleton.mp hmem
          rfl
      · intro past t' ok hreader
        cases (List.append_inj' hreader rfl).2
        exact Or.inl rfl
      · intro past got hreader
        cases (List.append_inj' hreader rfl).2
  | full old t =>
      -- The reader has just drained the slot and nobody else fills it.
      obtain ⟨-, past, got, hreader⟩ := hrequires
      cases h.drained past got hreader
  | quiet htake hdrain hoffer =>
      obtain ⟨o, r⟩ := x
      cases o with
      | drain k => exact absurd (congrArg StreamOp.drain hrequires) hdrain
      | offer k t => exact absurd (by rw [hrequires.1]) (hoffer t)
      | _ => exact absurd hrequires id

variable {cfg : Config} {input : StreamInput}

theorem Channel.step_other
    {i : StreamThread} {calls : List StreamCall}
    (h : Channel key sender reader slot)
    (hstep : SlotStep key slot x slot')
    (hrequires : Requires cfg input i calls x.1)
    (hsender : i ≠ .sender key)
    (hreader : i ≠ .reader key) :
    Channel key sender reader slot' := by
  cases hstep with
  | take ticks t => exact absurd (hrequires.own (Or.inl ⟨ticks, rfl⟩)) hsender
  | drain slot => exact absurd (hrequires.reader (Or.inl rfl)) hreader
  | put t | full old t => exact absurd (hrequires.reader (Or.inr ⟨t, rfl⟩)) hreader
  | quiet htake hdrain hoffer => exact h

variable {tr : List StreamEvent} {d : StreamConfig}

theorem channel_of_run
    (key : String)
    (h : Run streamSem anyStep (input.config cfg) tr d) :
    Channel key (callsOf (.sender key) tr) (callsOf (.reader key) tr)
      (d.state.refresh key) := by
  refine h.memory_invariant
    (I := fun tr s => Channel key (callsOf (.sender key) tr) (callsOf (.reader key) tr)
      (s.refresh key)) (along_program cfg input) ?_ ?_
  · exact channel_start key
  intro tr s i o r t hchannel hrequires hsem
  have hstep := slotStep_of_sem key hsem
  rw [callsOf_append, callsOf_append, callsOf_singleton, callsOf_singleton]
  by_cases hsender : i = .sender key
  · subst hsender
    rw [if_pos rfl, if_neg (by simp), List.append_nil]
    exact hchannel.step_sender (c := (input.consumer key).connection key) hstep hrequires
  · rw [if_neg hsender, List.append_nil]
    by_cases hreader : i = .reader key
    · subst hreader
      rw [if_pos rfl]
      exact hchannel.step_reader hstep hrequires
    · rw [if_neg hreader, List.append_nil]
      exact hchannel.step_other hstep hrequires hsender hreader

/-- Whatever the reader does next, the channel lets it. -/
theorem reader_enabled
    (key : String)
    (h : Run streamSem anyStep (input.config cfg) tr d)
    {o : StreamOp} {next : o.Ans → StreamProg Unit}
    (hnext : d.progs (.reader key) = Prog.call o next) :
    ∃ r t, streamSem o d.state r t := by
  have halong := h.along (i := .reader key) (along_program cfg input _)
  rw [hnext] at halong
  have hrequires := halong.1
  cases o with
  | drain k => exact ⟨_, _, rfl, rfl⟩
  | offer k t =>
      by_cases hslot : d.state.refresh k = none
      · refine ⟨true, d.state.setRefresh k (some t), ?_⟩
        simp [streamSem, hslot]
      · refine ⟨false, d.state, ?_⟩
        simp [streamSem, hslot]
  | _ => exact absurd hrequires id

/-- The token presented on a re-auth tick is the newest accepted one. -/
theorem newest_of_run
    {past : List StreamCall} {ticks : Ticks} {t : String} {got : Option String}
    (h : Run streamSem anyStep (input.config cfg)
      (tr ++ [⟨.sender key, .authenticate t, got⟩]) d)
    (htick : callsOf (.sender key) tr = past ++ [⟨.select key ticks, .reauth⟩]) :
    Newest (input.consumer key).subject (input.consumer key).token t past := by
  obtain ⟨d', front, -, last⟩ := h.of_snoc
  have halong := front.along (i := .sender key) (along_program cfg input _)
  cases last with
  | thread hprog hsem =>
      rw [hprog] at halong
      rcases halong.1.2 with ⟨past', hcalls⟩ | ⟨past', hcalls, hnewest⟩
      · rw [htick] at hcalls
        cases (List.append_inj' hcalls rfl).2
      · rw [htick] at hcalls
        rw [(List.append_inj' hcalls rfl).1]
        exact hnewest

/-- Re-verification uses the newest accepted token of the admitted subject.  In every run
the reader is never blocked and its tokens are never refused; the loop receives tokens in
the order they were offered; once a token is offered it stays in the channel or is the
last one received, until the reader begins to replace it, and then the channel is empty.
On a re-auth tick the loop presents the token that was accepted last. -/
theorem reverifies_newest_token
    (cfg : Config)
    (input : StreamInput)
    (key : String)
    {tr : List StreamEvent}
    {d : StreamConfig}
    (h : Run streamSem anyStep (input.config cfg) tr d) :
    let sender := callsOf (.sender key) tr
    let reader := callsOf (.reader key) tr
    (∀ o next, d.progs (.reader key) = Prog.call o next → ∃ r t, streamSem o d.state r t) ∧
    (∀ t ok, ⟨.offer key t, ok⟩ ∈ reader → ok = true) ∧
    (sender.filterMap takenToken).Sublist (reader.filterMap offeredToken) ∧
    (∀ past t ok, reader = past ++ [⟨.offer key t, ok⟩] →
      d.state.refresh key = some t ∨ (sender.filterMap takenToken).getLast? = some t) ∧
    (∀ past got, reader = past ++ [⟨.drain key, got⟩] → d.state.refresh key = none) ∧
    ∀ tr₀ past ticks t got, tr = tr₀ ++ [⟨.sender key, .authenticate t, got⟩] →
      callsOf (.sender key) tr₀ = past ++ [⟨.select key ticks, .reauth⟩] →
      Newest (input.consumer key).subject (input.consumer key).token t past := by
  have hchannel := channel_of_run key h
  refine ⟨?_, hchannel.put, ?_, ?_, hchannel.drained, ?_⟩
  · intro o next hnext
    exact reader_enabled key h hnext
  · exact (List.sublist_append_left _ _).trans hchannel.order
  · intro past t ok hreader
    exact (hchannel.newest past t ok hreader).imp_right And.right
  · intro tr₀ past ticks t got htr htick
    subst htr
    exact newest_of_run h htick

/-- A consumer refreshes its token once. -/
def refreshInput : StreamInput where
  emitted _ := []
  consumer _ := ⟨.grpc, false, "sub-a", "first", 1, ["second"], [], 2⟩

def observeConfig : Config :=
  ⟨.observe, false, Time.unix 1606824023⟩

/-- The token is offered, taken and accepted, and a re-auth tick comes. -/
def refreshTrace : List StreamEvent :=
  [⟨.reader "c", .drain "c", none⟩,
   ⟨.reader "c", .offer "c" "second", true⟩,
   ⟨.sender "c", .select "c" (ticks observeConfig .grpc), .refresh "second"⟩,
   ⟨.sender "c", .authenticate "second", some "sub-a"⟩,
   ⟨.sender "c", .select "c" (ticks observeConfig .grpc), .reauth⟩]

theorem run_refreshTrace :
    ∃ d, Run streamSem anyStep (refreshInput.config observeConfig)
      (refreshTrace ++ [⟨.sender "c", .authenticate "second", none⟩]) d := by
  exact ⟨_, Run.next rfl ⟨rfl, rfl⟩ (Run.next rfl ⟨rfl, rfl⟩ (Run.next rfl ⟨rfl, rfl⟩
    (Run.next rfl rfl (Run.next rfl ⟨rfl, rfl⟩ (Run.next rfl rfl (Run.nil _))))))⟩

theorem reverifies_newest_token_refreshed :
    ∃ d, Run streamSem anyStep (refreshInput.config observeConfig)
        (refreshTrace ++ [⟨.sender "c", .authenticate "second", none⟩]) d ∧
      Newest "sub-a" "first" "second"
        [⟨.select "c" (ticks observeConfig .grpc), .refresh "second"⟩,
         ⟨.authenticate "second", some "sub-a"⟩] := by
  obtain ⟨d, hrun⟩ := run_refreshTrace
  obtain ⟨-, -, -, -, -, hnewest⟩ :=
    reverifies_newest_token observeConfig refreshInput "c" hrun
  exact ⟨d, hrun, hnewest refreshTrace _ _ _ _ rfl rfl⟩

end Channel

end Stream
end OptimumGateway
