import OptimumGateway.Stream.SendLoop

/-!
# The order of the calls of a connection

The goroutines of a connection are described by what each of their operations requires of
the calls made before it (`SenderRequires`, `ReaderRequires`).

A block frame follows the event it encodes and a load of the drop counter, and the count
that was reported last is the one that was loaded.  A lag frame follows a load that
differs from the last report.  At most one event is received and not sent.  A token is
presented to the authenticator right after it was taken from the channel, or on a re-auth
tick, and then it is the one that was accepted last.  The reader drains the channel right
before it offers a token.
-/

namespace OptimumGateway
namespace Stream

open Foundation Foundation.Prog Protocol GossipsubGateway

section Views

/-- The event that a call takes out of the subscription. -/
def receivedEvent : StreamCall → Option BlockEvent
  | ⟨.select _ _, .events (some ev)⟩ => some ev
  | _ => none

/-- The block frame that a call sends. -/
def sentBlock : StreamCall → Option BlockEvent
  | ⟨.send _ (.block ev), true⟩ => some ev
  | _ => none

/-- The count of the lag frame that a call sends. -/
def sentLagged : StreamCall → Option UInt64
  | ⟨.send _ (.lagged d), true⟩ => some d
  | _ => none

/-- The count that was reported last. -/
def lagCount (calls : List StreamCall) : UInt64 :=
  (calls.filterMap sentLagged).getLast?.getD 0

/-- A token was taken and authenticated as the subject, and these calls followed. -/
def AcceptedIn (subject t : String) (calls rest : List StreamCall) : Prop :=
  ∃ past key ticks, calls =
    past ++ ⟨.select key ticks, .refresh t⟩ :: ⟨.authenticate t, some subject⟩ :: rest

/-- A token is the first one and none was accepted, or it was accepted and none after it. -/
def Newest (subject initial t : String) (calls : List StreamCall) : Prop :=
  (t = initial ∧ ∀ t' rest, ¬ AcceptedIn subject t' calls rest) ∨
    ∃ rest, AcceptedIn subject t calls rest ∧
      ∀ t' rest', ¬ AcceptedIn subject t' rest rest'

variable {x : StreamCall} {calls : List StreamCall} {subject t : String}

theorem filterMap_concat_none
    {β : Type} {f : StreamCall → Option β}
    (calls : List StreamCall)
    (h : f x = none) :
    (calls ++ [x]).filterMap f = calls.filterMap f := by
  simp [h]

theorem lagCount_of_quiet
    (h : sentLagged x = none) :
    lagCount (calls ++ [x]) = lagCount calls := by
  rw [lagCount, filterMap_concat_none calls h, lagCount]

theorem lagCount_sent
    (calls : List StreamCall)
    (key : String)
    (d : UInt64) :
    lagCount (calls ++ [⟨.send key (.lagged d), true⟩]) = d := by
  simp [lagCount, sentLagged]

/-- The last call completes an acceptance. -/
def Accepting (subject : String) (calls : List StreamCall) (x : StreamCall) : Prop :=
  ∃ t past key ticks, calls = past ++ [⟨.select key ticks, .refresh t⟩] ∧
    x = ⟨.authenticate t, some subject⟩

/-- An acceptance was there before, or the last call completes it. -/
theorem AcceptedIn.of_concat
    {rest : List StreamCall}
    (h : AcceptedIn subject t (calls ++ [x]) rest) :
    (∃ rest', rest = rest' ++ [x] ∧ AcceptedIn subject t calls rest') ∨
      Accepting subject calls x := by
  obtain ⟨past, key, ticks, hcalls⟩ := h
  have hsplit : calls ++ [x] = (past ++ [⟨.select key ticks, .refresh t⟩]) ++
      ⟨.authenticate t, some subject⟩ :: rest := by
    rw [hcalls, List.append_assoc]
    rfl
  rcases concat_eq_append_cons hsplit with ⟨hcalls, hx, -⟩ | ⟨rest', hrest, hcalls⟩
  · exact Or.inr ⟨t, past, key, ticks, hcalls, hx⟩
  · refine Or.inl ⟨rest', hrest, past, key, ticks, ?_⟩
    rw [hcalls, List.append_assoc]
    rfl

theorem not_acceptedIn_nil
    (subject t : String)
    (rest : List StreamCall) :
    ¬ AcceptedIn subject t [] rest := by
  rintro ⟨past, key, ticks, hcalls⟩
  simp at hcalls

theorem newest_initial
    (subject initial : String) :
    Newest subject initial initial [] :=
  Or.inl ⟨rfl, not_acceptedIn_nil subject⟩

theorem newest_accepted
    (subject initial key t : String)
    (ticks : Ticks)
    (calls : List StreamCall) :
    Newest subject initial t
      (calls ++ [⟨.select key ticks, .refresh t⟩] ++ [⟨.authenticate t, some subject⟩]) :=
  Or.inr ⟨[], ⟨calls, key, ticks, by simp⟩, not_acceptedIn_nil subject⟩

/-- A call that completes no acceptance changes nothing. -/
theorem Newest.skip
    {initial : String}
    (h : Newest subject initial t calls)
    (hx : ¬ Accepting subject calls x) :
    Newest subject initial t (calls ++ [x]) := by
  rcases h with ⟨rfl, hnone⟩ | ⟨rest, hrest, hnone⟩
  · refine Or.inl ⟨rfl, ?_⟩
    intro t' rest haccepted
    rcases haccepted.of_concat with ⟨rest', -, hbefore⟩ | hlast
    · exact hnone t' rest' hbefore
    · exact hx hlast
  · obtain ⟨past, key, ticks, rfl⟩ := hrest
    refine Or.inr ⟨rest ++ [x], ⟨past, key, ticks, by simp⟩, ?_⟩
    intro t' rest' haccepted
    rcases haccepted.of_concat with ⟨rest'', -, hbefore⟩ | ⟨t'', past', key', ticks', rfl, hlast⟩
    · exact hnone t' rest'' hbefore
    · refine hx ⟨t'', past ++ ⟨.select key ticks, .refresh t⟩ ::
        ⟨.authenticate t, some subject⟩ :: past', key', ticks', by simp, hlast⟩

/-- A call that presents no token. -/
theorem Newest.quiet
    {initial : String}
    (h : Newest subject initial t calls)
    (hx : ∀ t, x.1 ≠ .authenticate t) :
    Newest subject initial t (calls ++ [x]) := by
  refine h.skip ?_
  rintro ⟨t', -, -, -, -, rfl⟩
  exact hx t' rfl

end Views

section Hand

variable (c : Connection)

/-- The events that were received and are not sent. -/
def InHand (calls : List StreamCall) (hand : List BlockEvent) : Prop :=
  ∃ done, calls.filterMap receivedEvent = done ++ hand ∧
    calls.filterMap sentBlock = done.map (c.transport.encode c.raw)

variable {c}
variable {calls : List StreamCall} {hand : List BlockEvent}

theorem InHand.quiet
    (h : InHand c calls hand)
    {x : StreamCall}
    (hevent : receivedEvent x = none)
    (hblock : sentBlock x = none) :
    InHand c (calls ++ [x]) hand := by
  obtain ⟨done, hreceived, hsent⟩ := h
  refine ⟨done, ?_, ?_⟩
  · rw [filterMap_concat_none calls hevent, hreceived]
  · rw [filterMap_concat_none calls hblock, hsent]

theorem InHand.take
    (h : InHand c calls [])
    (key : String)
    (ticks : Ticks)
    (ev : BlockEvent) :
    InHand c (calls ++ [⟨.select key ticks, .events (some ev)⟩]) [ev] := by
  obtain ⟨done, hreceived, hsent⟩ := h
  refine ⟨done, ?_, ?_⟩
  · simp [receivedEvent, hreceived]
  · simp [sentBlock, hsent]

theorem InHand.send
    {ev : BlockEvent}
    (h : InHand c calls [ev])
    (key : String) :
    InHand c (calls ++ [⟨.send key (.block (c.transport.encode c.raw ev)), true⟩]) [] := by
  obtain ⟨done, hreceived, hsent⟩ := h
  refine ⟨done ++ [ev], ?_, ?_⟩
  · simp [receivedEvent, hreceived]
  · simp [sentBlock, hsent]

end Hand

section Sender

variable (cfg : Config) (c : Connection) (initial : String)

/-- The call that takes a case of the loop. -/
abbrev selected (got : LoopCase) : StreamCall :=
  ⟨.select c.key (ticks cfg c.transport), got⟩

/-- What an operation of the send loop requires of the calls before it, besides that at
most one event is in hand. -/
def LoopOrder (calls : List StreamCall) : StreamOp → Prop
  | .select key ts => key = c.key ∧ ts = ticks cfg c.transport
  | .send _ (.lagged d) =>
      ∃ past ev, calls = past ++ [selected cfg c (.events (some ev))] ++ [⟨.dropped c.key, d⟩] ∧
        d ≠ lagCount past
  | .send _ (.block f) =>
      ∃ past ev d lag,
        calls = past ++ [selected cfg c (.events (some ev))] ++ [⟨.dropped c.key, d⟩] ++ lag ∧
        (lag = [] ∨ lag = [⟨.send c.key (.lagged d), true⟩]) ∧
        InHand c calls [ev] ∧ f = c.transport.encode c.raw ev ∧ lagCount calls = d
  | .authenticate t =>
      (∃ past, calls = past ++ [selected cfg c (.refresh t)]) ∨
        ∃ past, calls = past ++ [selected cfg c .reauth] ∧
          Newest c.subject initial t past
  | .close key => key = c.key
  | .dropped key => key = c.key
  | .now => True
  | .send _ _ => True
  | .emit _ => False
  | .drain _ => False
  | .offer _ _ => False

/-- At most one event is in hand. -/
def HandBound (calls : List StreamCall) : Prop :=
  ∃ hand, hand.length ≤ 1 ∧ InHand c calls hand

def SenderRequires (calls : List StreamCall) (op : StreamOp) : Prop :=
  HandBound c calls ∧ LoopOrder cfg c initial calls op

/-- The variables of the loop at the beginning of a turn. -/
structure LoopInv (v : LoopVars) (calls : List StreamCall) : Prop where
  lastDropped : v.lastDropped = lagCount calls
  sent : InHand c calls []
  token : Newest c.subject initial v.token calls

/-- What a turn leaves behind. -/
def AfterTurn (calls : List StreamCall) : Option LoopVars → Prop
  | none => HandBound c calls
  | some v => LoopInv c initial v calls

variable {cfg c initial}
variable {v : LoopVars} {calls : List StreamCall}

theorem InHand.none
    (h : InHand c calls []) :
    HandBound c calls :=
  ⟨[], by simp, h⟩

theorem InHand.one
    {ev : BlockEvent}
    (h : InHand c calls [ev]) :
    HandBound c calls :=
  ⟨[ev], by simp, h⟩

variable (h : LoopInv c initial v calls)
include h

theorem LoopInv.quiet
    {x : StreamCall}
    (hevent : receivedEvent x = none)
    (hblock : sentBlock x = none)
    (hlag : sentLagged x = none)
    (htoken : ∀ t, x.1 ≠ .authenticate t) :
    LoopInv c initial v (calls ++ [x]) := by
  constructor
  · rw [lagCount_of_quiet hlag]
    exact h.lastDropped
  · exact h.sent.quiet hevent hblock
  · exact h.token.quiet htoken

omit h in
/-- Once the lag is reported the block goes out, and the loop goes on only if it did. -/
theorem along_sendBlock
    {ev : BlockEvent} {d : UInt64} {past lag : List StreamCall}
    (hcalls : calls =
      past ++ [selected cfg c (.events (some ev))] ++ [⟨.dropped c.key, d⟩] ++ lag)
    (hlag : lag = [] ∨ lag = [⟨.send c.key (.lagged d), true⟩])
    (hhand : InHand c calls [ev])
    (hcount : lagCount calls = d)
    (htoken : Newest c.subject initial v.token calls) :
    (do
      let sent ← stream (.send c.key (.block (c.transport.encode c.raw ev)))
      if !sent then
        pure none
      else
        let now ← stream .now
        pure (some { v with lastDropped := d, live := LivenessState.observe ev.slot now }) :
      StreamProg (Option LoopVars)).Along (SenderRequires cfg c initial)
        (AfterTurn c initial) calls := by
  refine ⟨⟨hhand.one, past, ev, d, lag, hcalls, hlag, hhand, rfl, hcount⟩, ?_⟩
  intro sent
  cases sent with
  | false => exact (hhand.quiet rfl rfl).one
  | true =>
      have hsent := hhand.send c.key
      refine ⟨⟨hsent.none, trivial⟩, ?_⟩
      intro now
      refine ⟨?_, hsent.quiet rfl rfl, ?_⟩
      · rw [lagCount_of_quiet rfl, lagCount_of_quiet rfl]
        exact hcount.symm
      · exact (htoken.quiet (by simp)).quiet (by simp)

theorem along_sendEvent
    (ev : BlockEvent) :
    (sendEvent c v ev).Along (SenderRequires cfg c initial) (AfterTurn c initial)
      (calls ++ [selected cfg c (.events (some ev))]) := by
  have hhand := h.sent.take c.key (ticks cfg c.transport) ev
  refine ⟨⟨hhand.one, rfl⟩, ?_⟩
  intro d
  have hloaded := hhand.quiet (x := ⟨.dropped c.key, d⟩) rfl rfl
  have hcount : lagCount (calls ++ [selected cfg c (.events (some ev))] ++
      [⟨.dropped c.key, d⟩]) = lagCount calls := by
    rw [lagCount_of_quiet rfl, lagCount_of_quiet rfl]
  have htoken : Newest c.subject initial v.token
      (calls ++ [selected cfg c (.events (some ev))] ++ [⟨.dropped c.key, d⟩]) :=
    (h.token.quiet (by simp)).quiet (by simp)
  by_cases hd : d ≠ v.lastDropped
  · have hlag : sendLag c.key v.lastDropped d = stream (.send c.key (.lagged d)) :=
      if_pos hd
    change ((sendLag c.key v.lastDropped d) >>= _).Along _ _ _
    rw [hlag]
    refine ⟨⟨hloaded.one, calls, ev, rfl, ?_⟩, ?_⟩
    · rw [← h.lastDropped]
      exact hd
    · intro lagSent
      cases lagSent with
      | false => exact (hloaded.quiet rfl rfl).one
      | true =>
          exact along_sendBlock rfl (Or.inr rfl) (hloaded.quiet rfl rfl)
            (lagCount_sent _ _ _) (htoken.quiet (by simp))
  · have hsame : d = v.lastDropped := not_ne_iff.mp hd
    have hlag : sendLag c.key v.lastDropped d = pure true := if_neg hd
    change ((sendLag c.key v.lastDropped d) >>= _).Along _ _ _
    rw [hlag]
    refine along_sendBlock (List.append_nil _).symm (Or.inl rfl) hloaded ?_ htoken
    rw [hcount, hsame]
    exact h.lastDropped.symm

theorem along_refresh
    (t : String) :
    (do
      let ok ← accept c.subject t
      pure (some (if ok then { v with token := t } else v)) :
      StreamProg (Option LoopVars)).Along (SenderRequires cfg c initial)
        (AfterTurn c initial) (calls ++ [selected cfg c (.refresh t)]) := by
  have hsent := h.sent.quiet (x := selected cfg c (.refresh t)) rfl rfl
  refine ⟨⟨hsent.none, Or.inl ⟨calls, rfl⟩⟩, ?_⟩
  intro got
  have hcount : v.lastDropped = lagCount (calls ++ [selected cfg c (.refresh t)] ++
      [⟨.authenticate t, got⟩]) := by
    rw [lagCount_of_quiet rfl, lagCount_of_quiet rfl]
    exact h.lastDropped
  by_cases hgot : got = some c.subject
  · refine ⟨?_, hsent.quiet rfl rfl, ?_⟩
    · simpa [hgot] using hcount
    · simp only [hgot, decide_true, if_true]
      exact newest_accepted _ _ _ _ _ _
  · refine ⟨?_, hsent.quiet rfl rfl, ?_⟩
    · simpa [hgot] using hcount
    · simp only [hgot, decide_false, Bool.false_eq_true, if_false]
      refine (h.token.quiet (by simp)).skip ?_
      rintro ⟨t', -, -, -, -, hx⟩
      cases hx
      exact hgot rfl

theorem along_reauthTick :
    (reauthTick cfg c v).Along (SenderRequires cfg c initial) (AfterTurn c initial)
      (calls ++ [selected cfg c .reauth]) := by
  have hsent := h.sent.quiet (x := selected cfg c .reauth) rfl rfl
  refine ⟨⟨hsent.none, Or.inr ⟨calls, rfl, h.token⟩⟩, ?_⟩
  intro got
  have hafter := hsent.quiet (x := ⟨.authenticate v.token, got⟩) rfl rfl
  have hgoOn : ∀ failing, LoopInv c initial { v with failing := failing }
      (calls ++ [selected cfg c .reauth] ++ [⟨.authenticate v.token, got⟩]) := by
    intro failing
    refine ⟨?_, hafter, ?_⟩
    · rw [lagCount_of_quiet rfl, lagCount_of_quiet rfl]
      exact h.lastDropped
    · refine (h.token.quiet (by simp)).skip ?_
      rintro ⟨t', past, key, ts, hcalls, -⟩
      cases (List.append_inj' hcalls rfl).2
  cases got with
  | some subject => exact hgoOn false
  | none =>
      by_cases hmode : cfg.reauthMode = .enforce
      · simp only [hmode, if_true, Prog.pure_eq]
        cases htransport : c.transport with
        | ws => exact ⟨⟨hafter.none, trivial⟩, fun _ => (hafter.quiet rfl rfl).none⟩
        | grpc => exact hafter.none
      · simp only [hmode, if_false, Prog.pure_eq]
        exact hgoOn true

theorem along_turn :
    (turn cfg c v).Along (SenderRequires cfg c initial) (AfterTurn c initial) calls := by
  refine ⟨⟨h.sent.none, rfl, rfl⟩, ?_⟩
  intro got
  cases got with
  | done => exact (h.sent.quiet rfl rfl).none
  | events ev =>
      cases ev with
      | none => exact (h.sent.quiet rfl rfl).none
      | some ev => exact along_sendEvent h ev
  | refresh t => exact along_refresh h t
  | reauth => exact along_reauthTick h
  | heartbeat =>
      have htick := h.quiet (x := selected cfg c .heartbeat) rfl rfl rfl (by simp)
      refine ⟨⟨htick.sent.none, trivial⟩, ?_⟩
      intro now
      have hnow := htick.quiet (x := ⟨.now, now⟩) rfl rfl rfl (by simp)
      refine ⟨⟨hnow.sent.none, trivial⟩, ?_⟩
      intro sent
      cases sent with
      | false => exact (hnow.sent.quiet rfl rfl).none
      | true => exact hnow.quiet rfl rfl rfl (by simp)
  | ping =>
      have htick := h.quiet (x := selected cfg c .ping) rfl rfl rfl (by simp)
      refine ⟨⟨htick.sent.none, trivial⟩, ?_⟩
      intro sent
      cases sent with
      | false => exact (htick.sent.quiet rfl rfl).none
      | true => exact htick.quiet rfl rfl rfl (by simp)

omit h in
theorem HandBound.quiet
    (h : HandBound c calls)
    {x : StreamCall}
    (hevent : receivedEvent x = none)
    (hblock : sentBlock x = none) :
    HandBound c (calls ++ [x]) := by
  obtain ⟨hand, hlength, hhand⟩ := h
  exact ⟨hand, hlength, hhand.quiet hevent hblock⟩

theorem along_loop
    {turns : Nat} :
    (loop cfg c turns v).Along (SenderRequires cfg c initial)
      (fun calls' _ => HandBound c calls') calls := by
  induction turns generalizing v calls with
  | zero => exact h.sent.none
  | succ turns ih =>
      refine Along.bind (along_turn h) ?_
      intro calls' next hnext
      cases next with
      | none => exact ⟨⟨hnext, rfl⟩, fun _ => HandBound.quiet hnext rfl rfl⟩
      | some v' => exact ih hnext

omit h

theorem loopInv_start
    (c : Connection)
    (initial : String) :
    LoopInv c initial (LoopVars.start initial) [] :=
  ⟨rfl, ⟨[], rfl, rfl⟩, newest_initial _ _⟩

end Sender

section Reader

/-- What an operation of the reader requires of the calls before it. -/
def ReaderRequires (key : String) (calls : List StreamCall) : StreamOp → Prop
  | .drain k => k = key
  | .offer k _ => k = key ∧ ∃ past got, calls = past ++ [⟨.drain key, got⟩]
  | _ => False

variable {key : String}

theorem along_offerLatest
    (key v : String)
    (calls : List StreamCall) :
    (offerLatest key v).Along (ReaderRequires key) (fun _ _ => True) calls :=
  ⟨rfl, fun got => ⟨⟨rfl, calls, got, rfl⟩, fun _ => trivial⟩⟩

theorem along_recvTokens
    (messages : List String)
    (calls : List StreamCall) :
    (recvTokens key messages).Along (ReaderRequires key) (fun _ _ => True) calls := by
  induction messages generalizing calls with
  | nil => exact trivial
  | cons t messages ih =>
      unfold recvTokens
      split
      · exact Along.bind (along_offerLatest key t calls) fun calls' _ _ => ih calls'
      · exact ih calls

theorem along_readPump
    (messages : List (Option String))
    (calls : List StreamCall) :
    (readPump key messages).Along (ReaderRequires key) (fun _ _ => True) calls := by
  induction messages generalizing calls with
  | nil => exact trivial
  | cons message messages ih =>
      cases message with
      | none => exact ih calls
      | some t =>
          unfold readPump
          split
          · exact ih calls
          · exact Along.bind (along_offerLatest key t calls) fun calls' _ _ => ih calls'

end Reader

section Threads

variable (cfg : Config) (input : StreamInput)

/-- What the operations of each goroutine require. -/
def Requires : StreamThread → List StreamCall → StreamOp → Prop
  | .emitter _ => fun _ op => ∃ ev, op = .emit ev
  | .sender key =>
      SenderRequires cfg ((input.consumer key).connection key) (input.consumer key).token
  | .reader key => ReaderRequires key

/-- What each goroutine leaves behind. -/
def Leaves : StreamThread → List StreamCall → Unit → Prop
  | .sender key => fun calls _ => HandBound ((input.consumer key).connection key) calls
  | _ => fun _ _ => True

theorem along_emitAll
    (events : List BlockEvent)
    (calls : List StreamCall) :
    (emitAll events).Along (fun _ op => ∃ ev, op = .emit ev) (fun _ _ => True) calls := by
  induction events generalizing calls with
  | nil => exact trivial
  | cons ev events ih => exact ⟨⟨ev, rfl⟩, fun _ => ih _⟩

theorem along_program
    (i : StreamThread) :
    (input.program cfg i).Along (Requires cfg input i) (Leaves input i) [] := by
  cases i with
  | emitter i => exact along_emitAll _ _
  | sender key =>
      rw [program_sender]
      exact along_loop (loopInv_start _ _)
  | reader key =>
      unfold StreamInput.program
      dsimp only
      split
      · exact along_readPump _ _
      · exact along_recvTokens _ _

variable {cfg input}
variable {key : String} {i : StreamThread} {calls : List StreamCall} {o : StreamOp}

/-- Only the send loop of a connection selects, loads the drop counter or unsubscribes. -/
theorem Requires.own
    (h : Requires cfg input i calls o)
    (ho : (∃ ticks, o = .select key ticks) ∨ o = .dropped key ∨ o = .close key) :
    i = .sender key := by
  cases i with
  | emitter i =>
      obtain ⟨ev, rfl⟩ := h
      simp at ho
  | sender k =>
      rcases ho with ⟨ticks, rfl⟩ | rfl | rfl
      · exact congrArg _ h.2.1.symm
      · exact congrArg _ h.2.symm
      · exact congrArg _ h.2.symm
  | reader k =>
      rcases ho with ⟨ticks, rfl⟩ | rfl | rfl <;> exact absurd h id

/-- Only the reader of a connection drains the channel and puts tokens into it. -/
theorem Requires.reader
    (h : Requires cfg input i calls o)
    (ho : o = .drain key ∨ ∃ t, o = .offer key t) :
    i = .reader key := by
  cases i with
  | emitter i =>
      obtain ⟨ev, rfl⟩ := h
      simp at ho
  | sender k =>
      rcases ho with rfl | ⟨t, rfl⟩ <;> exact absurd h.2 id
  | reader k =>
      rcases ho with rfl | ⟨t, rfl⟩
      · exact congrArg _ (Eq.symm h)
      · exact congrArg _ h.1.symm

end Threads

end Stream
end OptimumGateway
