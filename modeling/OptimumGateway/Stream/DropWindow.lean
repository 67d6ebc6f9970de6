import OptimumGateway.Stream.Lifecycle
import OptimumGateway.Stream.NoSilentGap

/-!
# The drops that no counter takes

`Service.Subscribe` of the hub registers the listener first and enters its drop counter in
the map afterwards.  An `Emit` in between offers its event to the listener, and when the
buffer is full it finds no counter.  Nobody reads the buffer in this window: the handler that
will read it is the one that is subscribing.

The account of a subscription (`Subscribed`) counts the events that were emitted since the
registration.  Each was taken by the send loop, is in the buffer, was counted as dropped, or
was missed, and the missed ones are those of the window that did not fit the buffer.
-/

namespace OptimumGateway
namespace Stream

open Foundation Foundation.Prog Protocol GossipsubGateway

section Counts

variable {n : Nat}

def isEmit : ServerEvent n → Bool
  | ⟨_, .stream (.emit _), _⟩ => true
  | _ => false

/-- The handler takes an event out of its buffer. -/
def isReceive (i : Fin n) : ServerEvent n → Bool
  | ⟨.handler j, .stream (.select _ _), .events (some _)⟩ => j = i
  | _ => false

/-- The handler enters its drop counter. -/
def isStore (i : Fin n) : ServerEvent n → Bool
  | ⟨.handler j, .storeCounter _, _⟩ => j = i
  | _ => false

/-- The handler takes its listener out of the hub. -/
def isUnregister (i : Fin n) : ServerEvent n → Bool
  | ⟨.handler j, .unregister _, _⟩ => j = i
  | _ => false

/-- The events until the drop counter is entered. -/
def window (i : Fin n) (rest : List (ServerEvent n)) : List (ServerEvent n) :=
  rest.takeWhile fun e => !isStore i e

variable {i : Fin n} {rest : List (ServerEvent n)} {e : ServerEvent n}

/-- The window is over once the counter is entered. -/
theorem window_of_stored
    (h : ∃ x ∈ rest, isStore i x = true) :
    window i (rest ++ [e]) = window i rest := by
  obtain ⟨x, hx, hstore⟩ := h
  rw [window, List.takeWhile_append, if_neg]
  · rfl
  · intro hall
    have hwhole : rest.takeWhile (fun e => !isStore i e) = rest :=
      (List.takeWhile_prefix _).eq_of_length hall
    have hnot := List.mem_takeWhile_imp (hwhole ▸ hx)
    rw [hstore] at hnot
    cases hnot

theorem window_eq_self
    (h : ∀ x ∈ rest, isStore i x = false) :
    window i rest = rest := by
  refine List.takeWhile_eq_self_iff.mpr ?_
  intro x hx
  rw [h x hx]
  rfl

/-- While the counter is not entered, the window grows with the trace. -/
theorem window_open
    (h : ∀ x ∈ rest, isStore i x = false) :
    window i (rest ++ [e]) = if isStore i e then rest else rest ++ [e] := by
  rw [window, List.takeWhile_append]
  have hself := window_eq_self h
  rw [window] at hself
  rw [hself, if_pos rfl]
  cases hstore : isStore i e <;> simp [hstore]

end Counts

section Account

variable {n : Nat} {srv : ServerConfig} {input : ServerInput n}
variable {i : Fin n} {rest : List (ServerEvent n)} {l : Listener} {e : ServerEvent n}

/-- The account of a listener, with the events since its registration. -/
structure Subscribed (srv : ServerConfig) (i : Fin n) (rest : List (ServerEvent n))
    (l : Listener) : Prop where
  registered : l.registered = true
  bufSize : l.bufSize = (Listener.new srv.bufferSize).bufSize
  room : l.events.length ≤ l.bufSize
  stored : l.counted = true ↔ ∃ x ∈ rest, isStore i x = true
  missed : l.missed = (window i rest).countP isEmit - l.bufSize
  total : rest.countP isEmit =
    rest.countP (isReceive i) + l.events.length + l.dropped.toNat + l.missed
  unread : l.counted = false → rest.countP (isReceive i) = 0 ∧ l.dropped = 0

theorem subscribed_new :
    Subscribed srv i [] (Listener.new srv.bufferSize) where
  registered := rfl
  bufSize := rfl
  room := Nat.zero_le _
  stored := by simp [Listener.new]
  missed := by simp [Listener.new, window]
  total := by simp [Listener.new]
  unread := by simp [Listener.new]

variable (h : Subscribed srv i rest l)
include h

theorem Subscribed.not_stored
    (hcounted : l.counted = false) :
    ∀ x ∈ rest, isStore i x = false := by
  intro x hx
  by_contra hstore
  have htrue := h.stored.mpr ⟨x, hx, by simpa using hstore⟩
  rw [hcounted] at htrue
  cases htrue

/-- The window grows as long as the counter is not entered. -/
theorem Subscribed.window_step
    (hstore : isStore i e = false) :
    (window i (rest ++ [e])).countP isEmit =
      (window i rest).countP isEmit + if l.counted then 0 else [e].countP isEmit := by
  cases hcounted : l.counted with
  | true => rw [window_of_stored (h.stored.mp hcounted), if_pos rfl, Nat.add_zero]
  | false =>
      have hnone := h.not_stored hcounted
      rw [window_open hnone, window_eq_self hnone, hstore]
      simp

theorem Subscribed.quiet
    (hemit : isEmit e = false)
    (hreceive : isReceive i e = false)
    (hstore : isStore i e = false) :
    Subscribed srv i (rest ++ [e]) l where
  registered := h.registered
  bufSize := h.bufSize
  room := h.room
  stored := by
    rw [h.stored]
    simp [hstore]
  missed := by
    simp only [h.window_step hstore, List.countP_singleton, hemit, Bool.false_eq_true,
      if_false, ite_self, Nat.add_zero]
    exact h.missed
  total := by
    simp only [List.countP_append, List.countP_singleton, hemit, hreceive]
    exact h.total
  unread := by
    simp only [List.countP_append, List.countP_singleton, hreceive]
    exact h.unread

theorem Subscribed.store
    (hcounted : l.counted = false)
    (hemit : isEmit e = false)
    (hreceive : isReceive i e = false)
    (hstore : isStore i e = true) :
    Subscribed srv i (rest ++ [e]) { l with counted := true } where
  registered := h.registered
  bufSize := h.bufSize
  room := h.room
  stored := by simp [hstore]
  missed := by
    have hnone := h.not_stored hcounted
    have hmissed := h.missed
    rw [window_eq_self hnone] at hmissed
    rw [window_open hnone, hstore]
    exact hmissed
  total := by
    simp only [List.countP_append, List.countP_singleton, hemit, hreceive]
    exact h.total
  unread := by simp

theorem Subscribed.receive
    {ev : BlockEvent} {events : List BlockEvent}
    (hcounted : l.counted = true)
    (hevents : l.events = ev :: events)
    (hemit : isEmit e = false)
    (hreceive : isReceive i e = true)
    (hstore : isStore i e = false) :
    Subscribed srv i (rest ++ [e]) { l with events := events } := by
  have hlength : l.events.length = events.length + 1 := by
    rw [hevents]
    rfl
  have hroom := h.room
  have htotal := h.total
  refine ⟨h.registered, h.bufSize, ?_, ?_, ?_, ?_, ?_⟩
  · change events.length ≤ l.bufSize
    omega
  · change l.counted = true ↔ _
    rw [h.stored]
    simp [hstore]
  · rw [window_of_stored (h.stored.mp hcounted)]
    exact h.missed
  · simp only [List.countP_append, List.countP_singleton, hemit, hreceive]
    simp only [Bool.false_eq_true, if_false, if_true]
    omega
  · intro hfalse
    rw [show l.counted = false from hfalse] at hcounted
    cases hcounted

/-- Before the counter is entered, every emit is in the window. -/
theorem Subscribed.window_count
    (hcounted : l.counted = false) :
    (window i rest).countP isEmit = l.events.length + l.missed := by
  obtain ⟨hunread, hdropped⟩ := h.unread hcounted
  have htotal := h.total
  rw [hdropped, UInt64.toNat_zero] at htotal
  rw [window_eq_self (h.not_stored hcounted)]
  omega

theorem Subscribed.emit
    (ev : BlockEvent)
    (hemit : isEmit e = true)
    (hreceive : isReceive i e = false)
    (hstore : isStore i e = false)
    (hbound : (rest ++ [e]).countP isEmit < 2 ^ 64) :
    Subscribed srv i (rest ++ [e]) (l.offer ev) := by
  have hroom := h.room
  have htotal := h.total
  have hmissed := h.missed
  have hemits : (rest ++ [e]).countP isEmit = rest.countP isEmit + 1 := by
    simp [hemit]
  have hreceives : (rest ++ [e]).countP (isReceive i) = rest.countP (isReceive i) := by
    simp [hreceive]
  have hstored : l.counted = true ↔ ∃ x ∈ rest ++ [e], isStore i x = true := by
    rw [h.stored]
    simp [hstore]
  have hunread : l.counted = false →
      (rest ++ [e]).countP (isReceive i) = 0 ∧ l.dropped = 0 := by
    rw [hreceives]
    exact h.unread
  have hwindow := h.window_step hstore
  rw [List.countP_singleton, if_pos hemit] at hwindow
  by_cases hfull : l.events.length < l.bufSize
  · have hoffer : l.offer ev = { l with events := l.events ++ [ev] } := by
      simp [Listener.offer, h.registered, hfull]
    rw [hoffer]
    refine ⟨h.registered, h.bufSize, ?_, hstored, ?_, ?_, hunread⟩
    · change (l.events ++ [ev]).length ≤ l.bufSize
      rw [List.length_append, List.length_singleton]
      omega
    · change l.missed = _ - l.bufSize
      cases hcounted : l.counted with
      | true =>
          rw [hwindow, hcounted]
          exact hmissed
      | false =>
          have hcount := h.window_count hcounted
          rw [hwindow, hcounted]
          simp only [Bool.false_eq_true, if_false]
          omega
    · rw [hemits, hreceives]
      change _ = _ + (l.events ++ [ev]).length + l.dropped.toNat + l.missed
      rw [List.length_append, List.length_singleton]
      omega
  · have hoffer : l.offer ev = if l.counted then { l with dropped := l.dropped + 1 }
        else { l with missed := l.missed + 1 } := by
      simp [Listener.offer, h.registered, hfull]
    rw [hoffer]
    by_cases hcounted : l.counted = true
    · rw [if_pos hcounted]
      rw [if_pos hcounted] at hwindow
      refine ⟨h.registered, h.bufSize, hroom, hstored, ?_, ?_, ?_⟩
      · rw [hwindow]
        exact hmissed
      · rw [hemits, hreceives]
        change _ = _ + l.events.length + (l.dropped + 1).toNat + l.missed
        rw [toNat_add_one_of_lt (by omega)]
        omega
      · intro hfalse
        rw [show l.counted = false from hfalse] at hcounted
        cases hcounted
    · have hcount := h.window_count (Bool.eq_false_iff.mpr hcounted)
      rw [if_neg hcounted]
      rw [if_neg hcounted] at hwindow
      refine ⟨h.registered, h.bufSize, hroom, hstored, ?_, ?_, hunread⟩
      · change l.missed + 1 = _ - l.bufSize
        omega
      · rw [hemits, hreceives]
        change _ = _ + l.events.length + l.dropped.toNat + (l.missed + 1)
        omega

end Account

section Steps

variable {n : Nat} {srv : ServerConfig} {input : ServerInput n}
variable {tr : List (ServerEvent n)} {s t : ServerState} {o : HandlerOp}

theorem isEmit_handler
    {j : Fin n} {r : o.Ans} {client : Client} {key : String} {bufSize : Int}
    {calls : List HandlerCall}
    (hallowed : Allowed client key bufSize calls o) :
    isEmit (⟨.handler j, o, r⟩ : ServerEvent n) = false := by
  cases o with
  | stream op =>
      cases op with
      | emit ev => exact hallowed.1.elim
      | _ => rfl
  | _ => rfl

theorem Subscribed.other
    {i j : Fin n} {r : o.Ans} {rest : List (ServerEvent n)}
    (h : Subscribed srv i rest (s.listeners (input.key i)))
    (hij : j ≠ i)
    (hallowed : Allowed (input.client j) (input.key j) srv.bufferSize
      (callsOf (.handler j) tr) o)
    (hsem : serverSem o s r t) :
    Subscribed srv i (rest ++ [⟨.handler j, o, r⟩]) (t.listeners (input.key i)) := by
  have hkey : input.key i ≠ input.key j := fun heq => hij (input.key_injective heq).symm
  rw [(handler_sem hallowed hsem).1, ServerState.modify_ne s _ hkey]
  refine h.quiet (isEmit_handler hallowed) ?_ ?_
  · cases o with
    | stream op =>
        cases op with
        | select k ticks =>
            cases r with
            | events ev =>
                cases ev with
                | none => rfl
                | some ev => exact decide_eq_false hij
            | _ => rfl
        | _ => rfl
    | _ => rfl
  · cases o with
    | storeCounter k => exact decide_eq_false hij
    | _ => rfl

/-- The step of the subscribed handler itself, as long as it stays registered. -/
theorem Subscribed.own
    {i : Fin n} {r : o.Ans} {rest : List (ServerEvent n)}
    (h : Subscribed srv i rest (s.listeners (input.key i)))
    (hbooks : Books srv input tr s)
    (hallowed : Allowed (input.client i) (input.key i) srv.bufferSize
      (callsOf (.handler i) tr) o)
    (hstays : isUnregister i (⟨.handler i, o, r⟩ : ServerEvent n) = false)
    (hsem : serverSem o s r t) :
    Subscribed srv i (rest ++ [⟨.handler i, o, r⟩]) (t.listeners (input.key i)) := by
  have hemit := isEmit_handler (j := i) (r := r) hallowed
  have hregistered : (view (callsOf (.handler i) tr)).registered = true := by
    rw [← h.registered]
    exact (hbooks.hub i).registered.symm
  have hcounted : (s.listeners (input.key i)).counted =
      (view (callsOf (.handler i) tr)).counted := (hbooks.hub i).counted
  rw [(handler_sem hallowed hsem).1, ServerState.modify_self]
  cases o with
  | register k b =>
      obtain ⟨-, -, c, hview⟩ := hallowed
      rw [hview] at hregistered
      cases hregistered
  | storeCounter k =>
      obtain ⟨-, c, hview⟩ := hallowed
      rw [hview] at hcounted
      exact h.store hcounted hemit rfl (decide_eq_true rfl)
  | unregister k => simp [isUnregister] at hstays
  | deleteCounter k =>
      obtain ⟨-, c, hview⟩ := hallowed
      rw [hview] at hregistered
      cases hregistered
  | stream op =>
      cases op with
      | select k ticks =>
          obtain ⟨hk, c, hview⟩ := hallowed
          obtain rfl : k = input.key i := hk
          rw [hview] at hcounted
          cases r with
          | events ev =>
              cases ev with
              | none => exact h.quiet hemit rfl rfl
              | some ev =>
                  obtain ⟨events, hevents, -⟩ := hsem
                  have hreceive := h.receive hcounted hevents hemit (decide_eq_true rfl) rfl
                  rwa [← show (ev :: events).tail = events from rfl, ← hevents] at hreceive
          | _ => exact h.quiet hemit rfl rfl
      | _ => exact h.quiet hemit rfl rfl
  | _ => exact h.quiet hemit rfl rfl

end Steps

section Runs

variable {n : Nat} {srv : ServerConfig} {input : ServerInput n}
variable {tr : List (ServerEvent n)} {d : ServerPool n}

/-- Every registration in a trace is accounted for as long as it lasts. -/
def WindowBooks (srv : ServerConfig) (input : ServerInput n) (tr : List (ServerEvent n))
    (s : ServerState) : Prop :=
  ∀ i b r a rest, tr = a ++ ⟨.handler i, .register (input.key i) b, r⟩ :: rest →
    (∀ e ∈ rest, isUnregister i e = false) → rest.countP isEmit < 2 ^ 64 →
    Subscribed srv i rest (s.listeners (input.key i))

theorem countP_isEmit_lt
    {rest : List (ServerEvent n)} {e : ServerEvent n} {k : Nat}
    (h : (rest ++ [e]).countP isEmit < k) :
    rest.countP isEmit < k := by
  rw [List.countP_append] at h
  exact (Nat.le_add_right _ _).trans_lt h

theorem windowBooks_of_run
    (hconns : 0 ≤ srv.maxConns)
    (hperSub : 0 ≤ srv.maxConnsPerSub)
    (hrun : Run serverSem anyStep (input.config srv) tr d) :
    Books srv input tr d.state ∧ WindowBooks srv input tr d.state := by
  refine hrun.memory_invariant
    (I := fun tr s => Books srv input tr s ∧ WindowBooks srv input tr s) along_server ?_ ?_
  · refine ⟨books_of_run hconns hperSub (Run.nil _), ?_⟩
    intro i b r a rest htr
    simp at htr
  · intro tr s thread o r t h hpromise hsem
    obtain ⟨hbooks, hwindows⟩ := h
    cases thread with
    | handler j =>
        refine ⟨hbooks.handler_step hpromise hsem, ?_⟩
        intro i b r' a rest htr hstays hbound
        rcases concat_eq_append_cons htr with ⟨-, hlast, hnil⟩ | ⟨rest', hrest, htr'⟩
        · cases hlast
          obtain ⟨-, hsize, -⟩ := hpromise
          rw [hnil, show t = _ from hsem, ServerState.modify_self, hsize]
          exact subscribed_new
        · subst hrest
          have hbefore := hwindows i b r' a rest' htr'
            (fun e he => hstays e (List.mem_append_left _ he)) (countP_isEmit_lt hbound)
          by_cases hij : j = i
          · subst hij
            exact hbefore.own hbooks hpromise (hstays _ (by simp)) hsem
          · exact hbefore.other hij hpromise hsem
    | emitter k =>
        obtain ⟨ev, rfl⟩ := hpromise
        refine ⟨hbooks.emitter_step hsem, ?_⟩
        intro i b r' a rest htr hstays hbound
        rcases concat_eq_append_cons htr with ⟨-, hlast, -⟩ | ⟨rest', hrest, htr'⟩
        · cases hlast
        · subst hrest
          have hbefore := hwindows i b r' a rest' htr'
            (fun e he => hstays e (List.mem_append_left _ he)) (countP_isEmit_lt hbound)
          rw [show t = _ from hsem]
          exact hbefore.emit ev rfl rfl rfl hbound

/-- Of the events that were emitted since a consumer was registered, each was taken by its
send loop, is in its buffer, was counted as dropped, or was missed.  The missed ones are the
events beyond the buffer's size that were emitted before the drop counter was entered.  The
drop counter has 64 bits: fewer than `2 ^ 64` events are emitted. -/
theorem missed_only_in_window
    (hconns : 0 ≤ srv.maxConns)
    (hperSub : 0 ≤ srv.maxConnsPerSub)
    (hrun : Run serverSem anyStep (input.config srv) tr d)
    {i : Fin n} {b : Int} {r : Unit} {a rest : List (ServerEvent n)}
    (htr : tr = a ++ ⟨.handler i, .register (input.key i) b, r⟩ :: rest)
    (hstays : ∀ e ∈ rest, isUnregister i e = false)
    (hbound : rest.countP isEmit < 2 ^ 64) :
    (d.state.listeners (input.key i)).missed =
        (window i rest).countP isEmit -
          (if srv.bufferSize ≤ 0 then defaultBufferSize else srv.bufferSize.toNat) ∧
      rest.countP isEmit =
        rest.countP (isReceive i) + (d.state.listeners (input.key i)).events.length +
          (d.state.listeners (input.key i)).dropped.toNat +
          (d.state.listeners (input.key i)).missed := by
  obtain ⟨-, hwindows⟩ := windowBooks_of_run hconns hperSub hrun
  have hsub := hwindows i b r a rest htr hstays hbound
  refine ⟨?_, hsub.total⟩
  rw [hsub.missed, hsub.bufSize]
  rfl

/-- Two events are emitted while the consumer, with room for one, is subscribing. -/
def missedInput : ServerInput 2 :=
  { sampleConsumers with emitted := fun _ => [sampleEvent 1, sampleEvent 2] }

/-- The consumer is registered, and enters its counter after the events. -/
def missedTrace : List (ServerEvent 2) :=
  sampleAdmission ++
    [⟨.emitter 0, .stream (.emit (sampleEvent 1)), ()⟩,
     ⟨.emitter 0, .stream (.emit (sampleEvent 2)), ()⟩] ++
    sampleServing.take 1

theorem run_missedTrace :
    ∃ d, Run serverSem anyStep (missedInput.config sampleServer) missedTrace d ∧
      (d.state.listeners "c").dropped = 0 := by
  refine ⟨_, Run.next rfl rfl (Run.next rfl rfl (Run.next rfl
      ⟨sampleStart, [0], isReading_sampleStart, by decide, rfl, rfl⟩
    (Run.next rfl rfl (Run.next rfl rfl (Run.next rfl rfl (Run.next rfl rfl (Run.nil _))))))), ?_⟩
  rfl

/-- The second event is lost, and the consumer is told of no drop. -/
theorem missed_only_in_window_two :
    ∃ d, Run serverSem anyStep (missedInput.config sampleServer) missedTrace d ∧
      (d.state.listeners "c").dropped = 0 ∧ (d.state.listeners "c").missed = 1 := by
  obtain ⟨d, hrun, hdropped⟩ := run_missedTrace
  have hregister : missedTrace = missedTrace.take 3 ++
      ⟨.handler 0, .register "c" 1, ()⟩ :: missedTrace.drop 4 := rfl
  obtain ⟨hmissed, -⟩ := missed_only_in_window
    (by decide) (by decide) hrun hregister
    (by simp [missedTrace, sampleAdmission, sampleServing, isUnregister]) (by decide)
  exact ⟨d, hrun, hdropped, hmissed⟩

end Runs

end Stream
end OptimumGateway
