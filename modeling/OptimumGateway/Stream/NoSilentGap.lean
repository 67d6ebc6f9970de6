import OptimumGateway.Stream.LoopOrder

/-!
# No silent gap

Every event that is emitted while a consumer is subscribed is sent to it, in hand,
buffered, or counted as dropped, and the consumer has been told of every drop that lies
before a block when it gets the block.

The account of a subscription (`Accounted`) relates its record of offers to the calls of
its send loop.  It is kept by every step of every goroutine.  A load of the drop counter
covers the drops before every event that was taken before it: the offer of that event is
in the record by then, and the counter counts the whole record.
-/

namespace OptimumGateway
namespace Stream

open Foundation Foundation.Prog Protocol GossipsubGateway

section Offers

/-- The events that found room. -/
def acceptedEvents (offers : List (BlockEvent × Bool)) : List BlockEvent :=
  (offers.filter Prod.snd).map Prod.fst

/-- The number of events that found none. -/
def droppedCount (offers : List (BlockEvent × Bool)) : Nat :=
  offers.countP fun x => !x.2

theorem acceptedEvents_append
    (l m : List (BlockEvent × Bool)) :
    acceptedEvents (l ++ m) = acceptedEvents l ++ acceptedEvents m := by
  simp [acceptedEvents]

theorem droppedCount_append
    (l m : List (BlockEvent × Bool)) :
    droppedCount (l ++ m) = droppedCount l + droppedCount m := by
  simp [droppedCount]

theorem acceptedEvents_sublist
    (offers : List (BlockEvent × Bool)) :
    (acceptedEvents offers).Sublist (offers.map Prod.fst) :=
  (List.filter_sublist).map _

theorem length_offers
    (offers : List (BlockEvent × Bool)) :
    offers.length = (acceptedEvents offers).length + droppedCount offers := by
  rw [List.length_eq_countP_add_countP (fun x => x.2), acceptedEvents, List.length_map,
    ← List.countP_eq_length_filter, droppedCount]
  congr 1
  exact List.countP_congr fun x _ => by simp

theorem exists_offer
    {offers : List (BlockEvent × Bool)} {a b : List BlockEvent} {ev : BlockEvent}
    (h : acceptedEvents offers = a ++ ev :: b) :
    ∃ pre post, offers = pre ++ (ev, true) :: post ∧ acceptedEvents pre = a := by
  unfold acceptedEvents at h
  obtain ⟨l, m, hfilter, hl, hm⟩ := List.map_eq_append_iff.mp h
  obtain ⟨x, m', rfl, hx, hm'⟩ := List.map_eq_cons_iff.mp hm
  obtain ⟨pre, rest, rfl, hpre, hrest⟩ := List.filter_eq_append_iff.mp hfilter
  obtain ⟨skip, post, rfl, hskip, htrue, hpost⟩ := List.filter_eq_cons_iff.mp hrest
  obtain ⟨ev', ok⟩ := x
  cases hx
  cases htrue
  refine ⟨pre ++ skip, post, by simp, ?_⟩
  have hnone : skip.filter Prod.snd = [] := List.filter_eq_nil_iff.mpr hskip
  rw [acceptedEvents, List.filter_append, hpre, hnone, List.append_nil, hl]

end Offers

section Effects

/-- What a call does to the subscription of a consumer. -/
inductive SubStep (key : String) (s : Subscription) : StreamCall → Subscription → Prop
  | offer (ev : BlockEvent) (r : Unit) : SubStep key s ⟨.emit ev, r⟩ (s.offer ev)
  | take
      {ev : BlockEvent} {rest : List BlockEvent} (ticks : Ticks)
      (hevents : s.events = ev :: rest) :
      SubStep key s ⟨.select key ticks, .events (some ev)⟩ { s with events := rest }
  | load : SubStep key s ⟨.dropped key, s.dropped⟩ s
  | close (r : Unit) : SubStep key s ⟨.close key, r⟩ { s with registered := false }
  | quiet
      {x : StreamCall}
      (hemit : ∀ ev, x.1 ≠ .emit ev)
      (htake : ∀ ticks ev, x ≠ ⟨.select key ticks, .events (some ev)⟩)
      (hload : x.1 ≠ .dropped key)
      (hclose : x.1 ≠ .close key) :
      SubStep key s x s

/-- A select leaves the subscriptions it takes nothing from. -/
theorem subs_of_select
    {key k : String} {ticks : Ticks} {r : LoopCase} {s t : StreamState}
    (h : selectSem k ticks s r t)
    (htake : ∀ ev, ¬ (k = key ∧ r = .events (some ev))) :
    t.subs key = s.subs key := by
  cases r with
  | events ev =>
      cases ev with
      | none => rw [h.2.2]
      | some ev =>
          obtain ⟨rest, -, rfl⟩ := h
          have hne : key ≠ k := fun heq => htake ev ⟨heq.symm, rfl⟩
          simp [StreamState.setSub, hne]
  | done => rw [show t = s from h]
  | refresh v => rw [h.2, StreamState.setRefresh]
  | reauth | heartbeat | ping => rw [h.2]

theorem subStep_of_sem
    (key : String)
    {o : StreamOp} {r : o.Ans} {s t : StreamState}
    (h : streamSem o s r t) :
    SubStep key (s.subs key) ⟨o, r⟩ (t.subs key) := by
  cases o with
  | emit ev =>
      cases h
      exact SubStep.offer ev r
  | select k ticks =>
      by_cases htake : ∃ ev, k = key ∧ r = .events (some ev)
      · obtain ⟨ev, rfl, rfl⟩ := htake
        obtain ⟨rest, hevents, rfl⟩ := h
        simpa [StreamState.setSub] using SubStep.take ticks hevents
      · rw [subs_of_select h (not_exists.mp htake)]
        refine SubStep.quiet (by simp) ?_ (by simp) (by simp)
        intro ticks' ev heq
        cases heq
        exact htake ⟨ev, rfl, rfl⟩
  | dropped k =>
      obtain ⟨rfl, rfl⟩ := h
      by_cases hk : k = key
      · subst hk
        exact SubStep.load
      · exact SubStep.quiet (by simp) (by simp) (by simpa using hk) (by simp)
  | close k =>
      cases h
      by_cases hk : k = key
      · subst hk
        simpa [StreamState.setSub] using SubStep.close (s := s.subs k) r
      · have hne : key ≠ k := fun heq => hk heq.symm
        simp only [StreamState.setSub, Function.update_of_ne hne]
        exact SubStep.quiet (by simp) (by simp) (by simp) (by simpa using hk)
  | send k frame | now | authenticate token =>
      cases h
      exact SubStep.quiet (by simp) (by simp) (by simp) (by simp)
  | drain k =>
      obtain ⟨-, rfl⟩ := h
      exact SubStep.quiet (by simp) (by simp) (by simp) (by simp)
  | offer k token =>
      have hsame : t.subs key = s.subs key := by
        simp only [streamSem] at h
        split at h
        · rw [h.2, StreamState.setRefresh]
        · rw [h.2]
      rw [hsame]
      exact SubStep.quiet (by simp) (by simp) (by simp) (by simp)

end Effects

section Account

/-- What a load of the drop counter covers: the earlier reports, and the drops before
every event that was taken before the load. -/
structure Covers (sub : Subscription) (past : List StreamCall) (d : UInt64) : Prop where
  counted : d ≤ sub.dropped
  reports : ∀ n ∈ past.filterMap sentLagged, n ≤ d
  taken : ∀ pre ev post, sub.offered = pre ++ (ev, true) :: post →
    (acceptedEvents pre).length < (past.filterMap receivedEvent).length →
    droppedCount pre ≤ d.toNat

/-- The account of a subscription after some calls of its send loop. -/
structure Account (key : String) (calls : List StreamCall) (sub : Subscription) : Prop where
  received : acceptedEvents sub.offered = calls.filterMap receivedEvent ++ sub.events
  dropped : sub.dropped.toNat = droppedCount sub.offered
  loads : ∀ past d rest, calls = past ++ ⟨.dropped key, d⟩ :: rest → Covers sub past d
  reported : ∀ n ∈ calls.filterMap sentLagged, n ≤ sub.dropped
  increasing : (calls.filterMap sentLagged).Pairwise (· < ·)

variable {key : String} {calls : List StreamCall} {sub : Subscription} {past : List StreamCall}
variable {x : StreamCall}

theorem account_start
    (key : String)
    (bufSize : Int) :
    Account key [] (newSubscription bufSize) where
  received := rfl
  dropped := rfl
  loads := by simp
  reported := by simp
  increasing := by simp

/-- The record grows by one offer, which is not before anything that was taken. -/
theorem Covers.grow
    {d : UInt64} {y : BlockEvent × Bool} {sub' : Subscription}
    (h : Covers sub past d)
    (hdropped : sub.dropped ≤ sub'.dropped)
    (hoffered : sub'.offered = sub.offered ++ [y])
    (htaken : (past.filterMap receivedEvent).length ≤ (acceptedEvents sub.offered).length) :
    Covers sub' past d where
  counted := UInt64.le_trans h.counted hdropped
  reports := h.reports
  taken := by
    intro pre ev post hsplit hbefore
    rw [hoffered] at hsplit
    rcases concat_eq_append_cons hsplit with ⟨rfl, -, -⟩ | ⟨post', -, hpost⟩
    · exact absurd hbefore (Nat.not_lt.mpr htaken)
    · exact h.taken pre ev post' hpost hbefore

variable (h : Account key calls sub)
include h

theorem Account.offer
    (ev : BlockEvent)
    (hbound : (sub.offer ev).offered.length < 2 ^ 64) :
    Account key calls (sub.offer ev) := by
  have htaken : ∀ past d rest, calls = past ++ ⟨.dropped key, d⟩ :: rest →
      (past.filterMap receivedEvent).length ≤ (acceptedEvents sub.offered).length := by
    intro past d rest hcalls
    rw [h.received, hcalls, List.filterMap_append, List.length_append, List.length_append]
    omega
  unfold Subscription.offer at hbound ⊢
  split
  · exact h
  · rename_i hopen
    split
    · refine ⟨?_, ?_, ?_, h.reported, h.increasing⟩
      · rw [acceptedEvents_append, h.received]
        simp [acceptedEvents]
      · rw [droppedCount_append, h.dropped]
        simp [droppedCount]
      · intro past d rest hcalls
        exact (h.loads past d rest hcalls).grow (UInt64.le_refl _) rfl
          (htaken past d rest hcalls)
    · rename_i hfull
      rw [if_neg hopen, if_neg hfull, List.length_append, List.length_singleton] at hbound
      have hcount : sub.dropped.toNat ≤ sub.offered.length := by
        rw [h.dropped]
        exact List.countP_le_length
      have hsucc := toNat_add_one_of_lt ((Nat.succ_le_succ hcount).trans_lt hbound)
      have hle : sub.dropped ≤ sub.dropped + 1 := by
        rw [UInt64.le_iff_toNat_le, hsucc]
        exact Nat.le_succ _
      refine ⟨?_, ?_, ?_, ?_, h.increasing⟩
      · rw [acceptedEvents_append, h.received]
        simp [acceptedEvents]
      · rw [droppedCount_append, hsucc, h.dropped]
        rfl
      · intro past d rest hcalls
        exact (h.loads past d rest hcalls).grow hle rfl (htaken past d rest hcalls)
      · intro n hn
        exact UInt64.le_trans (h.reported n hn) hle

theorem Account.quiet
    (hevent : receivedEvent x = none)
    (hload : x.1 ≠ .dropped key)
    (hlag : ∀ d, sentLagged x = some d →
      d ≤ sub.dropped ∧ ∀ n ∈ calls.filterMap sentLagged, n < d) :
    Account key (calls ++ [x]) sub := by
  refine ⟨?_, h.dropped, ?_, ?_, ?_⟩
  · rw [filterMap_concat_none calls hevent]
    exact h.received
  · intro past d rest hcalls
    rcases concat_eq_append_cons hcalls with ⟨-, rfl, -⟩ | ⟨rest', -, hrest⟩
    · exact absurd rfl hload
    · exact h.loads past d rest' hrest
  · intro n hn
    rw [List.filterMap_append, List.mem_append] at hn
    rcases hn with hn | hn
    · exact h.reported n hn
    · rw [List.mem_filterMap] at hn
      obtain ⟨y, hy, hn⟩ := hn
      rw [List.mem_singleton.mp hy] at hn
      exact (hlag n hn).1
  · rw [List.filterMap_append, List.pairwise_append]
    refine ⟨h.increasing, ?_, ?_⟩
    · cases hx : sentLagged x <;> simp [hx]
    · intro n hn m hm
      obtain ⟨y, hy, hm⟩ := List.mem_filterMap.mp hm
      rw [List.mem_singleton.mp hy] at hm
      exact (hlag m hm).2 n hn

theorem Account.take
    {ev : BlockEvent} {rest : List BlockEvent}
    (ticks : Ticks)
    (hevents : sub.events = ev :: rest) :
    Account key (calls ++ [⟨.select key ticks, .events (some ev)⟩])
      { sub with events := rest } := by
  refine ⟨?_, h.dropped, ?_, ?_, ?_⟩
  · simp [h.received, hevents, receivedEvent]
  · intro past d tail hcalls
    rcases concat_eq_append_cons hcalls with ⟨-, hx, -⟩ | ⟨tail', -, htail⟩
    · cases hx
    · obtain ⟨hcounted, hreports, htaken⟩ := h.loads past d tail' htail
      exact ⟨hcounted, hreports, htaken⟩
  · rw [filterMap_concat_none calls rfl]
    exact h.reported
  · rw [filterMap_concat_none calls rfl]
    exact h.increasing

theorem Account.load :
    Account key (calls ++ [⟨.dropped key, sub.dropped⟩]) sub := by
  refine ⟨?_, h.dropped, ?_, ?_, ?_⟩
  · rw [filterMap_concat_none calls rfl]
    exact h.received
  · intro past d tail hcalls
    rcases concat_eq_append_cons hcalls with ⟨rfl, hx, -⟩ | ⟨tail', -, htail⟩
    · cases hx
      refine ⟨UInt64.le_refl _, h.reported, ?_⟩
      intro pre ev post hsplit _
      rw [h.dropped, hsplit, droppedCount_append]
      exact Nat.le_add_right _ _
    · exact h.loads past d tail' htail
  · rw [filterMap_concat_none calls rfl]
    exact h.reported
  · rw [filterMap_concat_none calls rfl]
    exact h.increasing

theorem Account.close :
    Account key calls { sub with registered := false } where
  received := h.received
  dropped := h.dropped
  loads := by
    intro past d rest hcalls
    obtain ⟨hcounted, hreports, htaken⟩ := h.loads past d rest hcalls
    exact ⟨hcounted, hreports, htaken⟩
  reported := h.reported
  increasing := h.increasing

theorem Account.reports_le
    {rest : List StreamCall} {n : UInt64}
    (hcalls : calls = past ++ rest)
    (hn : n ∈ past.filterMap sentLagged) :
    n ≤ lagCount past ∧ lagCount past ∈ past.filterMap sentLagged := by
  have hincreasing := h.increasing
  rw [hcalls, List.filterMap_append, List.pairwise_append] at hincreasing
  unfold lagCount
  rcases List.eq_nil_or_concat (past.filterMap sentLagged) with hnil | ⟨l, m, hl⟩
  · rw [hnil] at hn
    exact absurd hn List.not_mem_nil
  · rw [List.concat_eq_append] at hl
    rw [hl] at hn hincreasing ⊢
    refine ⟨?_, by simp⟩
    rw [List.getLast?_concat, Option.getD_some]
    rcases List.mem_append.mp hn with hn | hn
    · exact UInt64.le_of_lt ((List.pairwise_append.mp hincreasing.1).2.2 n hn m (by simp))
    · exact UInt64.le_of_eq (List.mem_singleton.mp hn)

/-- A lag frame carries a count above all earlier reports. -/
theorem Account.reports_lt
    {d : UInt64}
    (hcalls : calls = past ++ [x] ++ [⟨.dropped key, d⟩])
    (hx : sentLagged x = none)
    (hne : d ≠ lagCount past) :
    d ≤ sub.dropped ∧ ∀ n ∈ calls.filterMap sentLagged, n < d := by
  have hcovers := h.loads (past ++ [x]) d [] hcalls
  have hreports : calls.filterMap sentLagged = past.filterMap sentLagged := by
    rw [hcalls, filterMap_concat_none _ rfl, filterMap_concat_none _ hx]
  refine ⟨hcovers.counted, ?_⟩
  intro n hn
  rw [hreports] at hn
  obtain ⟨hle, hmem⟩ := h.reports_le (by rw [hcalls, List.append_assoc]) hn
  have hlast := hcovers.reports (lagCount past) (by rwa [filterMap_concat_none _ hx])
  exact UInt64.lt_of_le_of_lt hle (UInt64.lt_of_le_of_ne hlast (Ne.symm hne))

omit h

theorem Account.own
    {cfg : Config} {c : Connection} {initial : String} {sub' : Subscription}
    (h : Account c.key calls sub)
    (hstep : SubStep c.key sub x sub')
    (hrequires : SenderRequires cfg c initial calls x.1) :
    Account c.key (calls ++ [x]) sub' := by
  cases hstep with
  | offer ev r => exact absurd hrequires.2 id
  | take ticks hevents => exact h.take ticks hevents
  | load => exact h.load
  | close r => exact (h.quiet rfl (by simp) (by simp [sentLagged])).close
  | quiet hemit htake hload hclose =>
      obtain ⟨o, r⟩ := x
      refine h.quiet ?_ hload ?_
      · cases hevent : receivedEvent ⟨o, r⟩ with
        | none => rfl
        | some ev =>
            cases o with
            | select k ticks =>
                cases hrequires.2.1
                cases r with
                | events got =>
                    cases got with
                    | none => cases hevent
                    | some ev' => exact absurd rfl (htake ticks ev')
                | done | refresh v | reauth | heartbeat | ping => cases hevent
            | _ => cases hevent
      · intro d hd
        cases o with
        | send k frame =>
            cases frame with
            | lagged d' =>
                cases r with
                | false => cases hd
                | true =>
                    cases hd
                    obtain ⟨past, ev, hcalls, hne⟩ := hrequires.2
                    exact h.reports_lt hcalls rfl hne
            | _ => cases hd
        | _ => cases hd

end Account

section Runs

/-- The event that a step emits. -/
def emittedEvent (e : StreamEvent) : Option BlockEvent :=
  match e.op with
  | .emit ev => some ev
  | _ => none

/-- The events emitted until the subscription is closed. -/
def emittedTo (key : String) (tr : List StreamEvent) : List BlockEvent :=
  (tr.takeWhile fun e => e.op ≠ .close key).filterMap emittedEvent

variable {key : String} {tr : List StreamEvent} {sub : Subscription} {sub' : Subscription}

theorem emittedTo_open
    (h : ∀ e ∈ tr, e.op ≠ .close key)
    (e : StreamEvent) :
    emittedTo key (tr ++ [e]) = emittedTo key tr ++ [e].filterMap emittedEvent := by
  have hall : ∀ e ∈ tr, (decide (e.op ≠ .close key)) = true := by
    simpa using h
  have htr : tr.takeWhile (fun e => decide (e.op ≠ .close key)) = tr :=
    List.takeWhile_eq_self_iff.mpr hall
  unfold emittedTo
  rw [List.takeWhile_append_of_pos hall, htr, List.filterMap_append]
  congr 1
  by_cases hclose : e.op = .close key
  · simp [hclose, emittedEvent]
  · simp [hclose]

theorem emittedTo_closed
    (h : ¬ ∀ e ∈ tr, e.op ≠ .close key)
    (e : StreamEvent) :
    emittedTo key (tr ++ [e]) = emittedTo key tr := by
  unfold emittedTo
  rw [List.takeWhile_append, if_neg]
  intro hlength
  have htr := (List.takeWhile_prefix _).eq_of_length hlength
  have hall := List.takeWhile_eq_self_iff.mp htr
  exact h (by simpa using hall)

/-- The record holds the offers made until the subscription is closed. -/
structure Registered (key : String) (tr : List StreamEvent) (sub : Subscription) : Prop where
  stillOpen : sub.registered = true ↔ ∀ e ∈ tr, e.op ≠ .close key
  offered : sub.offered.map Prod.fst = emittedTo key tr

theorem emittedTo_quiet
    {e : StreamEvent}
    (h : ∀ ev, e.op ≠ .emit ev) :
    emittedTo key (tr ++ [e]) = emittedTo key tr := by
  have hnone : emittedEvent e = none := by
    unfold emittedEvent
    split
    · rename_i ev hev
      exact absurd hev (h ev)
    · rfl
  by_cases hopen : ∀ e ∈ tr, e.op ≠ .close key
  · simp [emittedTo_open hopen, hnone]
  · exact emittedTo_closed hopen e

theorem Registered.step
    {i : StreamThread} {o : StreamOp} {r : o.Ans}
    (h : Registered key tr sub)
    (hstep : SubStep key sub ⟨o, r⟩ sub') :
    Registered key (tr ++ [⟨i, o, r⟩]) sub' := by
  -- A call that neither offers nor closes.
  have hkeep : (∀ ev, o ≠ .emit ev) → o ≠ .close key →
      Registered key (tr ++ [⟨i, o, r⟩]) sub := by
    intro hemit hclose
    refine ⟨?_, ?_⟩
    · rw [List.forall_mem_append, List.forall_mem_singleton, h.stillOpen]
      exact (and_iff_left hclose).symm
    · rw [emittedTo_quiet hemit]
      exact h.offered
  cases hstep with
  | offer ev r =>
      have hstill : sub.registered = true ↔
          ∀ e ∈ tr ++ [⟨i, .emit ev, r⟩], e.op ≠ .close key := by
        rw [List.forall_mem_append, List.forall_mem_singleton, h.stillOpen]
        simp
      unfold Subscription.offer
      split
      · rename_i hclosed
        refine ⟨hstill, ?_⟩
        rw [emittedTo_closed (by rw [← h.stillOpen]; simpa using hclosed)]
        exact h.offered
      · rename_i hopen
        have hemitted := emittedTo_open (h.stillOpen.mp (by simpa using hopen))
          ⟨i, .emit ev, r⟩
        split
        · refine ⟨hstill, ?_⟩
          rw [hemitted, List.map_append, h.offered]
          rfl
        · refine ⟨hstill, ?_⟩
          rw [hemitted, List.map_append, h.offered]
          rfl
  | take ticks hevents =>
      obtain ⟨hstill, hoffered⟩ := hkeep (by simp) (by simp)
      exact ⟨hstill, hoffered⟩
  | load => exact hkeep (by simp) (by simp)
  | close r =>
      refine ⟨by simp, ?_⟩
      rw [emittedTo_quiet (by simp)]
      exact h.offered
  | quiet hemit htake hload hclose => exact hkeep hemit hclose

variable {cfg : Config} {input : StreamInput} {d : StreamConfig}

theorem Account.other
    {i : StreamThread} {calls calls' : List StreamCall} {x : StreamCall}
    (h : Account key calls sub)
    (hstep : SubStep key sub x sub')
    (hbound : sub'.offered.length < 2 ^ 64)
    (hrequires : Requires cfg input i calls' x.1)
    (hi : i ≠ .sender key) :
    Account key calls sub' := by
  cases hstep with
  | offer ev r => exact h.offer ev hbound
  | take ticks hevents => exact absurd (hrequires.own (Or.inl ⟨ticks, rfl⟩)) hi
  | load => exact absurd (hrequires.own (Or.inr (Or.inl rfl))) hi
  | close r => exact absurd (hrequires.own (Or.inr (Or.inr rfl))) hi
  | quiet hemit htake hload hclose => exact h

theorem SubStep.offered_le
    {x : StreamCall}
    (h : SubStep key sub x sub') :
    sub.offered.length ≤ sub'.offered.length := by
  cases h with
  | offer ev r =>
      unfold Subscription.offer
      split
      · exact le_rfl
      · split <;> simp
  | _ => exact le_rfl

/-- A record that is short enough is accounted for. -/
theorem account_of_run
    (key : String)
    (h : Run streamSem anyStep (input.config cfg) tr d) :
    ((d.state.subs key).offered.length < 2 ^ 64 →
        Account key (callsOf (.sender key) tr) (d.state.subs key)) ∧
      Registered key tr (d.state.subs key) := by
  refine h.memory_invariant
    (I := fun tr s => ((s.subs key).offered.length < 2 ^ 64 →
        Account key (callsOf (.sender key) tr) (s.subs key)) ∧
      Registered key tr (s.subs key)) (along_program cfg input) ?_ ?_
  · exact ⟨fun _ => account_start key _, by simp [StreamInput.config, StreamInput.initial,
      newSubscription], rfl⟩
  · intro tr s i o r t hinv hrequires hsem
    obtain ⟨haccount, hregistered⟩ := hinv
    have hstep := subStep_of_sem key hsem
    refine ⟨fun hbound => ?_, hregistered.step hstep⟩
    replace haccount := haccount (hstep.offered_le.trans_lt hbound)
    rw [callsOf_append, callsOf_singleton]
    by_cases hi : i = .sender key
    · subst hi
      rw [if_pos rfl]
      exact Account.own (c := (input.consumer key).connection key) haccount hstep hrequires
    · rw [if_neg hi, List.append_nil]
      exact haccount.other hstep hbound hrequires hi

/-- At every moment a send loop has at most one event in hand. -/
theorem handBound_of_run
    (key : String)
    (h : Run streamSem anyStep (input.config cfg) tr d) :
    HandBound ((input.consumer key).connection key) (callsOf (.sender key) tr) :=
  (h.along (along_program cfg input (.sender key))).here
    (fun _ hrequires => hrequires.1) (fun _ hleaves => hleaves)

/-- What precedes a block frame. -/
theorem block_order_of_run
    {k : String} {f : BlockEvent} {ok : Bool}
    (h : Run streamSem anyStep (input.config cfg)
      (tr ++ [⟨.sender key, .send k (.block f), ok⟩]) d) :
    LoopOrder cfg ((input.consumer key).connection key) (input.consumer key).token
      (callsOf (.sender key) tr) (.send k (.block f)) := by
  obtain ⟨d', front, -, last⟩ := h.of_snoc
  have halong := front.along (i := .sender key) (along_program cfg input _)
  cases last with
  | thread hprog hsem =>
      rw [hprog] at halong
      exact halong.1.2

/-- A block frame carries the next accepted event, and covers the drops before it. -/
theorem block_frame_of_run
    {k : String} {f : BlockEvent} {ok : Bool}
    (h : Run streamSem anyStep (input.config cfg)
      (tr ++ [⟨.sender key, .send k (.block f), ok⟩]) d)
    (hbound : (d.state.subs key).offered.length < 2 ^ 64) :
    ∃ pre ev post, (d.state.subs key).offered = pre ++ (ev, true) :: post ∧
      f = (input.consumer key).transport.encode (input.consumer key).raw ev ∧
      (acceptedEvents pre).length =
        ((callsOf (.sender key) tr).filterMap sentBlock).length ∧
      droppedCount pre ≤ (lagCount (callsOf (.sender key) tr)).toNat := by
  obtain ⟨past, ev, count, lag, hcalls, hlag, ⟨done, htaken, hdone⟩, hf, hcount⟩ :=
    block_order_of_run h
  have haccount := (account_of_run key h).1 hbound
  have hlast : callsOf (.sender key) (tr ++ [⟨.sender key, .send k (.block f), ok⟩]) =
      callsOf (.sender key) tr ++ [⟨.send k (.block f), ok⟩] := by
    rw [callsOf_append, callsOf_singleton, if_pos rfl]
    rfl
  rw [hlast] at haccount
  have hnext : acceptedEvents (d.state.subs key).offered =
      done ++ ev :: (d.state.subs key).events := by
    rw [haccount.received, filterMap_concat_none _ rfl, htaken, List.append_assoc]
    rfl
  obtain ⟨pre, post, hoffered, hpre⟩ := exists_offer hnext
  refine ⟨pre, ev, post, hoffered, hf, ?_, ?_⟩
  · rw [hpre, hdone, List.length_map]
  · have hcovers := haccount.loads _ count (lag ++ [⟨.send k (.block f), ok⟩])
      (by rw [hcalls, List.append_assoc, List.append_assoc]; rfl)
    rw [hcount]
    refine hcovers.taken pre ev post hoffered ?_
    -- Neither the load nor the lag frame takes an event.
    have hbefore : (callsOf (.sender key) tr).filterMap receivedEvent =
        (past ++ [selected cfg ((input.consumer key).connection key)
          (.events (some ev))]).filterMap receivedEvent := by
      rcases hlag with rfl | rfl
      · rw [hcalls, List.append_nil, filterMap_concat_none _ rfl]
      · rw [hcalls, filterMap_concat_none _ rfl, filterMap_concat_none _ rfl]
    rw [← hbefore, htaken, hpre, List.length_append, List.length_singleton]
    exact Nat.lt_succ_self _

/-- The consumer is never left with a gap it was not told of.  At every moment of every
run, the events sent, in hand and buffered are the events emitted to the subscription in
order, up to the dropped ones, and all of them are accounted for.  The reported counts
increase.  When a block frame goes out, it is the next accepted event, and the drops
before it have been reported.  The counter of the drops has 64 bits: fewer than `2 ^ 64`
events are emitted. -/
theorem no_silent_gap
    (cfg : Config)
    (input : StreamInput)
    (key : String)
    {tr : List StreamEvent}
    {d : StreamConfig}
    (h : Run streamSem anyStep (input.config cfg) tr d)
    (hemitted : (emittedTo key tr).length < 2 ^ 64) :
    let consumer := input.consumer key
    let encode := consumer.transport.encode consumer.raw
    let sub := d.state.subs key
    let calls := callsOf (.sender key) tr
    (∃ sent hand, hand.length ≤ 1 ∧
      calls.filterMap sentBlock = sent.map encode ∧
      (sent ++ hand ++ sub.events).Sublist (emittedTo key tr) ∧
      (emittedTo key tr).length =
        sent.length + hand.length + sub.events.length + sub.dropped.toNat) ∧
    (calls.filterMap sentLagged).Pairwise (· < ·) ∧
    sub.offered.map Prod.fst = emittedTo key tr ∧
    ∀ tr₀ k f ok, tr = tr₀ ++ [⟨.sender key, .send k (.block f), ok⟩] →
      ∃ pre ev post, sub.offered = pre ++ (ev, true) :: post ∧ f = encode ev ∧
        (acceptedEvents pre).length =
          ((callsOf (.sender key) tr₀).filterMap sentBlock).length ∧
        droppedCount pre ≤ (lagCount (callsOf (.sender key) tr₀)).toNat := by
  obtain ⟨haccounted, hregistered⟩ := account_of_run key h
  have hbound : (d.state.subs key).offered.length < 2 ^ 64 := by
    rwa [← hregistered.offered, List.length_map] at hemitted
  have haccount := haccounted hbound
  obtain ⟨hand, hlength, sent, hreceived, hsent⟩ := handBound_of_run key h
  have haccepted := haccount.received
  rw [hreceived] at haccepted
  refine ⟨⟨sent, hand, hlength, hsent, ?_, ?_⟩, haccount.increasing, hregistered.offered, ?_⟩
  · rw [← haccepted, ← hregistered.offered]
    exact acceptedEvents_sublist _
  · rw [← hregistered.offered, List.length_map, length_offers, haccepted, haccount.dropped,
      List.length_append, List.length_append]
  · intro tr₀ k f ok htr
    subst htr
    exact block_frame_of_run h hbound

end Runs

section Overflow

def sampleEvent (slot : UInt64) : BlockEvent where
  slot := slot
  proposerIndex := 7
  parentRoot := []
  stateRoot := []
  blockSizeBytes := 0
  topic := "/eth2/6a95a1a9/beacon_block/ssz_snappy"
  source := .libP2P
  receivedAtMs := 0
  gatewayID := "gw"
  forkDigest := "6a95a1a9"
  stale := false
  raw := []

/-- Two events for a consumer with room for one. -/
def overflowInput : StreamInput where
  emitted i := if i = 0 then [sampleEvent 1, sampleEvent 2] else []
  consumer _ := ⟨.grpc, false, "sub-a", "eyJhbGciOiJFUzI1NiJ9.eyJzdWIiOiJhIn0.c2ln", 1, [], [], 1⟩

def sampleConfig : Config :=
  ⟨.off, false, Time.unix 1606824023⟩

/-- Both events are emitted before the consumer reads. -/
def overflowTrace : List StreamEvent :=
  [⟨.emitter 0, .emit (sampleEvent 1), ()⟩,
   ⟨.emitter 0, .emit (sampleEvent 2), ()⟩,
   ⟨.sender "c", .select "c" (ticks sampleConfig .grpc), .events (some (sampleEvent 1))⟩,
   ⟨.sender "c", .dropped "c", (1 : UInt64)⟩,
   ⟨.sender "c", .send "c" (.lagged 1), true⟩,
   ⟨.sender "c", .send "c" (.block (sampleEvent 1)), true⟩]

theorem run_overflowTrace :
    ∃ d, Run streamSem anyStep (overflowInput.config sampleConfig) overflowTrace d ∧
      (d.state.subs "c").dropped = 1 := by
  refine ⟨_, Run.next rfl rfl (Run.next rfl rfl (Run.next rfl ⟨[], rfl, rfl⟩
    (Run.next rfl ⟨rfl, rfl⟩ (Run.next rfl rfl (Run.next rfl rfl (Run.nil _)))))), ?_⟩
  rfl

theorem no_silent_gap_overflow :
    ∃ d, Run streamSem anyStep (overflowInput.config sampleConfig) overflowTrace d ∧
      (d.state.subs "c").dropped = 1 ∧
      (emittedTo "c" overflowTrace).length = 2 ∧
      ∃ sent hand : List BlockEvent, hand.length ≤ 1 ∧
        2 = sent.length + hand.length + (d.state.subs "c").events.length + 1 := by
  obtain ⟨d, hrun, hdropped⟩ := run_overflowTrace
  obtain ⟨⟨sent, hand, hhand, -, -, hcount⟩, -, -, -⟩ :=
    no_silent_gap sampleConfig overflowInput "c" hrun (by decide)
  rw [hdropped] at hcount
  exact ⟨d, hrun, hdropped, rfl, sent, hand, hhand, hcount⟩

end Overflow

end Stream
end OptimumGateway
