import OptimumGateway.GossipsubGateway.NoEcho

/-!
# Observations streamed once per source

A block that arrives is looked up in the dedup cache of the stream under its source, slot,
proposer and state root, and is stored there and emitted if the key is missing.  The
lookup and the store are two operations, and two goroutines work on the cache.

What keeps them apart is that every key has one owner: the text of a key determines its
four components, and a goroutine looks up keys of its own source only.  The stages of an
emission (`Stage`) describe each goroutine: after a missed lookup it stores the key, reads
the digest in force and emits, and it emits in no other way.
-/

namespace OptimumGateway
namespace GossipsubGateway

open Foundation Foundation.Prog Protocol Aggregator

section Keys

theorem hexText_injective
    {b c : Bytes}
    (h : hexText b = hexText c) :
    b = c := by
  unfold hexText at h
  rw [String.ofList_inj] at h
  induction b generalizing c with
  | nil =>
      cases c with
      | nil => rfl
      | cons y c => simp at h
  | cons x b ih =>
      cases c with
      | nil => simp at h
      | cons y c =>
          simp only [List.flatMap_cons, List.cons_append, List.nil_append,
            List.cons.injEq] at h
          obtain ⟨hhigh, hlow, hrest⟩ := h
          have hx := x.toNat_lt
          have hy := y.toNat_lt
          have hxy : x.toNat = y.toNat := by
            have := hexDigit_inj hhigh
            have := hexDigit_inj hlow
            omega
          rw [UInt8.toNat_inj.mp hxy, ih hrest]

/-- The text of a key determines its four components. -/
theorem streamDedupKey_inj
    {source source' : Source} {header header' : BeaconBlockHeader} :
    streamDedupKey source header = streamDedupKey source' header'
      ↔
    source = source' ∧ header.slot = header'.slot ∧
      header.proposerIndex = header'.proposerIndex ∧ header.stateRoot = header'.stateRoot := by
  constructor
  · intro h
    have hlist := congrArg String.toList h
    simp only [streamDedupKey, String.toList_append, List.append_assoc] at hlist
    have hsource : ∀ source : Source, '|' ∉ source.text.toList := by
      intro source
      cases source <;> decide
    have hdigits : ∀ n : Nat, '|' ∉ (toString n).toList := by
      intro n hmem
      exact absurd (isDigit_of_mem_toString hmem) (by decide)
    obtain ⟨htext, hlist⟩ := append_sep_inj (hsource _) (hsource _) hlist
    obtain ⟨hslot, hlist⟩ := append_sep_inj (hdigits _) (hdigits _) hlist
    obtain ⟨hproposer, hroot⟩ := append_sep_inj (hdigits _) (hdigits _) hlist
    refine ⟨?_, ?_, ?_, ?_⟩
    · cases source <;> cases source' <;> first | rfl | exact absurd htext (by decide)
    · exact UInt64.toNat_inj.mp (toString_nat_inj hslot)
    · exact UInt64.toNat_inj.mp (toString_nat_inj hproposer)
    · exact hexText_injective (String.toList_inj.mp hroot)
  · intro h
    obtain ⟨rfl, hslot, hproposer, hroot⟩ := h
    rw [streamDedupKey, streamDedupKey, hslot, hproposer, hroot]

end Keys

section Stages

/-- The calls of an emission so far: nothing, a lookup that missed, the store, and the
digest read for the event. -/
inductive Stage where
  | idle
  | missed (key : String)
  | stored (key : String)
  | stamped (key digest : String)

def Stage.next : Stage → ProxyCall → Stage
  | _, ⟨.streamGet key, false⟩ => .missed key
  | .missed key, ⟨.streamPut key', _⟩ => if key' = key then .stored key else .idle
  | .stored key, ⟨.activeDigest, digest⟩ => .stamped key digest
  | _, _ => .idle

def stage (calls : List ProxyCall) : Stage :=
  calls.foldl Stage.next .idle

/-- The topic that an operation checks. -/
def ProxyOp.checkedTopic : ProxyOp → Option String
  | .topicSupported topic => some topic
  | _ => none

/-- The key under which an event is deduplicated. -/
def eventKey (ev : BlockEvent) : String :=
  streamDedupKey ev.source ⟨ev.slot, ev.proposerIndex, ev.parentRoot, ev.stateRoot, none⟩

/-- The topic of the message that a goroutine handles. -/
def topicInHand (calls : List ProxyCall) : Option String :=
  (calls.filterMap fun c => c.1.checkedTopic).getLast?

/-- What the stage requires of the next operation, for a goroutine that looks up the keys
of some sources. -/
def StageOrder
    (looksUp : Source → Prop)
    (calls : List ProxyCall)
    (op : ProxyOp) : Prop :=
  match stage calls with
  | .idle =>
      (∀ key, op ≠ .streamPut key) ∧ (∀ ev, op ≠ .streamEmit ev) ∧
        ∀ key, op = .streamGet key →
          ∃ source header, looksUp source ∧ key = streamDedupKey source header
  | .missed key => op = .streamPut key
  | .stored _ => op = .activeDigest
  | .stamped key digest =>
      ∃ ev, op = .streamEmit ev ∧ eventKey ev = key ∧ ev.forkDigest = digest ∧
        topicInHand calls = some ev.topic

/-- Operations that neither begin a message nor have a part in an emission, unless one
has begun. -/
def StreamQuiet : ProxyOp → Prop
  | .topicSupported _ | .streamGet _ | .streamPut _ | .streamEmit _ => False
  | _ => True

variable {looksUp : Source → Prop} {hand : Option String}
variable {calls : List ProxyCall} {op : ProxyOp} {α : Type}

theorem topicInHand_of_unchecked
    {x : ProxyCall}
    (h : x.1.checkedTopic = none) :
    topicInHand (calls ++ [x]) = topicInHand calls := by
  simp [topicInHand, h]

theorem topicInHand_of_checked
    (calls : List ProxyCall)
    (topic : String)
    (r : Bool) :
    topicInHand (calls ++ [⟨.topicSupported topic, r⟩]) = some topic := by
  simp [topicInHand, ProxyOp.checkedTopic]

theorem stage_append_singleton
    (calls : List ProxyCall)
    (x : ProxyCall) :
    stage (calls ++ [x]) = (stage calls).next x := by
  simp only [stage, List.foldl_append, List.foldl_cons, List.foldl_nil]

theorem stage_of_missed
    (before : List ProxyCall)
    (key : String) :
    stage (before ++ [⟨.streamGet key, false⟩]) = .missed key := by
  rw [stage_append_singleton]
  rfl

theorem stage_of_stored
    (before : List ProxyCall)
    (key : String) :
    stage (before ++ [⟨.streamGet key, false⟩, ⟨.streamPut key, ()⟩]) = .stored key := by
  rw [show before ++ [⟨.streamGet key, false⟩, ⟨.streamPut key, ()⟩] =
    before ++ [⟨.streamGet key, false⟩] ++ [⟨.streamPut key, ()⟩] by simp,
    stage_append_singleton, stage_of_missed]
  exact if_pos rfl

theorem stage_of_stamped
    (before : List ProxyCall)
    (key digest : String) :
    stage (before ++ [⟨.streamGet key, false⟩, ⟨.streamPut key, ()⟩,
      ⟨.activeDigest, digest⟩]) = .stamped key digest := by
  rw [show before ++ [⟨.streamGet key, false⟩, ⟨.streamPut key, ()⟩, ⟨.activeDigest, digest⟩] =
    before ++ [⟨.streamGet key, false⟩, ⟨.streamPut key, ()⟩] ++ [⟨.activeDigest, digest⟩] by
      simp,
    stage_append_singleton, stage_of_stored]
  rfl

theorem StreamQuiet.order
    (h : StreamQuiet op)
    (hidle : stage calls = .idle) :
    StageOrder looksUp calls op := by
  unfold StageOrder
  rw [hidle]
  refine ⟨?_, ?_, ?_⟩
  · intro key hop
    rw [hop] at h
    exact h
  · intro ev hop
    rw [hop] at h
    exact h
  · intro key hop
    rw [hop] at h
    exact absurd h id

theorem StreamQuiet.stage_eq
    (h : StreamQuiet op)
    (r : op.Ans)
    (hidle : stage calls = .idle) :
    stage (calls ++ [⟨op, r⟩]) = .idle := by
  rw [stage_append_singleton, hidle]
  cases op with
  | streamGet key => exact absurd h id
  | _ => rfl

theorem StreamQuiet.unchecked
    (h : StreamQuiet op) :
    op.checkedTopic = none := by
  cases op with
  | topicSupported topic => exact absurd h id
  | _ => rfl

variable (looksUp hand)

/-- A part of the handling of a message, between two emissions. -/
def Streams {α : Type} (p : ProxyProg α) : Prop :=
  ∀ calls, stage calls = .idle → topicInHand calls = hand →
    p.Along (StageOrder looksUp)
      (fun calls' _ => stage calls' = .idle ∧ topicInHand calls' = hand) calls

variable {looksUp hand}

theorem Streams.ret
    (a : α) :
    Streams looksUp hand (Prog.ret a) := by
  intro calls hidle htopic
  exact ⟨hidle, htopic⟩

theorem Streams.call
    {o : ProxyOp} {k : o.Ans → ProxyProg α}
    (ho : StreamQuiet o)
    (hk : ∀ r, Streams looksUp hand (k r)) :
    Streams looksUp hand (Prog.call o k) := by
  intro calls hidle htopic
  refine ⟨ho.order hidle, ?_⟩
  intro r
  exact hk r _ (ho.stage_eq r hidle) ((topicInHand_of_unchecked ho.unchecked).trans htopic)

theorem Streams.of_forall
    {p : ProxyProg α}
    (h : p.Forall StreamQuiet) :
    Streams looksUp hand p := by
  intro calls hidle htopic
  refine h.along_invariant (K := fun calls => stage calls = .idle ∧ topicInHand calls = hand)
    ⟨hidle, htopic⟩ (fun _ _ hbefore ho => ho.order hbefore.1) ?_
  intro calls' o r hbefore ho
  exact ⟨ho.stage_eq r hbefore.1,
    (topicInHand_of_unchecked ho.unchecked).trans hbefore.2⟩

theorem Streams.bind
    {β : Type} {p : ProxyProg α} {f : α → ProxyProg β}
    (hp : Streams looksUp hand p)
    (hf : ∀ a, Streams looksUp hand (f a)) :
    Streams looksUp hand (p >>= f) := by
  intro calls hidle htopic
  exact (hp calls hidle htopic).bind fun calls' a hafter => hf a calls' hafter.1 hafter.2

variable (looksUp)

/-- A program that begins and ends between two emissions. -/
def Observes (p : ProxyProg Unit) : Prop :=
  ∀ calls, stage calls = .idle →
    p.Along (StageOrder looksUp) (fun calls' _ => stage calls' = .idle) calls

variable {looksUp}

theorem Observes.of_streams
    {p : ProxyProg Unit}
    (h : ∀ hand, Streams looksUp hand p) :
    Observes looksUp p := by
  intro calls hidle
  exact (h (topicInHand calls) calls hidle rfl).mono fun _ _ hafter => hafter.1

/-- The handling of a message begins with a check of its topic. -/
theorem Observes.of_message
    {topic : String} {f : Bool → ProxyProg Unit}
    (h : ∀ supported, Streams looksUp (some topic) (f supported)) :
    Observes looksUp (proxy (.topicSupported topic) >>= f) := by
  intro calls hidle
  refine ⟨?_, ?_⟩
  · unfold StageOrder
    rw [hidle]
    simp
  · intro supported
    have hnext : stage (calls ++ [⟨.topicSupported topic, supported⟩]) = .idle := by
      rw [stage_append_singleton, hidle]
      rfl
    exact (h supported _ hnext (topicInHand_of_checked calls topic supported)).mono
      fun _ _ hafter => hafter.1

theorem Observes.forEach
    {β : Type} {body : β → ProxyProg Unit}
    (h : ∀ x, Observes looksUp (body x))
    (xs : List β) :
    Observes looksUp (GossipsubGateway.forEach body xs) := by
  induction xs with
  | nil =>
      intro calls hidle
      exact hidle
  | cons x xs ih =>
      intro calls hidle
      exact (h x calls hidle).bind fun calls' _ hidle' => ih calls' hidle'

end Stages

section Handlers

variable (s : ProxyService) {looksUp : Source → Prop} {hand : Option String} {source : Source}
variable {op : ProxyOp}

theorem streams_streamObservation
    (header : BeaconBlockHeader)
    (topic : String)
    (msg : Bytes)
    (recvAt : Int64)
    (hsource : looksUp source)
    (stale : Bool) :
    Streams looksUp (some topic)
      (streamObservation s header topic msg recvAt source stale) := by
  intro calls hidle htopic
  unfold streamObservation
  split
  · refine ⟨?_, ?_⟩
    · unfold StageOrder
      rw [hidle]
      refine ⟨by simp, by simp, ?_⟩
      intro key hkey
      cases hkey
      exact ⟨source, header, hsource, rfl⟩
    · intro dup
      cases dup with
      | true =>
          refine ⟨?_, (topicInHand_of_unchecked rfl).trans htopic⟩
          rw [stage_append_singleton, hidle]
          rfl
      | false =>
          refine ⟨?_, fun _ => ⟨?_, fun digest => ⟨?_, fun _ => ?_⟩⟩⟩
          · unfold StageOrder
            rw [stage_of_missed]
          · unfold StageOrder
            rw [List.append_assoc, List.singleton_append, stage_of_stored]
          · unfold StageOrder
            rw [List.append_assoc, List.append_assoc, List.singleton_append,
              List.singleton_append, stage_of_stamped]
            refine ⟨_, rfl, rfl, rfl, ?_⟩
            simpa [topicInHand, ProxyOp.checkedTopic] using htopic
          · refine ⟨?_, ?_⟩
            · rw [stage_append_singleton]
              rfl
            · simpa [topicInHand, ProxyOp.checkedTopic] using htopic
  · exact ⟨hidle, htopic⟩

theorem streams_processBeaconBlockArrival
    (topic : String)
    (msg : Bytes)
    (recvAt : Int64)
    (hsource : looksUp source)
    (originGatewayID upstreamPeerID : String) :
    Streams looksUp (some topic) (processBeaconBlockArrival s topic msg recvAt source
      originGatewayID upstreamPeerID) := by
  unfold processBeaconBlockArrival
  refine Streams.call trivial ?_
  intro _
  cases decodeBeaconBlockHeader s.lib.snappy msg with
  | error err => exact Streams.ret _
  | ok block =>
      refine Streams.call trivial fun _ => Streams.call trivial fun currentSlot => ?_
      exact (streams_streamObservation s block.header topic msg recvAt hsource _).bind
        fun _ => Streams.ret _

theorem StreamQuiet.of_dedups
    (h : Dedups op) :
    StreamQuiet op := by
  cases op <;> first | exact h.elim | trivial

theorem StreamQuiet.of_forwardsToMumP2P
    (h : ForwardsToMumP2P op) :
    StreamQuiet op := by
  cases op <;> first | exact h.elim | trivial

theorem StreamQuiet.of_forwardsToCL
    (h : ForwardsToCL op) :
    StreamQuiet op := by
  cases op <;> first | exact h.elim | trivial

theorem streams_dedup
    {p : ProxyProg Unit}
    (message : Bytes)
    (hp : p.Forall StreamQuiet) :
    Streams looksUp hand (do
      let duplicate ← isDuplicateMessage s message
      if duplicate then pure () else p) :=
  Streams.of_forall (forall_dedup s (fun _ => StreamQuiet.of_dedups) hp)

theorem observes_handleMessageFromCL
    (hsource : looksUp .libP2P)
    (msg : CLMessage) :
    Observes looksUp (handleMessageFromCL s msg) := by
  refine Observes.of_message ?_
  intro supported
  split
  · split
    · refine Streams.call (o := .unixMilli) trivial fun recvAt => ?_
      refine (streams_processBeaconBlockArrival s _ _ recvAt hsource _ _).bind fun arrival => ?_
      split
      · exact streams_dedup s _ ((forall_forwardCLBeaconBlock s msg arrival.1).mono
          fun _ => StreamQuiet.of_forwardsToMumP2P)
      · exact Streams.ret ()
    · split
      · refine streams_dedup s _ ⟨trivial, fun forward => ?_⟩
        cases forward with
        | true => exact ⟨trivial, fun _ => trivial⟩
        | false => exact trivial
      · exact Streams.ret ()
  · exact Streams.ret ()

theorem streams_processMumP2PMessage
    (hsource : looksUp .mumP2P)
    (msg : P2PMessage) :
    Streams looksUp (some msg.topic) (processMumP2PMessage s msg) := by
  have hskip : Streams looksUp (some msg.topic) (skipFromSelf s msg) := by
    unfold skipFromSelf
    split
    · exact Streams.call trivial Streams.ret
    · exact Streams.ret false
  have hmeasure : Streams looksUp (some msg.topic) (measureMumP2PArrival s msg) := by
    unfold measureMumP2PArrival
    split
    · refine Streams.call (o := .unixMilli) trivial fun recvAt => ?_
      exact streams_processBeaconBlockArrival s _ _ recvAt hsource _ _
    · exact Streams.ret _
  refine hskip.bind fun skip => ?_
  split
  · exact Streams.ret ()
  · refine hmeasure.bind fun arrival => ?_
    split
    · exact Streams.ret ()
    · exact streams_dedup s _ ((forall_dispatchMumP2PMessage s msg arrival.1).mono
        fun _ => StreamQuiet.of_forwardsToCL)

theorem observes_handleMessageFromMumP2PNode
    (hsource : looksUp .mumP2P)
    (msg : P2PMessage) :
    Observes looksUp (handleMessageFromMumP2PNode s msg) := by
  refine Observes.of_message fun supported => ?_
  split
  · exact streams_processMumP2PMessage s hsource msg
  · exact Streams.ret ()

theorem streams_emitAggregatedMessage
    (payload : Bytes) :
    Streams looksUp hand (emitAggregatedMessage s payload) := by
  unfold emitAggregatedMessage
  split
  · exact streams_dedup s payload ⟨trivial, fun _ => trivial⟩
  · exact Streams.ret ()

/-- The sources whose keys a goroutine looks up. -/
def ProxyParty.observes : ProxyParty → Source → Prop
  | .cl, source => source = .libP2P
  | .mumP2P, source => source = .mumP2P
  | _, _ => False

theorem observes_program
    (input : ProxyInput)
    (i : ProxyParty) :
    Observes i.observes (input.program s i) := by
  cases i with
  | cl =>
      refine Observes.forEach (fun msg => observes_handleMessageFromCL s ?_ msg) _
      rfl
  | mumP2P =>
      refine Observes.forEach (fun msg => observes_handleMessageFromMumP2PNode s ?_ msg) _
      rfl
  | aggregator =>
      refine Observes.forEach (fun payload => Observes.of_streams fun _ => ?_) _
      exact streams_emitAggregatedMessage s payload
  | caches =>
      refine Observes.forEach (fun e => Observes.of_streams fun _ => ?_) _
      cases e with
      | message hash | stream key => exact Streams.call trivial Streams.ret

/-- A source has one goroutine that looks up its keys. -/
theorem observes_unique
    {i j : ProxyParty}
    (hi : i.observes source)
    (hj : j.observes source) :
    i = j := by
  cases i <;> cases j <;> cases hi <;> first | rfl | cases hj

end Handlers

section Inversion

variable {st : Stage} {x : ProxyCall} {key : String}
variable {calls : List ProxyCall}

theorem Stage.next_missed
    (h : st.next x = .missed key) :
    x = ⟨.streamGet key, false⟩ := by
  unfold Stage.next at h
  split at h
  · cases h
    rfl
  · split at h <;> cases h
  · cases h
  · cases h

theorem Stage.next_stored
    (h : st.next x = .stored key) :
    st = .missed key ∧ x = ⟨.streamPut key, ()⟩ := by
  unfold Stage.next at h
  split at h
  · cases h
  · split at h
    · rename_i heq
      cases h
      rw [heq]
      exact ⟨rfl, rfl⟩
    · cases h
  · cases h
  · cases h

theorem Stage.next_stamped
    {digest : String}
    (h : st.next x = .stamped key digest) :
    st = .stored key ∧ x = ⟨.activeDigest, digest⟩ := by
  unfold Stage.next at h
  split at h
  · cases h
  · split at h <;> cases h
  · cases h
    exact ⟨rfl, rfl⟩
  · cases h

/-- A stage other than the first is reached by a last call. -/
theorem stage_eq_next
    (h : stage calls ≠ .idle) :
    ∃ past x, calls = past ++ [x] ∧ stage calls = (stage past).next x := by
  rcases List.eq_nil_or_concat calls with rfl | ⟨past, x, rfl⟩
  · exact absurd rfl h
  · refine ⟨past, x, List.concat_eq_append, ?_⟩
    rw [List.concat_eq_append, stage_append_singleton]

/-- An event is emitted in the last stage only. -/
theorem StageOrder.emit
    {looksUp : Source → Prop} {ev : BlockEvent}
    (h : StageOrder looksUp calls (.streamEmit ev)) :
    stage calls = .stamped (eventKey ev) ev.forkDigest ∧ topicInHand calls = some ev.topic := by
  unfold StageOrder at h
  cases hstage : stage calls with
  | idle =>
      rw [hstage] at h
      exact absurd rfl (h.2.1 ev)
  | missed k | stored k =>
      rw [hstage] at h
      cases h
  | stamped k digest =>
      rw [hstage] at h
      obtain ⟨ev', hop, hkey, hdigest, htopic⟩ := h
      cases hop
      rw [hkey, hdigest]
      exact ⟨rfl, htopic⟩

/-- The calls before an emission. -/
theorem stage_stamped
    {digest : String}
    (h : stage calls = .stamped key digest) :
    ∃ past, calls = past ++
      [⟨.streamGet key, false⟩, ⟨.streamPut key, ()⟩, ⟨.activeDigest, digest⟩] := by
  obtain ⟨past, x, rfl, hstage⟩ := stage_eq_next (by rw [h]; simp)
  obtain ⟨hstored, rfl⟩ := Stage.next_stamped (hstage.symm.trans h)
  obtain ⟨past, x, rfl, hstage⟩ := stage_eq_next (by rw [hstored]; simp)
  obtain ⟨hmissed, rfl⟩ := Stage.next_stored (hstage.symm.trans hstored)
  obtain ⟨past, x, rfl, hstage⟩ := stage_eq_next (by rw [hmissed]; simp)
  have hx := Stage.next_missed (hstage.symm.trans hmissed)
  refine ⟨past, ?_⟩
  rw [hx]
  simp

end Inversion

section Runs

variable {s : ProxyService} {input : ProxyInput} {st : ProxyState}
variable {G : ProxyConfig → ProxyEvent → Prop}
variable {tr : List ProxyEvent} {d : ProxyConfig} {before after : List ProxyCall}

variable (hrun : Run proxySem G (input.config s st) tr d)
include hrun

theorem stageOrder_of_run
    {i : ProxyParty}
    {o : ProxyOp} {r : o.Ans}
    (hcalls : callsOf i tr = before ++ ⟨o, r⟩ :: after) :
    StageOrder i.observes before o := by
  have hpath := hrun.path i
  rw [hcalls] at hpath
  exact hpath.along (h := []) (observes_program s input i [] rfl)

/-- A key is stored and has not been removed since. -/
def Lives (key : String) (tr : List ProxyEvent) : Prop :=
  ∃ a b i, tr = a ++ ⟨i, .streamPut key, ()⟩ :: b ∧ ∀ j, ⟨j, .streamExpire key, ()⟩ ∉ b

omit hrun in
theorem lives_append_singleton
    (key : String)
    (tr : List ProxyEvent)
    (e : ProxyEvent) :
    Lives key (tr ++ [e]) ↔
      e.op = .streamPut key ∨ Lives key tr ∧ e.op ≠ .streamExpire key := by
  obtain ⟨i, o, r⟩ := e
  constructor
  · intro h
    obtain ⟨a, b, j, hsplit, hstays⟩ := h
    rcases concat_eq_append_cons hsplit with ⟨-, he, -⟩ | ⟨b', rfl, htr⟩
    · exact Or.inl (congrArg Event.op he)
    · refine Or.inr ⟨⟨a, b', j, htr, fun k hk => hstays k (by simp [hk])⟩, ?_⟩
      intro hexpire
      cases hexpire
      exact hstays i (by simp)
  · intro h
    rcases h with hput | ⟨⟨a, b, j, rfl, hstays⟩, hexpire⟩
    · cases hput
      exact ⟨tr, [], i, rfl, by simp⟩
    · refine ⟨a, b ++ [⟨i, o, r⟩], j, by simp, ?_⟩
      intro k hk
      rcases List.mem_append.mp hk with hk | hk
      · exact hstays k hk
      · cases List.mem_singleton.mp hk
        exact hexpire rfl

omit hrun in
/-- What one operation does to a key of the cache. -/
theorem proxySem_stream
    {o : ProxyOp} {m t : ProxyState} {r : o.Ans}
    (h : proxySem o m r t)
    (key : String) :
    t.stream key = true ↔
      o = .streamPut key ∨ m.stream key = true ∧ o ≠ .streamExpire key := by
  cases o with
  | streamPut key' | streamExpire key' =>
      cases h
      by_cases heq : key' = key
      · simp [heq]
      · simp [heq, Function.update_of_ne (Ne.symm heq)]
  | streamGet key' | messageGet hash | rangeTopics topics =>
      obtain ⟨-, rfl⟩ := h
      simp
  | _ =>
      cases h
      simp

omit hrun in
/-- The cache holds the keys that live. -/
theorem stream_iff_lives
    (hfresh : ∀ key, st.stream key = false)
    (hrun : Run proxySem G (input.config s st) tr d)
    (key : String) :
    d.state.stream key = true ↔ Lives key tr := by
  induction hrun with
  | nil =>
      constructor
      · intro h
        exact absurd h (by simp [ProxyInput.config, hfresh])
      · rintro ⟨a, b, i, hsplit, -⟩
        simp at hsplit
  | snoc front guard last ih =>
      cases last with
      | thread hprog hsem => rw [proxySem_stream hsem, lives_append_singleton, ih]

variable {a b : List ProxyEvent} {i : ProxyParty} {key : String}

omit hrun in
/-- A lookup misses exactly when the key does not live. -/
theorem lookup_iff_lives
    {dup : Bool}
    (hfresh : ∀ key, st.stream key = false)
    (hrun : Run proxySem G (input.config s st) (a ++ ⟨i, .streamGet key, dup⟩ :: b) d) :
    dup = true ↔ Lives key a := by
  rw [← List.singleton_append, ← List.append_assoc] at hrun
  obtain ⟨d₁, hbefore, -⟩ := hrun.split
  obtain ⟨d₀, hfront, -, hstep⟩ := hbefore.of_snoc
  cases hstep with
  | thread hprog hsem =>
      rw [hsem.1]
      exact stream_iff_lives hfresh hfront key

/-- A goroutine looks up the keys of its sources. -/
theorem source_of_lookup
    {dup : Bool}
    (hcalls : callsOf i tr = before ++ ⟨.streamGet key, dup⟩ :: after) :
    ∃ source header, i.observes source ∧ key = streamDedupKey source header := by
  have horder := stageOrder_of_run hrun hcalls
  unfold StageOrder at horder
  cases hstage : stage before with
  | idle =>
      rw [hstage] at horder
      exact horder.2.2 key rfl
  | missed k | stored k =>
      rw [hstage] at horder
      cases horder
  | stamped k digest =>
      rw [hstage] at horder
      obtain ⟨ev, hop, -⟩ := horder
      cases hop

/-- After a missed lookup a goroutine stores the key. -/
theorem store_of_missed
    {x : ProxyCall}
    (hcalls : callsOf i tr = before ++ ⟨.streamGet key, false⟩ :: x :: after) :
    x = ⟨.streamPut key, ()⟩ := by
  obtain ⟨o, r⟩ := x
  have hsplit : callsOf i tr = (before ++ [⟨.streamGet key, false⟩]) ++ ⟨o, r⟩ :: after := by
    simp [hcalls]
  have horder := stageOrder_of_run hrun hsplit
  unfold StageOrder at horder
  rw [stage_append_singleton] at horder
  cases horder
  rfl

theorem digest_of_stored
    {y : ProxyCall}
    (hcalls : callsOf i tr = before ++
      ⟨.streamGet key, false⟩ :: ⟨.streamPut key, ()⟩ :: y :: after) :
    ∃ digest, y = ⟨.activeDigest, digest⟩ := by
  obtain ⟨o, r⟩ := y
  have hsplit : callsOf i tr =
      (before ++ [⟨.streamGet key, false⟩, ⟨.streamPut key, ()⟩]) ++ ⟨o, r⟩ :: after := by
    simp [hcalls]
  have horder := stageOrder_of_run hrun hsplit
  unfold StageOrder at horder
  rw [stage_of_stored] at horder
  cases horder
  exact ⟨r, rfl⟩

/-- A goroutine that goes on after a missed lookup emits an event with the key. -/
theorem emit_of_missed
    {x y z : ProxyCall}
    (hcalls : callsOf i tr = before ++ ⟨.streamGet key, false⟩ :: x :: y :: z :: after) :
    x = ⟨.streamPut key, ()⟩ ∧ ∃ digest ev, y = ⟨.activeDigest, digest⟩ ∧
      z = ⟨.streamEmit ev, ()⟩ ∧ eventKey ev = key ∧ ev.forkDigest = digest := by
  obtain rfl := store_of_missed hrun hcalls
  obtain ⟨digest, rfl⟩ := digest_of_stored hrun hcalls
  obtain ⟨o, r⟩ := z
  have hsplit : callsOf i tr =
      (before ++ [⟨.streamGet key, false⟩, ⟨.streamPut key, ()⟩, ⟨.activeDigest, digest⟩]) ++
        ⟨o, r⟩ :: after := by
    simp [hcalls]
  have horder := stageOrder_of_run hrun hsplit
  unfold StageOrder at horder
  rw [stage_of_stamped] at horder
  obtain ⟨ev, rfl, hkey, hdigest, -⟩ := horder
  exact ⟨rfl, digest, ev, rfl, rfl, hkey, hdigest⟩

/-- Every emission ends a missed lookup of its own key. -/
theorem missed_of_emit
    {ev : BlockEvent}
    (hcalls : callsOf i tr = before ++ ⟨.streamEmit ev, ()⟩ :: after) :
    ∃ past, before = past ++ [⟨.streamGet (eventKey ev), false⟩,
      ⟨.streamPut (eventKey ev), ()⟩, ⟨.activeDigest, ev.forkDigest⟩] :=
  stage_stamped (stageOrder_of_run hrun hcalls).emit.1

/-- A key is stored only after it was looked up. -/
theorem lookup_of_store
    (h : ⟨i, .streamPut key, ()⟩ ∈ tr) :
    ⟨i, .streamGet key, false⟩ ∈ tr := by
  obtain ⟨before, after, hcalls⟩ := List.append_of_mem (call_mem_callsOf h)
  have horder := stageOrder_of_run hrun hcalls
  unfold StageOrder at horder
  cases hstage : stage before with
  | idle =>
      rw [hstage] at horder
      exact absurd rfl (horder.1 key)
  | missed k =>
      rw [hstage] at horder
      cases horder
      obtain ⟨past, x, hbefore, hnext⟩ := stage_eq_next (by rw [hstage]; simp)
      have hx := Stage.next_missed (hnext.symm.trans hstage)
      refine mem_of_mem_callsOf ?_
      rw [show callsOf i tr = _ from hcalls, hbefore, hx]
      simp
  | stored k =>
      rw [hstage] at horder
      cases horder
  | stamped k digest =>
      rw [hstage] at horder
      obtain ⟨ev, hop, -⟩ := horder
      cases hop

omit hrun

/-- Two missed lookups of a key belong to one goroutine, which has stored the key between
them; so the key was removed in between. -/
theorem expired_between_lookups
    {m : List ProxyEvent} {j : ProxyParty}
    (hfresh : ∀ key, st.stream key = false)
    (hrun : Run proxySem G (input.config s st)
      (a ++ ⟨i, .streamGet key, false⟩ :: (m ++ ⟨j, .streamGet key, false⟩ :: b)) d) :
    ∃ k, ⟨k, .streamExpire key, ()⟩ ∈ m := by
  have hregroup : a ++ ⟨i, .streamGet key, false⟩ :: (m ++ ⟨j, .streamGet key, false⟩ :: b) =
      (a ++ ⟨i, .streamGet key, false⟩ :: m) ++ ⟨j, .streamGet key, false⟩ :: b := by
    simp
  -- both goroutines look up keys of the source in the key, so they are one
  obtain ⟨source, header, hi, hkey⟩ := source_of_lookup (i := i) hrun
    (by rw [callsOf_append, callsOf_cons_self])
  obtain ⟨source', header', hj, hkey'⟩ := source_of_lookup (i := j) hrun
    (by rw [hregroup, callsOf_append, callsOf_cons_self])
  obtain ⟨rfl, -⟩ := streamDedupKey_inj.mp (hkey.symm.trans hkey')
  obtain rfl := observes_unique hi hj
  have hcalls : callsOf i (a ++ ⟨i, .streamGet key, false⟩ ::
      (m ++ ⟨i, .streamGet key, false⟩ :: b)) =
        callsOf i a ++ ⟨.streamGet key, false⟩ ::
          (callsOf i m ++ ⟨.streamGet key, false⟩ :: callsOf i b) := by
    rw [callsOf_append, callsOf_cons_self, callsOf_append, callsOf_cons_self]
  -- its next call after the first lookup stores the key
  have hput : ⟨i, .streamPut key, ()⟩ ∈ m := by
    refine mem_of_mem_callsOf ?_
    cases hm : callsOf i m with
    | nil =>
        rw [hm, List.nil_append] at hcalls
        cases store_of_missed hrun hcalls
    | cons x rest =>
        rw [hm, List.cons_append] at hcalls
        rw [store_of_missed hrun hcalls]
        exact List.mem_cons_self
  obtain ⟨m₁, m₂, rfl⟩ := List.append_of_mem hput
  rw [hregroup] at hrun
  by_contra hnone
  have hlives : Lives key (a ++ ⟨i, .streamGet key, false⟩ ::
      (m₁ ++ ⟨i, .streamPut key, ()⟩ :: m₂)) :=
    ⟨a ++ ⟨i, .streamGet key, false⟩ :: m₁, m₂, i, by simp,
      fun k hk => hnone ⟨k, by simp [hk]⟩⟩
  exact absurd ((lookup_iff_lives hfresh hrun).mpr hlives) (by simp)

end Runs

section Main

variable {s : ProxyService}

/-- The calls of an arrival: it is measured and looked up, and emitted if it is new. -/
def arrivalCalls
    (s : ProxyService)
    (topic : String)
    (msg : Bytes)
    (recvAt : Int64)
    (source : Source)
    (originGatewayID upstreamPeerID : String)
    (header : BeaconBlockHeader)
    (currentSlot : UInt64)
    (dup : Bool)
    (digest : String) : List ProxyCall :=
  [⟨.lastBlockStore recvAt, ()⟩,
    ⟨.handleBeaconBlock ⟨source, header.slot, header.proposerIndex, msg.length, recvAt,
      originGatewayID, upstreamPeerID⟩, ()⟩,
    ⟨.currentSlot, currentSlot⟩,
    ⟨.streamGet (streamDedupKey source header), dup⟩] ++
  if dup then []
  else
    [⟨.streamPut (streamDedupKey source header), ()⟩,
      ⟨.activeDigest, digest⟩,
      ⟨.streamEmit ⟨header.slot, header.proposerIndex, header.parentRoot, header.stateRoot,
        msg.length, topic, source, recvAt, s.gatewayID, digest,
        decide (diffUint64 header.slot currentSlot > staleSlotThreshold), msg⟩, ()⟩]

theorem path_arrival
    (hhub : s.hasStreamHub = true)
    {topic : String} {msg : Bytes} {recvAt : Int64} {source : Source}
    {originGatewayID upstreamPeerID : String} {block : SignedBeaconBlockHeader}
    {l : List ProxyCall} {out : UInt64 × Bool}
    (hdecode : decodeBeaconBlockHeader s.lib.snappy msg = .ok block)
    (hpath : Path (processBeaconBlockArrival s topic msg recvAt source originGatewayID
      upstreamPeerID) l (.ret out)) :
    ∃ currentSlot dup digest, l = arrivalCalls s topic msg recvAt source originGatewayID
      upstreamPeerID block.header currentSlot dup digest := by
  unfold processBeaconBlockArrival at hpath
  simp only [hdecode, streamObservation, hhub, if_true, op_bind, path_call_ret_iff] at hpath
  obtain ⟨_, l₁, rfl, _, l₂, rfl, currentSlot, l₃, rfl, hpath⟩ := hpath
  rw [call_bind, path_call_ret_iff] at hpath
  obtain ⟨dup, l₄, rfl, hpath⟩ := hpath
  cases dup with
  | true =>
      obtain ⟨rfl, -⟩ := path_ret_iff.mp hpath
      exact ⟨currentSlot, true, "", rfl⟩
  | false =>
      simp only [Bool.false_eq_true, if_false, call_bind, op_bind, path_call_ret_iff] at hpath
      obtain ⟨_, l₅, rfl, digest, l₆, rfl, _, l₇, rfl, hpath⟩ := hpath
      obtain ⟨rfl, -⟩ := path_ret_iff.mp hpath
      exact ⟨currentSlot, false, digest, rfl⟩

/-- A block that is decoded is measured, after some first calls. -/
def Measured
    (s : ProxyService)
    (topic : String)
    (msg : Bytes)
    (source : Source)
    (originGatewayID upstreamPeerID : String)
    (first part : List ProxyCall) : Prop :=
  ∀ block, decodeBeaconBlockHeader s.lib.snappy msg = .ok block →
    ∃ recvAt currentSlot dup digest rest,
      part = first ++ ⟨.unixMilli, recvAt⟩ :: (arrivalCalls s topic msg recvAt source
        originGatewayID upstreamPeerID block.header currentSlot dup digest ++ rest)

/-- The calls of the CL handler for a block. -/
def CLPart (s : ProxyService) (msg : CLMessage) (part : List ProxyCall) : Prop :=
  (parseTopicMeta msg.topic).isBeaconBlock = true →
    part = [⟨.topicSupported msg.topic, false⟩] ∨
      Measured s msg.topic msg.message .libP2P "" msg.receivedFrom
        [⟨.topicSupported msg.topic, true⟩] part

/-- The calls of the mump2p handler for a block.  One from this node may be skipped. -/
def MumP2PPart (s : ProxyService) (msg : P2PMessage) (part : List ProxyCall) : Prop :=
  (parseTopicMeta msg.topic).isBeaconBlock = true →
    part = [⟨.topicSupported msg.topic, false⟩] ∨
      (messageFromSelf s msg = true ∧
        part = [⟨.topicSupported msg.topic, true⟩, ⟨.skipMessagesFromSelf, true⟩]) ∨
      Measured s msg.topic msg.message .mumP2P msg.sourceNodeID msg.upstreamPeerID
        (⟨.topicSupported msg.topic, true⟩ ::
          if messageFromSelf s msg then [⟨.skipMessagesFromSelf, false⟩] else []) part

theorem cl_part
    (hhub : s.hasStreamHub = true)
    (msg : CLMessage)
    {part : List ProxyCall}
    (hpath : Path (handleMessageFromCL s msg) part (.ret ())) :
    CLPart s msg part := by
  intro hblock
  unfold handleMessageFromCL at hpath
  rw [op_bind, path_call_ret_iff] at hpath
  obtain ⟨supported, l, rfl, hpath⟩ := hpath
  cases supported with
  | false =>
      obtain ⟨rfl, -⟩ := path_ret_iff.mp hpath
      exact Or.inl rfl
  | true =>
      refine Or.inr fun block hdecode => ?_
      rw [if_pos rfl, if_pos hblock, processCLBeaconBlock, op_bind, path_call_ret_iff] at hpath
      obtain ⟨recvAt, l, rfl, hpath⟩ := hpath
      obtain ⟨out, l₁, l₂, rfl, harrival, -⟩ := path_bind_ret hpath
      obtain ⟨currentSlot, dup, digest, rfl⟩ := path_arrival hhub hdecode harrival
      exact ⟨recvAt, currentSlot, dup, digest, l₂, rfl⟩

theorem mumP2P_part
    (hhub : s.hasStreamHub = true)
    (msg : P2PMessage)
    {part : List ProxyCall}
    (hpath : Path (handleMessageFromMumP2PNode s msg) part (.ret ())) :
    MumP2PPart s msg part := by
  intro hblock
  unfold handleMessageFromMumP2PNode at hpath
  rw [op_bind, path_call_ret_iff] at hpath
  obtain ⟨supported, l, rfl, hpath⟩ := hpath
  -- what follows the decision not to skip the message
  have hmeasured : ∀ l first, Path (do
        let arrival ← measureMumP2PArrival s msg
        if !arrival.2 || messageFromSelf s msg then
          pure ()
        else do
          let duplicate ← isDuplicateMessage s msg.message
          if duplicate then pure () else dispatchMumP2PMessage s msg arrival.1) l (.ret ()) →
      Measured s msg.topic msg.message .mumP2P msg.sourceNodeID msg.upstreamPeerID first
        (first ++ l) := by
    intro l first hpath block hdecode
    rw [measureMumP2PArrival, if_pos hblock] at hpath
    obtain ⟨out, l₁, l₂, rfl, hmeasure, -⟩ := path_bind_ret hpath
    rw [op_bind, path_call_ret_iff] at hmeasure
    obtain ⟨recvAt, l₁, rfl, harrival⟩ := hmeasure
    obtain ⟨currentSlot, dup, digest, rfl⟩ := path_arrival hhub hdecode harrival
    exact ⟨recvAt, currentSlot, dup, digest, l₂, rfl⟩
  cases supported with
  | false =>
      obtain ⟨rfl, -⟩ := path_ret_iff.mp hpath
      exact Or.inl rfl
  | true =>
      rw [if_pos rfl, processMumP2PMessage, skipFromSelf] at hpath
      refine Or.inr ?_
      cases hself : messageFromSelf s msg with
      | false =>
          rw [hself] at hpath
          exact Or.inr (hmeasured l [⟨.topicSupported msg.topic, true⟩] (by rwa [hself]))
      | true =>
          rw [hself, if_pos rfl, op_bind, path_call_ret_iff] at hpath
          obtain ⟨skip, l, rfl, hpath⟩ := hpath
          cases skip with
          | true =>
              obtain ⟨rfl, -⟩ := path_ret_iff.mp hpath
              exact Or.inl ⟨rfl, rfl⟩
          | false =>
              exact Or.inr (hmeasured l [⟨.topicSupported msg.topic, true⟩,
                ⟨.skipMessagesFromSelf, false⟩] (by rwa [hself]))

/-- The calls of a handler are one part for each message, one after the other, as far as the
handler has come. -/
def InParts
    {β : Type}
    (Part : β → List ProxyCall → Prop)
    (msgs : List β)
    (calls : List ProxyCall)
    (finished : Prop) : Prop :=
  ∃ parts, List.Forall₂ Part msgs parts ∧ calls <+: parts.flatten ∧
    (finished → calls = parts.flatten)

theorem inParts_of_path
    {β : Type} {body : β → ProxyProg Unit} {Part : β → List ProxyCall → Prop}
    (hpart : ∀ x l, Path (body x) l (.ret ()) → Part x l)
    {msgs : List β} {calls : List ProxyCall} {q : ProxyProg Unit}
    (hpath : Path (forEach body msgs) calls q) :
    InParts Part msgs calls (q = .ret ()) := by
  have hanswers : ∀ o : ProxyOp, Nonempty o.Ans := by
    intro o
    cases o <;> exact ⟨default⟩
  induction msgs generalizing calls q with
  | nil =>
      obtain ⟨rfl, -⟩ := path_ret_iff.mp hpath
      exact ⟨[], List.Forall₂.nil, List.nil_prefix, fun _ => rfl⟩
  | cons x msgs ih =>
      have hdone : ∀ l₁ l₂, Path (body x) l₁ (.ret ()) → Path (forEach body msgs) l₂ q →
          InParts Part (x :: msgs) (l₁ ++ l₂) (q = .ret ()) := by
        intro l₁ l₂ hbody hrest
        obtain ⟨parts, hparts, hsegment, hall⟩ := ih hrest
        exact ⟨l₁ :: parts, .cons (hpart x l₁ hbody) hparts,
          List.prefix_append_right_inj _ |>.mpr hsegment,
          fun hq => congrArg (l₁ ++ ·) (hall hq)⟩
      rcases path_bind hpath with ⟨p, hbody, rfl⟩ | ⟨⟨⟩, l₁, l₂, rfl, hbody, hrest⟩
      · cases p with
        | ret u =>
            have hparts := hdone calls [] hbody (Path.nil _)
            rwa [List.append_nil] at hparts
        | call o k =>
            -- the message in hand: any way to finish it and the messages after it
            obtain ⟨m, ⟨⟩, hm⟩ := exists_path_ret hanswers (call o k)
            obtain ⟨l, ⟨⟩, hl⟩ := exists_path_ret hanswers (forEach body msgs)
            obtain ⟨parts, hparts, -⟩ := ih hl
            exact ⟨(calls ++ m) :: parts, .cons (hpart x _ (hbody.append hm)) hparts,
              by simp [List.append_assoc], nofun⟩
      · exact hdone l₁ l₂ hbody hrest

/-- What is asked of a run.  A lookup is answered by whether the key lives, and the first
one misses.  A missed lookup is followed by the emission of an event with that key, and no
event is emitted otherwise; a goroutine that has finished owes none.  Two lookups of a key
miss only if the key was removed between them. -/
structure StreamsOnce
    (tr : List ProxyEvent)
    (d : ProxyConfig) : Prop where
  decided : ∀ a b i key dup, tr = a ++ ⟨i, .streamGet key, dup⟩ :: b →
    (dup = true ↔ Lives key a)
  first : ∀ a b i key dup, tr = a ++ ⟨i, .streamGet key, dup⟩ :: b →
    (∀ j dup', ⟨j, .streamGet key, dup'⟩ ∉ a) → dup = false
  emitted : ∀ i key before x y z after,
    callsOf i tr = before ++ ⟨.streamGet key, false⟩ :: x :: y :: z :: after →
    x = ⟨.streamPut key, ()⟩ ∧ ∃ digest ev, y = ⟨.activeDigest, digest⟩ ∧
      z = ⟨.streamEmit ev, ()⟩ ∧ eventKey ev = key ∧ ev.forkDigest = digest
  finished : ∀ i key before after, d.progs i = .ret () →
    callsOf i tr = before ++ ⟨.streamGet key, false⟩ :: after → 3 ≤ after.length
  only : ∀ i ev before after, callsOf i tr = before ++ ⟨.streamEmit ev, ()⟩ :: after →
    ∃ past, before = past ++ [⟨.streamGet (eventKey ev), false⟩,
      ⟨.streamPut (eventKey ev), ()⟩, ⟨.activeDigest, ev.forkDigest⟩]
  once : ∀ a m b i j key, tr = a ++ ⟨i, .streamGet key, false⟩ ::
      (m ++ ⟨j, .streamGet key, false⟩ :: b) →
    ∃ k, ⟨k, .streamExpire key, ()⟩ ∈ m

variable {input : ProxyInput} {st : ProxyState}
variable {tr : List ProxyEvent} {d : ProxyConfig}

/-- A goroutine that has finished is between two emissions. -/
theorem finished_of_run
    (hrun : Run proxySem anyStep (input.config s st) tr d)
    {i : ProxyParty} {key : String} {before after : List ProxyCall}
    (hret : d.progs i = .ret ())
    (hcalls : callsOf i tr = before ++ ⟨.streamGet key, false⟩ :: after) :
    3 ≤ after.length := by
  have halong := hrun.along (observes_program s input i [] rfl)
  rw [hret] at halong
  have hidle : stage (callsOf i tr) = .idle := halong
  rw [hcalls] at hidle
  rcases after with _ | ⟨x, after⟩
  · rw [stage_of_missed] at hidle
    cases hidle
  · obtain rfl := store_of_missed hrun hcalls
    rcases after with _ | ⟨y, after⟩
    · rw [stage_of_stored] at hidle
      cases hidle
    · obtain ⟨digest, rfl⟩ := digest_of_stored hrun hcalls
      rcases after with _ | ⟨z, after⟩
      · rw [stage_of_stamped] at hidle
        cases hidle
      · simp

/-- Each observation is streamed exactly once per source, for every interleaving of the
handlers: an arrival that decodes looks up its key and is emitted if the key is missing; the
calls of each handler are the parts of its messages, in which every supported block that
decodes has its arrival; what a run does with the keys is `StreamsOnce`; and keys agree only
if source, slot, proposer and state root agree. -/
theorem streams_each_observation_once
    (s : ProxyService)
    (hhub : s.hasStreamHub = true)
    (input : ProxyInput)
    (st : ProxyState)
    (hfresh : ∀ key, st.stream key = false)
    {tr : List ProxyEvent}
    {d : ProxyConfig}
    (hrun : Run proxySem anyStep (input.config s st) tr d) :
    (∀ topic msg recvAt source originGatewayID upstreamPeerID block l out,
      decodeBeaconBlockHeader s.lib.snappy msg = .ok block →
      Path (processBeaconBlockArrival s topic msg recvAt source originGatewayID
        upstreamPeerID) l (.ret out) →
      ∃ currentSlot dup digest, l = arrivalCalls s topic msg recvAt source originGatewayID
        upstreamPeerID block.header currentSlot dup digest) ∧
    InParts (CLPart s) input.clMessages (callsOf .cl tr) (d.progs .cl = .ret ()) ∧
    InParts (MumP2PPart s) input.mumP2PMessages (callsOf .mumP2P tr)
      (d.progs .mumP2P = .ret ()) ∧
    StreamsOnce tr d ∧
    ∀ source source' header header',
      streamDedupKey source header = streamDedupKey source' header' ↔
        source = source' ∧ header.slot = header'.slot ∧
          header.proposerIndex = header'.proposerIndex ∧
          header.stateRoot = header'.stateRoot := by
  refine ⟨?_, inParts_of_path (fun msg _ => cl_part hhub msg) (hrun.path .cl),
    inParts_of_path (fun msg _ => mumP2P_part hhub msg) (hrun.path .mumP2P),
    ⟨?_, ?_, ?_, ?_, ?_, ?_⟩, ?_⟩
  · intro topic msg recvAt source originGatewayID upstreamPeerID block l out hdecode hpath
    exact path_arrival hhub hdecode hpath
  · intro a b i key dup htr
    subst htr
    exact lookup_iff_lives hfresh hrun
  · intro a b i key dup htr hnone
    subst htr
    cases dup with
    | false => rfl
    | true =>
        obtain ⟨a₁, a₂, j, rfl, -⟩ := (lookup_iff_lives hfresh hrun).mp rfl
        obtain ⟨d₁, hbefore, -⟩ := hrun.split
        exact absurd (lookup_of_store hbefore (by simp)) (hnone j false)
  · intro i key before x y z after hcalls
    exact emit_of_missed hrun hcalls
  · intro i key before after hret hcalls
    exact finished_of_run hrun hret hcalls
  · intro i ev before after hcalls
    exact missed_of_emit hrun hcalls
  · intro a m b i j key htr
    subst htr
    exact expired_between_lookups hfresh hrun
  · intro source source' header header'
    exact streamDedupKey_inj

end Main

section Sample

/-- The same gateway with consumers. -/
def streamService : ProxyService :=
  { sampleService with hasStreamHub := true }

theorem path_arrivalCalls
    {s : ProxyService}
    (hhub : s.hasStreamHub = true)
    {topic : String} {msg : Bytes} {block : SignedBeaconBlockHeader}
    (hdecode : decodeBeaconBlockHeader s.lib.snappy msg = .ok block)
    (recvAt : Int64)
    (source : Source)
    (originGatewayID upstreamPeerID : String)
    (currentSlot : UInt64)
    (dup : Bool)
    (digest : String) :
    Path (processBeaconBlockArrival s topic msg recvAt source originGatewayID upstreamPeerID)
      (arrivalCalls s topic msg recvAt source originGatewayID upstreamPeerID block.header
        currentSlot dup digest)
      (.ret (block.header.slot,
        !decide (diffUint64 block.header.slot currentSlot > staleSlotThreshold))) := by
  unfold processBeaconBlockArrival
  simp only [hdecode, streamObservation, hhub, if_true]
  cases dup with
  | true => exact Path.cons (Path.cons (Path.cons (Path.cons (Path.nil _))))
  | false =>
      exact Path.cons (Path.cons (Path.cons (Path.cons (Path.cons (Path.cons (Path.cons
        (Path.nil _)))))))

/-- The CL handler streams a stale block and does not forward it. -/
theorem path_handleMessageFromCL_stale
    {s : ProxyService} {msg : CLMessage} {slot : UInt64} {recvAt : Int64}
    {arrival : List ProxyCall}
    (hblock : (parseTopicMeta msg.topic).isBeaconBlock = true)
    (harrival : Path (processBeaconBlockArrival s msg.topic msg.message recvAt .libP2P ""
      msg.receivedFrom) arrival (.ret (slot, false))) :
    Path (handleMessageFromCL s msg)
      (⟨.topicSupported msg.topic, true⟩ :: ⟨.unixMilli, recvAt⟩ :: arrival) (.ret ()) := by
  unfold handleMessageFromCL
  rw [if_pos hblock]
  refine Path.cons (Path.cons ?_)
  have hrest := harrival.bind (f := fun arrival : UInt64 × Bool => (do
    if arrival.2 then do
      let duplicate ← isDuplicateMessage s msg.message
      if duplicate then pure () else forwardCLBeaconBlock s msg arrival.1
    else
      pure () : ProxyProg Unit)) (Path.nil _)
  rw [List.append_nil] at hrest
  exact hrest

/-- The calls for the sample block in slot 0. -/
def staleCalls
    (source : Source)
    (originGatewayID upstreamPeerID : String)
    (recvAt : Int64)
    (dup : Bool) : List ProxyCall :=
  ⟨.topicSupported blockTopic, true⟩ :: ⟨.unixMilli, recvAt⟩ ::
    arrivalCalls streamService blockTopic sampleBlock recvAt source originGatewayID
      upstreamPeerID sampleHeader.header 0 dup "6a95a1a9"

/-- The block comes twice from the CL and once from the mesh. -/
def repeatedInput : ProxyInput :=
  ⟨[clBlock, clBlock], [meshBlock], [], []⟩

def repeatedTrace : List ProxyEvent :=
  alone .cl (staleCalls .libP2P "" "16Uiu2HAmCLPeer" 1000 false) ++
    (alone .mumP2P (staleCalls .mumP2P "16Uiu2HAmOther" "16Uiu2HAmOther" 1001 false) ++
      alone .cl (staleCalls .libP2P "" "16Uiu2HAmCLPeer" 1002 true))

theorem path_staleArrival
    (source : Source)
    (originGatewayID upstreamPeerID : String)
    (recvAt : Int64)
    (dup : Bool) :
    Path (processBeaconBlockArrival streamService blockTopic sampleBlock recvAt source
        originGatewayID upstreamPeerID)
      (arrivalCalls streamService blockTopic sampleBlock recvAt source originGatewayID
        upstreamPeerID sampleHeader.header 0 dup "6a95a1a9")
      (.ret (blockSlot, false)) := by
  have hdecode : decodeBeaconBlockHeader streamService.lib.snappy sampleBlock =
      .ok sampleHeader := decode_sampleBlock
  have hstale : decide (diffUint64 sampleHeader.header.slot 0 > staleSlotThreshold) = true := by
    decide +kernel
  have harrival : Path (processBeaconBlockArrival streamService blockTopic sampleBlock recvAt
      source originGatewayID upstreamPeerID) _ _ :=
    path_arrivalCalls rfl hdecode recvAt source originGatewayID upstreamPeerID 0 dup "6a95a1a9"
  rw [hstale, Bool.not_true] at harrival
  exact harrival

/-- The caches once the block is streamed. -/
def blockStreamed (source : Source) (st : ProxyState) : ProxyState :=
  { st with stream :=
      Function.update st.stream (streamDedupKey source sampleHeader.header) true }

theorem exec_staleCalls_new
    {source : Source} {st : ProxyState}
    (hmissing : st.stream (streamDedupKey source sampleHeader.header) = false)
    (originGatewayID upstreamPeerID : String)
    (recvAt : Int64) :
    Exec proxySem st (staleCalls source originGatewayID upstreamPeerID recvAt false)
      (blockStreamed source st) :=
  Exec.cons rfl (Exec.cons rfl (Exec.cons rfl (Exec.cons rfl (Exec.cons rfl
    (Exec.cons ⟨hmissing.symm, rfl⟩ (Exec.cons rfl (Exec.cons rfl (Exec.cons rfl
      (Exec.nil _)))))))))

theorem run_repeatedTrace :
    ∃ d, Run proxySem anyStep (repeatedInput.config streamService emptyCaches)
      repeatedTrace d := by
  have hkeys : streamDedupKey .mumP2P sampleHeader.header ≠
      streamDedupKey .libP2P sampleHeader.header := by
    intro hkey
    cases (streamDedupKey_inj.mp hkey).1
  have hlive : ∀ st, (blockStreamed .mumP2P (blockStreamed .libP2P st)).stream
      (streamDedupKey .libP2P sampleHeader.header) = true := by
    intro st
    simp [blockStreamed, hkeys.symm]
  have hmissing : (blockStreamed .libP2P emptyCaches).stream
      (streamDedupKey .mumP2P sampleHeader.header) = false := by
    simp [blockStreamed, emptyCaches, hkeys]
  have hcl : ∀ recvAt dup, Path (handleMessageFromCL streamService clBlock)
      (staleCalls .libP2P "" "16Uiu2HAmCLPeer" recvAt dup) (.ret ()) := by
    intro recvAt dup
    exact path_handleMessageFromCL_stale isBeaconBlock_blockTopic
      (path_staleArrival .libP2P "" "16Uiu2HAmCLPeer" recvAt dup)
  have hblock : (parseTopicMeta meshBlock.topic).isBeaconBlock = true := isBeaconBlock_blockTopic
  have hmesh : Path (handleMessageFromMumP2PNode streamService meshBlock) _ (.ret ()) :=
    path_measuredBlock hblock (path_skipFromSelf (by decide))
      (path_staleArrival .mumP2P "16Uiu2HAmOther" "16Uiu2HAmOther" 1001 false) (Path.nil _)
  refine ⟨⟨fun _ => .ret (), blockStreamed .mumP2P (blockStreamed .libP2P emptyCaches)⟩,
    run_of_paths ?_ ?_⟩
  · intro i
    simp only [repeatedTrace, callsOf_append, callsOf_alone]
    cases i with
    | cl =>
        have hboth := (hcl 1000 false).bind (f := fun _ => forEach _ [clBlock])
          ((hcl 1002 true).bind (Path.nil _))
        rw [List.append_nil] at hboth
        exact hboth
    | mumP2P => exact hmesh.bind (Path.nil _)
    | aggregator | caches => exact Path.nil _
  · simp only [repeatedTrace, List.map_append, calls_alone]
    refine Exec.append (exec_staleCalls_new rfl _ _ 1000) ?_
    refine Exec.append (exec_staleCalls_new hmissing _ _ 1001) ?_
    exact Exec.cons rfl (Exec.cons rfl (Exec.cons rfl (Exec.cons rfl (Exec.cons rfl
      (Exec.cons ⟨(hlive _).symm, rfl⟩ (Exec.nil _))))))

/-- The block is emitted once for each source, and the second copy from the CL is not. -/
theorem streams_each_observation_once_repeated :
    ∃ d, Run proxySem anyStep (repeatedInput.config streamService emptyCaches)
        repeatedTrace d ∧
      ⟨.cl, .streamGet (streamDedupKey .libP2P sampleHeader.header), true⟩ ∈ repeatedTrace ∧
      ⟨.mumP2P, .streamGet (streamDedupKey .mumP2P sampleHeader.header), false⟩ ∈
        repeatedTrace ∧
      InParts (CLPart streamService) [clBlock, clBlock] (callsOf .cl repeatedTrace)
        (d.progs .cl = .ret ()) ∧
      InParts (MumP2PPart streamService) [meshBlock] (callsOf .mumP2P repeatedTrace)
        (d.progs .mumP2P = .ret ()) ∧
      StreamsOnce repeatedTrace d := by
  obtain ⟨d, hrun⟩ := run_repeatedTrace
  obtain ⟨-, hcl, hmesh, honce, -⟩ := streams_each_observation_once streamService rfl
    repeatedInput emptyCaches (fun _ => rfl) hrun
  refine ⟨d, hrun, ?_, ?_, hcl, hmesh, honce⟩
  · simp [repeatedTrace, alone, staleCalls, arrivalCalls]
  · simp [repeatedTrace, alone, staleCalls, arrivalCalls]

end Sample

end GossipsubGateway
end OptimumGateway
