import Mathlib.Data.Fintype.Defs
import OptimumGateway.GossipsubGateway.MessagesProxy

/-!
# Forwarding between the networks at most once

`isDuplicateMessage` looks a hash up and stores it in two operations.  Every handler asks
it before it publishes, so what is published at most once is what is reported as new at
most once.

The programs of the handlers are described by what each operation requires of the calls
before it (`Obligation`): a hash is stored right after it was looked up and not found,
and a payload is published only while the thread's last stored hash is its own and has
not been used for another publication.  Each goroutine publishes on one network only.

The rest is about the memory.  As long as no thread looks up a hash that another is about
to store, a hash is stored again only after it has left the map.  Without that condition
two handlers can both find the same block missing and forward it in both directions.
-/

namespace OptimumGateway
namespace GossipsubGateway

open Foundation Foundation.Prog Protocol Aggregator

/-- The two caches: which keys are present. -/
structure ProxyState where
  messages : UInt64 → Bool
  stream : String → Bool

/-- The caches answer for themselves, a map is visited in any order, and every other
answer is free. -/
def proxySem : Sem ProxyOp ProxyOp.Ans ProxyState
  | .messageGet hash, s, r, t => r = s.messages hash ∧ t = s
  | .messagePut hash, s, _, t =>
      t = { s with messages := Function.update s.messages hash true }
  | .messageExpire hash, s, _, t =>
      t = { s with messages := Function.update s.messages hash false }
  | .streamGet key, s, r, t => r = s.stream key ∧ t = s
  | .streamPut key, s, _, t => t = { s with stream := Function.update s.stream key true }
  | .streamExpire key, s, _, t => t = { s with stream := Function.update s.stream key false }
  | .rangeTopics topics, s, r, t => r.Perm topics ∧ t = s
  | _, s, _, t => t = s

section Obligations

variable (hashOf : Bytes → UInt64) (net : Source)

/-- The network and the payload of a publication. -/
def ProxyOp.published : ProxyOp → Option (Source × Bytes)
  | .mumP2PPublish _ message => some (.mumP2P, message)
  | .clPublish _ message => some (.libP2P, message)
  | _ => none

/-- The hash that an operation stores. -/
def ProxyOp.stored : ProxyOp → Option UInt64
  | .messagePut hash => some hash
  | _ => none

/-- The hash that was stored last and not used for a publication since. -/
def licence (calls : List ProxyCall) : Option UInt64 :=
  calls.foldl (fun last c =>
    match c.1.stored with
    | some hash => some hash
    | none => if c.1.published.isSome then none else last) none

/-- What an operation requires of the calls of its thread before it, for a thread that
publishes on the network `net`. -/
def Obligation (calls : List ProxyCall) (op : ProxyOp) : Prop :=
  (∀ hash, op.stored = some hash → calls.getLast? = some ⟨.messageGet hash, false⟩) ∧
    ∀ net' b, op.published = some (net', b) → net' = net ∧ licence calls = some (hashOf b)

/-- A program whose operations meet their obligations after any calls. -/
def Ordered (p : ProxyProg Unit) : Prop :=
  ∀ calls, p.Along (Obligation hashOf net) (fun _ _ => True) calls

/-- Operations without an obligation. -/
def Quiet (op : ProxyOp) : Prop :=
  op.stored = none ∧ op.published = none

variable {hashOf net} {op : ProxyOp} {α β : Type} {p : ProxyProg α}

theorem Quiet.obligation
    (h : Quiet op)
    (calls : List ProxyCall) :
    Obligation hashOf net calls op := by
  constructor
  · intro hash hstored
    rw [h.1] at hstored
    cases hstored
  · intro net' b hpublished
    rw [h.2] at hpublished
    cases hpublished

theorem licence_append_singleton
    (calls : List ProxyCall)
    (c : ProxyCall) :
    licence (calls ++ [c]) =
      match c.1.stored with
      | some hash => some hash
      | none => if c.1.published.isSome then none else licence calls := by
  simp only [licence, List.foldl_append, List.foldl_cons, List.foldl_nil]

theorem Quiet.licence_eq
    (h : Quiet op)
    (r : op.Ans)
    (calls : List ProxyCall) :
    licence (calls ++ [⟨op, r⟩]) = licence calls := by
  rw [licence_append_singleton]
  simp [h.1, h.2]

/-- A program of quiet operations keeps the licence. -/
theorem along_of_quiet
    {calls : List ProxyCall}
    (h : p.Forall Quiet) :
    p.Along (Obligation hashOf net) (fun calls' _ => licence calls' = licence calls) calls := by
  exact h.along_keeps (fun calls' o ho => ho.obligation calls')
    (fun calls' o r ho => ho.licence_eq r calls') rfl

theorem quiet_skip :
    (pure () : ProxyProg Unit).Forall Quiet := by
  trivial

theorem quiet_proxy
    (h : Quiet op) :
    (proxy op).Forall Quiet := by
  exact ⟨h, fun _ => trivial⟩

theorem Ordered.of_quiet
    {p : ProxyProg Unit}
    (h : p.Forall Quiet) :
    Ordered hashOf net p := by
  intro calls
  exact Forall.along h (fun calls' o ho => ho.obligation calls')

/-- Quiet operations may stand before an ordered program. -/
theorem Ordered.quiet_bind
    {f : α → ProxyProg Unit}
    (hp : p.Forall Quiet)
    (hf : ∀ a, Ordered hashOf net (f a)) :
    Ordered hashOf net (p >>= f) := by
  intro calls
  exact (along_of_quiet hp).bind fun calls' a _ => hf a calls'

theorem ordered_forEach
    {body : β → ProxyProg Unit}
    (h : ∀ x, Ordered hashOf net (body x))
    (xs : List β) :
    Ordered hashOf net (forEach body xs) := by
  induction xs with
  | nil =>
      intro calls
      exact trivial
  | cons x xs ih =>
      intro calls
      exact (h x calls).bind fun calls' _ _ => ih calls'

variable (hashOf net)

/-- A program that may publish the payload once, after its hash was stored. -/
def Licensed {α : Type} (b : Bytes) (p : ProxyProg α) : Prop :=
  ∀ calls, licence calls = some (hashOf b) →
    p.Along (Obligation hashOf net) (fun _ _ => True) calls

variable {hashOf net}

theorem Licensed.of_quiet
    (h : p.Forall Quiet)
    (b : Bytes) :
    Licensed hashOf net b p := by
  intro calls _
  exact Forall.along h (fun calls' o ho => ho.obligation calls')

theorem Licensed.of_ordered
    {p : ProxyProg Unit}
    (h : Ordered hashOf net p)
    (b : Bytes) :
    Licensed hashOf net b p := by
  intro calls _
  exact h calls

theorem Licensed.quiet_bind
    {b : Bytes} {f : α → ProxyProg β}
    (hp : p.Forall Quiet)
    (hf : ∀ a, Licensed hashOf net b (f a)) :
    Licensed hashOf net b (p >>= f) := by
  intro calls hcalls
  exact (along_of_quiet hp).bind fun calls' a hkeep => hf a calls' (hkeep.trans hcalls)

theorem Licensed.publish_bind
    {b : Bytes} {f : op.Ans → ProxyProg β}
    (hpublished : op.published = some (net, b))
    (hstored : op.stored = none)
    (hf : ∀ r, (f r).Forall Quiet) :
    Licensed hashOf net b (proxy op >>= f) := by
  intro calls hcalls
  refine ⟨⟨?_, ?_⟩, ?_⟩
  · intro hash hhash
    rw [hstored] at hhash
    cases hhash
  · intro net' b' hb'
    rw [hpublished] at hb'
    cases hb'
    exact ⟨rfl, hcalls⟩
  · intro r
    exact Forall.along (hf r) (fun calls' o ho => ho.obligation calls')

end Obligations

section Handlers

variable (s : ProxyService) {net : Source}

/-- What `isDuplicateMessage` does: a hash that is found is a duplicate, and one that is
not found is stored and new. -/
theorem isDuplicateMessage_path
    {b : Bytes} {l : List ProxyCall} {verdict : Bool}
    (h : Path (isDuplicateMessage s b) l (.ret verdict)) :
    verdict = true ∧ l = [⟨.messageGet (s.lib.xxHash b), true⟩] ∨
      verdict = false ∧ l = [⟨.messageGet (s.lib.xxHash b), false⟩,
        ⟨.messagePut (s.lib.xxHash b), ()⟩] := by
  unfold isDuplicateMessage at h
  rw [op_bind, path_call_ret_iff] at h
  obtain ⟨r, l', rfl, h⟩ := h
  cases r with
  | true =>
      obtain ⟨rfl, hret⟩ := path_ret_iff.mp h
      cases hret
      exact Or.inl ⟨rfl, rfl⟩
  | false =>
      simp only [Bool.false_eq_true, if_false, op_bind, path_call_ret_iff] at h
      obtain ⟨u, l'', rfl, h⟩ := h
      obtain ⟨rfl, hret⟩ := path_ret_iff.mp h
      cases hret
      exact Or.inr ⟨rfl, rfl⟩

/-- Every use of `isDuplicateMessage`: what follows a new message may publish it. -/
theorem ordered_dedup
    {b : Bytes} {p : ProxyProg Unit}
    (hp : Licensed s.lib.xxHash net b p) :
    Ordered s.lib.xxHash net (do
      let duplicate ← isDuplicateMessage s b
      if duplicate then pure () else p) := by
  intro calls
  have hget : Quiet (.messageGet (s.lib.xxHash b)) := ⟨rfl, rfl⟩
  refine ⟨hget.obligation calls, ?_⟩
  intro r
  cases r with
  | true => exact trivial
  | false =>
      refine ⟨⟨?_, ?_⟩, ?_⟩
      · intro hash hhash
        cases hhash
        simp
      · intro net' b' hb'
        cases hb'
      · intro u
        refine hp _ ?_
        rw [licence_append_singleton]
        rfl

theorem Quiet.of_measures
    {op : ProxyOp}
    (h : MeasuresBlock op) :
    Quiet op := by
  cases op <;> first | exact h.elim | exact ⟨rfl, rfl⟩

theorem quiet_processBeaconBlockArrival
    (topic : String)
    (msg : Bytes)
    (recvAt : Int64)
    (source : Source)
    (originGatewayID upstreamPeerID : String) :
    (processBeaconBlockArrival s topic msg recvAt source originGatewayID
      upstreamPeerID).Forall Quiet :=
  forall_processBeaconBlockArrival s (fun _ => Quiet.of_measures) fun _ _ => ⟨rfl, rfl⟩

theorem licensed_forwardCLBeaconBlock
    (msg : CLMessage)
    (slot : UInt64) :
    Licensed s.lib.xxHash .mumP2P msg.message (forwardCLBeaconBlock s msg slot) := by
  unfold forwardCLBeaconBlock
  split
  · refine Licensed.quiet_bind (p := proxy .unixMilli) (quiet_proxy ⟨rfl, rfl⟩) ?_
    intro publishedAt
    refine Licensed.publish_bind rfl rfl ?_
    intro err
    split
    · exact quiet_skip
    · split
      · exact quiet_proxy ⟨rfl, rfl⟩
      · exact quiet_skip
  · exact Licensed.of_quiet quiet_skip _

theorem quiet_forwardCLAttestation
    (msg : CLMessage)
    (topicMeta : TopicMeta) :
    (forwardCLAttestation msg topicMeta).Forall Quiet := by
  refine ⟨⟨rfl, rfl⟩, ?_⟩
  intro forward
  cases forward with
  | true => exact quiet_proxy ⟨rfl, rfl⟩
  | false => exact quiet_skip

theorem ordered_handleMessageFromCL
    (msg : CLMessage) :
    Ordered s.lib.xxHash .mumP2P (handleMessageFromCL s msg) := by
  refine Ordered.quiet_bind (p := proxy (.topicSupported msg.topic))
    (quiet_proxy ⟨rfl, rfl⟩) ?_
  intro supported
  split
  · split
    · refine Ordered.quiet_bind (p := proxy .unixMilli) (quiet_proxy ⟨rfl, rfl⟩) ?_
      intro recvAt
      refine Ordered.quiet_bind (quiet_processBeaconBlockArrival s _ _ _ _ _ _) ?_
      intro arrival
      split
      · exact ordered_dedup s (licensed_forwardCLBeaconBlock s msg arrival.1)
      · exact Ordered.of_quiet quiet_skip
    · split
      · exact ordered_dedup s (Licensed.of_quiet (quiet_forwardCLAttestation msg _) _)
      · exact Ordered.of_quiet quiet_skip
  · exact Ordered.of_quiet quiet_skip

theorem licensed_publishToCLTopic
    (data : Bytes)
    (topic : String) :
    Licensed s.lib.xxHash .libP2P data (do
      let _ ← publishToCLTopic data topic
      pure ()) := by
  refine Licensed.quiet_bind (p := proxy (.topicLoad topic)) (quiet_proxy ⟨rfl, rfl⟩) ?_
  intro ok
  cases ok with
  | true => exact Licensed.publish_bind rfl rfl (fun _ => quiet_skip)
  | false => exact Licensed.of_quiet quiet_skip _

theorem licensed_processMumP2PBeaconBlock
    (msg : P2PMessage)
    (slot : UInt64) :
    Licensed s.lib.xxHash .libP2P msg.message (processMumP2PBeaconBlock msg slot) := by
  refine Licensed.quiet_bind (p := proxy .propagationEnabled) (quiet_proxy ⟨rfl, rfl⟩) ?_
  intro enabled
  split
  · refine Licensed.quiet_bind (p := proxy (.shouldForwardToCLP2P .beaconBlock slot
      msg.message)) (quiet_proxy ⟨rfl, rfl⟩) ?_
    intro forward
    split
    · exact licensed_publishToCLTopic s msg.message msg.topic
    · exact Licensed.of_quiet quiet_skip _
  · exact Licensed.of_quiet quiet_skip _

theorem ordered_expandPayload
    (topic : String)
    (topicMeta : TopicMeta)
    (payload : Bytes) :
    Ordered s.lib.xxHash .libP2P (expandPayload s topic topicMeta payload) := by
  refine ordered_dedup s ?_
  refine Licensed.quiet_bind (p := proxy (.shouldForwardToCLP2P topicMeta.kind 0 payload))
    (quiet_proxy ⟨rfl, rfl⟩) ?_
  intro forward
  split
  · cases decodeGossip s.lib.snappy payload SingleAttestation.zero with
    | error err => exact Licensed.of_quiet quiet_skip _
    | ok att => exact licensed_publishToCLTopic s payload topic
  · exact Licensed.of_quiet quiet_skip _

theorem ordered_handleAggregatedMessages
    (msg : P2PMessage) :
    Ordered s.lib.xxHash .libP2P (handleAggregatedMessages s msg) := by
  refine Ordered.quiet_bind (p := proxy .activeDigest) (quiet_proxy ⟨rfl, rfl⟩) ?_
  intro digest
  cases decodeAggregatedMessage s.lib digest msg.message with
  | error err => exact Ordered.of_quiet quiet_skip
  | ok decoded =>
      refine Ordered.quiet_bind (p := proxy .propagationEnabled)
        (quiet_proxy ⟨rfl, rfl⟩) ?_
      intro enabled
      split
      · refine Ordered.quiet_bind (p := proxy (.rangeTopics decoded.keys))
          (quiet_proxy ⟨rfl, rfl⟩) ?_
        intro order
        refine ordered_forEach ?_ order
        intro topic
        refine Ordered.quiet_bind (p := proxy (.topicLoad topic))
          (quiet_proxy ⟨rfl, rfl⟩) ?_
        intro ok
        split
        · exact ordered_forEach (ordered_expandPayload s topic _) _
        · exact Ordered.of_quiet quiet_skip
      · exact Ordered.of_quiet quiet_skip

theorem licensed_dispatchMumP2PMessage
    (msg : P2PMessage)
    (slot : UInt64) :
    Licensed s.lib.xxHash .libP2P msg.message (dispatchMumP2PMessage s msg slot) := by
  unfold dispatchMumP2PMessage
  split
  · exact licensed_processMumP2PBeaconBlock s msg slot
  · split
    · exact Licensed.of_ordered (ordered_handleAggregatedMessages s msg) _
    · exact Licensed.of_quiet quiet_skip _

theorem quiet_skipFromSelf
    (msg : P2PMessage) :
    (skipFromSelf s msg).Forall Quiet := by
  unfold skipFromSelf
  split
  · exact quiet_proxy ⟨rfl, rfl⟩
  · trivial

theorem quiet_measureMumP2PArrival
    (msg : P2PMessage) :
    (measureMumP2PArrival s msg).Forall Quiet := by
  unfold measureMumP2PArrival
  split
  · exact ⟨⟨rfl, rfl⟩, fun recvAt => quiet_processBeaconBlockArrival s _ _ recvAt _ _ _⟩
  · trivial

theorem ordered_processMumP2PMessage
    (msg : P2PMessage) :
    Ordered s.lib.xxHash .libP2P (processMumP2PMessage s msg) := by
  refine Ordered.quiet_bind (quiet_skipFromSelf s msg) ?_
  intro skip
  split
  · exact Ordered.of_quiet quiet_skip
  · refine Ordered.quiet_bind (quiet_measureMumP2PArrival s msg) ?_
    intro arrival
    split
    · exact Ordered.of_quiet quiet_skip
    · exact ordered_dedup s (licensed_dispatchMumP2PMessage s msg arrival.1)

theorem ordered_handleMessageFromMumP2PNode
    (msg : P2PMessage) :
    Ordered s.lib.xxHash .libP2P (handleMessageFromMumP2PNode s msg) := by
  refine Ordered.quiet_bind (p := proxy (.topicSupported msg.topic))
    (quiet_proxy ⟨rfl, rfl⟩) ?_
  intro supported
  split
  · exact ordered_processMumP2PMessage s msg
  · exact Ordered.of_quiet quiet_skip

theorem ordered_emitAggregatedMessage
    (payload : Bytes) :
    Ordered s.lib.xxHash .mumP2P (emitAggregatedMessage s payload) := by
  unfold emitAggregatedMessage
  split
  · exact ordered_dedup s (Licensed.publish_bind rfl rfl (fun _ => quiet_skip))
  · exact Ordered.of_quiet quiet_skip

end Handlers

section Threads

/-- The goroutines that use the caches. -/
inductive ProxyParty where
  | cl
  | mumP2P
  | aggregator
  | caches
deriving DecidableEq

instance : Fintype ProxyParty where
  elems := {.cl, .mumP2P, .aggregator, .caches}
  complete i := by cases i <;> decide

/-- The network on which a goroutine publishes. -/
def ProxyParty.network : ProxyParty → Source
  | .mumP2P => .libP2P
  | _ => .mumP2P

/-- An entry that leaves a cache. -/
inductive Expiry where
  | message (hash : UInt64)
  | stream (key : String)

def expire : Expiry → ProxyProg Unit
  | .message hash => proxy (.messageExpire hash)
  | .stream key => proxy (.streamExpire key)

/-- What the goroutines work through. -/
structure ProxyInput where
  clMessages : List CLMessage
  mumP2PMessages : List P2PMessage
  aggregated : List Bytes
  expiries : List Expiry

variable (s : ProxyService)

def ProxyInput.program (input : ProxyInput) : ProxyParty → ProxyProg Unit
  | .cl => handleMessagesFromCL s input.clMessages
  | .mumP2P => handleMessagesFromMumP2PNode s input.mumP2PMessages
  | .aggregator => forEach (emitAggregatedMessage s) input.aggregated
  | .caches => forEach expire input.expiries

abbrev ProxyConfig := Config ProxyParty ProxyOp ProxyOp.Ans (fun _ => Unit) ProxyState

abbrev ProxyEvent := Event ProxyParty ProxyOp ProxyOp.Ans

def ProxyInput.config (input : ProxyInput) (st : ProxyState) : ProxyConfig :=
  ⟨input.program s, st⟩

theorem ordered_program
    (input : ProxyInput)
    (i : ProxyParty) :
    Ordered s.lib.xxHash i.network (input.program s i) := by
  cases i with
  | cl => exact ordered_forEach (ordered_handleMessageFromCL s) _
  | mumP2P => exact ordered_forEach (ordered_handleMessageFromMumP2PNode s) _
  | aggregator => exact ordered_forEach (ordered_emitAggregatedMessage s) _
  | caches =>
      refine ordered_forEach ?_ _
      intro e
      cases e with
      | message hash | stream key => exact Ordered.of_quiet (quiet_proxy ⟨rfl, rfl⟩)

/-- The next operation of a goroutine stores the hash. -/
def AboutToPut (c : ProxyConfig) (i : ProxyParty) (hash : UInt64) : Prop :=
  ∃ k, c.progs i = Prog.call (.messagePut hash) k

/-- Nobody looks up a hash that another goroutine is about to store. -/
def ChecksAlone (c : ProxyConfig) (e : ProxyEvent) : Prop :=
  ∀ hash, e.op = .messageGet hash → ∀ j, j ≠ e.thread → ¬ AboutToPut c j hash

end Threads

section Runs

variable {s : ProxyService} {input : ProxyInput} {st : ProxyState}
variable {G : ProxyConfig → ProxyEvent → Prop}
variable {tr : List ProxyEvent} {d : ProxyConfig} {hash : UInt64} {i : ProxyParty}

/-- Every call of a goroutine meets its obligation. -/
theorem obligation_of_run
    (hrun : Run proxySem G (input.config s st) tr d)
    {before after : List ProxyCall}
    {o : ProxyOp} {r : o.Ans}
    (hcalls : callsOf i tr = before ++ ⟨o, r⟩ :: after) :
    Obligation s.lib.xxHash i.network before o := by
  have hpath := hrun.path i
  rw [hcalls] at hpath
  exact hpath.along (h := []) (ordered_program s input i [])

/-- A goroutine that is about to store a hash has just missed it. -/
theorem getLast_of_aboutToPut
    (hrun : Run proxySem G (input.config s st) tr d)
    (h : AboutToPut d i hash) :
    (callsOf i tr).getLast? = some ⟨.messageGet hash, false⟩ := by
  obtain ⟨k, hk⟩ := h
  have hpath := hrun.path i
  rw [hk] at hpath
  have hput := hpath.append (Path.cons (r := ()) (Path.nil _))
  have hobligation := hput.along (h := []) (ordered_program s input i [])
  exact hobligation.1 hash rfl

/-- The hash that an answer adds to the map, or removes from it. -/
def written (hash : UInt64) : ProxyCall → Option Bool
  | ⟨.messagePut hash', _⟩ => if hash' = hash then some true else none
  | ⟨.messageExpire hash', _⟩ => if hash' = hash then some false else none
  | _ => none

theorem writes_messages
    (hash : UInt64) :
    Writes proxySem (fun m : ProxyState => m.messages hash) (written hash) := by
  intro o m r t h
  cases o
  case messagePut hash' =>
    cases h
    by_cases heq : hash' = hash
    · subst heq
      simp [written]
    · simp [written, heq, Function.update_of_ne (Ne.symm heq)]
  case messageExpire hash' =>
    cases h
    by_cases heq : hash' = hash
    · subst heq
      simp [written]
    · simp [written, heq, Function.update_of_ne (Ne.symm heq)]
  case messageGet hash' =>
    obtain ⟨_, rfl⟩ := h
    rfl
  case streamGet key =>
    obtain ⟨_, rfl⟩ := h
    rfl
  case rangeTopics topics =>
    obtain ⟨_, rfl⟩ := h
    rfl
  all_goals
    cases h
    rfl

/-- Whoever is about to store a hash is alone in that, and the hash is not in the map. -/
def Alone (c : ProxyConfig) : Prop :=
  ∀ i hash, AboutToPut c i hash →
    c.state.messages hash = false ∧ ∀ j, AboutToPut c j hash → j = i

theorem aboutToPut_update
    {c : ProxyConfig} {j : ProxyParty} {p : ProxyProg Unit} {m : ProxyState}
    (hj : j ≠ i) :
    AboutToPut ⟨Function.update c.progs i p, m⟩ j hash ↔ AboutToPut c j hash := by
  simp only [AboutToPut, Function.update_of_ne hj]

/-- A goroutine that is about to store a hash after a step has looked it up in that
step, or was about to store it before and did not move. -/
theorem aboutToPut_step
    (hrun : Run proxySem G (input.config s st) tr d)
    {e : ProxyEvent} {d' : ProxyConfig}
    (hguard : G d e)
    (hstep : Step proxySem d e d')
    (h : AboutToPut d' i hash) :
    e = ⟨i, .messageGet hash, false⟩ ∨ i ≠ e.thread ∧ AboutToPut d i hash := by
  by_cases hi : i = e.thread
  · subst hi
    have hlast := getLast_of_aboutToPut (Run.snoc hrun hguard hstep) h
    rw [callsOf_append, callsOf_singleton, if_pos rfl, List.getLast?_append] at hlast
    obtain ⟨i, o, r⟩ := e
    have hcall : (⟨o, r⟩ : ProxyCall) = ⟨.messageGet hash, false⟩ := by
      simpa [Event.call] using hlast
    cases hcall
    exact Or.inl rfl
  · refine Or.inr ⟨hi, ?_⟩
    cases hstep with
    | thread hprog hsem => exact (aboutToPut_update hi).mp h

/-- One step of a run in which nobody looks up a hash that another is about to store. -/
theorem Alone.step
    (hrun : Run proxySem ChecksAlone (input.config s st) tr d)
    (h : Alone d)
    {e : ProxyEvent} {d' : ProxyConfig}
    (hguard : ChecksAlone d e)
    (hstep : Step proxySem d e d') :
    Alone d' := by
  intro i hash hput
  rcases aboutToPut_step hrun hguard hstep hput with rfl | ⟨hi, hold⟩
  · -- the step is the lookup itself: it missed, and nobody else was about to store
    refine ⟨?_, ?_⟩
    · cases hstep with
      | thread hprog hsem =>
          obtain ⟨hmiss, rfl⟩ := hsem
          exact hmiss.symm
    · intro j hj
      by_contra hne
      rcases aboutToPut_step hrun hguard hstep hj with heq | ⟨_, hj'⟩
      · exact hne (congrArg Event.thread heq).symm
      · exact hguard hash rfl j hne hj'
  · obtain ⟨hmissing, halone⟩ := h i hash hold
    refine ⟨?_, ?_⟩
    · -- only a store of the same hash could have added it, and that was not possible
      have hcell : d'.state.messages hash =
          (written hash e.call).getD (d.state.messages hash) := by
        cases hstep with
        | thread hprog hsem => exact writes_messages hash _ _ _ _ hsem
      rw [hcell, hmissing]
      cases hstep with
      | @thread j o k r t hprog hsem =>
          cases o
          case messagePut hash' =>
            have hne : hash' ≠ hash := by
              intro heq
              subst heq
              exact hi (halone j ⟨k, hprog⟩).symm
            simp [written, Event.call, hne]
          case messageExpire hash' =>
            by_cases heq : hash' = hash <;> simp [written, Event.call, heq]
          all_goals rfl
    · intro j hj
      rcases aboutToPut_step hrun hguard hstep hj with rfl | ⟨_, hj'⟩
      · exact absurd hold (hguard hash rfl i hi)
      · exact halone j hj'

/-- In such a run, a hash that is about to be stored is not in the map. -/
theorem alone_of_run
    (hrun : Run proxySem ChecksAlone (input.config s st) tr d) :
    Alone d := by
  induction hrun with
  | nil =>
      intro i hash hput
      have hlast := getLast_of_aboutToPut (G := anyStep) (Run.nil (input.config s st)) hput
      cases hlast
  | snoc front hguard hstep ih => exact Alone.step front ih hguard hstep

/-- A hash is stored again only after it has left the map. -/
theorem expired_between
    {a m b : List ProxyEvent} {j : ProxyParty}
    (hrun : Run proxySem ChecksAlone (input.config s st)
      (a ++ ⟨i, .messagePut hash, ()⟩ :: (m ++ ⟨j, .messagePut hash, ()⟩ :: b)) d) :
    ∃ k, ⟨k, .messageExpire hash, ()⟩ ∈ m := by
  have hprefix : (a ++ ⟨i, .messagePut hash, ()⟩ :: m) ++ [⟨j, .messagePut hash, ()⟩] <+:
      a ++ ⟨i, .messagePut hash, ()⟩ :: (m ++ ⟨j, .messagePut hash, ()⟩ :: b) :=
    ⟨b, by simp⟩
  obtain ⟨d₁, hbefore⟩ := hrun.before hprefix
  obtain ⟨d₀, hfront, _, hstep⟩ := hbefore.of_snoc
  -- the second store finds the hash missing
  have hmissing : d₀.state.messages hash = false := by
    cases hstep with
    | thread hprog hsem => exact (alone_of_run hfront j hash ⟨_, hprog⟩).1
  -- the first store put it there, so something between them removed it
  obtain ⟨u, v, _, hput, hbetween⟩ := hfront.split_at
  have hpresent : v.messages hash = true := by
    cases hput
    simp
  have hcell := hbetween.cell (writes_messages hash)
  simp only [hmissing, hpresent] at hcell
  cases hlast : lastWrite (written hash) (m.map Event.call) with
  | none =>
      rw [hlast] at hcell
      cases hcell
  | some x =>
      rw [hlast] at hcell
      obtain ⟨c, hc, hx⟩ := lastWrite_eq_some hlast
      obtain rfl : false = x := hcell
      obtain ⟨⟨k, o, r⟩, he, rfl⟩ := List.mem_map.mp hc
      cases o
      case messageExpire hash' =>
        by_cases heq : hash' = hash
        · subst heq
          exact ⟨k, he⟩
        · simp [written, Event.call, heq] at hx
      case messagePut hash' =>
        by_cases heq : hash' = hash <;> simp [written, Event.call, heq] at hx
      all_goals cases hx

end Runs

section Counting

variable {hashOf : Bytes → UInt64} {net : Source}

def storesHash (hash : UInt64) (c : ProxyCall) : Bool :=
  c.1.stored == some hash

/-- The payload is published, on whatever network. -/
def publishesPayload (b : Bytes) (c : ProxyCall) : Bool :=
  c.1.published.any fun p => p.2 == b

theorem ProxyOp.published_of_stored
    {o : ProxyOp} {hash : UInt64}
    (h : o.stored = some hash) :
    o.published = none := by
  cases o
  case messagePut => rfl
  all_goals cases h

/-- A goroutine publishes a payload at most as often as it stores its hash. -/
theorem publications_le
    {calls : List ProxyCall}
    (h : ∀ before o r after, calls = before ++ ⟨o, r⟩ :: after →
      Obligation hashOf net before o)
    (b : Bytes) :
    calls.countP (publishesPayload b) +
      (if licence calls = some (hashOf b) then 1 else 0) ≤
      calls.countP (storesHash (hashOf b)) := by
  induction calls using List.reverseRecOn with
  | nil => simp [licence]
  | append_singleton calls c ih =>
      have hfront := ih (by
        intro before o r after hsplit
        exact h before o r (after ++ [c]) (by rw [hsplit]; simp))
      obtain ⟨o, r⟩ := c
      have hlast := h calls o r [] rfl
      rw [licence_append_singleton, List.countP_append, List.countP_append]
      cases hstored : o.stored with
      | some hash =>
          -- a store opens a licence and publishes nothing
          have hpublished := ProxyOp.published_of_stored hstored
          have hstores : [(⟨o, r⟩ : ProxyCall)].countP
              (storesHash (hashOf b)) = if hash = hashOf b then 1 else 0 := by
            simp [storesHash, hstored]
          have hpublishes : [(⟨o, r⟩ : ProxyCall)].countP
              (publishesPayload b) = 0 := by
            simp [publishesPayload, hpublished]
          simp only [hstores, hpublishes, Option.some.injEq]
          split at hfront <;> omega
      | none =>
          have hstores : [(⟨o, r⟩ : ProxyCall)].countP
              (storesHash (hashOf b)) = 0 := by
            simp [storesHash, hstored]
          cases hpublished : o.published with
          | none =>
              have hpublishes : [(⟨o, r⟩ : ProxyCall)].countP
                  (publishesPayload b) = 0 := by
                simp [publishesPayload, hpublished]
              simp only [hstores, hpublishes, Option.isSome_none, Bool.false_eq_true,
                if_false]
              omega
          | some p =>
              -- a publication uses the licence of its own hash
              obtain ⟨_, hlicence⟩ := hlast.2 p.1 p.2 hpublished
              have hpublishes : [(⟨o, r⟩ : ProxyCall)].countP
                  (publishesPayload b) = if p.2 = b then 1 else 0 := by
                simp [publishesPayload, hpublished]
              simp only [hstores, hpublishes, Option.isSome_some, if_true,
                reduceCtorEq, if_false]
              by_cases hb : p.2 = b
              · rw [hlicence, hb, if_pos rfl] at hfront
                rw [if_pos hb]
                omega
              · rw [if_neg hb]
                omega

theorem mem_of_licence
    {calls : List ProxyCall} {hash : UInt64}
    (h : licence calls = some hash) :
    ⟨.messagePut hash, ()⟩ ∈ calls := by
  induction calls using List.reverseRecOn with
  | nil => cases h
  | append_singleton calls c ih =>
      obtain ⟨o, r⟩ := c
      rw [licence_append_singleton] at h
      cases hstored : o.stored with
      | some hash' =>
          simp only [hstored, Option.some.injEq] at h
          subst h
          cases o
          case messagePut hash' =>
            cases hstored
            simp
          all_goals cases hstored
      | none =>
          simp only [hstored] at h
          split at h
          · cases h
          · exact List.mem_append_left _ (ih h)

end Counting

section Main

variable {s : ProxyService} {input : ProxyInput} {st : ProxyState}
variable {tr : List ProxyEvent} {d : ProxyConfig}

/-- The hash of the payload stays in the map once it is there. -/
def Stays (hash : UInt64) (tr : List ProxyEvent) : Prop :=
  ∀ k, ⟨k, .messageExpire hash, ()⟩ ∉ tr

/-- What is asked of a run for one payload: it is new again only after its hash has left
the map; while the hash stays, it is published at most once in all, and only by the
goroutine for which it was new, on the other network. -/
structure ForwardsOnce
    (hashOf : Bytes → UInt64)
    (tr : List ProxyEvent)
    (b : Bytes) : Prop where
  new_once : ∀ before between after i j,
    tr = before ++ ⟨i, .messagePut (hashOf b), ()⟩ ::
      (between ++ ⟨j, .messagePut (hashOf b), ()⟩ :: after) →
    ∃ k, ⟨k, .messageExpire (hashOf b), ()⟩ ∈ between
  published_once : Stays (hashOf b) tr →
    (tr.map Event.call).countP (publishesPayload b) ≤ 1
  no_echo : Stays (hashOf b) tr → ∀ i e net, ⟨i, .messagePut (hashOf b), ()⟩ ∈ tr →
    e ∈ tr → e.op.published = some (net, b) → e.thread = i ∧ net = i.network

variable (hrun : Run proxySem ChecksAlone (input.config s st) tr d)
include hrun

theorem stored_once
    {hash : UInt64}
    (hstays : Stays hash tr) :
    (tr.map Event.call).countP (storesHash hash) ≤ 1 := by
  refine countP_calls_le_one ?_
  intro before between after e e' htr he he'
  obtain ⟨i, o, r⟩ := e
  obtain ⟨j, o', r'⟩ := e'
  have hput : ∀ {o : ProxyOp} {r : o.Ans}, storesHash hash ⟨o, r⟩ = true →
      (⟨o, r⟩ : ProxyCall) = ⟨.messagePut hash, ()⟩ := by
    intro o r h
    have hstored : o.stored = some hash := by
      simpa [storesHash] using h
    cases o
    case messagePut hash' =>
      cases hstored
      rfl
    all_goals cases hstored
  cases hput he
  cases hput he'
  subst htr
  obtain ⟨k, hk⟩ := expired_between hrun
  exact hstays k (by simp [hk])

/-- Two goroutines do not both find a payload new while its hash stays in the map. -/
theorem stored_by_one
    {hash : UInt64} {i j : ProxyParty}
    (hstays : Stays hash tr)
    (hi : ⟨i, .messagePut hash, ()⟩ ∈ tr)
    (hj : ⟨j, .messagePut hash, ()⟩ ∈ tr) :
    j = i := by
  by_contra hne
  obtain ⟨a, b, rfl⟩ := List.append_of_mem hi
  rcases List.mem_append.mp hj with hbefore | hafter
  · obtain ⟨a₁, a₂, rfl⟩ := List.append_of_mem hbefore
    rw [List.append_assoc, List.cons_append] at hrun
    obtain ⟨k, hk⟩ := expired_between hrun
    exact hstays k (by simp [hk])
  · rcases List.mem_cons.mp hafter with heq | hafter
    · exact hne (congrArg Event.thread heq)
    · obtain ⟨b₁, b₂, rfl⟩ := List.append_of_mem hafter
      obtain ⟨k, hk⟩ := expired_between hrun
      exact hstays k (by simp [hk])

theorem publishes_le_stores
    (b : Bytes) :
    (tr.map Event.call).countP (publishesPayload b) ≤
      (tr.map Event.call).countP (storesHash (s.lib.xxHash b)) := by
  refine countP_calls_le ?_
  intro i
  have hle : (callsOf i tr).countP (publishesPayload b) + _ ≤ _ := publications_le
    (fun before o r after hsplit => obligation_of_run hrun hsplit) b
  omega

theorem stored_of_published
    {e : ProxyEvent} {net : Source} {b : Bytes}
    (he : e ∈ tr)
    (hpublished : e.op.published = some (net, b)) :
    net = e.thread.network ∧ ⟨e.thread, .messagePut (s.lib.xxHash b), ()⟩ ∈ tr := by
  obtain ⟨before, after, hsplit⟩ := List.append_of_mem (call_mem_callsOf he)
  obtain ⟨hnet, hlicence⟩ := (obligation_of_run hrun hsplit).2 net b hpublished
  refine ⟨hnet, mem_of_mem_callsOf ?_⟩
  rw [hsplit]
  exact List.mem_append_left _ (mem_of_licence hlicence)

omit hrun

/-- In every run in which nobody looks up a hash that another goroutine is about to
store, a payload is new at most once while its hash stays in the map, and it is forwarded
in at most one direction.  A verdict is `false` exactly when the hash is stored. -/
theorem forwards_once_of_checksAlone
    (hrun : Run proxySem ChecksAlone (input.config s st) tr d)
    (b : Bytes) :
    (∀ l verdict, Path (isDuplicateMessage s b) l (.ret verdict) →
      (verdict = false ↔ ⟨.messagePut (s.lib.xxHash b), ()⟩ ∈ l)) ∧
      ForwardsOnce s.lib.xxHash tr b := by
  refine ⟨?_, ?_, ?_, ?_⟩
  · intro l verdict hpath
    rcases isDuplicateMessage_path s hpath with ⟨rfl, rfl⟩ | ⟨rfl, rfl⟩
    · simp
    · simp
  · intro before between after i j htr
    subst htr
    exact expired_between hrun
  · intro hstays
    exact (publishes_le_stores hrun b).trans (stored_once hrun hstays)
  · intro hstays i e net hstored he hpublished
    obtain ⟨hnet, hown⟩ := stored_of_published hrun he hpublished
    have hthread := stored_by_one hrun hstays hstored hown
    rw [hthread] at hnet
    exact ⟨hthread, hnet⟩

end Main

section Paths

variable {s : ProxyService}

theorem path_isDuplicateMessage
    (b : Bytes)
    (duplicate : Bool) :
    Path (isDuplicateMessage s b)
      (⟨.messageGet (s.lib.xxHash b), duplicate⟩ ::
        if duplicate then [] else [⟨.messagePut (s.lib.xxHash b), ()⟩])
      (.ret duplicate) := by
  cases duplicate with
  | true => exact Path.cons (Path.nil _)
  | false => exact Path.cons (Path.cons (Path.nil _))

/-- A block of the current slot, measured without consumers. -/
theorem path_processBeaconBlockArrival
    {topic : String} {msg : Bytes} {block : SignedBeaconBlockHeader}
    (hhub : s.hasStreamHub = false)
    (hdecode : decodeBeaconBlockHeader s.lib.snappy msg = .ok block)
    (recvAt : Int64)
    (source : Source)
    (originGatewayID upstreamPeerID : String) :
    Path (processBeaconBlockArrival s topic msg recvAt source originGatewayID upstreamPeerID)
      [⟨.lastBlockStore recvAt, ()⟩,
        ⟨.handleBeaconBlock ⟨source, block.header.slot, block.header.proposerIndex,
          msg.length, recvAt, originGatewayID, upstreamPeerID⟩, ()⟩,
        ⟨.currentSlot, block.header.slot⟩]
      (.ret (block.header.slot, true)) := by
  have hfresh : decide (diffUint64 block.header.slot block.header.slot >
      staleSlotThreshold) = false := by
    simp [diffUint64, staleSlotThreshold]
  have hstream : ∀ stale, streamObservation s block.header topic msg recvAt source stale =
      .ret () := by
    intro stale
    simp [streamObservation, hhub]
  unfold processBeaconBlockArrival
  simp only [hdecode, hstream]
  refine Path.cons (Path.cons (Path.cons ?_))
  show Path (.ret (block.header.slot, !decide (diffUint64 block.header.slot
    block.header.slot > staleSlotThreshold))) [] _
  rw [hfresh]
  exact Path.nil _

/-- The CL handler forwards a fresh block that it finds new, and drops one that it does
not. -/
theorem path_handleMessageFromCL
    {msg : CLMessage} {slot : UInt64} {recvAt : Int64}
    {arrival : List ProxyCall}
    (hblock : (parseTopicMeta msg.topic).isBeaconBlock = true)
    (hmum : s.hasMumP2P = true)
    (hslot : slot > 0)
    (harrival : Path (processBeaconBlockArrival s msg.topic msg.message recvAt .libP2P ""
      msg.receivedFrom) arrival (.ret (slot, true)))
    (publishedAt : Int64) :
    Path (handleMessageFromCL s msg)
      (⟨.topicSupported msg.topic, true⟩ :: ⟨.unixMilli, recvAt⟩ :: (arrival ++
        ([⟨.messageGet (s.lib.xxHash msg.message), false⟩,
          ⟨.messagePut (s.lib.xxHash msg.message), ()⟩] ++
        [⟨.unixMilli, publishedAt⟩, ⟨.mumP2PPublish msg.topic msg.message, none⟩,
          ⟨.recordMumPublishedAt slot publishedAt, ()⟩])))
      (.ret ()) := by
  unfold handleMessageFromCL
  rw [if_pos hblock]
  refine Path.cons (Path.cons (harrival.bind ?_))
  refine (path_isDuplicateMessage msg.message false).bind ?_
  simp only [forwardCLBeaconBlock, hmum]
  refine Path.cons (Path.cons ?_)
  simp only [hslot]
  exact Path.cons (Path.nil _)

section MeshHandler

variable {msg : P2PMessage} {slot : UInt64} {recvAt : Int64} {arrival : List ProxyCall}
variable (hblock : (parseTopicMeta msg.topic).isBeaconBlock = true)
include hblock

/-- The mesh handler measures a block that it does not skip before it decides about it. -/
theorem path_measuredBlock
    {fresh : Bool} {skip rest : List ProxyCall}
    (hskip : Path (skipFromSelf s msg) skip (.ret false))
    (harrival : Path (processBeaconBlockArrival s msg.topic msg.message recvAt .mumP2P
      msg.sourceNodeID msg.upstreamPeerID) arrival (.ret (slot, fresh)))
    (hrest : Path (if !fresh || messageFromSelf s msg then pure () else do
      let duplicate ← isDuplicateMessage s msg.message
      if duplicate then pure () else dispatchMumP2PMessage s msg slot) rest (.ret ())) :
    Path (handleMessageFromMumP2PNode s msg)
      (⟨.topicSupported msg.topic, true⟩ :: (skip ++ ⟨.unixMilli, recvAt⟩ :: (arrival ++ rest)))
      (.ret ()) := by
  refine Path.cons (hskip.bind ?_)
  simp only [Bool.false_eq_true, if_false, measureMumP2PArrival, hblock, if_true]
  exact Path.cons (harrival.bind hrest)

variable (hself : messageFromSelf s msg = false)
include hself

omit hblock in
theorem path_skipFromSelf :
    Path (skipFromSelf s msg) [] (.ret false) := by
  rw [skipFromSelf, hself]
  exact Path.nil _

/-- The mesh handler forwards a fresh block that it finds new, and drops one that it does
not. -/
theorem path_handleMessageFromMumP2PNode
    (harrival : Path (processBeaconBlockArrival s msg.topic msg.message recvAt .mumP2P
      msg.sourceNodeID msg.upstreamPeerID) arrival (.ret (slot, true)))
    (duplicate : Bool) :
    Path (handleMessageFromMumP2PNode s msg)
      (⟨.topicSupported msg.topic, true⟩ :: ⟨.unixMilli, recvAt⟩ :: (arrival ++
        ((⟨.messageGet (s.lib.xxHash msg.message), duplicate⟩ ::
          if duplicate then [] else [⟨.messagePut (s.lib.xxHash msg.message), ()⟩]) ++
        if duplicate then [] else
          [⟨.propagationEnabled, true⟩,
            ⟨.shouldForwardToCLP2P .beaconBlock slot msg.message, true⟩,
            ⟨.topicLoad msg.topic, true⟩, ⟨.clPublish msg.topic msg.message, none⟩])))
      (.ret ()) := by
  refine path_measuredBlock hblock (path_skipFromSelf hself) harrival ?_
  rw [hself]
  refine (path_isDuplicateMessage msg.message duplicate).bind ?_
  cases duplicate with
  | true => exact Path.nil _
  | false =>
      simp only [dispatchMumP2PMessage, hblock, if_true, Bool.false_eq_true, if_false]
      exact Path.cons (Path.cons (Path.cons (Path.cons (Path.nil _))))

end MeshHandler

end Paths

section Sample

/-- A gateway with a mesh node and without consumers. -/
def sampleService : ProxyService where
  lib := sampleLibraries
  hasMumP2P := true
  nodeMumP2PStr := "16Uiu2HAmGateway"
  hasStreamHub := false
  gatewayID := "gateway-1"

def blockTopic : String := "/eth2/6a95a1a9/beacon_block/ssz_snappy"

def blockSlot : UInt64 := 12345678

/-- A block at slot 12345678 of proposer 7, as a snappy block. -/
def sampleBlock : Bytes :=
  literalSnappy.encode (leBytes 4 100 ++ List.replicate 96 1 ++ putUint64 blockSlot ++
    putUint64 7 ++ List.replicate 96 2)

def sampleHeader : SignedBeaconBlockHeader where
  header := ⟨blockSlot, 7, List.replicate 32 2, List.replicate 32 2, none⟩
  signature := List.replicate 96 1

theorem decode_sampleBlock :
    decodeBeaconBlockHeader sampleService.lib.snappy sampleBlock = .ok sampleHeader := by
  exact eq_ok_of_toOption (by decide +kernel)

theorem isBeaconBlock_blockTopic :
    (parseTopicMeta blockTopic).isBeaconBlock = true := by
  decide +kernel

def clBlock : CLMessage :=
  ⟨blockTopic, sampleBlock, "16Uiu2HAmCLPeer"⟩

def meshBlock : P2PMessage :=
  ⟨blockTopic, sampleBlock, "16Uiu2HAmOther", "16Uiu2HAmOther"⟩

/-- The same block from both networks. -/
def sampleInput : ProxyInput :=
  ⟨[clBlock], [meshBlock], [], []⟩

def emptyCaches : ProxyState :=
  ⟨fun _ => false, fun _ => false⟩

/-- The calls for a block up to the answer of the map. -/
def lookupCalls
    (source : Source)
    (recvAt : Int64)
    (originGatewayID upstreamPeerID : String)
    (duplicate : Bool) : List ProxyCall :=
  [⟨.topicSupported blockTopic, true⟩, ⟨.unixMilli, recvAt⟩, ⟨.lastBlockStore recvAt, ()⟩,
    ⟨.handleBeaconBlock ⟨source, blockSlot, 7, sampleBlock.length, recvAt, originGatewayID,
      upstreamPeerID⟩, ()⟩,
    ⟨.currentSlot, blockSlot⟩,
    ⟨.messageGet (sampleService.lib.xxHash sampleBlock), duplicate⟩]

/-- What the CL handler does with a block it finds new. -/
def forwardToMumP2PCalls (publishedAt : Int64) : List ProxyCall :=
  [⟨.messagePut (sampleService.lib.xxHash sampleBlock), ()⟩, ⟨.unixMilli, publishedAt⟩,
    ⟨.mumP2PPublish blockTopic sampleBlock, none⟩,
    ⟨.recordMumPublishedAt blockSlot publishedAt, ()⟩]

/-- What the mesh handler does with a block it finds new. -/
def forwardToCLCalls : List ProxyCall :=
  [⟨.messagePut (sampleService.lib.xxHash sampleBlock), ()⟩, ⟨.propagationEnabled, true⟩,
    ⟨.shouldForwardToCLP2P .beaconBlock blockSlot sampleBlock, true⟩,
    ⟨.topicLoad blockTopic, true⟩, ⟨.clPublish blockTopic sampleBlock, none⟩]

theorem path_cl
    (recvAt publishedAt : Int64) :
    Path (handleMessagesFromCL sampleService [clBlock])
      (lookupCalls .libP2P recvAt "" "16Uiu2HAmCLPeer" false ++
        forwardToMumP2PCalls publishedAt)
      (.ret ()) := by
  have harrival : Path (processBeaconBlockArrival sampleService clBlock.topic
      clBlock.message recvAt .libP2P "" clBlock.receivedFrom) _ _ :=
    path_processBeaconBlockArrival rfl decode_sampleBlock recvAt .libP2P "" _
  have hblock : (parseTopicMeta clBlock.topic).isBeaconBlock = true := isBeaconBlock_blockTopic
  have hhandle := path_handleMessageFromCL hblock rfl (by decide) harrival publishedAt
  have hall := hhandle.bind (f := fun _ => .ret ()) (Path.nil _)
  rw [List.append_nil] at hall
  exact hall

theorem path_mumP2P
    (recvAt : Int64)
    (duplicate : Bool) :
    Path (handleMessagesFromMumP2PNode sampleService [meshBlock])
      (lookupCalls .mumP2P recvAt "16Uiu2HAmOther" "16Uiu2HAmOther" duplicate ++
        if duplicate then [] else forwardToCLCalls)
      (.ret ()) := by
  have harrival : Path (processBeaconBlockArrival sampleService meshBlock.topic
      meshBlock.message recvAt .mumP2P meshBlock.sourceNodeID meshBlock.upstreamPeerID) _ _ :=
    path_processBeaconBlockArrival rfl decode_sampleBlock recvAt .mumP2P _ _
  have hblock : (parseTopicMeta meshBlock.topic).isBeaconBlock = true := isBeaconBlock_blockTopic
  have hhandle := path_handleMessageFromMumP2PNode hblock (by decide) harrival duplicate
  have hall := hhandle.bind (f := fun _ => .ret ()) (Path.nil _)
  rw [List.append_nil] at hall
  cases duplicate with
  | true | false => exact hall

/-- A goroutine runs a segment alone. -/
def alone
    (i : ProxyParty)
    (calls : List ProxyCall) : List ProxyEvent :=
  calls.map fun x => ⟨i, x.1, x.2⟩

/-- Both handlers look the block up before either has stored it. -/
def racingTrace : List ProxyEvent :=
  alone .cl (lookupCalls .libP2P 1000 "" "16Uiu2HAmCLPeer" false) ++
    (alone .mumP2P (lookupCalls .mumP2P 1001 "16Uiu2HAmOther" "16Uiu2HAmOther" false) ++
      (alone .cl (forwardToMumP2PCalls 1002) ++ alone .mumP2P forwardToCLCalls))

theorem exec_lookupCalls
    (source : Source)
    (recvAt : Int64)
    (originGatewayID upstreamPeerID : String)
    (st : ProxyState) :
    Exec proxySem st (lookupCalls source recvAt originGatewayID upstreamPeerID
      (st.messages (sampleService.lib.xxHash sampleBlock))) st := by
  exact Exec.cons rfl (Exec.cons rfl (Exec.cons rfl (Exec.cons rfl (Exec.cons rfl
    (Exec.cons ⟨rfl, rfl⟩ (Exec.nil _))))))

/-- The state once the block is stored. -/
def blockStored (st : ProxyState) : ProxyState :=
  { st with messages :=
      Function.update st.messages (sampleService.lib.xxHash sampleBlock) true }

theorem exec_forwardToMumP2PCalls
    (publishedAt : Int64)
    (st : ProxyState) :
    Exec proxySem st (forwardToMumP2PCalls publishedAt) (blockStored st) := by
  exact Exec.cons rfl (Exec.cons rfl (Exec.cons rfl (Exec.cons rfl (Exec.nil _))))

theorem exec_forwardToCLCalls
    (st : ProxyState) :
    Exec proxySem st forwardToCLCalls (blockStored st) := by
  exact Exec.cons rfl (Exec.cons rfl (Exec.cons rfl (Exec.cons rfl (Exec.cons rfl
    (Exec.nil _)))))

theorem calls_alone
    (i : ProxyParty)
    (calls : List ProxyCall) :
    (alone i calls).map Event.call = calls := by
  exact calls_map i calls

theorem callsOf_alone
    (i j : ProxyParty)
    (calls : List ProxyCall) :
    callsOf i (alone j calls) = if j = i then calls else [] := by
  exact callsOf_map i j calls

theorem run_racingTrace :
    Run proxySem anyStep (sampleInput.config sampleService emptyCaches) racingTrace
      ⟨fun _ => .ret (), blockStored (blockStored emptyCaches)⟩ := by
  refine run_of_paths ?_ ?_
  · intro i
    simp only [racingTrace, callsOf_append, callsOf_alone]
    cases i with
    | cl => exact path_cl 1000 1002
    | mumP2P => exact path_mumP2P 1001 false
    | aggregator | caches => exact Path.nil _
  · simp only [racingTrace, List.map_append, calls_alone]
    refine Exec.append (exec_lookupCalls .libP2P 1000 _ _ _) ?_
    refine Exec.append (exec_lookupCalls .mumP2P 1001 _ _ _) ?_
    exact Exec.append (exec_forwardToMumP2PCalls _ _) (exec_forwardToCLCalls _)

/-- Nothing leaves the map in the race. -/
theorem stays_racingTrace :
    Stays (sampleService.lib.xxHash sampleBlock) racingTrace := by
  simp [Stays, racingTrace, alone, lookupCalls, forwardToMumP2PCalls, forwardToCLCalls]

/-- The two handlers forward one block in both directions while its hash stays in the
map. -/
theorem both_directions_of_race :
    ∃ tr d, Run proxySem anyStep (sampleInput.config sampleService emptyCaches) tr d ∧
      Stays (sampleService.lib.xxHash sampleBlock) tr ∧
      ⟨.cl, .messageGet (sampleService.lib.xxHash sampleBlock), false⟩ ∈ tr ∧
      ⟨.mumP2P, .messageGet (sampleService.lib.xxHash sampleBlock), false⟩ ∈ tr ∧
      ⟨.cl, .mumP2PPublish blockTopic sampleBlock, none⟩ ∈ tr ∧
      ⟨.mumP2P, .clPublish blockTopic sampleBlock, none⟩ ∈ tr ∧
      ¬ ForwardsOnce sampleService.lib.xxHash tr sampleBlock := by
  have hcl : (⟨.cl, .messagePut (sampleService.lib.xxHash sampleBlock), ()⟩ :
      ProxyEvent) ∈ racingTrace := by
    simp [racingTrace, alone, forwardToMumP2PCalls]
  have hmesh : (⟨.mumP2P, .clPublish blockTopic sampleBlock, none⟩ :
      ProxyEvent) ∈ racingTrace := by
    simp [racingTrace, alone, forwardToCLCalls]
  refine ⟨racingTrace, _, run_racingTrace, stays_racingTrace, ?_, ?_, ?_, hmesh, ?_⟩
  · simp [racingTrace, alone, lookupCalls]
  · simp [racingTrace, alone, lookupCalls]
  · simp [racingTrace, alone, forwardToMumP2PCalls]
  · intro honce
    have hecho := (honce.no_echo stays_racingTrace .cl _ .libP2P hcl hmesh rfl).1
    cases hecho

/-- The CL handler forwards the block, then the mesh handler finds it. -/
def quietTrace : List ProxyEvent :=
  alone .cl (lookupCalls .libP2P 1000 "" "16Uiu2HAmCLPeer" false ++
      forwardToMumP2PCalls 1001) ++
    alone .mumP2P (lookupCalls .mumP2P 1002 "16Uiu2HAmOther" "16Uiu2HAmOther" true)

theorem run_quietTrace :
    ∃ d, Run proxySem ChecksAlone (sampleInput.config sampleService emptyCaches)
      quietTrace d := by
  have hstored : (blockStored emptyCaches).messages
      (sampleService.lib.xxHash sampleBlock) = true := by
    simp [blockStored]
  have hlookup := exec_lookupCalls .mumP2P 1002 "16Uiu2HAmOther" "16Uiu2HAmOther"
    (blockStored emptyCaches)
  rw [hstored] at hlookup
  -- While one handler works, the other has not started or has finished.
  have hfirst := run_of_path (G := ChecksAlone) (i := .cl)
    (c := sampleInput.config sampleService emptyCaches)
    (path_cl 1000 1001)
    (Exec.append (exec_lookupCalls .libP2P 1000 _ _ _) (exec_forwardToMumP2PCalls 1001 _))
    (by
      intro p m o r hash _ j hj hput
      obtain ⟨k, hk⟩ := hput
      cases j with
      | cl => exact hj rfl
      | mumP2P | aggregator => cases hk
      | caches => cases hk)
  have hsecond := run_of_path (G := ChecksAlone) (i := .mumP2P)
    (c := ⟨Function.update (sampleInput.config sampleService emptyCaches).progs .cl (.ret ()),
      blockStored emptyCaches⟩)
    (path_mumP2P 1002 true)
    ((List.append_nil (lookupCalls .mumP2P 1002 _ _ true)).symm ▸ hlookup)
    (by
      intro p m o r hash _ j hj hput
      obtain ⟨k, hk⟩ := hput
      cases j with
      | cl => cases hk
      | mumP2P => exact hj rfl
      | aggregator => cases hk
      | caches => cases hk)
  have hall := hfirst.trans hsecond
  exact ⟨_, hall⟩

/-- In that run the block goes to the mesh and nowhere else. -/
theorem forwards_once_sample :
    ∃ d, Run proxySem ChecksAlone (sampleInput.config sampleService emptyCaches)
      quietTrace d ∧
      ⟨.cl, .mumP2PPublish blockTopic sampleBlock, none⟩ ∈ quietTrace ∧
      ForwardsOnce sampleService.lib.xxHash quietTrace sampleBlock := by
  obtain ⟨d, hrun⟩ := run_quietTrace
  refine ⟨d, hrun, ?_, (forwards_once_of_checksAlone hrun sampleBlock).2⟩
  simp [quietTrace, alone, forwardToMumP2PCalls]

end Sample

end GossipsubGateway
end OptimumGateway
