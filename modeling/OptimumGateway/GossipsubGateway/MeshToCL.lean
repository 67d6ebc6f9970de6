import OptimumGateway.GossipsubGateway.NoEcho
import OptimumGateway.MessageRouter.Forwarding

/-!
# What the mesh can make the gateway publish to its CL

The checks before a publication to the CL are spread over the handlers of the mesh, the
router and the token manager.  They are collected here: `Warrant` is what the calls of the
handler since it took a message say about a publication, and
`warrant_of_path` shows that every publication has one.

The decision of the router is not one operation.  The programs of the handlers are
therefore implemented: the question to the router becomes its program, whose reads are
answered one by one.  Role, token, propagation switch, joined topics, current slot and
accelerate list are an environment that other goroutines may replace between any two
operations.  `Vetted` says what was the case at some moment of the handling of the
message; if the environment does not change meanwhile, that is one moment.
-/

namespace OptimumGateway
namespace GossipsubGateway

open Foundation Foundation.Prog Protocol Aggregator MessageRouter Auth

section Warrants

variable (s : ProxyService) (msg : P2PMessage)

/-- The calls since the message was taken speak for a block. -/
def BlockWarrant
    (since : List ProxyCall)
    (topic : String)
    (data : Bytes) : Prop :=
  topic = msg.topic ∧ data = msg.message ∧ (parseTopicMeta topic).isBeaconBlock = true ∧
    ∃ block currentSlot, decodeBeaconBlockHeader s.lib.snappy data = .ok block ∧
      ⟨.currentSlot, currentSlot⟩ ∈ since ∧
      ¬ diffUint64 block.header.slot currentSlot > staleSlotThreshold ∧
      ⟨.shouldForwardToCLP2P .beaconBlock block.header.slot data, true⟩ ∈ since

/-- The calls since the message was taken speak for an attestation. -/
def AttestationWarrant
    (since : List ProxyCall)
    (topic : String)
    (data : Bytes) : Prop :=
  (parseTopicMeta topic).isAttestation = true ∧
    (∃ att, decodeGossip s.lib.snappy data SingleAttestation.zero = .ok att) ∧
    ⟨.shouldForwardToCLP2P .attestation 0 data, true⟩ ∈ since

/-- The calls since the message was taken speak for a publication. -/
structure Warrant
    (since : List ProxyCall)
    (topic : String)
    (data : Bytes) : Prop where
  foreign : messageFromSelf s msg = false
  propagates : ⟨.propagationEnabled, true⟩ ∈ since
  joined : ⟨.topicLoad topic, true⟩ ∈ since
  stored : ⟨.messagePut (s.lib.xxHash data), ()⟩ ∈ since
  content : BlockWarrant s msg since topic data ∨ AttestationWarrant s since topic data

variable {s msg} in
theorem Warrant.mono
    {since since' : List ProxyCall} {topic : String} {data : Bytes}
    (h : Warrant s msg since topic data)
    (hsub : since ⊆ since') :
    Warrant s msg since' topic data := by
  obtain ⟨hforeign, hpropagates, hjoined, hstored, hcontent⟩ := h
  refine ⟨hforeign, hsub hpropagates, hsub hjoined, hsub hstored, ?_⟩
  rcases hcontent with ⟨htopic, hdata, hkind, block, currentSlot, hdecode, hslot, hdiff,
    hforward⟩ | ⟨hkind, hdecode, hforward⟩
  · exact Or.inl ⟨htopic, hdata, hkind, block, currentSlot, hdecode, hsub hslot, hdiff,
      hsub hforward⟩
  · exact Or.inr ⟨hkind, hdecode, hsub hforward⟩

/-- Publications to the CL have a warrant. -/
def NeedsWarrant (since : List ProxyCall) (op : ProxyOp) : Prop :=
  ∀ topic data, op = .clPublish topic data → Warrant s msg since topic data

/-- A program whose publications have a warrant, once some calls were made. -/
def Warranted {α : Type} (known : List ProxyCall) (p : ProxyProg α) : Prop :=
  ∀ since, known ⊆ since → p.Along (NeedsWarrant s msg) (fun _ _ => True) since

variable {s msg} {known : List ProxyCall}

theorem Quiet.needsWarrant
    {op : ProxyOp}
    (h : Quiet op)
    (since : List ProxyCall) :
    NeedsWarrant s msg since op := by
  intro topic data hop
  subst hop
  cases h.2

theorem warranted_skip :
    Warranted s msg known (pure () : ProxyProg Unit) := by
  intro since _
  trivial

theorem Warranted.op_bind
    {α : Type} {o : ProxyOp} {f : o.Ans → ProxyProg α}
    (ho : Quiet o)
    (hf : ∀ r, Warranted s msg (⟨o, r⟩ :: known) (f r)) :
    Warranted s msg known (proxy o >>= f) := by
  intro since hknown
  refine ⟨ho.needsWarrant since, ?_⟩
  intro r
  refine hf r _ (List.cons_subset.mpr ⟨by simp, ?_⟩)
  exact List.Subset.trans hknown (List.subset_append_left since _)

theorem along_quiet
    {α : Type} {p : ProxyProg α} {since : List ProxyCall}
    (hp : p.Forall Quiet)
    (hknown : known ⊆ since) :
    p.Along (NeedsWarrant s msg) (fun since' _ => known ⊆ since' ∧ True) since := by
  exact (Forall.along hp fun since' o ho => ho.needsWarrant since').subset hknown

theorem Warranted.quiet_bind
    {α β : Type} {p : ProxyProg α} {f : α → ProxyProg β}
    (hp : p.Forall Quiet)
    (hf : ∀ a, Warranted s msg known (f a)) :
    Warranted s msg known (p >>= f) := by
  intro since hknown
  exact (along_quiet hp hknown).bind fun since' a hsince => hf a since' hsince.1

theorem warranted_forEach
    {β : Type} {body : β → ProxyProg Unit}
    (h : ∀ x, Warranted s msg known (body x))
    (xs : List β) :
    Warranted s msg known (forEach body xs) := by
  induction xs with
  | nil => exact warranted_skip
  | cons x xs ih =>
      intro since hknown
      exact ((h x since hknown).subset hknown).bind fun since' _ hsince => ih since' hsince.1

/-- What follows the dedup of a payload knows that its hash was stored. -/
theorem warranted_dedup
    {b : Bytes} {p : ProxyProg Unit}
    (hp : Warranted s msg (⟨.messagePut (s.lib.xxHash b), ()⟩ :: known) p) :
    Warranted s msg known (do
      let duplicate ← isDuplicateMessage s b
      if duplicate then pure () else p) := by
  intro since hknown
  have hget : Quiet (.messageGet (s.lib.xxHash b)) := ⟨rfl, rfl⟩
  refine ⟨hget.needsWarrant since, ?_⟩
  intro r
  cases r with
  | true => exact trivial
  | false =>
      refine ⟨?_, ?_⟩
      · intro topic data hop
        cases hop
      · intro u
        refine hp _ (List.cons_subset.mpr ⟨by simp, ?_⟩)
        intro c hc
        simp [hknown hc]

end Warrants

section Handlers

variable {s : ProxyService} {msg : P2PMessage} {known : List ProxyCall}

/-- A payload is published on a topic that is joined. -/
theorem warranted_publishToCLTopic
    {data : Bytes} {topic : String}
    (h : ∀ since, known ⊆ since → ⟨.topicLoad topic, true⟩ ∈ since →
      Warrant s msg since topic data) :
    Warranted s msg known (do
      let _ ← publishToCLTopic data topic
      pure ()) := by
  intro since hknown
  have hload : Quiet (.topicLoad topic) := ⟨rfl, rfl⟩
  refine ⟨hload.needsWarrant since, ?_⟩
  intro ok
  cases ok with
  | false => exact trivial
  | true =>
      refine ⟨?_, fun _ => trivial⟩
      intro topic' data' hop
      cases hop
      exact h _ (List.Subset.trans hknown (List.subset_append_left since _)) (by simp)

variable (hself : messageFromSelf s msg = false)
include hself

theorem warranted_processMumP2PBeaconBlock
    {block : SignedBeaconBlockHeader} {currentSlot : UInt64}
    (hblock : (parseTopicMeta msg.topic).isBeaconBlock = true)
    (hdecode : decodeBeaconBlockHeader s.lib.snappy msg.message = .ok block)
    (hfresh : ¬ diffUint64 block.header.slot currentSlot > staleSlotThreshold)
    (hslot : ⟨.currentSlot, currentSlot⟩ ∈ known)
    (hstored : ⟨.messagePut (s.lib.xxHash msg.message), ()⟩ ∈ known) :
    Warranted s msg known (processMumP2PBeaconBlock msg block.header.slot) := by
  refine Warranted.op_bind (o := .propagationEnabled) ⟨rfl, rfl⟩ ?_
  intro enabled
  split
  · rename_i henabled
    cases henabled
    refine Warranted.op_bind
      (o := .shouldForwardToCLP2P .beaconBlock block.header.slot msg.message) ⟨rfl, rfl⟩ ?_
    intro forward
    split
    · rename_i hforward
      cases hforward
      refine warranted_publishToCLTopic ?_
      intro since hknown hjoined
      refine ⟨hself, hknown (by simp), hjoined, hknown (by simp [hstored]), Or.inl ?_⟩
      exact ⟨rfl, rfl, hblock, block, currentSlot, hdecode, hknown (by simp [hslot]), hfresh,
        hknown (by simp)⟩
    · exact warranted_skip
  · exact warranted_skip

theorem warranted_expandPayload
    {topic : String} {payload : Bytes}
    (hattestation : (parseTopicMeta topic).isAttestation = true)
    (hpropagates : ⟨.propagationEnabled, true⟩ ∈ known) :
    Warranted s msg known (expandPayload s topic (parseTopicMeta topic) payload) := by
  have hkind : (parseTopicMeta topic).kind = .attestation := by
    simpa [TopicMeta.isAttestation] using hattestation
  unfold expandPayload
  refine warranted_dedup ?_
  unfold forwardExpanded
  rw [hkind]
  refine Warranted.op_bind (o := .shouldForwardToCLP2P .attestation 0 payload) ⟨rfl, rfl⟩ ?_
  intro forward
  split
  · rename_i hforward
    cases hforward
    cases hdecode : decodeGossip s.lib.snappy payload SingleAttestation.zero with
    | error err => exact warranted_skip
    | ok att =>
        refine warranted_publishToCLTopic ?_
        intro since hknown hjoined
        refine ⟨hself, hknown (by simp [hpropagates]), hjoined, hknown (by simp), Or.inr ?_⟩
        exact ⟨hattestation, ⟨att, hdecode⟩, hknown (by simp)⟩
  · exact warranted_skip

theorem warranted_handleAggregatedMessages :
    Warranted s msg known (handleAggregatedMessages s msg) := by
  refine Warranted.op_bind (o := .activeDigest) ⟨rfl, rfl⟩ ?_
  intro digest
  cases decodeAggregatedMessage s.lib digest msg.message with
  | error err => exact warranted_skip
  | ok decoded =>
      refine Warranted.op_bind (o := .propagationEnabled) ⟨rfl, rfl⟩ ?_
      intro enabled
      split
      · rename_i henabled
        cases henabled
        refine Warranted.op_bind (o := .rangeTopics decoded.keys) ⟨rfl, rfl⟩ ?_
        intro order
        refine warranted_forEach ?_ order
        intro topic
        refine Warranted.op_bind (o := .topicLoad topic) ⟨rfl, rfl⟩ ?_
        intro ok
        split
        · rename_i hok
          have hattestation := (Bool.and_eq_true_iff.mp hok).2
          refine warranted_forEach ?_ _
          intro payload
          exact warranted_expandPayload hself hattestation (by simp)
        · exact warranted_skip
      · exact warranted_skip

/-- What a block is known for once it is measured and found fresh. -/
def Fresh
    (s : ProxyService)
    (data : Bytes)
    (since : List ProxyCall)
    (arrival : UInt64 × Bool) : Prop :=
  arrival.2 = true → ∃ block currentSlot,
    decodeBeaconBlockHeader s.lib.snappy data = .ok block ∧ arrival.1 = block.header.slot ∧
      ⟨.currentSlot, currentSlot⟩ ∈ since ∧
      ¬ diffUint64 block.header.slot currentSlot > staleSlotThreshold

omit hself in
theorem along_processBeaconBlockArrival
    {since : List ProxyCall}
    (topic : String)
    (data : Bytes)
    (recvAt : Int64)
    (source : Source)
    (originGatewayID upstreamPeerID : String) :
    (processBeaconBlockArrival s topic data recvAt source originGatewayID upstreamPeerID).Along
      (NeedsWarrant s msg) (Fresh s data) since := by
  have hquiet : ∀ (op : ProxyOp) (since : List ProxyCall), Quiet op →
      NeedsWarrant s msg since op := fun op since h => h.needsWarrant since
  simp only [processBeaconBlockArrival, op_bind]
  refine ⟨hquiet (.lastBlockStore recvAt) _ ⟨rfl, rfl⟩, fun _ => ?_⟩
  cases hdecode : decodeBeaconBlockHeader s.lib.snappy data with
  | error err =>
      intro hfresh
      cases hfresh
  | ok block =>
      refine ⟨hquiet (.handleBeaconBlock _) _ ⟨rfl, rfl⟩, fun _ => ⟨hquiet .currentSlot _
        ⟨rfl, rfl⟩, fun currentSlot => ?_⟩⟩
      refine Along.bind (along_quiet ((forall_streamObservation s block.header topic data recvAt
        source _).mono fun _ h => Quiet.of_measures h.measures) (List.Subset.refl _)) ?_
      intro since' _ hsince hfresh
      exact ⟨block, currentSlot, hdecode, rfl, hsince.1 (by simp), by simpa using hfresh⟩

theorem warranted_dispatchMumP2PMessage
    {arrival : UInt64 × Bool}
    (hstored : ⟨.messagePut (s.lib.xxHash msg.message), ()⟩ ∈ known)
    (hfresh : (parseTopicMeta msg.topic).isBeaconBlock = true →
      ∃ block currentSlot, decodeBeaconBlockHeader s.lib.snappy msg.message = .ok block ∧
        arrival.1 = block.header.slot ∧ ⟨.currentSlot, currentSlot⟩ ∈ known ∧
        ¬ diffUint64 block.header.slot currentSlot > staleSlotThreshold) :
    Warranted s msg known (dispatchMumP2PMessage s msg arrival.1) := by
  unfold dispatchMumP2PMessage
  split
  · rename_i hblock
    obtain ⟨block, currentSlot, hdecode, hslot, hread, hdiff⟩ := hfresh hblock
    rw [hslot]
    exact warranted_processMumP2PBeaconBlock hself hblock hdecode hdiff hread hstored
  · split
    · exact warranted_handleAggregatedMessages hself
    · exact warranted_skip

omit hself

/-- The arrival of a message that is no block is not looked at. -/
theorem along_measureMumP2PArrival
    (since : List ProxyCall) :
    (measureMumP2PArrival s msg).Along (NeedsWarrant s msg)
      (fun since' arrival => (parseTopicMeta msg.topic).isBeaconBlock = true →
        Fresh s msg.message since' arrival) since := by
  unfold measureMumP2PArrival
  split
  · have hclock : Quiet .unixMilli := ⟨rfl, rfl⟩
    refine ⟨hclock.needsWarrant since, ?_⟩
    intro recvAt
    exact (along_processBeaconBlockArrival _ _ recvAt _ _ _).mono fun _ _ h _ => h
  · rename_i hother
    intro hblock
    exact absurd hblock hother

theorem warranted_processMumP2PMessage
    (s : ProxyService)
    (msg : P2PMessage) :
    Warranted s msg [] (processMumP2PMessage s msg) := by
  refine Warranted.quiet_bind (quiet_skipFromSelf s msg) ?_
  intro skip
  split
  · exact warranted_skip
  · intro since _
    refine (along_measureMumP2PArrival since).bind ?_
    intro since' arrival hmeasured
    split
    · exact trivial
    · rename_i hgo
      obtain ⟨hforward, hself⟩ : arrival.2 = true ∧ messageFromSelf s msg = false := by
        simpa using hgo
      have hdispatch : Warranted s msg since' (do
          let duplicate ← isDuplicateMessage s msg.message
          if duplicate then pure () else dispatchMumP2PMessage s msg arrival.1) := by
        refine warranted_dedup (warranted_dispatchMumP2PMessage hself (by simp) ?_)
        intro hblock
        obtain ⟨block, currentSlot, hdecode, hslot, hread, hdiff⟩ := hmeasured hblock hforward
        exact ⟨block, currentSlot, hdecode, hslot, List.mem_cons_of_mem _ hread, hdiff⟩
      exact hdispatch since' (List.Subset.refl since')

end Handlers

section Messages

variable {s : ProxyService}

/-- A loop that is about to issue an operation has taken an element and is in its body. -/
theorem path_forEach_call
    {β : Type} {body : β → ProxyProg Unit} {xs : List β}
    {h : List ProxyCall} {o : ProxyOp} {k : o.Ans → ProxyProg Unit}
    (hpath : Path (forEach body xs) h (call o k)) :
    ∃ done x rest past since k', xs = done ++ x :: rest ∧ h = past ++ since ∧
      Path (forEach body xs) past (forEach body (x :: rest)) ∧
      Path (body x) since (call o k') := by
  induction xs generalizing h with
  | nil =>
      obtain ⟨-, hret⟩ := path_ret_iff.mp hpath
      cases hret
  | cons x xs ih =>
      -- once the body is done, the operation belongs to a later element
      have hlater : ∀ l₁ l₂, Path (body x) l₁ (ret ()) → Path (forEach body xs) l₂ (call o k) →
          ∃ done y rest past since k', x :: xs = done ++ y :: rest ∧ l₁ ++ l₂ = past ++ since ∧
            Path (forEach body (x :: xs)) past (forEach body (y :: rest)) ∧
            Path (body y) since (call o k') := by
        intro l₁ l₂ hbody hrest
        obtain ⟨done, y, rest, past, since, k', rfl, rfl, hpast, hsince⟩ := ih hrest
        exact ⟨x :: done, y, rest, l₁ ++ past, since, k', rfl, (List.append_assoc ..).symm,
          hbody.bind hpast, hsince⟩
      rcases path_bind hpath with ⟨p, hbody, hcall⟩ | ⟨⟨⟩, l₁, l₂, rfl, hbody, hrest⟩
      · cases p with
        | ret u =>
            have hsplit := hlater h [] hbody (by rw [hcall]; exact Path.nil _)
            rwa [List.append_nil] at hsplit
        | call o' k' =>
            cases hcall
            exact ⟨[], x, xs, [], h, k', rfl, rfl, Path.nil _, hbody⟩
      · exact hlater l₁ l₂ hbody hrest

/-- A publication of the mesh handler has a warrant since its message was taken. -/
theorem warrant_of_path
    {msgs : List P2PMessage} {h : List ProxyCall}
    {topic : String} {data : Bytes} {k : Option GoError → ProxyProg Unit}
    (hpath : Path (handleMessagesFromMumP2PNode s msgs) h (call (.clPublish topic data) k)) :
    ∃ done msg rest past since, msgs = done ++ msg :: rest ∧
      h = past ++ ⟨.topicSupported msg.topic, true⟩ :: since ∧
      Path (handleMessagesFromMumP2PNode s msgs) past
        (handleMessagesFromMumP2PNode s (msg :: rest)) ∧
      Warrant s msg since topic data := by
  obtain ⟨done, msg, rest, past, since, k', hmsgs, rfl, hpast, hbody⟩ :=
    path_forEach_call hpath
  unfold handleMessageFromMumP2PNode at hbody
  rw [op_bind, path_call_iff] at hbody
  rcases hbody with ⟨-, hcall⟩ | ⟨supported, since', rfl, hbody⟩
  · cases hcall
  · cases supported with
    | false =>
        obtain ⟨-, hret⟩ := path_ret_iff.mp hbody
        cases hret
    | true =>
        have halong := (warranted_processMumP2PMessage s msg [] (List.nil_subset _)).rest hbody
        exact ⟨done, msg, rest, past, since', hmsgs, rfl, hpast, halong.1 topic data rfl⟩

end Messages

section Gateway

/-- What the checks read and other goroutines change. -/
structure Environment where
  router : RouterState
  propagationEnabled : Bool
  joined : String → Bool
  currentSlot : UInt64

/-- Operations of the handlers, reads of the router, and a new environment. -/
inductive GatewayOp where
  | proxy (op : ProxyOp)
  | router (op : RouterOp)
  | setEnvironment (env : Environment)

abbrev GatewayOp.Ans : GatewayOp → Type
  | .proxy op => op.Ans
  | .router op => op.Ans
  | .setEnvironment _ => Unit

abbrev GatewayProg := Prog GatewayOp GatewayOp.Ans

abbrev gateway (op : GatewayOp) : GatewayProg op.Ans := Prog.op op

structure GatewayState where
  caches : ProxyState
  env : Environment

/-- The environment answers the handlers. -/
def Environment.Answers (env : Environment) : (op : ProxyOp) → op.Ans → Prop
  | .propagationEnabled, r => r = env.propagationEnabled
  | .topicLoad topic, r => r = env.joined topic
  | .currentSlot, r => r = env.currentSlot
  | _, _ => True

def gatewaySem : Sem GatewayOp GatewayOp.Ans GatewayState
  | .proxy op, s, r, t =>
      proxySem op s.caches r t.caches ∧ s.env.Answers op r ∧ t.env = s.env
  | .router op, s, r, t =>
      s.env.router.answer op = r ∧
        t = { s with env := { s.env with router := s.env.router.after op } }
  | .setEnvironment env, s, _, t => t = { s with env := env }

/-- The question to the router. -/
def askRouter (kind : TopicKind) (slot : UInt64) (message : Bytes) : GatewayProg Bool :=
  (shouldForwardMessageToCLP2P kind slot message).implement fun op => gateway (.router op)

/-- The operations of the handlers, with the program of the router in its place. -/
def routed : (op : ProxyOp) → GatewayProg op.Ans
  | .shouldForwardToCLP2P kind slot message => askRouter kind slot message
  | op => gateway (.proxy op)

inductive GatewayParty where
  | handler (i : ProxyParty)
  | environment (n : Nat)
deriving DecidableEq

structure GatewayInput where
  messages : ProxyInput
  environments : Nat → List Environment

def setEnvironments : List Environment → GatewayProg Unit
  | [] => pure ()
  | env :: envs => do
      gateway (.setEnvironment env)
      setEnvironments envs

def GatewayInput.program
    (s : ProxyService)
    (input : GatewayInput) : GatewayParty → GatewayProg Unit
  | .handler i => (input.messages.program s i).implement routed
  | .environment n => setEnvironments (input.environments n)

abbrev GatewayConfig :=
  Config GatewayParty GatewayOp GatewayOp.Ans (fun _ => Unit) GatewayState

abbrev GatewayEvent := Event GatewayParty GatewayOp GatewayOp.Ans

def GatewayInput.config
    (s : ProxyService)
    (input : GatewayInput)
    (st : GatewayState) : GatewayConfig :=
  ⟨input.program s, st⟩

end Gateway

section Routing

variable {α : Type} {h : List ProxyCall}
variable {l : List (Call GatewayOp GatewayOp.Ans)} {o : ProxyOp}

/-- Operations that are not a question to the router. -/
def Direct : ProxyOp → Prop
  | .shouldForwardToCLP2P .. => False
  | _ => True

theorem Direct.routed_eq
    (h : Direct o) :
    routed o = gateway (.proxy o) := by
  cases o <;> first | rfl | exact h.elim

/-- The router issues reads only. -/
theorem router_of_path
    {kind : TopicKind} {slot : UInt64} {message : Bytes} {o : GatewayOp}
    {k : o.Ans → GatewayProg Bool}
    (hpath : Path (askRouter kind slot message) l (call o k)) :
    ∃ read, o = .router read := by
  obtain ⟨-, -, l₂, read, -, b, -, -, -, hread, -⟩ := path_implement_call hpath
  obtain ⟨-, hcall⟩ := path_op_call hread
  cases hcall
  exact ⟨read, rfl⟩

/-- A handler that is about to issue an operation of its own does so in its program. -/
theorem path_routed_proxy
    {p : ProxyProg α} {k' : o.Ans → GatewayProg α}
    (hpath : Path (p.implement routed) l (call (.proxy o) k')) :
    ∃ h k, Implements routed h l ∧ Path p h (call o k) ∧
      k' = fun r => (k r).implement routed := by
  obtain ⟨h, l₁, l₂, o₁, k, b, rfl, hcalls, hp, hop, hk⟩ := path_implement_call hpath
  by_cases hdirect : Direct o₁
  · rw [hdirect.routed_eq] at hop
    obtain ⟨rfl, hcall⟩ := path_op_call hop
    cases hcall
    rw [List.append_nil]
    exact ⟨h, k, hcalls, hp, hk⟩
  · cases o₁
    case shouldForwardToCLP2P kind slot message =>
      obtain ⟨read, hread⟩ := router_of_path hop
      cases hread
    all_goals exact absurd trivial hdirect

theorem mem_of_direct
    {r : o.Ans}
    (hcalls : Implements routed h l)
    (hmem : ⟨o, r⟩ ∈ h)
    (hdirect : Direct o) :
    ⟨.proxy o, r⟩ ∈ l := by
  obtain ⟨m, hsub, hpath⟩ := hcalls.mem hmem
  rw [hdirect.routed_eq] at hpath
  rw [path_op_ret_iff.mp hpath] at hsub
  exact hsub (List.mem_singleton.mpr rfl)

/-- The reads behind an answer of the router are in the trace. -/
theorem reads_of_decision
    {kind : TopicKind} {slot : UInt64} {message : Bytes} {r : Bool}
    (hcalls : Implements routed h l)
    (hmem : ⟨.shouldForwardToCLP2P kind slot message, r⟩ ∈ h) :
    ∃ reads, Path (shouldForwardMessageToCLP2P kind slot message) reads (.ret r) ∧
      ∀ o a, ⟨o, a⟩ ∈ reads → ⟨.router o, a⟩ ∈ l := by
  obtain ⟨m, hsub, hpath⟩ := hcalls.mem hmem
  obtain ⟨reads, hreads, hdecision⟩ :=
    path_implement_ret (show Path (askRouter kind slot message) m (ret r) from hpath)
  refine ⟨reads, hdecision, ?_⟩
  intro o a hread
  obtain ⟨m', hsub', hop⟩ := hreads.mem hread
  rw [path_op_ret_iff.mp hop] at hsub'
  exact hsub (hsub' (List.mem_singleton.mpr rfl))

end Routing

section Vetting

variable (s : ProxyService) (msg : P2PMessage) (topic : String) (data : Bytes)
variable (sometime : (Environment → Prop) → Prop)

/-- A block on the topic on which it arrived, within three slots of the current one, for
which there are grounds. -/
def VettedBlock : Prop :=
  topic = msg.topic ∧ data = msg.message ∧ (parseTopicMeta topic).isBeaconBlock = true ∧
    ∃ block, decodeBeaconBlockHeader s.lib.snappy data = .ok block ∧
      sometime (fun env => block.header.slot.toNat ≤ env.currentSlot.toNat + 3 ∧
        env.currentSlot.toNat ≤ block.header.slot.toNat + 3) ∧
      BlockGrounds (fun P => sometime fun env => P env.router) block.header.slot

def VettedAttestation : Prop :=
  (parseTopicMeta topic).isAttestation = true ∧
    (∃ att, decodeGossip s.lib.snappy data SingleAttestation.zero = .ok att) ∧
    AttestationGrounds (fun P => sometime fun env => P env.router)

/-- What was the case at some moment before a publication to the CL. -/
structure Vetted : Prop where
  propagates : sometime fun env => env.propagationEnabled = true
  foreign : msg.sourceNodeID ≠ s.nodeMumP2PStr
  joined : sometime fun env => env.joined topic = true
  content : VettedBlock s msg topic data sometime ∨ VettedAttestation s topic data sometime

variable {s msg topic data sometime}

theorem Vetted.mono
    {sometime' : (Environment → Prop) → Prop}
    (h : Vetted s msg topic data sometime)
    (himp : ∀ P, sometime P → sometime' P) :
    Vetted s msg topic data sometime' := by
  obtain ⟨hpropagates, hforeign, hjoined, hcontent⟩ := h
  refine ⟨himp _ hpropagates, hforeign, himp _ hjoined, ?_⟩
  rcases hcontent with ⟨htopic, hdata, hkind, block, hdecode, hslot, hgrounds⟩ | hattestation
  · obtain ⟨⟨henabled, claims, expiresAt, hexpiry, hclaims, hnow⟩, hrole⟩ := hgrounds
    refine Or.inl ⟨htopic, hdata, hkind, block, hdecode, himp _ hslot,
      ⟨himp _ henabled, claims, expiresAt, hexpiry, himp _ hclaims, himp _ hnow⟩, ?_⟩
    rcases hrole with hpartner | ⟨hhermes, onList, toSlot, hlisted, hhorizon, hverdict⟩
    · exact Or.inl (himp _ hpartner)
    · exact Or.inr ⟨himp _ hhermes, onList, toSlot, himp _ hlisted, himp _ hhorizon, hverdict⟩
  · obtain ⟨hkind, hdecode, hgrounds⟩ := hattestation
    exact Or.inr ⟨hkind, hdecode, himp _ hgrounds⟩

theorem near_of_diffUint64
    {a b : UInt64}
    (h : ¬ diffUint64 a b > staleSlotThreshold) :
    a.toNat ≤ b.toNat + 3 ∧ b.toNat ≤ a.toNat + 3 := by
  have hle : (diffUint64 a b).toNat ≤ 3 := by
    simpa [UInt64.not_lt, UInt64.le_iff_toNat_le, staleSlotThreshold] using h
  unfold diffUint64 at hle
  split at hle
  · rename_i hlt
    have hlt' := UInt64.lt_iff_toNat_lt.mp hlt
    rw [UInt64.toNat_sub_of_le _ _ (UInt64.le_iff_toNat_le.mpr hlt'.le)] at hle
    omega
  · rename_i hge
    have hge' := UInt64.le_iff_toNat_le.mp (UInt64.not_lt.mp hge)
    rw [UInt64.toNat_sub_of_le _ _ (UInt64.not_lt.mp hge)] at hle
    omega

end Vetting

section Runs

variable {s : ProxyService} {input : GatewayInput} {st : GatewayState}
variable {tr : List GatewayEvent} {d : GatewayConfig} {topic : String} {data : Bytes}

theorem forall_setEnvironments
    (envs : List Environment) :
    (setEnvironments envs).Forall fun o => ∃ env, o = .setEnvironment env := by
  induction envs with
  | nil => trivial
  | cons env envs ih => exact ⟨⟨env, rfl⟩, fun _ => ih⟩

/-- Only the handler of the mesh publishes to the CL, and it does so in its program. -/
theorem handler_of_clPublish
    (hrun : Run gatewaySem anyStep (input.config s st) tr d)
    {i : GatewayParty} {k' : Option GoError → GatewayProg Unit}
    (hnext : d.progs i = call (.proxy (.clPublish topic data)) k') :
    i = .handler .mumP2P ∧ ∃ h k, Implements routed h (callsOf i tr) ∧
      Path (handleMessagesFromMumP2PNode s input.messages.mumP2PMessages) h
        (call (.clPublish topic data) k) ∧
      k' = fun r => (k r).implement routed := by
  have hpath := hrun.path i
  rw [hnext] at hpath
  cases i with
  | environment n =>
      have hissued := hpath.append (Path.cons (r := none) (Path.nil _))
      obtain ⟨env, henv⟩ := hissued.forall_mem (forall_setEnvironments _)
        ⟨.proxy (.clPublish topic data), none⟩ (by simp)
      cases henv
  | handler i =>
      obtain ⟨h, k, hcalls, hp, hk⟩ := path_routed_proxy (o := .clPublish topic data) hpath
      have hobligation := (ordered_program s input.messages i []).rest hp
      obtain ⟨hnetwork, -⟩ := hobligation.1.2 .libP2P data rfl
      cases i with
      | mumP2P => exact ⟨rfl, h, k, hcalls, hp, hk⟩
      | _ => cases hnetwork

/-- The handler of the mesh is about to take a message. -/
structure Takes
    (s : ProxyService)
    (input : GatewayInput)
    (m : GatewayConfig)
    (msg : P2PMessage) : Prop where
  next : ∃ done rest, input.messages.mumP2PMessages = done ++ msg :: rest ∧
    m.progs (.handler .mumP2P) =
      (handleMessagesFromMumP2PNode s (msg :: rest)).implement routed

variable {since : List ProxyCall} {seg : List GatewayEvent}
variable {i : GatewayParty} {m₀ m : GatewayConfig}

variable (hrun : Run gatewaySem anyStep m₀ seg m)
include hrun

theorem passes_direct
    (hcalls : Implements routed since (callsOf i seg))
    {o : ProxyOp} {r : o.Ans}
    (hmem : ⟨o, r⟩ ∈ since)
    (hdirect : Direct o) :
    Passes gatewaySem m₀ seg m fun st => st.env.Answers o r := by
  refine (hrun.passes (mem_of_mem_callsOf (mem_of_direct hcalls hmem hdirect))).mono ?_
  intro st hst
  obtain ⟨t, -, hanswer, -⟩ := hst
  exact hanswer

theorem passes_read
    {o : RouterOp} {r : o.Ans}
    (hmem : ⟨.router o, r⟩ ∈ callsOf i seg) :
    Passes gatewaySem m₀ seg m fun st => st.env.router.answer o = r := by
  refine (hrun.passes (mem_of_mem_callsOf hmem)).mono ?_
  intro st hst
  obtain ⟨t, hanswer, -⟩ := hst
  exact hanswer

/-- What the calls say was the case at some moment of the segment. -/
theorem vetted_of_warrant
    {msg : P2PMessage}
    (hcalls : Implements routed since (callsOf i seg))
    (hwarrant : Warrant s msg since topic data) :
    Vetted s msg topic data fun P => Passes gatewaySem m₀ seg m fun st => P st.env := by
  have hmono : ∀ P Q : RouterState → Prop, (∀ w, P w → Q w) →
      (Passes gatewaySem m₀ seg m fun st => P st.env.router) →
      Passes gatewaySem m₀ seg m fun st => Q st.env.router :=
    fun P Q hPQ hP => hP.mono fun st => hPQ st.env.router
  obtain ⟨hforeign, hpropagates, hjoined, -, hcontent⟩ := hwarrant
  refine ⟨?_, ?_, ?_, ?_⟩
  · exact (passes_direct hrun hcalls hpropagates trivial).mono fun st h => Eq.symm h
  · simpa [messageFromSelf] using hforeign
  · exact (passes_direct hrun hcalls hjoined trivial).mono fun st h => Eq.symm h
  · rcases hcontent with ⟨htopic, hdata, hkind, block, currentSlot, hdecode, hslot, hdiff,
      hforward⟩ | ⟨hkind, hdecode, hforward⟩
    · obtain ⟨reads, hdecision, hreads⟩ := reads_of_decision hcalls hforward
      refine Or.inl ⟨htopic, hdata, hkind, block, hdecode, ?_,
        blockGrounds_of_path hmono (fun o r hr => passes_read hrun (hreads o r hr)) hdecision⟩
      refine (passes_direct hrun hcalls hslot trivial).mono ?_
      intro st hst
      have hnear := near_of_diffUint64 hdiff
      rwa [show currentSlot = st.env.currentSlot from hst] at hnear
    · obtain ⟨reads, hdecision, hreads⟩ := reads_of_decision hcalls hforward
      exact Or.inr ⟨hkind, hdecode, attestationGrounds_of_path hmono
        (fun o r hr => passes_read hrun (hreads o r hr)) hdecision⟩

omit hrun

/-- The handling of the message behind a publication. -/
theorem handling_of_clPublish
    (hrun : Run gatewaySem anyStep (input.config s st) tr d)
    {k' : Option GoError → GatewayProg Unit}
    (hnext : d.progs i = call (.proxy (.clPublish topic data)) k') :
    ∃ pre seg msg m₀, tr = pre ++ seg ∧ Run gatewaySem anyStep (input.config s st) pre m₀ ∧
      Takes s input m₀ msg ∧ Run gatewaySem anyStep m₀ seg d ∧
      ⟨i, .proxy (.messagePut (s.lib.xxHash data)), ()⟩ ∈ seg ∧
      Vetted s msg topic data fun P => Passes gatewaySem m₀ seg d fun st => P st.env := by
  obtain ⟨rfl, h, k, hcalls, hp, -⟩ := handler_of_clPublish hrun hnext
  obtain ⟨done, msg, rest, past, since, hmsgs, rfl, hpast, hwarrant⟩ := warrant_of_path hp
  obtain ⟨l₁, l₂, hsplit, hbefore, hhandling⟩ := hcalls.of_append
  have hcheck : ∃ l₃, l₂ = ⟨.proxy (.topicSupported msg.topic), true⟩ :: l₃ := by
    cases hhandling with
    | @cons _ _ _ _ l₃ hcheck _ => exact ⟨l₃, by rw [path_op_ret_iff.mp hcheck]; rfl⟩
  obtain ⟨l₃, rfl⟩ := hcheck
  obtain ⟨pre, seg, rfl, hpre, hseg⟩ := callsOf_eq_append_cons hsplit
  obtain ⟨m₀, hfront, hback⟩ := hrun.split
  rw [← hseg, ← callsOf_cons_self] at hhandling
  -- the goroutine was about to take the message when it checked its topic
  have htakes : m₀.progs (.handler .mumP2P) =
      (handleMessagesFromMumP2PNode s (msg :: rest)).implement routed := by
    have hpath := hfront.path (.handler .mumP2P)
    rw [hpre] at hpath
    exact hpath.unique (hpast.implement hbefore)
  have hwarrant' := hwarrant.mono (List.subset_cons_self ⟨.topicSupported msg.topic, true⟩ since)
  exact ⟨pre, _, msg, m₀, rfl, hfront, ⟨done, rest, hmsgs, htakes⟩, hback,
    mem_of_mem_callsOf (mem_of_direct hhandling hwarrant'.stored trivial),
    vetted_of_warrant hback hhandling hwarrant'⟩

end Runs

section Repetition

/-- A publication uses up the licence. -/
theorem licence_after_publication
    (before after : List ProxyCall)
    (topic : String)
    (data : Bytes)
    (err : Option GoError) :
    licence (before ++ ⟨.clPublish topic data, err⟩ :: after) = licence after := by
  simp only [licence, List.foldl_append, List.foldl_cons]
  rfl

/-- Between two publications of a payload, its hash was looked up and not found. -/
theorem missed_between
    {hashOf : Bytes → UInt64} {net : Source} {p : ProxyProg Unit}
    (hp : Ordered hashOf net p)
    {before between : List ProxyCall} {topic topic' : String} {data : Bytes}
    {err : Option GoError} {k : Option GoError → ProxyProg Unit}
    (hpath : Path p (before ++ ⟨.clPublish topic data, err⟩ :: between)
      (call (.clPublish topic' data) k)) :
    ⟨.messageGet (hashOf data), false⟩ ∈ between := by
  have hlicence := (((hp []).rest hpath).1.2 _ data rfl).2
  rw [List.nil_append, licence_after_publication] at hlicence
  obtain ⟨a, b, rfl⟩ := List.append_of_mem (mem_of_licence hlicence)
  -- the store that gave the licence follows a lookup that missed
  rw [← List.cons_append, ← List.append_assoc] at hpath
  have hobligation := hpath.along (h := []) (hp [])
  have hlast := hobligation.1 (hashOf data) rfl
  rcases List.eq_nil_or_concat a with rfl | ⟨a', x, rfl⟩
  · simp at hlast
  · rw [List.concat_eq_append, List.nil_append, ← List.cons_append, ← List.append_assoc,
      List.getLast?_concat] at hlast
    rw [Option.some.inj hlast]
    simp

variable {s : ProxyService} {input : GatewayInput} {st : GatewayState} {d : GatewayConfig}

/-- Between two publications of a payload there is a moment at which its hash is not in the
map. -/
theorem absent_between
    {a b c : List GatewayEvent} {i j : GatewayParty} {topic topic' : String} {data : Bytes}
    {err err' : Option GoError}
    (hrun : Run gatewaySem anyStep (input.config s st)
      (a ++ ⟨i, .proxy (.clPublish topic data), err⟩ ::
        (b ++ ⟨j, .proxy (.clPublish topic' data), err'⟩ :: c)) d) :
    ∃ x y m, b = x ++ y ∧
      Run gatewaySem anyStep (input.config s st)
        (a ++ ⟨i, .proxy (.clPublish topic data), err⟩ :: x) m ∧
      Run gatewaySem anyStep m (y ++ ⟨j, .proxy (.clPublish topic' data), err'⟩ :: c) d ∧
      m.state.caches.messages (s.lib.xxHash data) = false := by
  rw [← List.singleton_append, ← List.append_assoc] at hrun
  obtain ⟨d₂, hupto, hfrom⟩ := hrun.split
  obtain ⟨d₁, hfront, -, hfirst⟩ := hupto.of_snoc
  obtain ⟨d₃, hbetween, hback⟩ := hfrom.split
  obtain ⟨d₄, -, hsecond, -⟩ := hback.of_cons
  cases hfirst with
  | @thread _ _ k₁ _ t hprog hsem =>
      obtain ⟨rfl, h, k, hcalls, hp, rfl⟩ := handler_of_clPublish hfront hprog
      cases hsecond with
      | @thread _ _ k₂ _ t' hprog' hsem' =>
          obtain ⟨rfl, -⟩ := handler_of_clPublish (hupto.trans hbetween) hprog'
          -- the rest of the program up to the second publication
          have hpath := hbetween.path (.handler .mumP2P)
          simp only [hprog', Function.update_self] at hpath
          obtain ⟨mid, k', hmid, hrest, -⟩ :=
            path_routed_proxy (o := .clPublish topic' data) hpath
          have hmissed := missed_between (ordered_program s input.messages .mumP2P)
            (hp.append (Path.cons hrest))
          have hget := mem_of_mem_callsOf (mem_of_direct hmid hmissed trivial)
          obtain ⟨x, y, m, rfl, hleft, hright, u, hlookup, -⟩ := hbetween.passes hget
          have hbefore := hupto.trans hleft
          rw [List.append_assoc, List.singleton_append] at hbefore
          exact ⟨x, y, m, rfl, hbefore, hright.trans hback, hlookup.1.symm⟩

end Repetition

section Main

/-- The environment is the same throughout the segment. -/
def Steady (m₀ : GatewayConfig) (seg : List GatewayEvent) (m : GatewayConfig) : Prop :=
  ∀ env, Passes gatewaySem m₀ seg m (fun st => st.env = env) → env = m.state.env

/-- Whatever the messages of the mesh and however the environment changes, every
publication to the CL belongs to the handling of a message of another node and was vetted
in its course; if the environment was steady meanwhile, it was vetted in the environment
of the publication.  The payload's hash was stored in the same course, and between two
publications of a payload there is a moment at which its hash is not in the map. -/
theorem mesh_publications_vetted
    (s : ProxyService)
    (input : GatewayInput)
    (st : GatewayState)
    {tr : List GatewayEvent}
    {d : GatewayConfig}
    (hrun : Run gatewaySem anyStep (input.config s st) tr d) :
    (∀ a b i topic data err, tr = a ++ ⟨i, .proxy (.clPublish topic data), err⟩ :: b →
      ∃ pre seg msg m₀ m, a = pre ++ seg ∧
        Run gatewaySem anyStep (input.config s st) pre m₀ ∧ Takes s input m₀ msg ∧
        Run gatewaySem anyStep m₀ seg m ∧
        Run gatewaySem anyStep m (⟨i, .proxy (.clPublish topic data), err⟩ :: b) d ∧
        ⟨i, .proxy (.messagePut (s.lib.xxHash data)), ()⟩ ∈ seg ∧
        Vetted s msg topic data (fun P => Passes gatewaySem m₀ seg m fun st => P st.env) ∧
        (Steady m₀ seg m → Vetted s msg topic data fun P => P m.state.env)) ∧
    (∀ a b c i j topic topic' data err err',
      tr = a ++ ⟨i, .proxy (.clPublish topic data), err⟩ ::
        (b ++ ⟨j, .proxy (.clPublish topic' data), err'⟩ :: c) →
      ∃ x y m, b = x ++ y ∧
        Run gatewaySem anyStep (input.config s st)
          (a ++ ⟨i, .proxy (.clPublish topic data), err⟩ :: x) m ∧
        Run gatewaySem anyStep m (y ++ ⟨j, .proxy (.clPublish topic' data), err'⟩ :: c) d ∧
        m.state.caches.messages (s.lib.xxHash data) = false) := by
  refine ⟨?_, ?_⟩
  · intro a b i topic data err htr
    subst htr
    obtain ⟨m, hfront, hback⟩ := hrun.split
    obtain ⟨m', -, hstep, -⟩ := hback.of_cons
    cases hstep with
    | thread hprog hsem =>
        obtain ⟨pre, seg, msg, m₀, rfl, hpre, htakes, hseg, hstored, hvetted⟩ :=
          handling_of_clPublish hfront hprog
        refine ⟨pre, seg, msg, m₀, m, rfl, hpre, htakes, hseg, hback, hstored, hvetted, ?_⟩
        intro hsteady
        refine hvetted.mono ?_
        intro P hP
        obtain ⟨x, y, u, hxy, hleft, hright, hu⟩ := hP
        rw [← hsteady u.state.env ⟨x, y, u, hxy, hleft, hright, rfl⟩]
        exact hu
  · intro a b c i j topic topic' data err err' htr
    subst htr
    exact absent_between hrun

end Main

section Sample

/-- Calls that need no router. -/
def proxied (h : List ProxyCall) : List (Call GatewayOp GatewayOp.Ans) :=
  h.map fun c => ⟨.proxy c.1, c.2⟩

theorem implements_proxied
    {h : List ProxyCall}
    (hdirect : ∀ c ∈ h, Direct c.1) :
    Implements routed h (proxied h) := by
  induction h with
  | nil => exact Implements.nil
  | cons c h ih =>
      obtain ⟨o, r⟩ := c
      have hhead : Path (routed o) [⟨.proxy o, r⟩] (ret r) := by
        rw [Direct.routed_eq (hdirect ⟨o, r⟩ (by simp))]
        exact path_op_ret_iff.mpr rfl
      exact Implements.cons hhead (ih fun c hc => hdirect c (by simp [hc]))

theorem exec_proxied
    {h : List ProxyCall} {a b : ProxyState} {env : Environment}
    (hexec : Exec proxySem a h b)
    (hanswers : ∀ c ∈ h, env.Answers c.1 c.2) :
    Exec gatewaySem ⟨a, env⟩ (proxied h) ⟨b, env⟩ := by
  induction hexec with
  | nil a => exact Exec.nil _
  | @cons a a' b o r h head tail ih =>
      have hstep : gatewaySem (.proxy o) ⟨a, env⟩ r ⟨a', env⟩ :=
        ⟨head, hanswers ⟨o, r⟩ (by simp), rfl⟩
      exact Exec.cons hstep (ih fun c hc => hanswers c (by simp [hc]))

/-- The reads for a block of a partner. -/
def partnerReads (claims : Claims) (now : Int) : List (Call RouterOp RouterOp.Ans) :=
  [⟨.claimsLoad, some claims⟩, ⟨.isEnabled, true⟩, ⟨.claimsLoad, some claims⟩, ⟨.now, now⟩]

theorem path_partnerReads
    {claims : Claims} {now expiresAt : Int}
    (htype : claims.type = gatewayTypePartner)
    (hexpiry : claims.expiresAt = some expiresAt)
    (hnow : now < expiresAt)
    (slot : UInt64)
    (data : Bytes) :
    Path (shouldForwardMessageToCLP2P .beaconBlock slot data) (partnerReads claims now)
      (ret true) := by
  have hvalid : Path gwAuthorized
      [⟨.isEnabled, true⟩, ⟨.claimsLoad, some claims⟩, ⟨.now, now⟩] (ret true) := by
    unfold gwAuthorized hasValidToken
    rw [op_bind, path_call_ret_iff]
    refine ⟨true, _, rfl, ?_⟩
    rw [if_pos rfl, op_bind, path_call_ret_iff]
    refine ⟨some claims, _, rfl, ?_⟩
    simp only [Option.bind_some, hexpiry, op_bind, path_call_ret_iff]
    refine ⟨now, _, rfl, ?_⟩
    rw [decide_eq_true hnow]
    exact Path.nil _
  unfold shouldForwardMessageToCLP2P ownClaims
  rw [op_bind, path_call_ret_iff]
  refine ⟨some claims, _, rfl, ?_⟩
  rw [if_neg (by decide), if_pos rfl]
  refine hvalid.bind (f := fun authorized => _) ?_
  rw [if_pos rfl, if_pos (show gwType (some claims) = gatewayTypePartner from htype)]
  exact Path.nil _

/-- A partner with a token and all switches on. -/
def partnerToken : Claims where
  subject := "gw-partner"
  issuedAt := some 0
  expiresAt := some 2000
  chainID := "560048"
  type := gatewayTypePartner
  scope := ""
  cnf := none
  clusterIDs := []

def partnerEnvironment : Environment where
  router :=
    { claims := some partnerToken
      enabled := true
      now := 1000
      accelerate := ⟨TTLMap.empty, 0, 0⟩ }
  propagationEnabled := true
  joined topic := topic == blockTopic
  currentSlot := blockSlot

def partnerInput : GatewayInput where
  messages := ⟨[], [meshBlock], [], []⟩
  environments _ := []

/-- The calls before the question to the router, and after it. -/
def askingCalls : List ProxyCall :=
  lookupCalls .mumP2P 1000 "16Uiu2HAmOther" "16Uiu2HAmOther" false ++
    [⟨.messagePut (sampleService.lib.xxHash sampleBlock), ()⟩, ⟨.propagationEnabled, true⟩]

def publishingCalls : List ProxyCall :=
  [⟨.topicLoad blockTopic, true⟩, ⟨.clPublish blockTopic sampleBlock, none⟩]

def readCalls (reads : List (Call RouterOp RouterOp.Ans)) : List (Call GatewayOp GatewayOp.Ans) :=
  reads.map fun c => ⟨.router c.1, c.2⟩

theorem implements_reads
    (reads : List (Call RouterOp RouterOp.Ans)) :
    Implements (fun op => gateway (.router op)) reads (readCalls reads) := by
  induction reads with
  | nil => exact Implements.nil
  | cons c reads ih =>
      obtain ⟨o, r⟩ := c
      have hhead : Path (gateway (.router o)) [⟨.router o, r⟩] (ret r) :=
        path_op_ret_iff.mpr rfl
      exact Implements.cons (f := fun op => gateway (.router op)) hhead ih

def publishCalls : List (Call GatewayOp GatewayOp.Ans) :=
  proxied askingCalls ++ (readCalls (partnerReads partnerToken 1000) ++ proxied publishingCalls)

theorem path_publishCalls :
    Path ((handleMessagesFromMumP2PNode sampleService [meshBlock]).implement routed)
      publishCalls (ret ()) := by
  have hasking : Implements routed askingCalls (proxied askingCalls) :=
    implements_proxied (by simp [askingCalls, lookupCalls, Direct])
  have hpublishing : Implements routed publishingCalls (proxied publishingCalls) :=
    implements_proxied (by simp [publishingCalls, Direct])
  have hrouter : Path (routed (.shouldForwardToCLP2P .beaconBlock blockSlot sampleBlock))
      (readCalls (partnerReads partnerToken 1000)) (ret true) :=
    (path_partnerReads rfl rfl (by decide) blockSlot sampleBlock).implement
      (implements_reads _)
  exact (path_mumP2P 1000 false).implement
    (hasking.append (Implements.cons hrouter hpublishing))

theorem exec_publishCalls :
    Exec gatewaySem ⟨emptyCaches, partnerEnvironment⟩ publishCalls
      ⟨blockStored emptyCaches, partnerEnvironment⟩ := by
  have hasking : Exec proxySem emptyCaches askingCalls (blockStored emptyCaches) :=
    exec_append_iff.mpr ⟨emptyCaches, exec_lookupCalls .mumP2P 1000 _ _ emptyCaches,
      Exec.cons rfl (Exec.cons rfl (Exec.nil _))⟩
  have hpublishing : Exec proxySem (blockStored emptyCaches) publishingCalls
      (blockStored emptyCaches) :=
    Exec.cons rfl (Exec.cons rfl (Exec.nil _))
  refine Exec.append (exec_proxied hasking ?_) (exec_append_iff.mpr ⟨_, ?_,
    exec_proxied hpublishing ?_⟩)
  · simp [askingCalls, lookupCalls, Environment.Answers, partnerEnvironment]
  · exact Exec.cons ⟨rfl, rfl⟩ (Exec.cons ⟨rfl, rfl⟩ (Exec.cons ⟨rfl, rfl⟩
      (Exec.cons ⟨rfl, rfl⟩ (Exec.nil _))))
  · simp [publishingCalls, Environment.Answers, partnerEnvironment]

def publishTrace : List GatewayEvent :=
  publishCalls.map fun x => ⟨.handler .mumP2P, x.1, x.2⟩

theorem run_publishTrace :
    ∃ d, Run gatewaySem anyStep
      (partnerInput.config sampleService ⟨emptyCaches, partnerEnvironment⟩) publishTrace d := by
  refine ⟨⟨fun _ => ret (), ⟨blockStored emptyCaches, partnerEnvironment⟩⟩,
    run_of_paths ?_ ?_⟩
  · intro i
    rw [publishTrace, callsOf_map]
    cases i with
    | environment n => exact Path.nil _
    | handler i =>
        cases i with
        | mumP2P => exact path_publishCalls
        | _ => exact Path.nil _
  · rw [publishTrace, calls_map]
    exact exec_publishCalls

/-- A partner publishes a block of the mesh. -/
theorem mesh_publications_vetted_partner :
    ∃ d, Run gatewaySem anyStep
        (partnerInput.config sampleService ⟨emptyCaches, partnerEnvironment⟩) publishTrace d ∧
      ⟨.handler .mumP2P, .proxy (.clPublish blockTopic sampleBlock), none⟩ ∈ publishTrace ∧
      ∃ seg msg m₀ m, Takes sampleService partnerInput m₀ msg ∧
        Vetted sampleService msg blockTopic sampleBlock
          (fun P => Passes gatewaySem m₀ seg m fun st => P st.env) := by
  obtain ⟨d, hrun⟩ := run_publishTrace
  have hmem : ⟨.handler .mumP2P, .proxy (.clPublish blockTopic sampleBlock), none⟩ ∈
      publishTrace := by
    simp [publishTrace, publishCalls, proxied, publishingCalls]
  obtain ⟨a, b, htr⟩ := List.append_of_mem hmem
  obtain ⟨pre, seg, msg, m₀, m, -, -, htakes, -, -, -, hvetted, -⟩ :=
    (mesh_publications_vetted sampleService partnerInput _ hrun).1 a b _ _ _ _ htr
  exact ⟨d, hrun, hmem, seg, msg, m₀, m, htakes, hvetted⟩

end Sample

end GossipsubGateway
end OptimumGateway
