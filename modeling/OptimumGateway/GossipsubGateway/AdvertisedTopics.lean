import OptimumGateway.Foundation.Implementation
import OptimumGateway.GossipsubGateway.RefreshTopics
import OptimumGateway.Protocol.StrictTopics
import OptimumGateway.Telemetry.TopicTracer

/-!
# Topics that peers advertise

A refresh joins what the tracer has recorded about the peers, as long as the digest of a topic
is supported and its text contains the name of blocks or attestations.  Peers choose the texts.

`subscriptions_bounded` is about any number of refreshes, of cleanups of readers, of trace
events and of messages that change the digest in force, in any interleaving.  While the peers
advertise, of the supported digests, only the topics that the gateway would build itself, it
joins at most 65 topics of a digest on libp2p and one block topic on mump2p.  Without that
condition there is no bound.
-/

namespace OptimumGateway
namespace GossipsubGateway

open Foundation Foundation.Prog Protocol Telemetry

section Model

/-- Operations on the books of topics, trace events, and digests seen in messages. -/
inductive AdvertOp where
  | books (op : TopicOp)
  | trace (evt : Option TraceEvent)
  | observeMessageDigest (digest : String)

abbrev AdvertOp.Ans : AdvertOp → Type
  | .books op => op.Ans
  | .trace _ => Unit
  | .observeMessageDigest _ => Bool

structure AdvertState where
  books : TopicState
  tracer : PeerTopicTracer

/-- The fork service takes notice of the digest of a message. -/
def AdvertState.observe (s : AdvertState) (digest : String) : AdvertState :=
  { s with books.forks := (s.books.forks.observeMessageDigest digest).2 }

/-- The tracer answers which topics are discovered, in any order. -/
def AdvertisedBy (tracer : PeerTopicTracer) : (op : TopicOp) → op.Ans → Prop
  | .discoveredTopics, r => ∀ x, x ∈ r ↔ x ∈ tracer.getDiscoveredTopics
  | _, _ => True

def advertSem : Sem AdvertOp AdvertOp.Ans AdvertState
  | .books op, s, r, t =>
      topicSem op s.books r t.books ∧ AdvertisedBy s.tracer op r ∧ t.tracer = s.tracer
  | .trace evt, s, _, t => t = { s with tracer := s.tracer.trace evt }
  | .observeMessageDigest digest, s, r, t =>
      r = (s.books.forks.observeMessageDigest digest).1 ∧ t = s.observe digest

abbrev AdvertProg := Prog AdvertOp AdvertOp.Ans

/-- What happens to the gateway while the supported digests stay the same. -/
inductive AdvertActivity where
  | refresh
  /-- The deferred call of a reader. -/
  | cleanup (topic : String)
  | peerEvent (evt : Option TraceEvent)
  | message (digest : String)

variable (srv : RefreshService) (unique : List String → List String)

def AdvertActivity.program : AdvertActivity → AdvertProg Unit
  | .refresh => (refreshTopics srv unique).rename AdvertOp.books
  | .cleanup topic => (unsubscribeFromTopic srv topic).rename AdvertOp.books
  | .peerEvent evt => Prog.op (AdvertOp.trace evt)
  | .message digest => do
      let _ ← Prog.op (AdvertOp.observeMessageDigest digest)
      pure ()

abbrev AdvertPool :=
  Config Nat AdvertOp AdvertOp.Ans (fun _ => Unit) AdvertState

abbrev AdvertEvent := Event Nat AdvertOp AdvertOp.Ans

def advertPool (activities : Nat → AdvertActivity) (s : AdvertState) : AdvertPool where
  progs n := (activities n).program srv unique
  state := s

end Model

section Specification

/-- The digest of the topic is supported. -/
def DigestSupported (f : ForkService) (x : String) : Prop :=
  f.checkForkSupported (getForkDigestFromTopic x) = true

/-- The topics that the gateway builds itself. -/
inductive GatewayTopic : String → Prop where
  | block (digest : String) : GatewayTopic (buildFullTopic digest beaconBlockBase)
  | attestation (digest : String) {n : Nat} (hn : n < attestationSubnetCount) :
      GatewayTopic (buildFullTopic digest (attestationDescriptor n))

/-- A topic that may be advertised: one that is not joined, or that the gateway builds. -/
def Admissible (f : ForkService) (x : String) : Prop :=
  DigestSupported f x → IsHostTopic x → GatewayTopic x

/-- A topic that may be joined on a network. -/
def Allowed (f : ForkService) (net : Source) (x : String) : Prop :=
  DigestSupported f x → (net = .mumP2P → isBeaconBlockTopic x = true) → GatewayTopic x

/-- The topic is in the books, or was joined during the run. -/
def JoinedOn (net : Source) (x : String) (tr : List AdvertEvent) (s : AdvertState) : Prop :=
  x ∈ s.books.topics net ∨ ∃ i r, ⟨i, .books (.join net x), r⟩ ∈ tr

/-- The peers advertise admissible topics. -/
def AdmissibleEvents (d : AdvertPool) (e : AdvertEvent) : Prop :=
  ∀ evt, e.op = .trace (some evt) → ∀ m ∈ evt.mentions, m.intent.recorded = true →
    Admissible d.state.books.forks m.topic

/-- What the run starts with is like what may come. -/
structure AdvertState.Orderly (s : AdvertState) : Prop where
  discovered : ∀ x ∈ s.tracer.getDiscoveredTopics, Admissible s.books.forks x
  joined : ∀ net, ∀ x ∈ s.books.topics net, Allowed s.books.forks net x

end Specification

section Promises

variable {srv : RefreshService} {unique : List String → List String} {P Q : String → Prop}
variable {x : String}

/-- Operations that join no other topics, and on the host only those with a name that it
knows. -/
def JoinsOnly (P : String → Prop) : TopicOp → Prop
  | .topicStore net x => P x ∧ (net = .libP2P → IsHostTopic x)
  | .join net x => P x ∧ (net = .libP2P → IsHostTopic x)
  | _ => True

theorem JoinsOnly.mono
    {op : TopicOp}
    (h : JoinsOnly P op)
    (hPQ : ∀ x, P x → Q x) :
    JoinsOnly Q op := by
  cases op with
  | topicStore net x | join net x => exact ⟨hPQ x h.1, h.2⟩
  | _ => trivial

theorem forall_cancelSubscription
    (net : Source)
    (x : String) :
    (cancelSubscription net x).Forall (JoinsOnly P) := by
  refine ⟨trivial, fun ok => ?_⟩
  cases ok with
  | true => exact ⟨trivial, fun _ => ⟨trivial, fun _ => trivial⟩⟩
  | false => exact trivial

theorem forall_unsubscribeTopic
    (x : String) :
    (unsubscribeTopic x).Forall (JoinsOnly P) := by
  refine (forall_cancelSubscription .mumP2P x).bind fun _ => ⟨trivial, fun ok => ?_⟩
  cases ok with
  | false => exact trivial
  | true =>
      refine ⟨trivial, fun closed => ?_⟩
      cases closed with
      | some err => exact trivial
      | none => exact ⟨trivial, fun _ => ⟨trivial, fun _ => trivial⟩⟩

theorem forall_closeTopic
    (x : String) :
    (closeTopic x).Forall (JoinsOnly P) := by
  refine ⟨trivial, fun ok => ?_⟩
  cases ok with
  | true => exact ⟨trivial, fun _ => ⟨trivial, fun _ => trivial⟩⟩
  | false => exact trivial

theorem forall_unsubscribeFromTopic
    (x : String) :
    (unsubscribeFromTopic srv x).Forall (JoinsOnly P) := by
  refine (forall_cancelSubscription .libP2P x).bind fun _ => ?_
  refine (forall_closeTopic x).bind fun _ => ?_
  split
  · exact (forall_unsubscribeTopic x).bind fun _ => trivial
  · exact trivial

theorem forall_leaveUnsupported
    (x : String) :
    (leaveUnsupported srv x).Forall (JoinsOnly P) := by
  refine ⟨trivial, fun supported => ?_⟩
  cases supported with
  | true => exact trivial
  | false => exact forall_unsubscribeFromTopic x

theorem forall_subscribeTopic
    (hx : P x) :
    (subscribeTopic x).Forall (JoinsOnly P) := by
  unfold subscribeTopic
  split
  · exact trivial
  · refine ⟨trivial, fun ok => ?_⟩
    cases ok with
    | true => exact trivial
    | false =>
        refine ⟨⟨hx, nofun⟩, fun joined => ?_⟩
        cases joined with
        | some err => exact trivial
        | none =>
            refine ⟨⟨hx, nofun⟩, fun _ => ⟨trivial, fun subscribed => ?_⟩⟩
            cases subscribed with
            | some err => exact ⟨trivial, fun _ => ⟨trivial, fun _ => trivial⟩⟩
            | none => exact ⟨trivial, fun _ => ⟨trivial, fun _ => ⟨trivial, fun _ => trivial⟩⟩⟩

theorem forall_subscribeToTopic
    (hx : P x) :
    (subscribeToTopic srv x).Forall (JoinsOnly P) := by
  unfold subscribeToTopic
  by_cases hhost : IsHostTopic x
  · have hvalid : (!(isBeaconBlockTopic x || isAttestationTopic x)) = false :=
      congrArg not hhost
    rw [hvalid, if_neg Bool.false_ne_true]
    refine ⟨trivial, fun ok => ?_⟩
    cases ok with
    | true => exact trivial
    | false =>
        change (if (!srv.hasPubsub) = true then _ else _ : TopicProg _).Forall _
        split
        · exact trivial
        · refine ⟨⟨hx, fun _ => hhost⟩, fun joined => ?_⟩
          cases joined with
          | some err => exact trivial
          | none =>
              refine ⟨⟨hx, fun _ => hhost⟩, fun _ => ⟨trivial, fun subscribed => ?_⟩⟩
              cases subscribed with
              | some err => exact trivial
              | none => exact ⟨trivial, fun _ => ⟨trivial, fun _ => trivial⟩⟩
  · rw [if_pos (by simpa [IsHostTopic] using hhost)]
    exact trivial

theorem forall_enterMesh
    (hx : P x) :
    (enterMesh srv x).Forall (JoinsOnly P) := by
  have hbody := forall_subscribeTopic (P := P) (x := x) hx
  unfold enterMesh
  -- the program stays folded, or its test of the text is evaluated
  generalize subscribeTopic x = p at hbody ⊢
  generalize (isBeaconBlockTopic x && srv.hasMumP2P) = entered
  cases entered with
  | true => exact hbody.bind fun _ => trivial
  | false => exact trivial

theorem forall_enterSupported
    (hx : P x) :
    (enterSupported srv x).Forall (JoinsOnly P) := by
  refine ⟨trivial, fun supported => ?_⟩
  cases supported with
  | false => exact trivial
  | true =>
      refine (forall_enterMesh hx).bind fun _ => ?_
      split
      · exact trivial
      · exact (forall_subscribeToTopic hx).bind fun _ => trivial

/-- The topics that a refresh wants: it builds them, or has them from the tracer. -/
def Wanted
    (unique : List String → List String)
    (h : List (Call TopicOp TopicOp.Ans))
    (x : String) : Prop :=
  (∃ digest, x ∈ filterAndBuildEthTopics unique digest false) ∨
    ∃ l, ⟨.discoveredTopics, l⟩ ∈ h ∧ x ∈ l

theorem Wanted.mono
    {h h' : List (Call TopicOp TopicOp.Ans)}
    (hwanted : Wanted unique h x)
    (hsub : h ⊆ h') :
    Wanted unique h' x := by
  rcases hwanted with hbuilt | ⟨l, hmem, hx⟩
  · exact Or.inl hbuilt
  · exact Or.inr ⟨l, hsub hmem, hx⟩

theorem along_discovered
    (h : List (Call TopicOp TopicOp.Ans)) :
    (discovered srv).Along (fun h => JoinsOnly (Wanted unique h))
      (fun h advertised => ∀ x ∈ advertised, Wanted unique h x) h := by
  unfold discovered
  split
  · refine ⟨trivial, fun advertised x hx => Or.inr ⟨advertised, ?_, hx⟩⟩
    exact List.mem_append_right _ (List.mem_singleton.mpr rfl)
  · exact fun x hx => absurd hx List.not_mem_nil

theorem along_refreshTopics :
    (refreshTopics srv unique).Along (fun h => JoinsOnly (Wanted unique h))
      (fun _ _ => True) [] := by
  refine ⟨trivial, fun joined => ?_⟩
  have hleave : ∀ h, (joined.forM (leaveUnsupported srv)).Along
      (fun h => JoinsOnly (Wanted unique h)) (fun _ _ => True) h := by
    intro h
    have hbodies : (joined.forM (leaveUnsupported srv)).Forall (JoinsOnly fun _ => False) :=
      Forall.forM fun x _ => forall_leaveUnsupported x
    exact hbodies.along fun h o ho => ho.mono fun x hx => hx.elim
  refine (hleave _).bind fun h _ _ => ⟨trivial, fun digest => ?_⟩
  refine (along_discovered _).bind fun h' advertised hadvertised => ?_
  have hbodies : ((filterAndBuildEthTopics unique digest false ++ advertised).forM
      (enterSupported srv)).Forall (JoinsOnly (Wanted unique h')) := by
    refine Forall.forM fun x hx => forall_enterSupported ?_
    rcases List.mem_append.mp hx with hbuilt | hknown
    · exact Or.inl ⟨digest, hbuilt⟩
    · exact hadvertised x hknown
  exact hbodies.along_known (List.Subset.refl h') fun h o hsub ho =>
    ho.mono fun x hx => hx.mono hsub

/-- What an activity promises about its operations on the books. -/
def AdvertPromise
    (unique : List String → List String)
    (h : List (Call AdvertOp AdvertOp.Ans)) : AdvertOp → Prop
  | .books op => JoinsOnly (fun x =>
      (∃ digest, x ∈ filterAndBuildEthTopics unique digest false) ∨
        ∃ l, ⟨.books .discoveredTopics, l⟩ ∈ h ∧ x ∈ l) op
  | _ => True

theorem along_program
    (activity : AdvertActivity) :
    (activity.program srv unique).Along (AdvertPromise unique) (fun _ _ => True) [] := by
  cases activity with
  | refresh =>
      refine Along.rename (h := []) (along_refreshTopics.imp fun h o ho => ho.mono ?_)
      intro x hx
      rcases hx with hbuilt | ⟨l, hmem, hx⟩
      · exact Or.inl hbuilt
      · exact Or.inr ⟨l, List.mem_map.mpr ⟨_, hmem, rfl⟩, hx⟩
  | cleanup topic =>
      have hleave : (unsubscribeFromTopic srv topic).Forall (JoinsOnly fun _ => False) :=
        forall_unsubscribeFromTopic topic
      exact Along.rename (h := []) (hleave.along fun h o ho => ho.mono fun x hx => hx.elim)
  | peerEvent evt | message digest => exact ⟨trivial, fun _ => trivial⟩

end Promises

section Steps

variable {f : ForkService} {unique : List String → List String} {tr : List AdvertEvent}
variable {s t : AdvertState} {op : TopicOp} {i : Nat} {e : AdvertEvent}

theorem supportedForks_observe
    (s : AdvertState)
    (digest : String) :
    (s.observe digest).books.forks.supportedForks = s.books.forks.supportedForks := by
  simp only [AdvertState.observe, ForkService.observeMessageDigest]
  split <;> rfl

/-- What holds throughout a run. -/
structure Bounded (f : ForkService) (tr : List AdvertEvent) (s : AdvertState) : Prop where
  supported : s.books.forks.supportedForks = f.supportedForks
  discovered : ∀ x ∈ s.tracer.getDiscoveredTopics, Admissible f x
  answered : ∀ i l, ⟨i, .books .discoveredTopics, l⟩ ∈ tr → ∀ x ∈ l, Admissible f x
  joined : ∀ net x, JoinedOn net x tr s → Allowed f net x

theorem gatewayTopic_of_built
    {digest x : String}
    (hunique : ∀ l x, x ∈ unique l ↔ x ∈ l)
    (hx : x ∈ filterAndBuildEthTopics unique digest false) :
    GatewayTopic x := by
  have hdigest : digest ≠ "" := by
    intro hempty
    rw [hempty, filterAndBuildEthTopics_empty hunique] at hx
    exact absurd hx List.not_mem_nil
  simp only [filterAndBuildEthTopics, Bool.false_eq_true, if_false, List.mem_filter,
    List.mem_map] at hx
  obtain ⟨⟨descriptor, hmem, rfl⟩, -⟩ := hx
  rw [buildGatewayTopic_eq hdigest (ethTopicName_of_mem_unpackTopics hunique hmem)]
  rcases (mem_unpackTopics_iff hunique).mp hmem with ⟨n, hn, rfl⟩ | rfl
  · exact .attestation digest hn
  · exact .block digest

variable (h : Bounded f tr s)
include h

theorem Bounded.allowed
    {net : Source} {x : String}
    (hunique : ∀ l x, x ∈ unique l ↔ x ∈ l)
    (hpromise : AdvertPromise unique (callsOf i tr) (.books op))
    (hop : op = .topicStore net x ∨ op = .join net x) :
    Allowed f net x := by
  have hjoins : ((∃ digest, x ∈ filterAndBuildEthTopics unique digest false) ∨
      ∃ l, ⟨.books .discoveredTopics, l⟩ ∈ callsOf i tr ∧ x ∈ l) ∧
        (net = .libP2P → IsHostTopic x) := by
    rcases hop with rfl | rfl
    · exact hpromise
    · exact hpromise
  obtain ⟨hwanted, hhost⟩ := hjoins
  intro hsupported hblock
  rcases hwanted with ⟨digest, hbuilt⟩ | ⟨l, hmem, hx⟩
  · exact gatewayTopic_of_built hunique hbuilt
  · refine h.answered i l (mem_of_mem_callsOf hmem) x hx hsupported ?_
    cases net with
    | libP2P => exact hhost rfl
    | mumP2P => simp [IsHostTopic, hblock rfl]

/-- An answer that is new in the trace is the last one. -/
theorem Bounded.answered_concat
    (he : ∀ i l, e = ⟨i, .books .discoveredTopics, l⟩ → ∀ x ∈ l, Admissible f x) :
    ∀ i l, ⟨i, .books .discoveredTopics, l⟩ ∈ tr ++ [e] → ∀ x ∈ l, Admissible f x := by
  intro i l hmem
  rcases List.mem_append.mp hmem with hold | hnew
  · exact h.answered i l hold
  · exact he i l (List.mem_singleton.mp hnew).symm

omit h in
/-- A topic that is new on a network was stored or joined by the last step. -/
theorem JoinedOn.concat
    {net : Source} {x : String}
    (h : JoinedOn net x (tr ++ [e]) t)
    (hbooks : x ∈ t.books.topics net →
      x ∈ s.books.topics net ∨ e.op = .books (.topicStore net x)) :
    JoinedOn net x tr s ∨
      e.op = .books (.topicStore net x) ∨ e.op = .books (.join net x) := by
  rcases h with hmem | ⟨i, r, hmem⟩
  · rcases hbooks hmem with hold | hnew
    · exact Or.inl (Or.inl hold)
    · exact Or.inr (Or.inl hnew)
  · rcases List.mem_append.mp hmem with hold | hnew
    · exact Or.inl (Or.inr ⟨i, r, hold⟩)
    · rw [← List.mem_singleton.mp hnew]
      exact Or.inr (Or.inr rfl)

theorem Bounded.books
    {r : op.Ans}
    (hunique : ∀ l x, x ∈ unique l ↔ x ∈ l)
    (hpromise : AdvertPromise unique (callsOf i tr) (.books op))
    (hsem : advertSem (.books op) s r t) :
    Bounded f (tr ++ [⟨i, .books op, r⟩]) t := by
  obtain ⟨hbooks, hadvertised, htracer⟩ := hsem
  obtain ⟨hforks, hadds⟩ := topicSem_adds hbooks
  refine ⟨hforks.trans h.supported, ?_, ?_, ?_⟩
  · rw [htracer]
    exact h.discovered
  · refine h.answered_concat ?_
    intro j l he x hx
    cases he
    exact h.discovered x ((hadvertised x).mp hx)
  · intro net x hjoined
    have hnew : x ∈ t.books.topics net →
        x ∈ s.books.topics net ∨ AdvertOp.books op = .books (.topicStore net x) := by
      intro hx
      exact (hadds net x hx).imp_right (congrArg AdvertOp.books)
    rcases hjoined.concat hnew with hold | hop
    · exact h.joined net x hold
    · exact h.allowed hunique hpromise (hop.imp AdvertOp.books.inj AdvertOp.books.inj)

/-- A step that leaves the topics of the books alone. -/
theorem Bounded.aside
    (he : ∀ op, e.op ≠ .books op)
    (htopics : t.books.topics = s.books.topics)
    (hforks : t.books.forks.supportedForks = s.books.forks.supportedForks)
    (hdiscovered : ∀ x ∈ t.tracer.getDiscoveredTopics, Admissible f x) :
    Bounded f (tr ++ [e]) t := by
  refine ⟨hforks.trans h.supported, hdiscovered, ?_, ?_⟩
  · refine h.answered_concat ?_
    intro i l heq
    exact absurd (congrArg Event.op heq) (he _)
  · intro net x hjoined
    have hnew : x ∈ t.books.topics net →
        x ∈ s.books.topics net ∨ e.op = .books (.topicStore net x) := by
      rw [htopics]
      exact Or.inl
    rcases hjoined.concat hnew with hold | hop | hop
    · exact h.joined net x hold
    · exact absurd hop (he _)
    · exact absurd hop (he _)

theorem Bounded.observe
    {digest : String} {r : Bool} :
    Bounded f (tr ++ [⟨i, .observeMessageDigest digest, r⟩]) (s.observe digest) := by
  have haside : ∀ op', AdvertOp.observeMessageDigest digest ≠ .books op' := nofun
  have htopics : (s.observe digest).books.topics = s.books.topics := by
    simp only [AdvertState.observe]
  have htracer : (s.observe digest).tracer = s.tracer := by
    simp only [AdvertState.observe]
  refine h.aside haside htopics (supportedForks_observe s digest) ?_
  rw [htracer]
  exact h.discovered

omit h

theorem Bounded.step
    {d : AdvertPool} {op : AdvertOp} {r : op.Ans}
    (h : Bounded f tr d.state)
    (hunique : ∀ l x, x ∈ unique l ↔ x ∈ l)
    (hguard : AdmissibleEvents d ⟨i, op, r⟩)
    (hpromise : AdvertPromise unique (callsOf i tr) op)
    (hsem : advertSem op d.state r t) :
    Bounded f (tr ++ [⟨i, op, r⟩]) t := by
  cases op with
  | books op => exact h.books hunique hpromise hsem
  | observeMessageDigest digest =>
      obtain ⟨-, rfl⟩ := hsem
      exact h.observe
  | trace evt =>
      obtain rfl := hsem
      have haside : ∀ op', AdvertOp.trace evt ≠ .books op' := nofun
      refine h.aside haside rfl rfl ?_
      cases evt with
      | none => exact h.discovered
      | some evt =>
          intro x hx
          rw [PeerTopicTracer.trace_eq] at hx
          rcases PeerTopicTracer.mem_getDiscoveredTopics_foldl hx with hold | ⟨m, hm, rfl, hrec⟩
          · exact h.discovered x hold
          · intro hsupported
            refine hguard evt rfl m hm hrec ?_
            unfold DigestSupported ForkService.checkForkSupported at hsupported ⊢
            rwa [h.supported]

/-- The bound holds throughout. -/
theorem bounded_of_run
    {srv : RefreshService} {activities : Nat → AdvertActivity}
    {d : AdvertPool}
    (hunique : ∀ l x, x ∈ unique l ↔ x ∈ l)
    (hstart : s.Orderly)
    (hrun : Run advertSem AdmissibleEvents (advertPool srv unique activities s) tr d) :
    Bounded s.books.forks tr d.state := by
  refine hrun.guarded_invariant (J := fun _ => AdvertPromise unique) (Q := fun _ _ _ => True)
    (fun i => along_program (activities i)) ?_ ?_
  · refine ⟨rfl, hstart.discovered, fun i l hmem => absurd hmem List.not_mem_nil, ?_⟩
    intro net x hjoined
    rcases hjoined with hmem | ⟨i, r, hmem⟩
    · exact hstart.joined net x hmem
    · exact absurd hmem List.not_mem_nil
  · intro tr d i op r t h hguard hpromise hsem
    exact h.step hunique hguard hpromise hsem

end Steps

section Bound

variable {digest x : String}

/-- The topics that the gateway builds for a digest. -/
def gatewayTopics (digest : String) : Finset String :=
  insert (buildFullTopic digest beaconBlockBase)
    ((Finset.range attestationSubnetCount).image fun n =>
      buildFullTopic digest (attestationDescriptor n))

theorem card_gatewayTopics_le
    (digest : String) :
    (gatewayTopics digest).card ≤ 65 := by
  have himage := Finset.card_image_le (s := Finset.range attestationSubnetCount)
    (f := fun n => buildFullTopic digest (attestationDescriptor n))
  rw [Finset.card_range] at himage
  exact (Finset.card_insert_le _ _).trans (Nat.succ_le_succ himage)

theorem card_gatewayTopics
    (hdigest : IsForkDigest (toLower digest)) :
    (gatewayTopics digest).card = 65 := by
  have hblock : buildFullTopic digest beaconBlockBase ∉
      (Finset.range attestationSubnetCount).image fun n =>
        buildFullTopic digest (attestationDescriptor n) := by
    intro hmem
    obtain ⟨n, -, hn⟩ := Finset.mem_image.mp hmem
    have hkind := isBeaconBlockTopic_of_subnet hdigest n
    rw [hn, isBeaconBlockTopic_buildFullTopic] at hkind
    exact nomatch hkind
  have hinj : Set.InjOn (fun n => buildFullTopic digest (attestationDescriptor n))
      (Finset.range attestationSubnetCount) := by
    intro n hn m hm heq
    have hindex := congrArg extractAttestationTopicIndex heq
    have hn' : n < attestationSubnetCount := Finset.mem_range.mp hn
    have hm' : m < attestationSubnetCount := Finset.mem_range.mp hm
    rw [extractAttestationTopicIndex_of_subnet digest hn',
      extractAttestationTopicIndex_of_subnet digest hm'] at hindex
    have hnat := congrArg UInt32.toNat (Except.ok.inj hindex)
    have hsize : attestationSubnetCount < UInt32.size := by
      decide
    rwa [UInt32.toNat_ofNat_of_lt' (hn'.trans hsize),
      UInt32.toNat_ofNat_of_lt' (hm'.trans hsize)] at hnat
  rw [gatewayTopics, Finset.card_insert_of_notMem hblock, Finset.card_image_of_injOn hinj,
    Finset.card_range]
  rfl

/-- The digest that is read from a topic with a known name is the one it was built with. -/
theorem isForkDigest_of_built
    {forkDigest descriptor : String}
    (hname : EthTopicName descriptor.toList)
    (hdigest : getForkDigestFromTopic (buildFullTopic forkDigest descriptor) = digest)
    (hne : digest ≠ "") :
    IsForkDigest (toLower forkDigest) ∧ digest = toLower forkDigest := by
  cases hparsed : ethTopicDigest (buildFullTopic forkDigest descriptor) with
  | none =>
      rw [getForkDigestFromTopic, hparsed] at hdigest
      exact absurd hdigest.symm hne
  | some found =>
      obtain rfl := digest_of_buildFullTopic hname hparsed
      have hfork := (ethTopicDigest_eq_some_iff.mp hparsed).1
      refine ⟨hfork, ?_⟩
      rw [getForkDigestFromTopic, hparsed] at hdigest
      exact hdigest.symm.trans (toLower_idem forkDigest)

theorem buildFullTopic_toLower
    (forkDigest descriptor : String) :
    buildFullTopic (toLower forkDigest) descriptor = buildFullTopic forkDigest descriptor := by
  simp only [buildFullTopic, toLower_idem]

theorem GatewayTopic.mem_gatewayTopics
    (h : GatewayTopic x)
    (hdigest : getForkDigestFromTopic x = digest)
    (hne : digest ≠ "") :
    x ∈ gatewayTopics digest := by
  cases h with
  | block forkDigest =>
      obtain ⟨-, rfl⟩ := isForkDigest_of_built ethTopicName_beaconBlockBase hdigest hne
      rw [gatewayTopics, buildFullTopic_toLower]
      exact Finset.mem_insert_self _ _
  | @attestation forkDigest n hn =>
      obtain ⟨-, rfl⟩ :=
        isForkDigest_of_built (ethTopicName_attestationDescriptor n) hdigest hne
      refine Finset.mem_insert_of_mem (Finset.mem_image.mpr ⟨n, Finset.mem_range.mpr hn, ?_⟩)
      exact buildFullTopic_toLower _ _

/-- A subnet has no block topic. -/
theorem GatewayTopic.eq_block
    (h : GatewayTopic x)
    (hdigest : getForkDigestFromTopic x = digest)
    (hne : digest ≠ "")
    (hblock : isBeaconBlockTopic x = true) :
    x = buildFullTopic digest beaconBlockBase := by
  cases h with
  | block forkDigest =>
      obtain ⟨-, rfl⟩ := isForkDigest_of_built ethTopicName_beaconBlockBase hdigest hne
      exact (buildFullTopic_toLower _ _).symm
  | @attestation forkDigest n hn =>
      obtain ⟨hfork, -⟩ :=
        isForkDigest_of_built (ethTopicName_attestationDescriptor n) hdigest hne
      rw [isBeaconBlockTopic_of_subnet hfork n] at hblock
      exact nomatch hblock

/-- While the peers advertise no topics of the supported digests but those that the gateway
would build, it joins at most 65 topics of such a digest on libp2p and at most one of its
block topics on mump2p. -/
theorem subscriptions_bounded
    {srv : RefreshService} {unique : List String → List String}
    {activities : Nat → AdvertActivity} {s : AdvertState} {history : List ForkCall}
    {tr : List AdvertEvent} {d : AdvertPool}
    (hunique : ∀ l x, x ∈ unique l ↔ x ∈ l)
    (hforks : s.books.forks = ForkService.init.after history)
    (hstart : s.Orderly)
    (hrun : Run advertSem AdmissibleEvents (advertPool srv unique activities s) tr d)
    (hdigest : s.books.forks.checkForkSupported digest = true) :
    (∀ X : Finset String,
        (∀ x ∈ X, getForkDigestFromTopic x = digest ∧ JoinedOn .libP2P x tr d.state) →
          X.card ≤ 65) ∧
      ∀ X : Finset String,
        (∀ x ∈ X, getForkDigestFromTopic x = digest ∧ isBeaconBlockTopic x = true ∧
          JoinedOn .mumP2P x tr d.state) →
            X.card ≤ 1 := by
  have hbounded := bounded_of_run hunique hstart hrun
  have hne : digest ≠ "" := by
    rintro rfl
    rw [hforks, ForkService.checkForkSupported_empty_after (by decide) history] at hdigest
    exact nomatch hdigest
  have hgateway : ∀ net x, getForkDigestFromTopic x = digest → JoinedOn net x tr d.state →
      (net = .mumP2P → isBeaconBlockTopic x = true) → GatewayTopic x := by
    rintro net x rfl hjoined hblock
    exact hbounded.joined net x hjoined hdigest hblock
  constructor
  · intro X hX
    have hsubset : X ⊆ gatewayTopics digest := by
      intro x hx
      obtain ⟨hread, hjoined⟩ := hX x hx
      exact (hgateway .libP2P x hread hjoined nofun).mem_gatewayTopics hread hne
    exact (Finset.card_le_card hsubset).trans (card_gatewayTopics_le digest)
  · intro X hX
    have heq : ∀ x ∈ X, x = buildFullTopic digest beaconBlockBase := by
      intro x hx
      obtain ⟨hread, hblock, hjoined⟩ := hX x hx
      exact (hgateway .mumP2P x hread hjoined fun _ => hblock).eq_block hread hne hblock
    refine Finset.card_le_one.mpr ?_
    intro x hx y hy
    rw [heq x hx, heq y hy]

end Bound

section Announcements

/-- A gateway that has only learned the digest in force. -/
def freshGateway : AdvertState where
  books :=
    { topics := fun _ => ∅
      subs := fun _ => ∅
      kept := ∅
      forks := ForkService.init.after [.applyForkDigest "6a95a1a9" ""] }
  tracer := .new

/-- A peer announces a subscription. -/
def announcement (topic : String) : TraceEvent :=
  { TraceEvent.bare .recvRPC [1] with
    recvRPC := some ⟨[1], some ⟨[some ⟨some true, some topic⟩]⟩⟩ }

/-- One event, and a refresh. -/
def eventThenRefresh (evt : TraceEvent) : Nat → AdvertActivity
  | 0 => .peerEvent (some evt)
  | _ => .refresh

def advertisedSem (tracer : PeerTopicTracer) : Sem TopicOp TopicOp.Ans TopicState :=
  fun op s r t => succeeding op s r t ∧ AdvertisedBy tracer op r

theorem advertisedSem_total
    (tracer : PeerTopicTracer)
    (op : TopicOp)
    (st : TopicState) :
    ∃ r t, advertisedSem tracer op st r t := by
  by_cases hop : op = .discoveredTopics
  · subst hop
    exact ⟨tracer.getDiscoveredTopics, st, ⟨rfl, trivial⟩, fun _ => Iff.rfl⟩
  · obtain ⟨r, t, hsem⟩ := succeeding_total op st
    refine ⟨r, t, hsem, ?_⟩
    cases op with
    | discoveredTopics => exact absurd rfl hop
    | _ => trivial

theorem exec_books
    {tracer : PeerTopicTracer} {st st' : TopicState} {calls : List (Call TopicOp TopicOp.Ans)}
    (h : Exec (advertisedSem tracer) st calls st') :
    Exec advertSem ⟨st, tracer⟩ (calls.map (@Call.rename _ _ AdvertOp.Ans AdvertOp.books))
      ⟨st', tracer⟩ := by
  induction h with
  | nil s => exact Exec.nil _
  | @cons a b c o r l head tail ih =>
      exact Exec.cons (t := ⟨b, tracer⟩) ⟨head.1.1, head.2, rfl⟩ ih

/-- The refresh that follows the event joins what the event has advertised. -/
theorem run_eventThenRefresh
    (evt : TraceEvent)
    {s : AdvertState}
    (hclean : s.books.forks.Clean) :
    ∃ tr d advertised,
      Run advertSem anyStep (advertPool bootService List.eraseDups (eventThenRefresh evt) s)
          tr d ∧
        (∀ e ∈ tr, ∀ evt', e.op = .trace (some evt') → evt' = evt) ∧
        (∀ x, x ∈ advertised ↔ x ∈ (s.tracer.trace (some evt)).getDiscoveredTopics) ∧
        Refreshed s.books (filterAndBuildEthTopics List.eraseDups s.books.forks.activeDigest
          false ++ advertised) d.state.books := by
  obtain ⟨u, st', hreturns⟩ := exists_returns (advertisedSem_total (s.tracer.trace (some evt)))
    (refreshTopics bootService List.eraseDups) s.books
  obtain ⟨advertised, m, hdiscovered, hrefreshed⟩ :=
    returns_refreshTopics_on (fun _ _ _ _ h => h.1) rfl rfl rfl hclean hreturns
  obtain ⟨calls, hpath, hexec⟩ := returns_iff_path.mp hreturns
  have hfirst : Run advertSem anyStep
      (advertPool bootService List.eraseDups (eventThenRefresh evt) s)
      [⟨0, .trace (some evt), ()⟩] _ :=
    Run.next rfl rfl (Run.nil _)
  have hpath' := @Path.rename _ _ AdvertOp.Ans _ AdvertOp.books _ _ _ hpath
  -- the pool once the event is recorded
  let noted : AdvertPool :=
    ⟨Function.update (advertPool bootService List.eraseDups (eventThenRefresh evt) s).progs 0
      (ret ()), ⟨s.books, s.tracer.trace (some evt)⟩⟩
  have hrest := run_of_path (c := noted) (G := anyStep) (i := 1) hpath' (exec_books hexec)
    (fun _ _ _ _ => trivial)
  refine ⟨_, _, advertised, hfirst.trans hrest, ?_, ?_, hrefreshed⟩
  · intro e he evt' hop
    rcases List.mem_append.mp he with hmem | hmem
    · obtain rfl := List.mem_singleton.mp hmem
      cases hop
      rfl
    · simp only [List.map_map, List.mem_map] at hmem
      obtain ⟨c, -, rfl⟩ := hmem
      exact nomatch hop
  · exact (returns_op_iff.mp hdiscovered).2

theorem orderly_freshGateway :
    freshGateway.Orderly := by
  refine ⟨fun x hx => ?_, fun net x hx => absurd hx (Finset.notMem_empty x)⟩
  exact absurd hx List.not_mem_nil

theorem clean_freshGateway :
    freshGateway.books.forks.Clean :=
  ForkService.clean_init.after [.applyForkDigest "6a95a1a9" ""]

/-- A topic that passes for one of blocks. -/
def blockLikeTopic : String := "/eth2/6a95a1a9/beacon_block_x/ssz_snappy"

theorem activeDigest_freshGateway :
    freshGateway.books.forks.activeDigest = "6a95a1a9" := by
  decide +kernel

theorem supported_freshGateway :
    freshGateway.books.forks.checkForkSupported "6a95a1a9" = true := by
  decide +kernel

/-- One more topic than a digest has. -/
def inflatedTopics : Finset String :=
  insert blockLikeTopic (gatewayTopics "6a95a1a9")

theorem card_inflatedTopics :
    inflatedTopics.card = 66 := by
  have hdigest : IsForkDigest (toLower "6a95a1a9") := by
    decide +kernel
  have hnew : blockLikeTopic ∉ gatewayTopics "6a95a1a9" := by
    intro hmem
    rcases Finset.mem_insert.mp hmem with hblock | hsubnet
    · exact absurd hblock (by decide +kernel)
    · obtain ⟨n, -, hn⟩ := Finset.mem_image.mp hsubnet
      have hkind := isBeaconBlockTopic_of_subnet hdigest n
      rw [hn] at hkind
      exact absurd hkind (by decide +kernel)
  rw [inflatedTopics, Finset.card_insert_of_notMem hnew, card_gatewayTopics hdigest]

variable {x : String} {f : ForkService}

theorem activeTopic_of_mem_gatewayTopics
    (hx : x ∈ gatewayTopics f.activeDigest) :
    ActiveTopic f x := by
  rcases Finset.mem_insert.mp hx with rfl | hx
  · exact .block
  · obtain ⟨n, hn, rfl⟩ := Finset.mem_image.mp hx
    exact .attestation (Finset.mem_range.mp hn)

theorem digest_of_activeTopic
    (hdigest : IsForkDigest (toLower f.activeDigest))
    (h : ActiveTopic f x) :
    getForkDigestFromTopic x = toLower f.activeDigest := by
  cases h with
  | block =>
      refine getForkDigestFromTopic_buildFullTopic hdigest ?_
      rw [ethTopicName_beaconBlockBase.trimSpace_eq]
      exact ethTopicName_beaconBlockBase
  | @attestation n hn =>
      refine getForkDigestFromTopic_buildFullTopic hdigest ?_
      rw [(ethTopicName_attestationDescriptor n).trimSpace_eq]
      exact ethTopicName_attestationDescriptor n

theorem inflatedTopics_read
    (hx : x ∈ inflatedTopics) :
    getForkDigestFromTopic x = "6a95a1a9" ∧ IsHostTopic x := by
  rcases Finset.mem_insert.mp hx with rfl | hx
  · decide +kernel
  · rw [← activeDigest_freshGateway] at hx
    have hactive := activeTopic_of_mem_gatewayTopics hx
    have hdigest : IsForkDigest (toLower "6a95a1a9") ∧ toLower "6a95a1a9" = "6a95a1a9" := by
      decide +kernel
    refine ⟨?_, hactive.isHostTopic⟩
    rw [digest_of_activeTopic (by rw [activeDigest_freshGateway]; exact hdigest.1) hactive,
      activeDigest_freshGateway, hdigest.2]

theorem wanted_freshGateway
    (hx : x ∈ gatewayTopics "6a95a1a9") :
    x ∈ filterAndBuildEthTopics List.eraseDups freshGateway.books.forks.activeDigest false := by
  have hne : freshGateway.books.forks.activeDigest ≠ "" := by
    rw [activeDigest_freshGateway]
    decide
  rw [← activeDigest_freshGateway] at hx
  exact (activeTopic_of_mem_gatewayTopics hx).mem_filterAndBuildEthTopics
    (fun _ _ => List.mem_eraseDups) hne

theorem inflatedTopics_wanted
    {advertised : List String}
    (hadvertised : ∀ x, x ∈ advertised ↔
      x ∈ (PeerTopicTracer.new.trace (some (announcement blockLikeTopic))).getDiscoveredTopics)
    (hx : x ∈ inflatedTopics) :
    x ∈ filterAndBuildEthTopics List.eraseDups freshGateway.books.forks.activeDigest false ++
      advertised := by
  rcases Finset.mem_insert.mp hx with rfl | hx
  · exact List.mem_append_right _ ((hadvertised _).mpr (by decide +kernel))
  · exact List.mem_append_left _ (wanted_freshGateway hx)

/-- A peer announces a topic whose name begins like that of blocks.  The refresh joins it on
both networks, beside all the topics of the digest. -/
theorem announcement_inflates :
    freshGateway.Orderly ∧ freshGateway.books.forks.checkForkSupported "6a95a1a9" = true ∧
      ∃ tr d,
        Run advertSem anyStep (advertPool bootService List.eraseDups
            (eventThenRefresh (announcement blockLikeTopic)) freshGateway) tr d ∧
          65 < ((d.state.books.topics .libP2P).filter fun x =>
            getForkDigestFromTopic x = "6a95a1a9").card ∧
          1 < ((d.state.books.topics .mumP2P).filter fun x =>
            getForkDigestFromTopic x = "6a95a1a9" ∧ isBeaconBlockTopic x = true).card := by
  refine ⟨orderly_freshGateway, supported_freshGateway, ?_⟩
  obtain ⟨tr, d, advertised, hrun, -, hadvertised, hrefreshed⟩ :=
    run_eventThenRefresh (announcement blockLikeTopic) clean_freshGateway
  have hsupported : ∀ x ∈ inflatedTopics, Supported freshGateway.books.forks x := by
    intro x hx
    refine Or.inr ?_
    rw [(inflatedTopics_read hx).1]
    exact supported_freshGateway
  have hwanted := fun x => inflatedTopics_wanted (x := x) hadvertised
  refine ⟨tr, d, hrun, ?_, ?_⟩
  · have hsubset : inflatedTopics ⊆ (d.state.books.topics .libP2P).filter fun x =>
        getForkDigestFromTopic x = "6a95a1a9" := by
      intro x hx
      obtain ⟨hdigest, hhost⟩ := inflatedTopics_read hx
      refine Finset.mem_filter.mpr ⟨(hrefreshed.libTopics x).mpr ?_, hdigest⟩
      exact ⟨hsupported x hx, Or.inr ⟨hwanted x hx, hhost, Finset.notMem_empty x⟩⟩
    have hle := Finset.card_le_card hsubset
    rw [card_inflatedTopics] at hle
    exact hle
  · have hmem : ∀ x ∈ inflatedTopics, isBeaconBlockTopic x = true →
        x ∈ (d.state.books.topics .mumP2P).filter fun x =>
          getForkDigestFromTopic x = "6a95a1a9" ∧ isBeaconBlockTopic x = true := by
      intro x hx hblock
      refine Finset.mem_filter.mpr
        ⟨(hrefreshed.mumTopics x).mpr ?_, (inflatedTopics_read hx).1, hblock⟩
      exact Or.inr ⟨hwanted x hx, hsupported x hx, hblock⟩
    refine Finset.one_lt_card.mpr ⟨blockLikeTopic, hmem _ (Finset.mem_insert_self _ _) ?_,
      buildFullTopic "6a95a1a9" beaconBlockBase, hmem _ ?_ ?_, ?_⟩
    · decide +kernel
    · exact Finset.mem_insert_of_mem (Finset.mem_insert_self _ _)
    · exact isBeaconBlockTopic_buildFullTopic _
    · decide +kernel

/-- The mentions of an announcement are about its topic. -/
theorem admissible_announcement
    {topic : String}
    (htopic : GatewayTopic topic) :
    ∀ m ∈ (announcement topic).mentions, Admissible f m.topic := by
  intro m hm
  have hmention : (announcement topic).mentions = [⟨[1], topic, .subscribe⟩] := rfl
  rw [hmention, List.mem_singleton] at hm
  subst hm
  exact fun _ _ => htopic

/-- A peer that announces the block topic leaves the gateway with the topics of its digest. -/
theorem subscriptions_bounded_announced :
    ∃ tr d,
      Run advertSem AdmissibleEvents (advertPool bootService List.eraseDups
          (eventThenRefresh (announcement (buildFullTopic "6a95a1a9" beaconBlockBase)))
          freshGateway) tr d ∧
        buildFullTopic "6a95a1a9" beaconBlockBase ∈ d.state.books.topics .mumP2P ∧
        ((d.state.books.topics .libP2P).filter fun x =>
          getForkDigestFromTopic x = "6a95a1a9").card ≤ 65 := by
  obtain ⟨tr, d, advertised, hrun, hevents, -, hrefreshed⟩ := run_eventThenRefresh
    (announcement (buildFullTopic "6a95a1a9" beaconBlockBase)) clean_freshGateway
  have hguarded : Run advertSem AdmissibleEvents (advertPool bootService List.eraseDups
      (eventThenRefresh (announcement (buildFullTopic "6a95a1a9" beaconBlockBase)))
      freshGateway) tr d := by
    refine hrun.guarded ?_
    intro a e b m htr _ evt hop
    obtain rfl := hevents e (by simp [htr]) evt hop
    intro mention hmention _
    exact admissible_announcement (.block "6a95a1a9") mention hmention
  have hbound := subscriptions_bounded (fun l x => List.mem_eraseDups)
    rfl orderly_freshGateway hguarded supported_freshGateway
  have hblock : buildFullTopic "6a95a1a9" beaconBlockBase ∈ gatewayTopics "6a95a1a9" :=
    Finset.mem_insert_self _ _
  refine ⟨tr, d, hguarded, (hrefreshed.mumTopics _).mpr (Or.inr ⟨?_, Or.inr ?_, ?_⟩),
    hbound.1 _ ?_⟩
  · exact List.mem_append_left _ (wanted_freshGateway hblock)
  · rw [(inflatedTopics_read (Finset.mem_insert_of_mem hblock)).1]
    exact supported_freshGateway
  · exact isBeaconBlockTopic_buildFullTopic _
  · intro x hx
    obtain ⟨hmem, hdigest⟩ := Finset.mem_filter.mp hx
    exact ⟨hdigest, Or.inl hmem⟩

end Announcements

end GossipsubGateway
end OptimumGateway
