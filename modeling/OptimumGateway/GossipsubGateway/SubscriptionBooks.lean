import OptimumGateway.Foundation.CallHistory
import OptimumGateway.GossipsubGateway.RefreshTopics

/-!
# The books of the two nodes under failing calls

The mump2p node keeps three books: the joined topics, the live subscriptions and the topics
keeper.  The libp2p side of the gateway keeps two, and the pubsub of its host has one of its
own, the topics that are joined and not closed.  This module follows the books through
arbitrary sequences of calls in which `Join`, `Subscribe`, `Close` and `Publish` fail at
will.

On the mump2p node the books agree after every call exactly as long as no `Close` in
`UnsubscribeTopic` fails: the subscription is gone by then, the topic and the keeper's entry
stay, and a later `SubscribeTopic` finds the topic and returns without subscribing.

On the libp2p side they agree exactly as long as no `Subscribe` fails after its `Join`: the
joined topic is kept without a subscription, and a later `Join` of it is refused.
-/

namespace OptimumGateway
namespace GossipsubGateway

open Foundation Foundation.Prog Protocol

section Node

/-- `PublishMessage` of the mump2p node, with what `Publish` returns. -/
def publishMessage
    (published : Option GoError)
    (topic : String) : TopicProg (Option GoError) := do
  let publish := published.map (GoError.wrapf "failed to publish message: %w" [])
  let ok ← topicOp (.topicLoad .mumP2P topic)
  if ok then
    pure publish
  else do
    let err ← subscribeTopic topic
    match err with
    | some err => pure (some (.wrapf "failed to subscribe to topic %s: %w" [topic] err))
    | none => do
        let ok ← topicOp (.topicLoad .mumP2P topic)
        if ok then
          pure publish
        else
          pure (some (.errorf "topic %s not found after subscribing" [topic]))

/-- A call of the node and the answers of pubsub to it. -/
inductive NodeCall where
  | subscribeTopic (topic : String) (o : Outcomes)
  | unsubscribeTopic (topic : String) (o : Outcomes)
  | publishMessage (topic : String) (o : Outcomes) (published : Option GoError)
deriving DecidableEq

def NodeCall.outcomes : NodeCall → Outcomes
  | .subscribeTopic _ o | .unsubscribeTopic _ o | .publishMessage _ o _ => o

def NodeCall.program : NodeCall → TopicProg (Option GoError)
  | .subscribeTopic topic _ => GossipsubGateway.subscribeTopic topic
  | .unsubscribeTopic topic _ => GossipsubGateway.unsubscribeTopic topic
  | .publishMessage topic _ published => GossipsubGateway.publishMessage published topic

def nodeStep (st : TopicState) (call : NodeCall) (st' : TopicState) : Prop :=
  ∃ r, Returns (scripted call.outcomes) call.program st r st'

theorem nodeStep_total
    (st : TopicState)
    (call : NodeCall) :
    ∃ st', nodeStep st call st' := by
  obtain ⟨r, st', h⟩ := exists_returns (scripted_total call.outcomes) call.program st
  exact ⟨st', r, h⟩

/-- The three books of the node hold the same topics. -/
structure Agree (st : TopicState) : Prop where
  subs : st.subs .mumP2P = st.topics .mumP2P
  kept : st.kept = st.topics .mumP2P

variable {st st' : TopicState} {topic : String} {o : Outcomes} {r : Option GoError}

/-- A message is published on the books as they are, or as `SubscribeTopic` leaves them. -/
theorem scripted_publishMessage
    {published : Option GoError}
    (h : Returns (scripted o) (publishMessage published topic) st r st') :
    st' = st ∨ st' = st.enter topic := by
  obtain ⟨ok, st₁, ⟨⟨rfl, rfl⟩, -⟩, hrest⟩ := returns_op_bind_iff.mp h
  by_cases hmem : topic ∈ st₁.topics .mumP2P
  · rw [if_pos (decide_eq_true hmem)] at hrest
    exact Or.inl (returns_pure_iff.mp hrest).2
  · rw [if_neg (by simp [hmem])] at hrest
    obtain ⟨err, st₂, hsubscribe, hrest⟩ := returns_bind_iff.mp hrest
    have hst : st₂ = st₁ ∨ st₂ = st₁.enter topic := by
      rcases scripted_subscribeTopic hsubscribe with ⟨-, -, hst⟩ | ⟨-, -, hst⟩ | ⟨-, -, hst⟩
      · exact Or.inl hst
      · exact Or.inl hst
      · exact Or.inr hst
    cases err with
    | some err =>
        rw [(returns_pure_iff.mp hrest).2]
        exact hst
    | none =>
        obtain ⟨ok, st₃, ⟨⟨rfl, rfl⟩, -⟩, hrest⟩ := returns_op_bind_iff.mp hrest
        split at hrest
        · rw [(returns_pure_iff.mp hrest).2]
          exact hst
        · rw [(returns_pure_iff.mp hrest).2]
          exact hst

theorem Agree.enter
    (h : Agree st)
    (topic : String) :
    Agree (st.enter topic) := by
  constructor
  · simp [TopicState.enter, TopicState.putTopic, TopicState.putSub, h.subs]
  · simp [TopicState.enter, TopicState.putTopic, TopicState.putSub, h.kept]

/-- The call unsubscribes from a joined topic and pubsub does not close it. -/
def Deafens (st : TopicState) : NodeCall → Prop
  | .unsubscribeTopic topic o => topic ∈ st.topics .mumP2P ∧ o.close ≠ none
  | _ => False

theorem Agree.step_iff
    {call : NodeCall}
    (h : Agree st)
    (hstep : nodeStep st call st') :
    Agree st' ↔ ¬ Deafens st call := by
  obtain ⟨r, hreturns⟩ := hstep
  cases call with
  | subscribeTopic topic o =>
      refine iff_of_true ?_ not_false
      rcases scripted_subscribeTopic hreturns with ⟨-, -, rfl⟩ | ⟨-, -, rfl⟩ | ⟨-, -, rfl⟩
      · exact h
      · exact h
      · exact h.enter topic
  | publishMessage topic o published =>
      refine iff_of_true ?_ not_false
      rcases scripted_publishMessage hreturns with rfl | rfl
      · exact h
      · exact h.enter topic
  | unsubscribeTopic topic o =>
      rcases scripted_unsubscribeTopic hreturns with
        ⟨hmem, rfl⟩ | ⟨hmem, hclose, rfl⟩ | ⟨hmem, hclose, rfl⟩
      · rw [TopicState.dropSub_of_notMem (by rwa [h.subs])]
        exact iff_of_true h (fun hdeaf => hmem hdeaf.1)
      · refine iff_of_false ?_ (not_not_intro ⟨hmem, hclose⟩)
        intro hagree
        have hsubs := hagree.subs
        have htopic : topic ∈ (st.dropSub .mumP2P topic).subs .mumP2P := by
          rw [hsubs]
          exact hmem
        simp [TopicState.dropSub] at htopic
      · refine iff_of_true ⟨?_, ?_⟩ (fun hdeaf => hdeaf.2 hclose)
        · simp [TopicState.dropSub, TopicState.dropTopic, h.subs]
        · simp [TopicState.dropSub, TopicState.dropTopic, h.kept]

/-- The books of the mump2p node agree after every call of a sequence, and a
`SubscribeTopic` that returns nil leaves a live subscription, iff no `UnsubscribeTopic` of
the sequence meets a joined topic that pubsub does not close. -/
theorem books_agree_iff
    (hst : Agree st)
    (calls : List NodeCall) :
    (∃ st', Calls nodeStep st calls st') ∧
      (((∀ done rest st', calls = done ++ rest → Calls nodeStep st done st' → Agree st') ∧
          ∀ done topic o rest st₁ st₂, calls = done ++ .subscribeTopic topic o :: rest →
            Calls nodeStep st done st₁ →
            Returns (scripted o) (subscribeTopic topic) st₁ none st₂ →
            topic ∈ st₂.subs .mumP2P)
        ↔
      ∀ done topic o rest st', calls = done ++ .unsubscribeTopic topic o :: rest →
        Calls nodeStep st done st' → topic ∈ st'.topics .mumP2P → o.close = none) := by
  have hcondition : (∀ done rest st', calls = done ++ rest → Calls nodeStep st done st' →
        Agree st')
      ↔
      ∀ done call rest st', calls = done ++ call :: rest → Calls nodeStep st done st' →
        ¬ Deafens st' call :=
    Calls.invariant_iff_of_step nodeStep_total hst (fun _ _ _ hu hk => hu.step_iff hk)
  refine ⟨Calls.exists nodeStep_total st calls, ⟨?_, ?_⟩⟩
  · intro h done topic o rest st' hcalls hdone hmem
    by_contra hclose
    exact hcondition.mp h.1 done _ rest st' hcalls hdone ⟨hmem, hclose⟩
  · intro h
    have hagree := hcondition.mpr (by
      intro done call rest st' hcalls hdone hdeaf
      cases call with
      | unsubscribeTopic topic o =>
          exact hdeaf.2 (h done topic o rest st' hcalls hdone hdeaf.1)
      | subscribeTopic topic o => exact hdeaf
      | publishMessage topic o published => exact hdeaf)
    refine ⟨hagree, ?_⟩
    intro done topic o rest st₁ st₂ hcalls hdone hreturns
    have hst₁ := hagree done _ st₁ hcalls hdone
    rcases scripted_subscribeTopic hreturns with ⟨hr, -⟩ | ⟨-, hmem, rfl⟩ | ⟨-, -, rfl⟩
    · exact absurd rfl hr
    · rwa [hst₁.subs]
    · simp [TopicState.enter, TopicState.putSub]

end Node

section DeafNode

def emptyBooks : TopicState where
  topics := fun _ => ∅
  subs := fun _ => ∅
  kept := ∅
  forks := ForkService.init

theorem agree_emptyBooks :
    Agree emptyBooks :=
  ⟨rfl, rfl⟩

def closeFails : Outcomes :=
  ⟨none, none, some (.new "cannot close topic")⟩

theorem scripted_subscribeTopic_allSucceed
    {topic : String} {st st' : TopicState} {r : Option GoError}
    (hblank : trimSpace topic ≠ "")
    (h : Returns (scripted allSucceed) (subscribeTopic topic) st r st') :
    r = none ∧ (topic ∈ st.topics .mumP2P ∧ st' = st ∨
      topic ∉ st.topics .mumP2P ∧ st' = st.enter topic) := by
  rcases scripted_subscribeTopic h with ⟨-, hreason, -⟩ | ⟨hr, hst⟩ | ⟨hr, hst⟩
  · exact absurd hreason (by simp [hblank, allSucceed])
  · exact ⟨hr, Or.inl hst⟩
  · exact ⟨hr, Or.inr hst⟩

/-- A topic whose `Close` fails stays joined without a subscription, and subscribing to it
again returns nil and changes nothing. -/
theorem joined_but_deaf :
    ∃ st₁ st₂, Calls nodeStep emptyBooks
        [.subscribeTopic "t" allSucceed, .unsubscribeTopic "t" closeFails] st₁ ∧
      Returns (scripted allSucceed) (subscribeTopic "t") st₁ none st₂ ∧
      ¬ Agree st₁ ∧ "t" ∈ st₂.topics .mumP2P ∧ "t" ∈ st₂.kept ∧ "t" ∉ st₂.subs .mumP2P := by
  have hblank : trimSpace "t" ≠ "" := by
    decide +kernel
  obtain ⟨st₁, hcalls⟩ := Calls.exists nodeStep_total emptyBooks
    [.subscribeTopic "t" allSucceed, .unsubscribeTopic "t" closeFails]
  obtain ⟨r, st₂, hagain⟩ :=
    exists_returns (scripted_total allSucceed) (subscribeTopic "t") st₁
  -- the states, one call after another
  obtain ⟨u, ⟨r₁, hsubscribe⟩, v, ⟨r₂, hunsubscribe⟩, hv⟩ := id hcalls
  obtain rfl : st₁ = v := hv
  have hu : u = emptyBooks.enter "t" := by
    rcases (scripted_subscribeTopic_allSucceed hblank hsubscribe).2 with ⟨hmem, -⟩ | ⟨-, hu⟩
    · exact absurd hmem (Finset.notMem_empty _)
    · exact hu
  have hjoined : "t" ∈ u.topics .mumP2P := by
    simp [hu, TopicState.enter, TopicState.putTopic, TopicState.putSub]
  have hst₁ : st₁ = u.dropSub .mumP2P "t" := by
    rcases scripted_unsubscribeTopic hunsubscribe with ⟨-, hst⟩ | ⟨-, -, hst⟩ | ⟨-, hclose, -⟩
    · exact hst
    · exact hst
    · cases hclose
  have hdeaf : "t" ∉ st₁.subs .mumP2P := by
    simp [hst₁, TopicState.dropSub]
  have hstill : "t" ∈ st₁.topics .mumP2P := by
    rw [hst₁]
    exact hjoined
  obtain ⟨rfl, ⟨-, rfl⟩ | ⟨hnot, -⟩⟩ := scripted_subscribeTopic_allSucceed hblank hagain
  · refine ⟨st₂, st₂, hcalls, hagain, ?_, hstill, ?_, hdeaf⟩
    · intro hagree
      rw [hagree.subs] at hdeaf
      exact hdeaf hstill
    · simp [hst₁, hu, TopicState.enter, TopicState.dropSub]
  · exact absurd hstill hnot

def rejoinCalls : List NodeCall :=
  [.subscribeTopic "t" allSucceed, .unsubscribeTopic "t" allSucceed,
    .publishMessage "t" allSucceed none]

/-- With every `Close` succeeding, the books agree after joining, leaving and joining
again. -/
theorem books_agree_rejoined :
    ∃ st', Calls nodeStep emptyBooks rejoinCalls st' ∧ Agree st' := by
  obtain ⟨⟨st', hcalls⟩, hiff⟩ := books_agree_iff agree_emptyBooks rejoinCalls
  have hcloses : ∀ done topic o rest u, rejoinCalls = done ++ .unsubscribeTopic topic o :: rest →
      Calls nodeStep emptyBooks done u → topic ∈ u.topics .mumP2P → o.close = none := by
    intro done topic o rest u hsplit _ _
    have hcall : NodeCall.unsubscribeTopic topic o ∈ rejoinCalls := by
      simp [hsplit]
    simp only [rejoinCalls, List.mem_cons, reduceCtorEq, NodeCall.unsubscribeTopic.injEq,
      List.not_mem_nil, or_false, false_or] at hcall
    rw [hcall.2]
    rfl
  exact ⟨st', hcalls, (hiff.mpr hcloses).1 rejoinCalls [] st' (by simp) hcalls⟩

end DeafNode

section Host

/-- The books of the gateway, and the topics that the pubsub of its host has joined and not
closed. -/
@[ext]
structure HostState where
  books : TopicState
  joined : Finset String

/-- The host's pubsub refuses to join a topic twice.  The other answers to `Join` and
`Subscribe` are scripted, `Close` succeeds, and the mump2p node answers at will. -/
def pubsubSem (o : Outcomes) : Sem TopicOp TopicOp.Ans HostState
  | .join .libP2P topic, s, r, t =>
      (topic ∈ s.joined ∧ r ≠ none ∧ t = s) ∨
        (topic ∉ s.joined ∧ r = o.join ∧
          t = if o.join = none then { s with joined := insert topic s.joined } else s)
  | .subscribe .libP2P _, s, r, t => r = o.subscribe ∧ t = s
  | .close .libP2P topic, s, r, t =>
      r = none ∧ t = { s with joined := s.joined.erase topic }
  | op, s, r, t => topicSem op s.books r t.books ∧ t.joined = s.joined

/-- A call of the gateway and the answers of the host's pubsub to it. -/
inductive HostCall where
  | subscribeToTopic (topic : String) (o : Outcomes)
  | unsubscribeFromTopic (topic : String)
deriving DecidableEq

def HostCall.outcomes : HostCall → Outcomes
  | .subscribeToTopic _ o => o
  | .unsubscribeFromTopic _ => allSucceed

def HostCall.program (s : RefreshService) : HostCall → TopicProg (Option GoError)
  | .subscribeToTopic topic _ => GossipsubGateway.subscribeToTopic s topic
  | .unsubscribeFromTopic topic => do
      GossipsubGateway.unsubscribeFromTopic s topic
      pure none

def hostStep (s : RefreshService) (h : HostState) (call : HostCall) (h' : HostState) : Prop :=
  ∃ r, Returns (pubsubSem call.outcomes) (call.program s) h r h'

/-- The two books of the gateway and that of pubsub hold the same topics. -/
structure HostAgree (h : HostState) : Prop where
  subs : h.books.subs .libP2P = h.books.topics .libP2P
  joined : h.joined = h.books.topics .libP2P

theorem pubsubSem_total
    (o : Outcomes)
    (op : TopicOp)
    (h : HostState) :
    ∃ r t, pubsubSem o op h r t := by
  have hbooks : (∀ r t, scripted o op h.books r t →
        pubsubSem o op h r ⟨t, h.joined⟩) → ∃ r t, pubsubSem o op h r t := by
    intro hop
    obtain ⟨r, t, hsem⟩ := scripted_total o op h.books
    exact ⟨r, ⟨t, h.joined⟩, hop r t hsem⟩
  cases op with
  | join net topic =>
      cases net with
      | libP2P =>
          by_cases hmem : topic ∈ h.joined
          · exact ⟨some (.new "topic already exists"), h, Or.inl ⟨hmem, by simp, rfl⟩⟩
          · exact ⟨o.join, _, Or.inr ⟨hmem, rfl, rfl⟩⟩
      | mumP2P => exact hbooks fun r t hsem => ⟨hsem.1, rfl⟩
  | subscribe net topic =>
      cases net with
      | libP2P => exact ⟨o.subscribe, h, rfl, rfl⟩
      | mumP2P => exact hbooks fun r t hsem => ⟨hsem.1, rfl⟩
  | close net topic =>
      cases net with
      | libP2P => exact ⟨none, _, rfl, rfl⟩
      | mumP2P => exact hbooks fun r t hsem => ⟨hsem.1, rfl⟩
  | _ => exact hbooks fun r t hsem => ⟨hsem.1, rfl⟩

variable {s : RefreshService} {h h' : HostState} {topic : String} {o : Outcomes}
variable {r : Option GoError} {u : Unit}

theorem hostStep_total
    (h : HostState)
    (call : HostCall) :
    ∃ h', hostStep s h call h' := by
  obtain ⟨r, h', hreturns⟩ :=
    exists_returns (pubsubSem_total call.outcomes) (call.program s) h
  exact ⟨h', r, hreturns⟩

/-- What `subscribeToTopic` does to the books, by the answers of pubsub. -/
theorem returns_subscribeToTopic_host
    (hps : s.hasPubsub = true)
    (hreturns : Returns (pubsubSem o) (subscribeToTopic s topic) h r h') :
    (r = none ∧ (¬ IsHostTopic topic ∨ topic ∈ h.books.subs .libP2P) ∧ h' = h) ∨
      (r ≠ none ∧ topic ∉ h.books.subs .libP2P ∧ topic ∈ h.joined ∧ h' = h) ∨
      (r ≠ none ∧ o.join ≠ none ∧ h' = h) ∨
      (r ≠ none ∧ IsHostTopic topic ∧ topic ∉ h.joined ∧ o.join = none ∧ o.subscribe ≠ none ∧
        h' = ⟨h.books.putTopic .libP2P topic, insert topic h.joined⟩) ∨
      (r = none ∧ topic ∉ h.joined ∧ o.join = none ∧ o.subscribe = none ∧
        h' = ⟨(h.books.putTopic .libP2P topic).putSub .libP2P topic,
          insert topic h.joined⟩) := by
  by_cases hvalid : IsHostTopic topic
  · have hkind : (isBeaconBlockTopic topic || isAttestationTopic topic) = true := hvalid
    rw [subscribeToTopic, hkind, if_neg (by simp)] at hreturns
    obtain ⟨ok, h₁, ⟨⟨rfl, hbooks⟩, hjoined⟩, hrest⟩ := returns_op_bind_iff.mp hreturns
    obtain rfl : h₁ = h := HostState.ext hbooks hjoined
    by_cases hmem : topic ∈ h₁.books.subs .libP2P
    · rw [if_pos (decide_eq_true hmem)] at hrest
      obtain ⟨rfl, rfl⟩ := returns_pure_iff.mp hrest
      exact Or.inl ⟨rfl, Or.inr hmem, rfl⟩
    · rw [if_neg (by simp [hmem]), if_neg (by simp [hps])] at hrest
      obtain ⟨joined, h₂, hjoin, hrest⟩ := returns_bind_iff.mp hrest
      rcases returns_op_iff.mp hjoin with ⟨htwice, hrefused, rfl⟩ | ⟨hfree, rfl, rfl⟩
      · obtain ⟨err, rfl⟩ := Option.ne_none_iff_exists'.mp hrefused
        obtain ⟨rfl, rfl⟩ := returns_pure_iff.mp hrest
        exact Or.inr (Or.inl ⟨by simp, hmem, htwice, rfl⟩)
      · cases hoj : o.join with
        | some err =>
            rw [hoj] at hrest
            obtain ⟨rfl, rfl⟩ := returns_pure_iff.mp hrest
            exact Or.inr (Or.inr (Or.inl ⟨by simp, by simp, by simp⟩))
        | none =>
            rw [hoj, if_pos rfl] at hrest
            obtain ⟨_, h₃, ⟨hbooks, hjoined⟩, hrest⟩ := returns_op_bind_iff.mp hrest
            obtain rfl : h₃ = ⟨h₁.books.putTopic .libP2P topic, insert topic h₁.joined⟩ :=
              HostState.ext hbooks hjoined
            obtain ⟨subscribed, h₄, ⟨rfl, rfl⟩, hrest⟩ := returns_op_bind_iff.mp hrest
            cases hos : o.subscribe with
            | some err =>
                rw [hos] at hrest
                obtain ⟨rfl, rfl⟩ := returns_pure_iff.mp hrest
                exact Or.inr (Or.inr (Or.inr (Or.inl
                  ⟨by simp, hvalid, hfree, rfl, by simp, rfl⟩)))
            | none =>
                rw [hos] at hrest
                obtain ⟨_, h₅, ⟨hbooks, hjoined⟩, hrest⟩ := returns_op_bind_iff.mp hrest
                obtain rfl := HostState.ext (y := ⟨_, _⟩) hbooks hjoined
                obtain ⟨_, h₆, ⟨hbooks, hjoined⟩, hret⟩ := returns_op_bind_iff.mp hrest
                obtain rfl := HostState.ext (y := ⟨_, _⟩) hbooks hjoined
                obtain ⟨rfl, rfl⟩ := returns_pure_iff.mp hret
                exact Or.inr (Or.inr (Or.inr (Or.inr ⟨rfl, hfree, rfl, rfl, rfl⟩)))
  · rw [subscribeToTopic, if_pos (by simpa [IsHostTopic] using hvalid)] at hreturns
    obtain ⟨rfl, rfl⟩ := returns_pure_iff.mp hreturns
    exact Or.inl ⟨rfl, Or.inl hvalid, rfl⟩

/-- Operations that leave the host alone. -/
def OnMesh : TopicOp → Prop
  | .topicKeys net | .topicLoad net _ | .topicStore net _ | .topicDelete net _
  | .subLoad net _ | .subStore net _ | .subDelete net _
  | .join net _ | .subscribe net _ | .cancel net _ | .close net _
  | .goHandleSubscription net _ => net = .mumP2P
  | _ => True

theorem onMesh_cancelSubscription
    (topic : String) :
    (cancelSubscription .mumP2P topic).Forall OnMesh := by
  refine ⟨rfl, ?_⟩
  intro ok
  cases ok with
  | false => exact trivial
  | true => exact ⟨rfl, fun _ => ⟨rfl, fun _ => trivial⟩⟩

theorem onMesh_unsubscribeTopic
    (topic : String) :
    (unsubscribeTopic topic).Forall OnMesh := by
  refine (onMesh_cancelSubscription topic).bind ?_
  intro _
  refine ⟨rfl, ?_⟩
  intro ok
  cases ok with
  | false => exact trivial
  | true =>
      refine ⟨rfl, ?_⟩
      intro closed
      cases closed with
      | some err => exact trivial
      | none => exact ⟨rfl, fun _ => ⟨trivial, fun _ => trivial⟩⟩

/-- What the host has. -/
def HostState.host (h : HostState) : Finset String × Finset String × Finset String :=
  (h.books.topics .libP2P, h.books.subs .libP2P, h.joined)

theorem books_of_onMesh
    {st st' : TopicState} {op : TopicOp} {answer : op.Ans}
    (hop : OnMesh op)
    (hsem : topicSem op st answer st') :
    st'.topics .libP2P = st.topics .libP2P ∧ st'.subs .libP2P = st.subs .libP2P := by
  cases op with
  | topicKeys net | topicLoad net topic | subLoad net topic | keeperTopics
  | topicSupported topic | activeDigest => exact hsem.2 ▸ ⟨rfl, rfl⟩
  | topicStore net topic | topicDelete net topic | subStore net topic | subDelete net topic =>
      obtain rfl : net = .mumP2P := hop
      exact hsem ▸ ⟨rfl, rfl⟩
  | _ => exact hsem ▸ ⟨rfl, rfl⟩

theorem host_of_onMesh
    {op : TopicOp} {answer : op.Ans}
    (hop : OnMesh op)
    (hsem : pubsubSem o op h answer h') :
    h'.host = h.host := by
  have hbooks : topicSem op h.books answer h'.books ∧ h'.joined = h.joined := by
    cases op with
    | join net topic | subscribe net topic | close net topic =>
        obtain rfl : net = .mumP2P := hop
        exact hsem
    | _ => exact hsem
  obtain ⟨htopics, hsubs⟩ := books_of_onMesh hop hbooks.1
  rw [HostState.host, HostState.host, htopics, hsubs, hbooks.2]

theorem returns_cancelSubscription_host
    (hreturns : Returns (pubsubSem o) (cancelSubscription .libP2P topic) h u h') :
    h' = ⟨h.books.dropSub .libP2P topic, h.joined⟩ := by
  obtain ⟨ok, h₁, ⟨⟨rfl, hbooks⟩, hjoined⟩, hrest⟩ := returns_op_bind_iff.mp hreturns
  obtain rfl : h₁ = h := HostState.ext hbooks hjoined
  by_cases hmem : topic ∈ h₁.books.subs .libP2P
  · rw [if_pos (decide_eq_true hmem)] at hrest
    obtain ⟨_, h₂, ⟨hbooks, hjoined⟩, hdelete⟩ := returns_op_bind_iff.mp hrest
    obtain rfl : h₂ = h₁ := HostState.ext hbooks hjoined
    obtain ⟨hbooks, hjoined⟩ := returns_op_iff.mp hdelete
    exact HostState.ext hbooks hjoined
  · rw [if_neg (by simp [hmem])] at hrest
    rw [TopicState.dropSub_of_notMem hmem]
    exact (returns_pure_iff.mp hrest).2

theorem returns_closeTopic_host
    (hreturns : Returns (pubsubSem o) (closeTopic topic) h u h') :
    h' = ⟨h.books.dropTopic .libP2P topic,
      if topic ∈ h.books.topics .libP2P then h.joined.erase topic else h.joined⟩ := by
  obtain ⟨ok, h₁, ⟨⟨rfl, hbooks⟩, hjoined⟩, hrest⟩ := returns_op_bind_iff.mp hreturns
  obtain rfl : h₁ = h := HostState.ext hbooks hjoined
  by_cases hmem : topic ∈ h₁.books.topics .libP2P
  · rw [if_pos (decide_eq_true hmem)] at hrest
    obtain ⟨_, h₂, ⟨-, rfl⟩, hdelete⟩ := returns_op_bind_iff.mp hrest
    obtain ⟨hbooks, hjoined⟩ := returns_op_iff.mp hdelete
    rw [if_pos hmem]
    exact HostState.ext hbooks hjoined
  · rw [if_neg (by simp [hmem])] at hrest
    rw [TopicState.dropTopic_of_notMem hmem, if_neg hmem]
    exact (returns_pure_iff.mp hrest).2

/-- Leaving a topic takes it out of the books of the host and out of pubsub's. -/
theorem HostAgree.unsubscribeFromTopic
    (hagree : HostAgree h)
    (hreturns : Returns (pubsubSem o) (unsubscribeFromTopic s topic) h u h') :
    HostAgree h' := by
  obtain ⟨_, h₁, hcancel, hrest⟩ := returns_bind_iff.mp hreturns
  obtain rfl := returns_cancelSubscription_host hcancel
  obtain ⟨_, h₂, hclose, hmesh⟩ := returns_bind_iff.mp hrest
  -- the mump2p node does not change what the host has
  have hhost : h'.host = h₂.host := by
    split at hmesh
    · obtain ⟨r, h₃, hunsubscribe, hret⟩ := returns_bind_iff.mp hmesh
      obtain ⟨-, rfl⟩ := returns_pure_iff.mp hret
      exact hunsubscribe.frame (I := fun v => v.host = h₂.host)
        (onMesh_unsubscribeTopic topic)
        (fun op u answer v hop hsem hu => (host_of_onMesh hop hsem).trans hu) rfl
    · rw [(returns_pure_iff.mp hmesh).2]
  obtain rfl := returns_closeTopic_host hclose
  simp only [HostState.host, Prod.mk.injEq] at hhost
  obtain ⟨htopics, hsubs, hjoined⟩ := hhost
  constructor
  · rw [htopics, hsubs]
    simp [TopicState.dropSub, TopicState.dropTopic, hagree.subs]
  · rw [htopics, hjoined]
    by_cases hmem : topic ∈ h.books.topics .libP2P
    · simp [TopicState.dropSub, TopicState.dropTopic, hagree.joined, hmem]
    · simp [TopicState.dropSub, TopicState.dropTopic, hagree.joined, hmem]

theorem HostAgree.mem_subs_iff
    (hagree : HostAgree h) :
    topic ∈ h.books.subs .libP2P ↔ topic ∈ h.joined := by
  rw [hagree.subs, hagree.joined]

/-- The call joins a topic and fails to subscribe to it. -/
def Strands (h : HostState) : HostCall → Prop
  | .subscribeToTopic topic o =>
      IsHostTopic topic ∧ topic ∉ h.books.subs .libP2P ∧ o.join = none ∧ o.subscribe ≠ none
  | _ => False

theorem HostAgree.step
    {call : HostCall}
    (hps : s.hasPubsub = true)
    (hagree : HostAgree h)
    (hstep : hostStep s h call h') :
    (¬ Strands h call → HostAgree h') ∧
      (h'.books.subs .libP2P = h'.books.topics .libP2P → ¬ Strands h call) := by
  obtain ⟨r, hreturns⟩ := hstep
  cases call with
  | unsubscribeFromTopic topic =>
      obtain ⟨_, h₁, hunsubscribe, hret⟩ := returns_bind_iff.mp hreturns
      obtain ⟨-, rfl⟩ := returns_pure_iff.mp hret
      exact ⟨fun _ => hagree.unsubscribeFromTopic hunsubscribe, fun _ => not_false⟩
  | subscribeToTopic topic o =>
      rcases returns_subscribeToTopic_host hps hreturns with
        ⟨-, hskip, rfl⟩ | ⟨-, -, htwice, rfl⟩ | ⟨-, hjoin, rfl⟩ |
        ⟨-, hvalid, hfree, hjoin, hsub, rfl⟩ | ⟨-, hfree, hjoin, hsub, rfl⟩
      · refine ⟨fun _ => hagree, fun _ hstrands => ?_⟩
        exact hskip.elim (fun hinvalid => hinvalid hstrands.1) hstrands.2.1
      · exact ⟨fun _ => hagree, fun _ hstrands => hstrands.2.1 (hagree.mem_subs_iff.mpr htwice)⟩
      · exact ⟨fun _ => hagree, fun _ hstrands => hjoin hstrands.2.2.1⟩
      · have hnot := hagree.mem_subs_iff.not.mpr hfree
        refine ⟨fun hstrands => absurd ⟨hvalid, hnot, hjoin, hsub⟩ hstrands, fun hsame => ?_⟩
        have hmem : topic ∈ h.books.subs .libP2P := by
          rw [show h.books.subs .libP2P = (h.books.putTopic .libP2P topic).topics .libP2P
            from hsame]
          simp [TopicState.putTopic]
        exact absurd hmem hnot
      · refine ⟨fun _ => ⟨?_, ?_⟩, fun _ hstrands => hstrands.2.2.2 hsub⟩
        · simp [TopicState.putSub, TopicState.putTopic, hagree.subs]
        · simp [TopicState.putSub, TopicState.putTopic, hagree.joined]

/-- A call that fails changes no book of the gateway, unless it strands a topic. -/
theorem HostAgree.unchanged
    {call : HostCall} {err : GoError}
    (hps : s.hasPubsub = true)
    (hagree : HostAgree h)
    (hmeets : ¬ Strands h call)
    (hreturns : Returns (pubsubSem call.outcomes) (call.program s) h (some err) h') :
    h'.books.topics .libP2P = h.books.topics .libP2P ∧
      h'.books.subs .libP2P = h.books.subs .libP2P := by
  cases call with
  | unsubscribeFromTopic topic =>
      obtain ⟨_, h₁, -, hret⟩ := returns_bind_iff.mp hreturns
      obtain ⟨hr, -⟩ := returns_pure_iff.mp hret
      exact absurd hr (by simp)
  | subscribeToTopic topic o =>
      rcases returns_subscribeToTopic_host hps hreturns with
        ⟨hr, -⟩ | ⟨-, -, -, rfl⟩ | ⟨-, -, rfl⟩ | ⟨-, hvalid, hfree, hjoin, hsub, -⟩ | ⟨hr, -⟩
      · exact absurd hr (by simp)
      · exact ⟨rfl, rfl⟩
      · exact ⟨rfl, rfl⟩
      · exact absurd ⟨hvalid, hagree.mem_subs_iff.not.mpr hfree, hjoin, hsub⟩ hmeets
      · exact absurd hr (by simp)

/-- Where the books agree, a topic can be subscribed to. -/
theorem HostAgree.subscribes
    (hps : s.hasPubsub = true)
    (hagree : HostAgree h)
    (hreturns : Returns (pubsubSem allSucceed) (subscribeToTopic s topic) h r h') :
    r = none ∧ (IsHostTopic topic → topic ∈ h'.books.subs .libP2P) := by
  rcases returns_subscribeToTopic_host hps hreturns with
    ⟨rfl, hskip, rfl⟩ | ⟨-, hnot, htwice, -⟩ | ⟨-, hjoin, -⟩ | ⟨-, -, -, -, hsub, -⟩ |
    ⟨rfl, -, -, -, rfl⟩
  · exact ⟨rfl, fun hvalid => hskip.resolve_left (not_not_intro hvalid)⟩
  · exact absurd (hagree.mem_subs_iff.mpr htwice) hnot
  · exact absurd rfl hjoin
  · exact absurd rfl hsub
  · exact ⟨rfl, fun _ => by simp [TopicState.putSub]⟩

/-- After every call of a sequence the two books of the gateway have the same topics and a
topic can be subscribed to, and a call that fails leaves the books unchanged, iff every
`subscribeToTopic` of the sequence that joins its topic can also subscribe to it. -/
theorem subscribeToTopic_retry_iff
    (hps : s.hasPubsub = true)
    (hagree : HostAgree h)
    (calls : List HostCall) :
    (∃ h', Calls (hostStep s) h calls h') ∧
      (((∀ done rest h', calls = done ++ rest → Calls (hostStep s) h done h' →
            h'.books.subs .libP2P = h'.books.topics .libP2P ∧
              ∀ topic r h'', Returns (pubsubSem allSucceed) (subscribeToTopic s topic) h' r h'' →
                r = none ∧ (IsHostTopic topic → topic ∈ h''.books.subs .libP2P)) ∧
          ∀ done call rest h₁ err h₂, calls = done ++ call :: rest →
            Calls (hostStep s) h done h₁ →
            Returns (pubsubSem call.outcomes) (call.program s) h₁ (some err) h₂ →
            h₂.books.topics .libP2P = h₁.books.topics .libP2P ∧
              h₂.books.subs .libP2P = h₁.books.subs .libP2P)
        ↔
      ∀ done topic o rest h', calls = done ++ .subscribeToTopic topic o :: rest →
        Calls (hostStep s) h done h' → IsHostTopic topic → topic ∉ h'.books.subs .libP2P →
        o.join = none → o.subscribe = none) := by
  have hcondition : (∀ done rest h', calls = done ++ rest → Calls (hostStep s) h done h' →
        h'.books.subs .libP2P = h'.books.topics .libP2P)
      ↔
      ∀ done call rest h', calls = done ++ call :: rest → Calls (hostStep s) h done h' →
        ¬ Strands h' call := by
    refine Calls.invariant_iff hostStep_total hagree (fun _ h => h.subs) ?_ ?_
    · intro u k v hu hk hC
      exact (hu.step hps hk).1 hC
    · intro u k v hu hk hv
      exact (hu.step hps hk).2 hv
  refine ⟨Calls.exists hostStep_total h calls, ⟨?_, ?_⟩⟩
  · intro hall done topic o rest h' hcalls hdone hvalid hnot hjoin
    by_contra hsub
    have hsame := fun done rest h' hcalls hdone => (hall.1 done rest h' hcalls hdone).1
    exact hcondition.mp hsame done _ rest h' hcalls hdone ⟨hvalid, hnot, hjoin, hsub⟩
  · intro hC
    have hmeets : ∀ done call rest h', calls = done ++ call :: rest →
        Calls (hostStep s) h done h' → ¬ Strands h' call := by
      intro done call rest h' hcalls hdone hstrands
      cases call with
      | subscribeToTopic topic o =>
          obtain ⟨hvalid, hnot, hjoin, hsub⟩ := hstrands
          exact hsub (hC done topic o rest h' hcalls hdone hvalid hnot hjoin)
      | unsubscribeFromTopic topic => exact hstrands
    have hkept : ∀ done rest h', calls = done ++ rest → Calls (hostStep s) h done h' →
        HostAgree h' := by
      intro done rest h' hcalls hdone
      refine Calls.invariant_of hagree ?_ hmeets hcalls hdone
      intro u k v hu hk
      exact (hu.step hps hk).1
    refine ⟨?_, ?_⟩
    · intro done rest h' hcalls hdone
      have hh' := hkept done rest h' hcalls hdone
      exact ⟨hh'.subs, fun topic r h'' hreturns => hh'.subscribes hps hreturns⟩
    · intro done call rest h₁ err h₂ hcalls hdone hreturns
      exact (hkept done _ h₁ hcalls hdone).unchanged hps (hmeets done call rest h₁ hcalls hdone)
        hreturns

end Host

section StrandedTopic

def emptyHost : HostState :=
  ⟨emptyBooks, ∅⟩

theorem hostAgree_emptyHost :
    HostAgree emptyHost :=
  ⟨rfl, rfl⟩

def subscribeFails : Outcomes :=
  ⟨none, some (.new "too many subscriptions"), none⟩

/-- A topic whose `Subscribe` fails is kept without a subscription, and subscribing to it
again fails although pubsub would let it. -/
theorem stranded_topic_not_retried :
    ∃ err₁ h₁ err₂ h₂,
      Returns (pubsubSem subscribeFails) (subscribeToTopic bootService keptTopic) emptyHost
        (some err₁) h₁ ∧
      keptTopic ∈ h₁.books.topics .libP2P ∧ keptTopic ∉ h₁.books.subs .libP2P ∧
      Returns (pubsubSem allSucceed) (subscribeToTopic bootService keptTopic) h₁
        (some err₂) h₂ := by
  have hvalid : IsHostTopic keptTopic := by
    decide +kernel
  obtain ⟨r₁, h₁, hfirst⟩ := exists_returns (pubsubSem_total subscribeFails)
    (subscribeToTopic bootService keptTopic) emptyHost
  obtain ⟨r₂, h₂, hsecond⟩ := exists_returns (pubsubSem_total allSucceed)
    (subscribeToTopic bootService keptTopic) h₁
  rcases returns_subscribeToTopic_host rfl hfirst with
    ⟨-, hskip, -⟩ | ⟨-, -, htwice, -⟩ | ⟨-, hjoin, -⟩ | ⟨hr₁, -, -, -, -, hh₁⟩ |
    ⟨-, -, -, hsub, -⟩
  · exact absurd hskip (not_or.mpr ⟨not_not_intro hvalid, Finset.notMem_empty _⟩)
  · exact absurd htwice (Finset.notMem_empty _)
  · exact absurd rfl hjoin
  · obtain ⟨err₁, rfl⟩ := Option.ne_none_iff_exists'.mp hr₁
    have htopic : keptTopic ∈ h₁.books.topics .libP2P := by
      simp [hh₁, TopicState.putTopic]
    have hdeaf : keptTopic ∉ h₁.books.subs .libP2P := by
      rw [hh₁]
      exact Finset.notMem_empty _
    have htwice : keptTopic ∈ h₁.joined := by
      simp [hh₁]
    have hr₂ : r₂ ≠ none := by
      rcases returns_subscribeToTopic_host rfl hsecond with
        ⟨-, hskip, -⟩ | ⟨hr, -⟩ | ⟨hr, -⟩ | ⟨hr, -⟩ | ⟨-, hfree, -⟩
      · exact absurd hskip (not_or.mpr ⟨not_not_intro hvalid, hdeaf⟩)
      · exact hr
      · exact hr
      · exact hr
      · exact absurd htwice hfree
    obtain ⟨err₂, rfl⟩ := Option.ne_none_iff_exists'.mp hr₂
    exact ⟨err₁, h₁, err₂, h₂, hfirst, htopic, hdeaf, hsecond⟩
  · cases hsub

def joinFails : Outcomes :=
  ⟨some (.new "pubsub is closed"), none, none⟩

/-- After a `Join` that fails, the topic can be subscribed to. -/
theorem subscribeToTopic_retry_joined :
    ∃ h' h'', Calls (hostStep bootService) emptyHost
        [.subscribeToTopic keptTopic joinFails] h' ∧
      Returns (pubsubSem allSucceed) (subscribeToTopic bootService keptTopic) h' none h'' := by
  obtain ⟨⟨h', hcalls⟩, hiff⟩ := subscribeToTopic_retry_iff (s := bootService) rfl
    hostAgree_emptyHost [.subscribeToTopic keptTopic joinFails]
  have hsubscribes : ∀ done topic o rest u,
      [HostCall.subscribeToTopic keptTopic joinFails] =
        done ++ .subscribeToTopic topic o :: rest →
      Calls (hostStep bootService) emptyHost done u → IsHostTopic topic →
      topic ∉ u.books.subs .libP2P → o.join = none → o.subscribe = none := by
    intro done topic o rest u hsplit _ _ _ hjoin
    have hcall : HostCall.subscribeToTopic topic o ∈
        [HostCall.subscribeToTopic keptTopic joinFails] := by
      simp [hsplit]
    simp only [List.mem_singleton, HostCall.subscribeToTopic.injEq] at hcall
    rw [hcall.2] at hjoin
    cases hjoin
  obtain ⟨h'', r, hreturns⟩ := hostStep_total h' (.subscribeToTopic keptTopic allSucceed)
  have hr : r = none :=
    (((hiff.mpr hsubscribes).1 _ [] h' (by simp) hcalls).2 keptTopic r h'' hreturns).1
  rw [hr] at hreturns
  exact ⟨h', h'', hcalls, hreturns⟩

end StrandedTopic

end GossipsubGateway
end OptimumGateway
