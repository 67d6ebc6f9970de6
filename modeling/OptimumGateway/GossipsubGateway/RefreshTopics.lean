import OptimumGateway.Foundation.AtomicProgram
import OptimumGateway.Foundation.TextEncoding
import OptimumGateway.GossipsubGateway.MessagesProxy
import OptimumGateway.GossipsubGateway.SubscribeTopics

/-!
# Following the supported digests on two networks

This module models `refreshTopics` of `pkg/service/gossipsub-gateway/bg_stat.go`, the
subscription functions of `subscribe_nodes.go`, and `SubscribeTopic`, `UnsubscribeTopic`
and the restored topics of `pkg/service/mum_p2p`.

A refresh leaves the topics of the libp2p host whose digest is no longer supported, and
with each of them the topic of the same name on the mump2p node.  Then it joins the topics
of the active digest and the supported ones among those that the CL has advertised.
`Left` and `Entered` say what the two loops do to the maps.

Only the keys of the libp2p host are looked at when topics are left.  A topic that is
joined on the mump2p node alone stays, whatever its digest: so does one that the node
restored from its topics keeper.
-/

namespace OptimumGateway
namespace GossipsubGateway

open Foundation Foundation.Prog Protocol

section Program

/-- Operations on the two networks: the maps of joined topics and of subscriptions, and
the calls of the pubsub libraries. -/
inductive TopicOp where
  | topicKeys (net : Source)
  | topicLoad (net : Source) (topic : String)
  | topicStore (net : Source) (topic : String)
  | topicDelete (net : Source) (topic : String)
  | subLoad (net : Source) (topic : String)
  | subStore (net : Source) (topic : String)
  | subDelete (net : Source) (topic : String)
  | join (net : Source) (topic : String)
  | subscribe (net : Source) (topic : String)
  | cancel (net : Source) (topic : String)
  | close (net : Source) (topic : String)
  | goHandleSubscription (net : Source) (topic : String)
  | keeperTopics
  | keeperAdd (topic : String)
  | keeperRemove (topic : String)
  | topicSupported (topic : String)
  | activeDigest
  | discoveredTopics
deriving DecidableEq

abbrev TopicOp.Ans : TopicOp → Type
  | .topicKeys _ | .keeperTopics | .discoveredTopics => List String
  | .topicLoad .. | .subLoad .. | .topicSupported _ => Bool
  | .join .. | .subscribe .. | .close .. => Option GoError
  | .activeDigest => String
  | _ => Unit

abbrev TopicProg := Prog TopicOp TopicOp.Ans

abbrev topicOp (op : TopicOp) : TopicProg op.Ans := Prog.op op

/-- What is fixed while topics are refreshed. -/
structure RefreshService where
  /-- `nodeMumP2P` is not nil. -/
  hasMumP2P : Bool
  /-- `ps` is not nil. -/
  hasPubsub : Bool
  /-- `peerTopicTracer` is not nil. -/
  hasTracer : Bool
  streamOnly : Bool

/-- Cancel the subscription of a topic, if there is one. -/
def cancelSubscription (net : Source) (topic : String) : TopicProg Unit := do
  let ok ← topicOp (.subLoad net topic)
  if ok then do
    topicOp (.cancel net topic)
    topicOp (.subDelete net topic)
  else
    pure ()

/-- `SubscribeTopic` of the mump2p node. -/
def subscribeTopic (topic : String) : TopicProg (Option GoError) :=
  if trimSpace topic = "" then
    pure (some (.new "topic can't be empty"))
  else do
    let ok ← topicOp (.topicLoad .mumP2P topic)
    if ok then
      pure none
    else do
      let joined ← topicOp (.join .mumP2P topic)
      match joined with
      | some err => pure (some (.wrapf "failed to join GossipSub topic %s: %w" [topic] err))
      | none => do
          topicOp (.topicStore .mumP2P topic)
          let subscribed ← topicOp (.subscribe .mumP2P topic)
          match subscribed with
          | some err => do
              topicOp (.topicDelete .mumP2P topic)
              let _ ← topicOp (.close .mumP2P topic)
              pure (some (.wrapf "failed to subscribe to GossipSub topic %s: %w" [topic] err))
          | none => do
              topicOp (.subStore .mumP2P topic)
              topicOp (.goHandleSubscription .mumP2P topic)
              topicOp (.keeperAdd topic)
              pure none

/-- `UnsubscribeTopic` of the mump2p node. -/
def unsubscribeTopic (topic : String) : TopicProg (Option GoError) := do
  cancelSubscription .mumP2P topic
  let ok ← topicOp (.topicLoad .mumP2P topic)
  if ok then do
    let closed ← topicOp (.close .mumP2P topic)
    match closed with
    | some err => pure (some (.wrapf "failed to close topic %s: %w" [topic] err))
    | none => do
        topicOp (.topicDelete .mumP2P topic)
        topicOp (.keeperRemove topic)
        pure none
  else
    pure none

/-- The loop of `NewNodeWithHost` over the kept topics; a topic that fails is skipped. -/
def restoreTopics : TopicProg Unit := do
  let kept ← topicOp .keeperTopics
  kept.forM fun topic => do
    let _ ← subscribeTopic topic
    pure ()

variable (s : RefreshService)

def subscribeToTopic (topic : String) : TopicProg (Option GoError) :=
  if !(isBeaconBlockTopic topic || isAttestationTopic topic) then
    pure none
  else do
    let ok ← topicOp (.subLoad .libP2P topic)
    if ok then
      pure none
    else if !s.hasPubsub then
      pure (some (.new "pubsub service not initialized"))
    else do
      let joined ← topicOp (.join .libP2P topic)
      match joined with
      | some err => pure (some (.wrapf "failed to join topic %s: %w" [topic] err))
      | none => do
          topicOp (.topicStore .libP2P topic)
          let subscribed ← topicOp (.subscribe .libP2P topic)
          match subscribed with
          | some err => pure (some (.wrapf "failed to subscribe to topic %s: %w" [topic] err))
          | none => do
              topicOp (.subStore .libP2P topic)
              topicOp (.goHandleSubscription .libP2P topic)
              pure none

/-- Close the topic of the host, if it is joined; it is forgotten even if that fails. -/
def closeTopic (topic : String) : TopicProg Unit := do
  let ok ← topicOp (.topicLoad .libP2P topic)
  if ok then do
    let _ ← topicOp (.close .libP2P topic)
    topicOp (.topicDelete .libP2P topic)
  else
    pure ()

def unsubscribeFromTopic (topic : String) : TopicProg Unit := do
  cancelSubscription .libP2P topic
  closeTopic topic
  if s.hasMumP2P then do
    let _ ← unsubscribeTopic topic
    pure ()
  else
    pure ()

/-- The body of the loop over the joined topics. -/
def leaveUnsupported (topic : String) : TopicProg Unit := do
  let supported ← topicOp (.topicSupported topic)
  if supported then pure () else unsubscribeFromTopic s topic

/-- The mump2p node has block topics, apart from the aggregated messages. -/
def enterMesh (topic : String) : TopicProg Unit :=
  if isBeaconBlockTopic topic && s.hasMumP2P then do
    let _ ← subscribeTopic topic
    pure ()
  else
    pure ()

/-- The body of the loop over the wanted topics. -/
def enterSupported (topic : String) : TopicProg Unit := do
  let supported ← topicOp (.topicSupported topic)
  if supported then do
    enterMesh s topic
    if s.streamOnly then
      pure ()
    else do
      let _ ← subscribeToTopic s topic
      pure ()
  else
    pure ()

def discovered : TopicProg (List String) :=
  if s.hasTracer then topicOp .discoveredTopics else pure []

def refreshTopics (unique : List String → List String) : TopicProg Unit := do
  let joined ← topicOp (.topicKeys .libP2P)
  joined.forM (leaveUnsupported s)
  let digest ← topicOp .activeDigest
  let advertised ← discovered s
  (filterAndBuildEthTopics unique digest false ++ advertised).forM (enterSupported s)

end Program

section Maps

/-- The keys of the maps, the kept topics and the fork digests. -/
structure TopicState where
  topics : Source → Finset String
  subs : Source → Finset String
  kept : Finset String
  forks : ForkService

namespace TopicState

def putTopic (st : TopicState) (net : Source) (topic : String) : TopicState :=
  { st with topics := Function.update st.topics net (insert topic (st.topics net)) }

def dropTopic (st : TopicState) (net : Source) (topic : String) : TopicState :=
  { st with topics := Function.update st.topics net ((st.topics net).erase topic) }

def putSub (st : TopicState) (net : Source) (topic : String) : TopicState :=
  { st with subs := Function.update st.subs net (insert topic (st.subs net)) }

def dropSub (st : TopicState) (net : Source) (topic : String) : TopicState :=
  { st with subs := Function.update st.subs net ((st.subs net).erase topic) }

end TopicState

/-- The maps and the fork service answer for themselves, the keys of a map come in any
order, and every other answer is free. -/
def topicSem : Sem TopicOp TopicOp.Ans TopicState
  | .topicKeys net, s, r, t => (∀ x, x ∈ r ↔ x ∈ s.topics net) ∧ t = s
  | .topicLoad net topic, s, r, t => r = decide (topic ∈ s.topics net) ∧ t = s
  | .topicStore net topic, s, _, t => t = s.putTopic net topic
  | .topicDelete net topic, s, _, t => t = s.dropTopic net topic
  | .subLoad net topic, s, r, t => r = decide (topic ∈ s.subs net) ∧ t = s
  | .subStore net topic, s, _, t => t = s.putSub net topic
  | .subDelete net topic, s, _, t => t = s.dropSub net topic
  | .keeperTopics, s, r, t => (∀ x, x ∈ r ↔ x ∈ s.kept) ∧ t = s
  | .keeperAdd topic, s, _, t => t = { s with kept := insert topic s.kept }
  | .keeperRemove topic, s, _, t => t = { s with kept := s.kept.erase topic }
  | .topicSupported topic, s, r, t =>
      r = (s.forks.topicSupported topic).1 ∧
        t = { s with forks := (s.forks.topicSupported topic).2 }
  | .activeDigest, s, r, t => r = s.forks.activeDigest ∧ t = s
  | _, s, _, t => t = s

/-- What the pubsub libraries answer to `Join`, `Subscribe` and `Close`. -/
structure Outcomes where
  join : Option GoError
  subscribe : Option GoError
  close : Option GoError
deriving DecidableEq

def Outcomes.Answers (o : Outcomes) : (op : TopicOp) → op.Ans → Prop
  | .join .., r => r = o.join
  | .subscribe .., r => r = o.subscribe
  | .close .., r => r = o.close
  | _, _ => True

def scripted (o : Outcomes) : Sem TopicOp TopicOp.Ans TopicState :=
  fun op s r t => topicSem op s r t ∧ o.Answers op r

/-- The pubsub libraries report no error. -/
def Succeeds : (op : TopicOp) → op.Ans → Prop
  | .join .., r | .subscribe .., r | .close .., r => r = none
  | _, _ => True

def succeeding : Sem TopicOp TopicOp.Ans TopicState :=
  fun op s r t => topicSem op s r t ∧ Succeeds op r

/-- Every operation has an answer, whatever the libraries report. -/
theorem scripted_total
    (o : Outcomes)
    (op : TopicOp)
    (st : TopicState) :
    ∃ r t, scripted o op st r t := by
  have hkeys : ∀ s : Finset String, ∃ l : List String, ∀ x, x ∈ l ↔ x ∈ s := by
    intro s
    exact ⟨s.toList, fun x => Finset.mem_toList⟩
  cases op with
  | topicKeys net =>
      obtain ⟨l, hl⟩ := hkeys (st.topics net)
      exact ⟨l, st, ⟨hl, rfl⟩, trivial⟩
  | keeperTopics =>
      obtain ⟨l, hl⟩ := hkeys st.kept
      exact ⟨l, st, ⟨hl, rfl⟩, trivial⟩
  | discoveredTopics => exact ⟨[], st, rfl, trivial⟩
  | topicLoad net topic | subLoad net topic => exact ⟨_, st, ⟨rfl, rfl⟩, trivial⟩
  | topicSupported topic => exact ⟨_, _, ⟨rfl, rfl⟩, trivial⟩
  | activeDigest => exact ⟨_, st, ⟨rfl, rfl⟩, trivial⟩
  | join net topic => exact ⟨o.join, st, rfl, rfl⟩
  | subscribe net topic => exact ⟨o.subscribe, st, rfl, rfl⟩
  | close net topic => exact ⟨o.close, st, rfl, rfl⟩
  | _ => exact ⟨(), _, rfl, trivial⟩

def allSucceed : Outcomes :=
  ⟨none, none, none⟩

theorem succeeding_iff_scripted
    {op : TopicOp} {st st' : TopicState} {r : op.Ans} :
    succeeding op st r st' ↔ scripted allSucceed op st r st' := by
  cases op <;> rfl

theorem succeeding_total
    (op : TopicOp)
    (st : TopicState) :
    ∃ r t, succeeding op st r t := by
  obtain ⟨r, t, h⟩ := scripted_total allSucceed op st
  exact ⟨r, t, succeeding_iff_scripted.mpr h⟩

end Maps

section Books

variable {st : TopicState} {net net' : Source} {topic topic' : String}

theorem TopicState.mem_topics_putTopic :
    topic' ∈ (st.putTopic net topic).topics net' ↔
      (net' = net ∧ topic' = topic) ∨ topic' ∈ st.topics net' := by
  unfold TopicState.putTopic
  by_cases hnet : net' = net
  · subst hnet
    simp
  · simp [hnet]

theorem TopicState.mem_subs_putSub :
    topic' ∈ (st.putSub net topic).subs net' ↔
      (net' = net ∧ topic' = topic) ∨ topic' ∈ st.subs net' := by
  unfold TopicState.putSub
  by_cases hnet : net' = net
  · subst hnet
    simp
  · simp [hnet]

theorem TopicState.mem_topics_dropTopic
    (h : topic' ∈ (st.dropTopic net topic).topics net') :
    topic' ∈ st.topics net' := by
  unfold TopicState.dropTopic at h
  by_cases hnet : net' = net
  · subst hnet
    simp only [Function.update_self] at h
    exact Finset.mem_of_mem_erase h
  · simpa [hnet] using h

theorem TopicState.mem_subs_dropSub
    (h : topic' ∈ (st.dropSub net topic).subs net') :
    topic' ∈ st.subs net' := by
  unfold TopicState.dropSub at h
  by_cases hnet : net' = net
  · subst hnet
    simp only [Function.update_self] at h
    exact Finset.mem_of_mem_erase h
  · simpa [hnet] using h

theorem supportedForks_topicSupported
    (f : ForkService)
    (topic : String) :
    (f.topicSupported topic).2.supportedForks = f.supportedForks := by
  unfold ForkService.topicSupported
  split
  · rfl
  · split <;> rfl

/-- A step on the books keeps the supported digests and adds at most the topic that it
stores. -/
theorem topicSem_adds
    {op : TopicOp} {r : op.Ans} {st' : TopicState}
    (h : topicSem op st r st') :
    st'.forks.supportedForks = st.forks.supportedForks ∧
      ∀ net x, x ∈ st'.topics net → x ∈ st.topics net ∨ op = .topicStore net x := by
  cases op with
  | topicStore net topic =>
      obtain rfl := h
      refine ⟨rfl, fun net' x hx => ?_⟩
      rcases TopicState.mem_topics_putTopic.mp hx with ⟨rfl, rfl⟩ | hx
      · exact Or.inr rfl
      · exact Or.inl hx
  | topicDelete net topic =>
      obtain rfl := h
      exact ⟨rfl, fun net' x hx => Or.inl (TopicState.mem_topics_dropTopic hx)⟩
  | topicSupported topic =>
      obtain ⟨-, rfl⟩ := h
      exact ⟨supportedForks_topicSupported _ _, fun net x hx => Or.inl hx⟩
  | topicKeys | topicLoad | subLoad | keeperTopics | activeDigest =>
      obtain ⟨-, rfl⟩ := h
      exact ⟨rfl, fun net x hx => Or.inl hx⟩
  | _ =>
      obtain rfl := h
      exact ⟨rfl, fun net x hx => Or.inl hx⟩

end Books

section Steps

variable {s : RefreshService} {st st' : TopicState} {net : Source} {topic : String}
variable {r : Option GoError} {u : Unit}

theorem TopicState.dropSub_of_notMem
    (h : topic ∉ st.subs net) :
    st.dropSub net topic = st := by
  rw [TopicState.dropSub, Finset.erase_eq_of_notMem h, Function.update_eq_self]

@[simp] theorem TopicState.topics_dropSub :
    (st.dropSub net topic).topics = st.topics := by
  rfl

theorem TopicState.dropTopic_of_notMem
    (h : topic ∉ st.topics net) :
    st.dropTopic net topic = st := by
  rw [TopicState.dropTopic, Finset.erase_eq_of_notMem h, Function.update_eq_self]

theorem returns_cancelSubscription
    {sem : Sem TopicOp TopicOp.Ans TopicState}
    (hsem : ∀ op s r t, sem op s r t → topicSem op s r t)
    (h : Returns sem (cancelSubscription net topic) st u st') :
    st' = st.dropSub net topic := by
  obtain ⟨ok, st₁, hload, hrest⟩ := returns_bind_iff.mp h
  obtain ⟨rfl, rfl⟩ := hsem _ _ _ _ (returns_op_iff.mp hload)
  by_cases hmem : topic ∈ st₁.subs net
  · rw [if_pos (decide_eq_true hmem)] at hrest
    obtain ⟨_, st₂, hcancel, hdelete⟩ := returns_bind_iff.mp hrest
    obtain rfl := hsem _ _ _ _ (returns_op_iff.mp hcancel)
    exact hsem _ _ _ _ (returns_op_iff.mp hdelete)
  · rw [if_neg (by simp [hmem])] at hrest
    rw [TopicState.dropSub_of_notMem hmem]
    exact (returns_pure_iff.mp hrest).2

theorem returns_closeTopic
    (h : Returns succeeding (closeTopic topic) st u st') :
    st' = st.dropTopic .libP2P topic := by
  obtain ⟨ok, st₁, ⟨⟨rfl, rfl⟩, -⟩, hrest⟩ := returns_op_bind_iff.mp h
  by_cases hmem : topic ∈ st₁.topics .libP2P
  · rw [if_pos (decide_eq_true hmem)] at hrest
    obtain ⟨_, st₂, ⟨rfl, -⟩, hdelete⟩ := returns_op_bind_iff.mp hrest
    exact (returns_op_iff.mp hdelete).1
  · rw [if_neg (by simp [hmem])] at hrest
    rw [TopicState.dropTopic_of_notMem hmem]
    exact (returns_pure_iff.mp hrest).2

theorem TopicState.dropTopic_putTopic
    (h : topic ∉ st.topics net) :
    (st.putTopic net topic).dropTopic net topic = st := by
  simp [TopicState.putTopic, TopicState.dropTopic, Finset.erase_insert h]

/-- The state in which a topic is in all three books. -/
def TopicState.enter (st : TopicState) (topic : String) : TopicState :=
  { (st.putTopic .mumP2P topic).putSub .mumP2P topic with kept := insert topic st.kept }

/-- `SubscribeTopic` fails for a reason and then changes nothing; otherwise it enters the
topic in all books, unless the topic is joined already. -/
theorem scripted_subscribeTopic
    {o : Outcomes}
    (h : Returns (scripted o) (subscribeTopic topic) st r st') :
    (r ≠ none ∧ (trimSpace topic = "" ∨ topic ∉ st.topics .mumP2P ∧
        (o.join ≠ none ∨ o.subscribe ≠ none)) ∧ st' = st) ∨
      (r = none ∧ topic ∈ st.topics .mumP2P ∧ st' = st) ∨
      (r = none ∧ topic ∉ st.topics .mumP2P ∧ st' = st.enter topic) := by
  by_cases hblank : trimSpace topic = ""
  · rw [subscribeTopic, if_pos hblank] at h
    obtain ⟨rfl, rfl⟩ := returns_pure_iff.mp h
    exact Or.inl ⟨by simp, Or.inl hblank, rfl⟩
  · rw [subscribeTopic, if_neg hblank] at h
    obtain ⟨ok, st₁, ⟨⟨rfl, rfl⟩, -⟩, hrest⟩ := returns_op_bind_iff.mp h
    by_cases hmem : topic ∈ st₁.topics .mumP2P
    · rw [if_pos (decide_eq_true hmem)] at hrest
      obtain ⟨rfl, rfl⟩ := returns_pure_iff.mp hrest
      exact Or.inr (Or.inl ⟨rfl, hmem, rfl⟩)
    · rw [if_neg (by simp [hmem])] at hrest
      obtain ⟨joined, st₂, ⟨rfl, hjoined⟩, hrest⟩ := returns_op_bind_iff.mp hrest
      obtain rfl : joined = o.join := hjoined
      cases hoj : o.join with
      | some err =>
          rw [hoj] at hrest
          obtain ⟨rfl, rfl⟩ := returns_pure_iff.mp hrest
          exact Or.inl ⟨by simp, Or.inr ⟨hmem, Or.inl (by simp)⟩, rfl⟩
      | none =>
          rw [hoj] at hrest
          obtain ⟨_, st₃, ⟨rfl, -⟩, hrest⟩ := returns_op_bind_iff.mp hrest
          obtain ⟨subscribed, st₄, ⟨rfl, hsubscribed⟩, hrest⟩ := returns_op_bind_iff.mp hrest
          obtain rfl : subscribed = o.subscribe := hsubscribed
          cases hos : o.subscribe with
          | some err =>
              rw [hos] at hrest
              obtain ⟨_, st₅, ⟨rfl, -⟩, hrest⟩ := returns_op_bind_iff.mp hrest
              obtain ⟨_, st₆, ⟨rfl, -⟩, hret⟩ := returns_op_bind_iff.mp hrest
              obtain ⟨rfl, rfl⟩ := returns_pure_iff.mp hret
              exact Or.inl ⟨by simp, Or.inr ⟨hmem, Or.inr (by simp)⟩,
                TopicState.dropTopic_putTopic hmem⟩
          | none =>
              rw [hos] at hrest
              obtain ⟨_, st₅, ⟨rfl, -⟩, hrest⟩ := returns_op_bind_iff.mp hrest
              obtain ⟨_, st₆, ⟨rfl, -⟩, hrest⟩ := returns_op_bind_iff.mp hrest
              obtain ⟨_, st₇, ⟨rfl, -⟩, hret⟩ := returns_op_bind_iff.mp hrest
              obtain ⟨rfl, rfl⟩ := returns_pure_iff.mp hret
              exact Or.inr (Or.inr ⟨rfl, hmem, rfl⟩)

/-- The subscription goes in any case, the topic and the keeper's entry only if the topic
is closed. -/
theorem scripted_unsubscribeTopic
    {o : Outcomes}
    (h : Returns (scripted o) (unsubscribeTopic topic) st r st') :
    (topic ∉ st.topics .mumP2P ∧ st' = st.dropSub .mumP2P topic) ∨
      (topic ∈ st.topics .mumP2P ∧ o.close ≠ none ∧ st' = st.dropSub .mumP2P topic) ∨
      (topic ∈ st.topics .mumP2P ∧ o.close = none ∧
        st' = { (st.dropSub .mumP2P topic).dropTopic .mumP2P topic with
          kept := st.kept.erase topic }) := by
  obtain ⟨_, st₁, hcancel, hrest⟩ := returns_bind_iff.mp h
  obtain rfl := returns_cancelSubscription (fun _ _ _ _ h => h.1) hcancel
  obtain ⟨ok, st₂, ⟨⟨rfl, rfl⟩, -⟩, hrest⟩ := returns_op_bind_iff.mp hrest
  rw [TopicState.topics_dropSub] at hrest
  by_cases hmem : topic ∈ st.topics .mumP2P
  · rw [if_pos (decide_eq_true hmem)] at hrest
    obtain ⟨closed, st₂, ⟨rfl, hanswer⟩, hrest⟩ := returns_op_bind_iff.mp hrest
    cases closed with
    | some err =>
        obtain ⟨-, rfl⟩ := returns_pure_iff.mp hrest
        have hfailed : o.close ≠ none := by
          rw [← show some err = o.close from hanswer]
          simp
        exact Or.inr (Or.inl ⟨hmem, hfailed, rfl⟩)
    | none =>
        obtain ⟨_, st₃, ⟨rfl, -⟩, hrest⟩ := returns_op_bind_iff.mp hrest
        obtain ⟨_, st₄, ⟨rfl, -⟩, hret⟩ := returns_op_bind_iff.mp hrest
        obtain ⟨-, rfl⟩ := returns_pure_iff.mp hret
        exact Or.inr (Or.inr ⟨hmem, hanswer.symm, rfl⟩)
  · rw [if_neg (by simp [hmem])] at hrest
    exact Or.inl ⟨hmem, (returns_pure_iff.mp hrest).2⟩

theorem returns_unsubscribeTopic
    (h : Returns succeeding (unsubscribeTopic topic) st r st') :
    ∃ kept, st' = { (st.dropSub .mumP2P topic).dropTopic .mumP2P topic with kept := kept } := by
  rcases scripted_unsubscribeTopic (h.mono fun _ _ _ _ => succeeding_iff_scripted.mp) with
    ⟨hmem, rfl⟩ | ⟨-, hclose, -⟩ | ⟨-, -, rfl⟩
  · rw [TopicState.dropTopic_of_notMem (by simpa using hmem)]
    exact ⟨_, rfl⟩
  · exact absurd rfl hclose
  · exact ⟨_, rfl⟩

/-- What leaving a topic does to the maps. -/
structure Leaves (topic : String) (st st' : TopicState) : Prop where
  topics : ∀ net, st'.topics net = (st.topics net).erase topic
  subs : ∀ net, st'.subs net = (st.subs net).erase topic
  forks : st'.forks = st.forks

theorem returns_unsubscribeFromTopic
    (hmum : s.hasMumP2P = true)
    (h : Returns succeeding (unsubscribeFromTopic s topic) st u st') :
    Leaves topic st st' := by
  obtain ⟨_, st₁, hcancel, hrest⟩ := returns_bind_iff.mp h
  obtain rfl := returns_cancelSubscription (fun _ _ _ _ h => h.1) hcancel
  obtain ⟨_, st₂, hclose, hrest⟩ := returns_bind_iff.mp hrest
  obtain rfl := returns_closeTopic hclose
  rw [if_pos hmum] at hrest
  obtain ⟨r, st₃, hmesh, hret⟩ := returns_bind_iff.mp hrest
  obtain ⟨kept, rfl⟩ := returns_unsubscribeTopic hmesh
  obtain ⟨-, rfl⟩ := returns_pure_iff.mp hret
  refine ⟨?_, ?_, rfl⟩
  · intro net
    cases net <;> rfl
  · intro net
    cases net <;> rfl

/-- What joining a topic does to the maps of the mump2p node. -/
structure EntersMesh (topic : String) (st st' : TopicState) : Prop where
  mumTopics : st'.topics .mumP2P = insert topic (st.topics .mumP2P)
  libTopics : st'.topics .libP2P = st.topics .libP2P
  libSubs : st'.subs .libP2P = st.subs .libP2P
  forks : st'.forks = st.forks

theorem returns_subscribeTopic
    (hblank : trimSpace topic ≠ "")
    (h : Returns succeeding (subscribeTopic topic) st r st') :
    EntersMesh topic st st' := by
  rcases scripted_subscribeTopic (h.mono fun _ _ _ _ => succeeding_iff_scripted.mp) with
    ⟨-, hreason, -⟩ | ⟨-, hmem, rfl⟩ | ⟨-, -, rfl⟩
  · exact absurd hreason (by simp [hblank, allSucceed])
  · exact ⟨(Finset.insert_eq_of_mem hmem).symm, rfl, rfl, rfl⟩
  · exact ⟨rfl, rfl, rfl, rfl⟩

/-- The topics that the host joins. -/
def IsHostTopic (topic : String) : Prop :=
  (isBeaconBlockTopic topic || isAttestationTopic topic) = true

instance (topic : String) : Decidable (IsHostTopic topic) :=
  inferInstanceAs (Decidable (_ = true))

/-- What joining a topic does to the maps of the host: nothing new is joined where there
is a subscription. -/
structure EntersHost (topic : String) (st st' : TopicState) : Prop where
  libTopics : ∀ x, x ∈ st'.topics .libP2P ↔
    x ∈ st.topics .libP2P ∨ (x = topic ∧ IsHostTopic topic ∧ topic ∉ st.subs .libP2P)
  libSubs : ∀ x, x ∈ st'.subs .libP2P ↔
    x ∈ st.subs .libP2P ∨ (x = topic ∧ IsHostTopic topic)
  mumTopics : st'.topics .mumP2P = st.topics .mumP2P
  forks : st'.forks = st.forks

theorem returns_subscribeToTopic
    (hps : s.hasPubsub = true)
    (h : Returns succeeding (subscribeToTopic s topic) st r st') :
    EntersHost topic st st' := by
  by_cases hvalid : IsHostTopic topic
  · have hkind : (isBeaconBlockTopic topic || isAttestationTopic topic) = true := hvalid
    rw [subscribeToTopic, hkind, if_neg (by simp)] at h
    obtain ⟨ok, st₁, ⟨⟨rfl, rfl⟩, -⟩, hrest⟩ := returns_op_bind_iff.mp h
    by_cases hmem : topic ∈ st₁.subs .libP2P
    · rw [if_pos (decide_eq_true hmem)] at hrest
      obtain ⟨-, rfl⟩ := returns_pure_iff.mp hrest
      refine ⟨?_, ?_, rfl, rfl⟩
      · simp [hmem]
      · intro x
        constructor
        · exact Or.inl
        · intro hx
          rcases hx with hx | ⟨rfl, -⟩
          · exact hx
          · exact hmem
    · rw [if_neg (by simp [hmem]), if_neg (by simp [hps])] at hrest
      obtain ⟨joined, st₂, ⟨rfl, hjoined⟩, hrest⟩ := returns_op_bind_iff.mp hrest
      obtain rfl : joined = none := hjoined
      obtain ⟨_, st₃, ⟨rfl, -⟩, hrest⟩ := returns_op_bind_iff.mp hrest
      obtain ⟨subscribed, st₄, ⟨rfl, hsubscribed⟩, hrest⟩ := returns_op_bind_iff.mp hrest
      obtain rfl : subscribed = none := hsubscribed
      obtain ⟨_, st₅, ⟨rfl, -⟩, hrest⟩ := returns_op_bind_iff.mp hrest
      obtain ⟨_, st₆, ⟨rfl, -⟩, hret⟩ := returns_op_bind_iff.mp hrest
      obtain ⟨-, rfl⟩ := returns_pure_iff.mp hret
      refine ⟨?_, ?_, rfl, rfl⟩
      · intro x
        simp [TopicState.putSub, TopicState.putTopic, hvalid, hmem, or_comm]
      · intro x
        simp [TopicState.putSub, TopicState.putTopic, hvalid, or_comm]
  · rw [subscribeToTopic, if_pos (by simpa [IsHostTopic] using hvalid)] at h
    obtain ⟨-, rfl⟩ := returns_pure_iff.mp h
    refine ⟨?_, ?_, rfl, rfl⟩
    · simp [hvalid]
    · simp [hvalid]

end Steps

section Digests

/-- What `TopicSupported` answers, by the digests alone. -/
def Supported (f : ForkService) (topic : String) : Prop :=
  topic = aggregatedMessagesTopic ∨
    f.checkForkSupported (getForkDigestFromTopic topic) = true

/-- Two states of the fork service that differ in the cache of the topics only. -/
structure SameDigests (f g : ForkService) : Prop where
  clean : g.Clean
  supportedForks : g.supportedForks = f.supportedForks
  cfgForkDigest : g.cfgForkDigest = f.cfgForkDigest
  observedDigestLC : g.observedDigestLC = f.observedDigestLC

variable {f g h : ForkService} {topic : String}

theorem SameDigests.refl
    (hclean : f.Clean) :
    SameDigests f f :=
  ⟨hclean, rfl, rfl, rfl⟩

theorem SameDigests.trans
    (hfg : SameDigests f g)
    (hgh : SameDigests g h) :
    SameDigests f h :=
  ⟨hgh.clean, hgh.supportedForks.trans hfg.supportedForks,
    hgh.cfgForkDigest.trans hfg.cfgForkDigest,
    hgh.observedDigestLC.trans hfg.observedDigestLC⟩

theorem topicSupported_iff
    (hclean : f.Clean) :
    (f.topicSupported topic).1 = true ↔ Supported f topic := by
  unfold Supported
  by_cases haggregated : topic = aggregatedMessagesTopic
  · simp [haggregated, ForkService.topicSupported]
  · rw [ForkService.topicSupported_eq hclean haggregated]
    simp [haggregated]

theorem SameDigests.topicSupported
    (h : SameDigests f g)
    (topic : String) :
    SameDigests f (g.topicSupported topic).2 := by
  have hclean := h.clean.run (.topicSupported topic)
  obtain ⟨-, hforks, hcfg, hobserved⟩ := h
  refine ⟨hclean, ?_, ?_, ?_⟩
  all_goals
    unfold ForkService.topicSupported
    split
    · assumption
    · split <;> assumption

theorem SameDigests.checkForkSupported_eq
    (h : SameDigests f g) :
    g.checkForkSupported = f.checkForkSupported := by
  funext digest
  simp only [ForkService.checkForkSupported, h.supportedForks]

theorem SameDigests.supported_iff
    (h : SameDigests f g) :
    Supported g topic ↔ Supported f topic := by
  rw [Supported, Supported, h.checkForkSupported_eq]

theorem SameDigests.activeDigest_eq
    (h : SameDigests f g) :
    g.activeDigest = f.activeDigest := by
  simp only [ForkService.activeDigest, ForkService.checkForkSupported, h.supportedForks,
    h.cfgForkDigest, h.observedDigestLC]
  rfl

end Digests

section Loops

/-- The maps after the loop that leaves topics. -/
structure Left (st₀ : TopicState) (done : List String) (st : TopicState) : Prop where
  topics : ∀ net x, x ∈ st.topics net ↔
    x ∈ st₀.topics net ∧ (x ∈ done → Supported st₀.forks x)
  subs : ∀ net x, x ∈ st.subs net ↔
    x ∈ st₀.subs net ∧ (x ∈ done → Supported st₀.forks x)
  digests : SameDigests st₀.forks st.forks

/-- The maps after the loop that joins topics. -/
structure Entered (st₀ : TopicState) (done : List String) (st : TopicState) : Prop where
  libTopics : ∀ x, x ∈ st.topics .libP2P ↔
    x ∈ st₀.topics .libP2P ∨
      (x ∈ done ∧ Supported st₀.forks x ∧ IsHostTopic x ∧ x ∉ st₀.subs .libP2P)
  libSubs : ∀ x, x ∈ st.subs .libP2P ↔
    x ∈ st₀.subs .libP2P ∨ (x ∈ done ∧ Supported st₀.forks x ∧ IsHostTopic x)
  mumTopics : ∀ x, x ∈ st.topics .mumP2P ↔
    x ∈ st₀.topics .mumP2P ∨
      (x ∈ done ∧ Supported st₀.forks x ∧ isBeaconBlockTopic x = true)
  digests : SameDigests st₀.forks st.forks

variable {s : RefreshService} {st₀ st st' : TopicState} {topic : String} {done : List String}
variable {u : Unit}

theorem trimSpace_ne_empty_of_isBeaconBlockTopic
    (h : isBeaconBlockTopic topic = true) :
    trimSpace topic ≠ "" := by
  intro hblank
  have hinfix : beaconBlockBase.toList <:+: topic.toList := of_decide_eq_true h
  have hmem : 'b' ∈ topic.toList := hinfix.subset (by decide)
  exact absurd (isSpace_of_trimSpace_eq_empty hblank 'b' hmem) (by decide)

theorem returns_topicSupported
    {r : Bool}
    (h : Returns succeeding (topicOp (.topicSupported topic)) st r st')
    (hdigests : SameDigests st₀.forks st.forks) :
    (r = true ↔ Supported st₀.forks topic) ∧ st'.topics = st.topics ∧ st'.subs = st.subs ∧
      SameDigests st₀.forks st'.forks := by
  obtain ⟨⟨rfl, rfl⟩, -⟩ := returns_op_iff.mp h
  refine ⟨?_, rfl, rfl, hdigests.topicSupported topic⟩
  rw [topicSupported_iff hdigests.clean, hdigests.supported_iff]

theorem Left.step
    (hmum : s.hasMumP2P = true)
    (hleft : Left st₀ done st)
    (h : Returns succeeding (leaveUnsupported s topic) st u st') :
    Left st₀ (done ++ [topic]) st' := by
  obtain ⟨supported, st₁, hcheck, hrest⟩ := returns_bind_iff.mp h
  obtain ⟨hanswer, htopics, hsubs, hdigests⟩ := returns_topicSupported hcheck hleft.digests
  by_cases hsupported : Supported st₀.forks topic
  · rw [if_pos (hanswer.mpr hsupported)] at hrest
    obtain ⟨-, rfl⟩ := returns_pure_iff.mp hrest
    refine ⟨?_, ?_, hdigests⟩
    · intro net x
      rw [htopics, hleft.topics]
      grind
    · intro net x
      rw [hsubs, hleft.subs]
      grind
  · rw [if_neg (mt hanswer.mp hsupported)] at hrest
    have hleaves := returns_unsubscribeFromTopic hmum hrest
    refine ⟨?_, ?_, ?_⟩
    · intro net x
      rw [hleaves.topics, Finset.mem_erase, htopics, hleft.topics]
      grind
    · intro net x
      rw [hleaves.subs, Finset.mem_erase, hsubs, hleft.subs]
      grind
    · rw [hleaves.forks]
      exact hdigests

theorem returns_enterMesh
    (hmum : s.hasMumP2P = true)
    (h : Returns succeeding (enterMesh s topic) st u st') :
    (∀ x, x ∈ st'.topics .mumP2P ↔
        x ∈ st.topics .mumP2P ∨ (x = topic ∧ isBeaconBlockTopic topic = true)) ∧
      st'.topics .libP2P = st.topics .libP2P ∧ st'.subs .libP2P = st.subs .libP2P ∧
      st'.forks = st.forks := by
  unfold enterMesh at h
  cases hblock : isBeaconBlockTopic topic with
  | true =>
      rw [hblock, hmum, if_pos (by rfl)] at h
      obtain ⟨r, st₁, hsubscribe, hret⟩ := returns_bind_iff.mp h
      obtain ⟨-, rfl⟩ := returns_pure_iff.mp hret
      have henters := returns_subscribeTopic
        (trimSpace_ne_empty_of_isBeaconBlockTopic hblock) hsubscribe
      refine ⟨?_, henters.libTopics, henters.libSubs, henters.forks⟩
      intro x
      rw [henters.mumTopics, Finset.mem_insert]
      simp [or_comm]
  | false =>
      rw [hblock, if_neg (by simp)] at h
      obtain ⟨-, rfl⟩ := returns_pure_iff.mp h
      simp

theorem Entered.step
    (hmum : s.hasMumP2P = true)
    (hps : s.hasPubsub = true)
    (hstream : s.streamOnly = false)
    (hentered : Entered st₀ done st)
    (h : Returns succeeding (enterSupported s topic) st u st') :
    Entered st₀ (done ++ [topic]) st' := by
  obtain ⟨supported, st₁, hcheck, hrest⟩ := returns_bind_iff.mp h
  obtain ⟨hanswer, htopics, hsubs, hdigests⟩ :=
    returns_topicSupported hcheck hentered.digests
  by_cases hsupported : Supported st₀.forks topic
  · rw [if_pos (hanswer.mpr hsupported)] at hrest
    obtain ⟨_, st₂, hmesh, hrest⟩ := returns_bind_iff.mp hrest
    obtain ⟨hmumTopics, hlibTopics, hlibSubs, hforks⟩ := returns_enterMesh hmum hmesh
    rw [hstream, if_neg Bool.false_ne_true] at hrest
    obtain ⟨r, st₃, hhost, hret⟩ := returns_bind_iff.mp hrest
    obtain ⟨-, rfl⟩ := returns_pure_iff.mp hret
    have hjoined := returns_subscribeToTopic hps hhost
    refine ⟨?_, ?_, ?_, ?_⟩
    · intro x
      rw [hjoined.libTopics, hlibTopics, hlibSubs, htopics, hsubs, hentered.libTopics,
        hentered.libSubs]
      grind
    · intro x
      rw [hjoined.libSubs, hlibSubs, hsubs, hentered.libSubs]
      grind
    · intro x
      rw [hjoined.mumTopics, hmumTopics, htopics, hentered.mumTopics]
      grind
    · rw [hjoined.forks, hforks]
      exact hdigests
  · rw [if_neg (mt hanswer.mp hsupported)] at hrest
    obtain ⟨-, rfl⟩ := returns_pure_iff.mp hrest
    refine ⟨?_, ?_, ?_, hdigests⟩
    · intro x
      rw [htopics, hentered.libTopics]
      grind
    · intro x
      rw [hsubs, hentered.libSubs]
      grind
    · intro x
      rw [htopics, hentered.mumTopics]
      grind

/-- The maps after a refresh, given the topics that were wanted. -/
structure Refreshed (st : TopicState) (wanted : List String) (st' : TopicState) : Prop where
  libTopics : ∀ x, x ∈ st'.topics .libP2P ↔
    Supported st.forks x ∧ (x ∈ st.topics .libP2P ∨
      (x ∈ wanted ∧ IsHostTopic x ∧ x ∉ st.subs .libP2P))
  libSubs : ∀ x, x ∈ st'.subs .libP2P ↔
    (x ∈ st.subs .libP2P ∧ (x ∈ st.topics .libP2P → Supported st.forks x)) ∨
      (x ∈ wanted ∧ Supported st.forks x ∧ IsHostTopic x)
  mumTopics : ∀ x, x ∈ st'.topics .mumP2P ↔
    (x ∈ st.topics .mumP2P ∧ (x ∈ st.topics .libP2P → Supported st.forks x)) ∨
      (x ∈ wanted ∧ Supported st.forks x ∧ isBeaconBlockTopic x = true)
  digests : SameDigests st.forks st'.forks

theorem returns_discovered
    {advertised : List String}
    (h : Returns succeeding (discovered s) st advertised st') :
    st' = st := by
  unfold discovered at h
  split at h
  · exact (returns_op_iff.mp h).1
  · exact (returns_pure_iff.mp h).2

/-- The two loops of a refresh, on a memory that fixes more of the answers. -/
theorem returns_refreshTopics_on
    {sem : Sem TopicOp TopicOp.Ans TopicState} {unique : List String → List String}
    (hsem : ∀ op s r t, sem op s r t → succeeding op s r t)
    (hmum : s.hasMumP2P = true)
    (hps : s.hasPubsub = true)
    (hstream : s.streamOnly = false)
    (hclean : st.forks.Clean)
    (h : Returns sem (refreshTopics s unique) st u st') :
    ∃ advertised m, Returns sem (discovered s) m advertised m ∧ Refreshed st
      (filterAndBuildEthTopics unique st.forks.activeDigest false ++ advertised) st' := by
  obtain ⟨keys, st₁, hkeys, hrest⟩ := returns_bind_iff.mp h
  obtain ⟨⟨hmem, rfl⟩, -⟩ := hsem _ _ _ _ (returns_op_iff.mp hkeys)
  obtain ⟨_, st₂, hleave, hrest⟩ := returns_bind_iff.mp hrest
  have hleft : Left st₁ keys st₂ := by
    refine Returns.forM_invariant (hleave.mono hsem) ?_ ?_
    · exact ⟨by simp, by simp, SameDigests.refl hclean⟩
    · intro done x u v hdone hbody
      exact hdone.step hmum hbody
  obtain ⟨digest, st₃, hactive, hrest⟩ := returns_bind_iff.mp hrest
  obtain ⟨⟨rfl, rfl⟩, -⟩ := hsem _ _ _ _ (returns_op_iff.mp hactive)
  obtain ⟨advertised, st₄, hdiscovered, hrest⟩ := returns_bind_iff.mp hrest
  obtain rfl := returns_discovered (hdiscovered.mono hsem)
  rw [hleft.digests.activeDigest_eq] at hrest
  have hentered : Entered st₄
      (filterAndBuildEthTopics unique st₁.forks.activeDigest false ++ advertised) st' := by
    refine Returns.forM_invariant (hrest.mono hsem) ?_ ?_
    · exact ⟨by simp, by simp, by simp, SameDigests.refl hleft.digests.clean⟩
    · intro done x u v hdone hbody
      exact hdone.step hmum hps hstream hbody
  refine ⟨advertised, st₄, hdiscovered, ?_, ?_, ?_, ?_⟩
  · intro x
    rw [hentered.libTopics, hleft.topics, hleft.subs, hmem, hleft.digests.supported_iff]
    grind
  · intro x
    rw [hentered.libSubs, hleft.subs, hmem, hleft.digests.supported_iff]
  · intro x
    rw [hentered.mumTopics, hleft.topics, hmem, hleft.digests.supported_iff]
  · exact hleft.digests.trans hentered.digests

theorem returns_refreshTopics
    {unique : List String → List String}
    (hmum : s.hasMumP2P = true)
    (hps : s.hasPubsub = true)
    (hstream : s.streamOnly = false)
    (hclean : st.forks.Clean)
    (h : Returns succeeding (refreshTopics s unique) st u st') :
    ∃ advertised, Refreshed st
      (filterAndBuildEthTopics unique st.forks.activeDigest false ++ advertised) st' := by
  obtain ⟨advertised, _, -, hrefreshed⟩ :=
    returns_refreshTopics_on (fun _ _ _ _ h => h) hmum hps hstream hclean h
  exact ⟨advertised, hrefreshed⟩

end Loops

section ActiveTopics

variable {f : ForkService} {forkDigest descriptor digest : String}

/-- A name has no slash, so no other digest is read from a topic that was built. -/
theorem digest_of_buildFullTopic
    (hname : EthTopicName descriptor.toList)
    (h : ethTopicDigest (buildFullTopic forkDigest descriptor) = some digest) :
    digest = toLower forkDigest := by
  obtain ⟨-, name, hname', htopic⟩ := ethTopicDigest_eq_some_iff.mp h
  have hlist : ((toLower forkDigest).toList ++ '/' :: descriptor.toList) ++
      "/ssz_snappy".toList =
      (digest.toList ++ '/' :: name) ++ "/ssz_snappy".toList := by
    simpa [buildFullTopic, hname.trimSpace_eq] using htopic
  -- the names are at the end, so the texts are split from there
  have hsplit := congrArg List.reverse (List.append_cancel_right hlist)
  simp only [List.reverse_append, List.reverse_cons, List.append_assoc,
    List.singleton_append] at hsplit
  have hdigest := (append_sep_inj (by simpa using hname.slash_notMem)
    (by simpa using hname'.slash_notMem) hsplit).2
  rw [← String.toList_inj]
  exact (List.reverse_injective hdigest).symm

theorem checkForkSupported_buildFullTopic_iff
    (hempty : f.checkForkSupported "" = false)
    (hname : EthTopicName descriptor.toList) :
    f.checkForkSupported (getForkDigestFromTopic (buildFullTopic forkDigest descriptor)) = true
      ↔
    IsForkDigest forkDigest ∧ f.checkForkSupported forkDigest = true := by
  have hname' : EthTopicName (trimSpace descriptor).toList := by
    rwa [hname.trimSpace_eq]
  have hsame : IsForkDigest forkDigest →
      f.checkForkSupported (toLower forkDigest) = f.checkForkSupported forkDigest := by
    intro hdigest
    simp only [ForkService.checkForkSupported, hdigest.sanitize_eq,
      (isForkDigest_toLower_iff.mpr hdigest).sanitize_eq, toLower_idem]
  constructor
  · intro h
    cases hparsed : ethTopicDigest (buildFullTopic forkDigest descriptor) with
    | none =>
        simp [getForkDigestFromTopic, hparsed, hempty] at h
    | some digest =>
        obtain rfl := digest_of_buildFullTopic hname hparsed
        have hdigest := isForkDigest_toLower_iff.mp (ethTopicDigest_eq_some_iff.mp hparsed).1
        refine ⟨hdigest, ?_⟩
        rw [getForkDigestFromTopic_buildFullTopic (isForkDigest_toLower_iff.mpr hdigest) hname',
          hsame hdigest] at h
        exact h
  · intro h
    obtain ⟨hdigest, hsupported⟩ := h
    rw [getForkDigestFromTopic_buildFullTopic (isForkDigest_toLower_iff.mpr hdigest) hname',
      hsame hdigest]
    exact hsupported

end ActiveTopics

section Convergence

/-- The topics of the digest in force. -/
inductive ActiveTopic (f : ForkService) : String → Prop where
  | block : ActiveTopic f (buildFullTopic f.activeDigest beaconBlockBase)
  | attestation {n : Nat} (hn : n < attestationSubnetCount) :
      ActiveTopic f (buildFullTopic f.activeDigest (attestationDescriptor n))

/-- Both networks follow the supported digests and the host has every topic of the digest
in force. -/
structure Converged (st : TopicState) : Prop where
  host : ∀ x ∈ st.topics .libP2P,
    st.forks.checkForkSupported (getForkDigestFromTopic x) = true
  mesh : ∀ x ∈ st.topics .mumP2P, x ≠ aggregatedMessagesTopic →
    st.forks.checkForkSupported (getForkDigestFromTopic x) = true
  active : ∀ x, ActiveTopic st.forks x → x ∈ st.topics .libP2P
  meshBlock : buildFullTopic st.forks.activeDigest beaconBlockBase ∈ st.topics .mumP2P

/-- What a refresh needs of the state in which it starts.  An unsupported topic of the
mump2p node is only found through the topic of the same name on the host. -/
structure Reconcilable (st : TopicState) : Prop where
  digest : IsForkDigest st.forks.activeDigest
  supported : st.forks.checkForkSupported st.forks.activeDigest = true
  mesh : ∀ x ∈ st.topics .mumP2P, x ≠ aggregatedMessagesTopic →
    st.forks.checkForkSupported (getForkDigestFromTopic x) = false →
    x ∈ st.topics .libP2P
  subscribed : ∀ x, ActiveTopic st.forks x → x ∈ st.subs .libP2P → x ∈ st.topics .libP2P
  host : aggregatedMessagesTopic ∉ st.topics .libP2P

variable {f g : ForkService} {topic : String} {unique : List String → List String}

theorem SameDigests.activeTopic_iff
    (h : SameDigests f g) :
    ActiveTopic g topic ↔ ActiveTopic f topic := by
  constructor
  · intro hactive
    cases hactive with
    | block => exact h.activeDigest_eq ▸ .block
    | attestation hn => exact h.activeDigest_eq ▸ .attestation hn
  · intro hactive
    cases hactive with
    | block => exact h.activeDigest_eq ▸ .block
    | attestation hn => exact h.activeDigest_eq ▸ .attestation hn

theorem infix_append_middle
    (a b c d e : String) :
    d.toList <:+: (a ++ b ++ c ++ d ++ e).toList := by
  refine ⟨(a ++ b ++ c).toList, e.toList, ?_⟩
  simp only [String.toList_append]

/-- A built topic contains what its descriptor contains. -/
theorem containsText_buildFullTopic
    {descriptor part : String}
    (forkDigest : String)
    (hname : EthTopicName descriptor.toList)
    (h : part.toList <:+: descriptor.toList) :
    containsText (buildFullTopic forkDigest descriptor) part = true := by
  rw [buildFullTopic, hname.trimSpace_eq]
  exact decide_eq_true (h.trans (infix_append_middle _ _ _ _ _))

theorem isBeaconBlockTopic_buildFullTopic
    (forkDigest : String) :
    isBeaconBlockTopic (buildFullTopic forkDigest beaconBlockBase) = true :=
  containsText_buildFullTopic forkDigest ethTopicName_beaconBlockBase List.infix_rfl

theorem isAttestationTopic_buildFullTopic
    (forkDigest : String)
    (n : Nat) :
    isAttestationTopic (buildFullTopic forkDigest (attestationDescriptor n)) = true := by
  have hdescriptor : (attestationDescriptor n).toList =
      (beaconAttestationBase ++ "_").toList ++ (toString n).toList :=
    String.toList_append
  refine containsText_buildFullTopic forkDigest (ethTopicName_attestationDescriptor n) ?_
  rw [hdescriptor]
  exact (List.prefix_append _ _).isInfix

theorem ActiveTopic.isHostTopic
    (h : ActiveTopic f topic) :
    IsHostTopic topic := by
  cases h with
  | block => simp [IsHostTopic, isBeaconBlockTopic_buildFullTopic]
  | attestation hn => simp [IsHostTopic, isAttestationTopic_buildFullTopic]

theorem ActiveTopic.mem_filterAndBuildEthTopics
    (hunique : ∀ l x, x ∈ unique l ↔ x ∈ l)
    (hdigest : f.activeDigest ≠ "")
    (h : ActiveTopic f topic) :
    topic ∈ filterAndBuildEthTopics unique f.activeDigest false := by
  cases h with
  | block =>
      exact buildFullTopic_mem_filterAndBuildEthTopics hunique hdigest
        ((mem_unpackTopics_iff hunique).mpr (Or.inr rfl))
  | attestation hn =>
      exact buildFullTopic_mem_filterAndBuildEthTopics hunique hdigest
        ((mem_unpackTopics_iff hunique).mpr (Or.inl ⟨_, hn, rfl⟩))

theorem ActiveTopic.checkForkSupported_iff
    (hempty : f.checkForkSupported "" = false)
    (h : ActiveTopic f topic) :
    f.checkForkSupported (getForkDigestFromTopic topic) = true
      ↔
    IsForkDigest f.activeDigest ∧ f.checkForkSupported f.activeDigest = true := by
  cases h with
  | block => exact checkForkSupported_buildFullTopic_iff hempty ethTopicName_beaconBlockBase
  | attestation hn =>
      exact checkForkSupported_buildFullTopic_iff hempty (ethTopicName_attestationDescriptor _)

theorem checkForkSupported_aggregated
    (hempty : f.checkForkSupported "" = false) :
    f.checkForkSupported (getForkDigestFromTopic aggregatedMessagesTopic) = false := by
  have hnone : getForkDigestFromTopic aggregatedMessagesTopic = "" := by
    decide
  rw [hnone, hempty]

theorem supported_of_ne
    (hne : topic ≠ aggregatedMessagesTopic)
    (h : Supported f topic) :
    f.checkForkSupported (getForkDigestFromTopic topic) = true :=
  h.resolve_left hne

variable {st st' : TopicState} {advertised : List String}

/-- A refresh converges exactly from the states in which it can find what to leave. -/
theorem Refreshed.converged_iff
    (hunique : ∀ l x, x ∈ unique l ↔ x ∈ l)
    (hempty : st.forks.checkForkSupported "" = false)
    (h : Refreshed st
      (filterAndBuildEthTopics unique st.forks.activeDigest false ++ advertised) st') :
    Converged st' ↔ Reconcilable st := by
  have hcheck := h.digests.checkForkSupported_eq
  have hdigest := h.digests.activeDigest_eq
  constructor
  · intro hconverged
    have hactive : ∀ x, ActiveTopic st.forks x → x ∈ st'.topics .libP2P := by
      intro x hx
      exact hconverged.active x (h.digests.activeTopic_iff.mpr hx)
    have hblock := hconverged.host _ (hactive _ .block)
    rw [hcheck, ActiveTopic.block.checkForkSupported_iff hempty] at hblock
    refine ⟨hblock.1, hblock.2, ?_, ?_, ?_⟩
    · intro x hx hne hunsupported
      by_contra hlib
      have hkept : x ∈ st'.topics .mumP2P :=
        (h.mumTopics x).mpr (Or.inl ⟨hx, fun hmem => absurd hmem hlib⟩)
      have hsupported := hconverged.mesh x hkept hne
      rw [hcheck, hunsupported] at hsupported
      cases hsupported
    · intro x hx hsub
      rcases ((h.libTopics x).mp (hactive x hx)).2 with hmem | ⟨_, _, hnot⟩
      · exact hmem
      · exact absurd hsub hnot
    · intro hmem
      have hhost := hconverged.host _ ((h.libTopics _).mpr ⟨Or.inl rfl, Or.inl hmem⟩)
      rw [hcheck, checkForkSupported_aggregated hempty] at hhost
      cases hhost
  · intro hreconcilable
    have hne : st.forks.activeDigest ≠ "" := by
      intro hnone
      have hlength := hreconcilable.digest.1
      rw [hnone] at hlength
      cases hlength
    have hsupported : ∀ x, ActiveTopic st.forks x →
        st.forks.checkForkSupported (getForkDigestFromTopic x) = true := by
      intro x hx
      exact (hx.checkForkSupported_iff hempty).mpr
        ⟨hreconcilable.digest, hreconcilable.supported⟩
    have hwanted : ∀ x, ActiveTopic st.forks x →
        x ∈ filterAndBuildEthTopics unique st.forks.activeDigest false ++ advertised := by
      intro x hx
      exact List.mem_append_left _ (hx.mem_filterAndBuildEthTopics hunique hne)
    refine ⟨?_, ?_, ?_, ?_⟩
    · intro x hx
      obtain ⟨hsupp, hmem⟩ := (h.libTopics x).mp hx
      rw [hcheck]
      refine supported_of_ne ?_ hsupp
      intro haggregated
      subst haggregated
      rcases hmem with hmem | ⟨_, hhost, _⟩
      · exact hreconcilable.host hmem
      · exact absurd hhost (by decide +kernel)
    · intro x hx hne
      rw [hcheck]
      rcases (h.mumTopics x).mp hx with ⟨hmem, hleft⟩ | ⟨_, hsupp, _⟩
      · by_contra hunsupported
        have hlib := hreconcilable.mesh x hmem hne (Bool.eq_false_iff.mpr hunsupported)
        exact hunsupported (supported_of_ne hne (hleft hlib))
      · exact supported_of_ne hne hsupp
    · intro x hx
      have hx := h.digests.activeTopic_iff.mp hx
      refine (h.libTopics x).mpr ⟨Or.inr (hsupported x hx), ?_⟩
      by_cases hsub : x ∈ st.subs .libP2P
      · exact Or.inl (hreconcilable.subscribed x hx hsub)
      · exact Or.inr ⟨hwanted x hx, hx.isHostTopic, hsub⟩
    · rw [hdigest, h.mumTopics]
      exact Or.inr ⟨hwanted _ .block, Or.inr (hsupported _ .block),
        isBeaconBlockTopic_buildFullTopic _⟩

variable {s : RefreshService} {history : List ForkCall}

/-- A refresh returns, and it converges iff the digest in force is a supported one of
eight hexadecimal digits and every unsupported topic of the mump2p node is joined on the
host too.  The other two conditions hold wherever a topic is subscribed to by
`subscribeToTopic` alone. -/
theorem refreshTopics_converges_iff
    (hunique : ∀ l x, x ∈ unique l ↔ x ∈ l)
    (hmum : s.hasMumP2P = true)
    (hps : s.hasPubsub = true)
    (hstream : s.streamOnly = false)
    (hforks : st.forks = ForkService.init.after history) :
    (∃ st', Returns succeeding (refreshTopics s unique) st () st') ∧
      ∀ st', Returns succeeding (refreshTopics s unique) st () st' →
        (Converged st' ↔ Reconcilable st) := by
  constructor
  · obtain ⟨_, st', hreturns⟩ := exists_returns succeeding_total (refreshTopics s unique) st
    exact ⟨st', hreturns⟩
  · intro st' hreturns
    have hclean : st.forks.Clean := by
      rw [hforks]
      exact ForkService.clean_init.after history
    have hempty : st.forks.checkForkSupported "" = false := by
      rw [hforks]
      exact ForkService.checkForkSupported_empty_after (by decide) history
    obtain ⟨advertised, hrefreshed⟩ := returns_refreshTopics hmum hps hstream hclean hreturns
    exact hrefreshed.converged_iff hunique hempty

end Convergence

section Rounds

/-- The host has joined what it subscribes to, and every topic of the mump2p node. -/
structure Aligned (st : TopicState) : Prop where
  hostTopics : ∀ x ∈ st.topics .libP2P, IsHostTopic x
  hostSubs : ∀ x ∈ st.subs .libP2P, x ∈ st.topics .libP2P
  mesh : ∀ x ∈ st.topics .mumP2P, x ≠ aggregatedMessagesTopic → x ∈ st.topics .libP2P

variable {s : RefreshService} {unique : List String → List String}
variable {st st₁ st' : TopicState} {wanted : List String}

theorem Aligned.reconcilable
    (h : Aligned st)
    (hdigest : IsForkDigest st.forks.activeDigest)
    (hsupported : st.forks.checkForkSupported st.forks.activeDigest = true) :
    Reconcilable st where
  digest := hdigest
  supported := hsupported
  mesh := fun x hx hne _ => h.mesh x hx hne
  subscribed := fun x _ hsub => h.hostSubs x hsub
  host := fun hmem => absurd (h.hostTopics _ hmem) (by decide +kernel)

/-- What a refresh joins on the mump2p node it joins on the host. -/
theorem Refreshed.aligned
    (h : Refreshed st wanted st')
    (haligned : Aligned st) :
    Aligned st' := by
  have hentered : ∀ x ∈ wanted, Supported st.forks x → IsHostTopic x →
      x ∈ st'.topics .libP2P := by
    intro x hx hsupported hhost
    refine (h.libTopics x).mpr ⟨hsupported, ?_⟩
    by_cases hsub : x ∈ st.subs .libP2P
    · exact Or.inl (haligned.hostSubs x hsub)
    · exact Or.inr ⟨hx, hhost, hsub⟩
  have hstays : ∀ x ∈ st.topics .libP2P, (x ∈ st.topics .libP2P → Supported st.forks x) →
      x ∈ st'.topics .libP2P := by
    intro x hx hsupported
    exact (h.libTopics x).mpr ⟨hsupported hx, Or.inl hx⟩
  refine ⟨?_, ?_, ?_⟩
  · intro x hx
    rcases ((h.libTopics x).mp hx).2 with hmem | ⟨_, hhost, _⟩
    · exact haligned.hostTopics x hmem
    · exact hhost
  · intro x hx
    rcases (h.libSubs x).mp hx with ⟨hmem, hleft⟩ | ⟨hmem, hsupported, hhost⟩
    · exact hstays x (haligned.hostSubs x hmem) hleft
    · exact hentered x hmem hsupported hhost
  · intro x hx hne
    rcases (h.mumTopics x).mp hx with ⟨hmem, hleft⟩ | ⟨hmem, hsupported, hblock⟩
    · exact hstays x (haligned.mesh x hmem hne) hleft
    · exact hentered x hmem hsupported (by simp [IsHostTopic, hblock])

/-- Refreshes, with changes of the fork digests in between, and the readers that have ended.
A reader ends when its subscription is cancelled or fails, and then unsubscribes from its
topic.  No reader unsubscribes while a refresh runs, and a refresh begins when none of those
that have ended is still to unsubscribe. -/
inductive Rounds (s : RefreshService) (unique : List String → List String) :
    TopicState → List String → TopicState → Prop where
  | start {st : TopicState} : Rounds s unique st [] st
  | refresh {st st₁ st₂ : TopicState}
      (hrounds : Rounds s unique st [] st₁)
      (calls : List ForkCall)
      (hreturns : Returns succeeding (refreshTopics s unique)
        { st₁ with forks := st₁.forks.after calls } () st₂) :
      Rounds s unique st [] st₂
  | readerEnds {st st₁ : TopicState} {pending : List String}
      (hrounds : Rounds s unique st pending st₁)
      (topic : String) :
      Rounds s unique st (topic :: pending) st₁
  | cleanup {st st₁ st₂ : TopicState} {pending : List String} {topic : String}
      (hrounds : Rounds s unique st pending st₁)
      (hpending : topic ∈ pending)
      (hreturns : Returns succeeding (unsubscribeFromTopic s topic) st₁ () st₂) :
      Rounds s unique st (pending.erase topic) st₂

/-- The states between two refreshes. -/
structure Settled (st : TopicState) : Prop where
  aligned : Aligned st
  clean : st.forks.Clean
  empty : st.forks.checkForkSupported "" = false

theorem Settled.fork
    (h : Settled st)
    (calls : List ForkCall) :
    Settled { st with forks := st.forks.after calls } where
  aligned := ⟨h.aligned.hostTopics, h.aligned.hostSubs, h.aligned.mesh⟩
  clean := h.clean.after calls
  empty := ForkService.checkForkSupported_empty_after h.empty calls

theorem Settled.refresh
    (hmum : s.hasMumP2P = true)
    (hps : s.hasPubsub = true)
    (hstream : s.streamOnly = false)
    (h : Settled st)
    (hreturns : Returns succeeding (refreshTopics s unique) st () st') :
    Settled st' := by
  obtain ⟨advertised, hrefreshed⟩ := returns_refreshTopics hmum hps hstream h.clean hreturns
  refine ⟨hrefreshed.aligned h.aligned, hrefreshed.digests.clean, ?_⟩
  rw [hrefreshed.digests.checkForkSupported_eq]
  exact h.empty

/-- A reader takes its topic off both networks. -/
theorem Settled.cleanup
    {topic : String}
    (hmum : s.hasMumP2P = true)
    (h : Settled st)
    (hreturns : Returns succeeding (unsubscribeFromTopic s topic) st () st') :
    Settled st' := by
  have hleaves := returns_unsubscribeFromTopic hmum hreturns
  refine ⟨⟨?_, ?_, ?_⟩, hleaves.forks ▸ h.clean, hleaves.forks ▸ h.empty⟩
  · intro x hx
    rw [hleaves.topics] at hx
    exact h.aligned.hostTopics x (Finset.mem_of_mem_erase hx)
  · intro x hx
    rw [hleaves.subs] at hx
    rw [hleaves.topics]
    obtain ⟨hne, hx⟩ := Finset.mem_erase.mp hx
    exact Finset.mem_erase.mpr ⟨hne, h.aligned.hostSubs x hx⟩
  · intro x hx haggregated
    rw [hleaves.topics] at hx ⊢
    obtain ⟨hne, hx⟩ := Finset.mem_erase.mp hx
    exact Finset.mem_erase.mpr ⟨hne, h.aligned.mesh x hx haggregated⟩

theorem Settled.rounds
    {pending : List String}
    (hmum : s.hasMumP2P = true)
    (hps : s.hasPubsub = true)
    (hstream : s.streamOnly = false)
    (h : Settled st)
    (hrounds : Rounds s unique st pending st') :
    Settled st' := by
  induction hrounds with
  | start => exact h
  | refresh hrounds calls hreturns ih =>
      exact (ih.fork calls).refresh hmum hps hstream hreturns
  | readerEnds hrounds topic ih => exact ih
  | cleanup hrounds hpending hreturns ih => exact ih.cleanup hmum hreturns

/-- A gateway whose two networks are aligned once converges again after every change of the
fork digests.  After any number of refreshes, with any calls of the fork service and the
cleanups of any readers in between, the next refresh returns, and it converges if the digest
then in force is a supported one of eight hexadecimal digits.  No reader may be about to
unsubscribe when a refresh begins: one that does so during the refresh takes away a topic
that the refresh has just joined. -/
theorem Settled.converges
    (hunique : ∀ l x, x ∈ unique l ↔ x ∈ l)
    (hmum : s.hasMumP2P = true)
    (hps : s.hasPubsub = true)
    (hstream : s.streamOnly = false)
    (h : Settled st)
    (hrounds : Rounds s unique st [] st₁)
    (calls : List ForkCall)
    (hdigest : IsForkDigest (st₁.forks.after calls).activeDigest)
    (hsupported : (st₁.forks.after calls).checkForkSupported
      (st₁.forks.after calls).activeDigest = true) :
    (∃ st', Returns succeeding (refreshTopics s unique)
        { st₁ with forks := st₁.forks.after calls } () st') ∧
      ∀ st', Returns succeeding (refreshTopics s unique)
        { st₁ with forks := st₁.forks.after calls } () st' → Converged st' := by
  have hsettled := (h.rounds hmum hps hstream hrounds).fork calls
  constructor
  · obtain ⟨_, st', hreturns⟩ := exists_returns succeeding_total (refreshTopics s unique)
      { st₁ with forks := st₁.forks.after calls }
    exact ⟨st', hreturns⟩
  · intro st' hreturns
    obtain ⟨advertised, hrefreshed⟩ :=
      returns_refreshTopics hmum hps hstream hsettled.clean hreturns
    exact (hrefreshed.converged_iff hunique hsettled.empty).mpr
      (hsettled.aligned.reconcilable hdigest hsupported)

end Rounds

section Restored

variable {st st' : TopicState}

/-- What the node has restored when it starts: every kept topic that is not blank.  The
host is not touched. -/
structure Restored (st : TopicState) (done : List String) (st' : TopicState) : Prop where
  mumTopics : ∀ x ∈ done, trimSpace x ≠ "" → x ∈ st'.topics .mumP2P
  libTopics : st'.topics .libP2P = st.topics .libP2P
  forks : st'.forks = st.forks

theorem Restored.step
    {done : List String} {st₁ : TopicState} {topic : String} {u : Unit}
    (hrestored : Restored st done st₁)
    (h : Returns succeeding (do let _ ← subscribeTopic topic; pure ()) st₁ u st') :
    Restored st (done ++ [topic]) st' := by
  obtain ⟨r, st₂, hsubscribe, hret⟩ := returns_bind_iff.mp h
  obtain ⟨-, rfl⟩ := returns_pure_iff.mp hret
  by_cases hblank : trimSpace topic = ""
  · rw [subscribeTopic, if_pos hblank] at hsubscribe
    obtain ⟨-, rfl⟩ := returns_pure_iff.mp hsubscribe
    refine ⟨?_, hrestored.libTopics, hrestored.forks⟩
    intro x hx hne
    rcases List.mem_append.mp hx with hx | hx
    · exact hrestored.mumTopics x hx hne
    · rw [List.mem_singleton.mp hx] at hne
      exact absurd hblank hne
  · have henters := returns_subscribeTopic hblank hsubscribe
    refine ⟨?_, henters.libTopics.trans hrestored.libTopics,
      henters.forks.trans hrestored.forks⟩
    intro x hx hne
    rw [henters.mumTopics, Finset.mem_insert]
    rcases List.mem_append.mp hx with hx | hx
    · exact Or.inr (hrestored.mumTopics x hx hne)
    · exact Or.inl (List.mem_singleton.mp hx)

theorem returns_restoreTopics
    {u : Unit}
    (h : Returns succeeding restoreTopics st u st') :
    ∃ kept, (∀ x, x ∈ kept ↔ x ∈ st.kept) ∧ Restored st kept st' := by
  obtain ⟨kept, st₁, ⟨⟨hmem, rfl⟩, -⟩, hloop⟩ := returns_op_bind_iff.mp h
  refine ⟨kept, hmem, ?_⟩
  refine Returns.forM_invariant hloop ?_ ?_
  · exact ⟨by simp, rfl, rfl⟩
  · intro done x u v hdone hbody
    exact hdone.step hbody

end Restored

section Boot

/-- A gateway of both networks. -/
def bootService : RefreshService where
  hasMumP2P := true
  hasPubsub := true
  hasTracer := true
  streamOnly := false

def keptTopic : String := "/eth2/6a95a1a9/beacon_block/ssz_snappy"

/-- The response has one digest, and the topics keeper has the block topic of another. -/
def bootState : TopicState where
  topics := fun _ => ∅
  subs := fun _ => ∅
  kept := {keptTopic}
  forks := ForkService.init.after [.applyForkDigest "b5303f2a" ""]

/-- The restored topic outlives the refresh, since the host has never joined it. -/
theorem restored_topic_not_left :
    ∃ st₁ st₂, Returns succeeding restoreTopics bootState () st₁ ∧
      Returns succeeding (refreshTopics bootService List.eraseDups) st₁ () st₂ ∧
      keptTopic ∈ st₂.topics .mumP2P ∧
      st₂.forks.checkForkSupported (getForkDigestFromTopic keptTopic) = false ∧
      ¬ Converged st₂ := by
  obtain ⟨_, st₁, hrestore⟩ := exists_returns succeeding_total restoreTopics bootState
  obtain ⟨kept, hkept, hrestored⟩ := returns_restoreTopics hrestore
  have hclean : st₁.forks.Clean := by
    rw [hrestored.forks]
    exact ForkService.clean_init.after _
  obtain ⟨_, st₂, hrefresh⟩ :=
    exists_returns succeeding_total (refreshTopics bootService List.eraseDups) st₁
  obtain ⟨advertised, hrefreshed⟩ := returns_refreshTopics rfl rfl rfl hclean hrefresh
  have hjoined : keptTopic ∈ st₁.topics .mumP2P := by
    refine hrestored.mumTopics keptTopic ((hkept keptTopic).mpr ?_) (by decide +kernel)
    exact Finset.mem_singleton_self keptTopic
  have hstays : keptTopic ∈ st₂.topics .mumP2P := by
    refine (hrefreshed.mumTopics keptTopic).mpr (Or.inl ⟨hjoined, ?_⟩)
    rw [hrestored.libTopics]
    exact fun hmem => absurd hmem (Finset.notMem_empty _)
  have hunsupported :
      st₂.forks.checkForkSupported (getForkDigestFromTopic keptTopic) = false := by
    rw [hrefreshed.digests.checkForkSupported_eq, hrestored.forks]
    decide +kernel
  refine ⟨st₁, st₂, hrestore, hrefresh, hstays, hunsupported, ?_⟩
  intro hconverged
  have hsupported := hconverged.mesh keptTopic hstays (by decide +kernel)
  rw [hunsupported] at hsupported
  cases hsupported

/-- A start with the block topic of the current digest on the mump2p node. -/
def currentState : TopicState where
  topics
    | .libP2P => ∅
    | .mumP2P => {"/eth2/b5303f2a/beacon_block/ssz_snappy", aggregatedMessagesTopic}
  subs := fun _ => ∅
  kept := ∅
  forks := ForkService.init.after [.applyForkDigest "b5303f2a" ""]

theorem reconcilable_currentState :
    Reconcilable currentState where
  digest := by decide +kernel
  supported := by decide +kernel
  mesh := by decide +kernel
  subscribed := fun _ _ hsub => absurd hsub (Finset.notMem_empty _)
  host := Finset.notMem_empty _

theorem refreshTopics_converges_current :
    ∃ st', Returns succeeding (refreshTopics bootService List.eraseDups) currentState () st' ∧
      Converged st' := by
  have hunique : ∀ (l : List String) x, x ∈ l.eraseDups ↔ x ∈ l := by
    intro l x
    exact List.mem_eraseDups
  have hforks : currentState.forks = ForkService.init.after [.applyForkDigest "b5303f2a" ""] :=
    rfl
  obtain ⟨⟨st', hreturns⟩, hiff⟩ :=
    refreshTopics_converges_iff (s := bootService) hunique rfl rfl rfl hforks
  exact ⟨st', hreturns, (hiff st' hreturns).mpr reconcilable_currentState⟩

/-- A gateway that has joined nothing is settled, so that it follows a change of the digest. -/
theorem settled_bootState :
    Settled bootState where
  aligned := ⟨nofun, nofun, nofun⟩
  clean := ForkService.clean_init.after _
  empty := ForkService.checkForkSupported_empty_after (by decide) _

/-- The block topic is joined, its reader fails and cleans up, and the digest changes. -/
theorem converges_after_change :
    ∃ st₁ st', Rounds bootService List.eraseDups bootState [] st₁ ∧
      Returns succeeding (refreshTopics bootService List.eraseDups)
        { st₁ with
          forks := st₁.forks.after [.applyForkDigest "6a95a1a9" "b5303f2a"] } () st' ∧
      Converged st' := by
  have hunique : ∀ (l : List String) x, x ∈ l.eraseDups ↔ x ∈ l := fun _ _ => List.mem_eraseDups
  obtain ⟨_, st₁, hrefresh⟩ := exists_returns succeeding_total
    (refreshTopics bootService List.eraseDups)
    { bootState with forks := bootState.forks.after [] }
  obtain ⟨_, st₂, hcleanup⟩ := exists_returns succeeding_total
    (unsubscribeFromTopic bootService "/eth2/b5303f2a/beacon_block/ssz_snappy") st₁
  have hrounds : Rounds bootService List.eraseDups bootState [] st₂ := by
    have hended := (Rounds.start.refresh [] hrefresh).readerEnds
      "/eth2/b5303f2a/beacon_block/ssz_snappy"
    have hover := hended.cleanup List.mem_cons_self hcleanup
    rwa [List.erase_cons_head] at hover
  have hobserved : st₂.forks.observedDigestLC = none := by
    obtain ⟨advertised, hrefreshed⟩ :=
      returns_refreshTopics rfl rfl rfl settled_bootState.clean hrefresh
    rw [(returns_unsubscribeFromTopic rfl hcleanup).forks, hrefreshed.digests.observedDigestLC]
    rfl
  have hfollows := st₂.forks.follows_applyForkDigest
    (show trimSpace "6a95a1a9" ≠ "" by decide +kernel) "b5303f2a"
  have hclean := ((settled_bootState.rounds rfl rfl rfl hrounds).fork
    [.applyForkDigest "6a95a1a9" "b5303f2a"]).clean
  have hdigest : IsForkDigest
      (st₂.forks.applyForkDigest "6a95a1a9" "b5303f2a").activeDigest := by
    rw [ForkService.activeDigest_eq hfollows hclean, if_neg]
    · decide +kernel
    · rintro ⟨-, hfuture⟩
      cases hobserved.symm.trans hfuture
  obtain ⟨⟨st', hreturns⟩, hconverges⟩ := Settled.converges (s := bootService) hunique rfl rfl rfl
    settled_bootState hrounds [.applyForkDigest "6a95a1a9" "b5303f2a"] hdigest
    (hfollows.activeDigest_supported hclean).1
  exact ⟨st₂, st', hrounds, hreturns, hconverges st' hreturns⟩

end Boot

end GossipsubGateway
end OptimumGateway
