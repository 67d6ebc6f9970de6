import OptimumGateway.GossipsubGateway.StreamObservations

/-!
# The fork of a streamed block

An event of the stream carries the topic of its block and a fork digest.  The digest is
read from the fork service when the event is built: it is the digest in force, which may
differ from the digest in the topic while two digests are supported.

The fork service is part of the memory here.  Any number of goroutines change it: the
subscriptions of the CL observe digests and the refresher applies responses.  If the
digest of the block's own topic is in force whenever an event is built, every event names
its own fork.  Around a transition it does not.
-/

namespace OptimumGateway
namespace GossipsubGateway

open Foundation Foundation.Prog Protocol Aggregator

section Feed

/-- The caches and the fork digests. -/
structure FeedState where
  caches : ProxyState
  forks : ForkService

/-- The fork service answers for itself. -/
def forkSem : Sem ProxyOp ProxyOp.Ans ForkService
  | .activeDigest, f, r, g => r = f.activeDigest ∧ g = f
  | .topicSupported topic, f, r, g => f.topicSupported topic = (r, g)
  | .forkCall change, f, _, g => g = change.run f
  | _, f, _, g => g = f

def feedSem : Sem ProxyOp ProxyOp.Ans FeedState :=
  fun o s r t => proxySem o s.caches r t.caches ∧ forkSem o s.forks r t.forks

/-- The goroutines of the handlers, and those that change the fork digests. -/
inductive FeedParty where
  | handler (i : ProxyParty)
  | forks (n : Nat)
deriving DecidableEq

structure FeedInput where
  messages : ProxyInput
  forkCalls : Nat → List ForkCall

variable (s : ProxyService)

def FeedInput.program (input : FeedInput) : FeedParty → ProxyProg Unit
  | .handler i => input.messages.program s i
  | .forks n => forEach (fun change => proxy (.forkCall change)) (input.forkCalls n)

abbrev FeedConfig := Config FeedParty ProxyOp ProxyOp.Ans (fun _ => Unit) FeedState

abbrev FeedEvent := Event FeedParty ProxyOp ProxyOp.Ans

def FeedInput.config (input : FeedInput) (st : FeedState) : FeedConfig :=
  ⟨input.program s, st⟩

/-- The sources whose keys a goroutine looks up. -/
def FeedParty.observes : FeedParty → Source → Prop
  | .handler i => i.observes
  | .forks _ => fun _ => False

theorem observes_feed
    (input : FeedInput)
    (i : FeedParty) :
    Observes i.observes (input.program s i) := by
  cases i with
  | handler i => exact observes_program s input.messages i
  | forks n =>
      refine Observes.forEach (fun change => Observes.of_streams fun _ => ?_) _
      exact Streams.call (o := .forkCall change) trivial Streams.ret

theorem forkSem_clean
    {o : ProxyOp} {f g : ForkService} {r : o.Ans}
    (h : forkSem o f r g)
    (hclean : f.Clean) :
    g.Clean := by
  cases o with
  | activeDigest =>
      rw [h.2]
      exact hclean
  | topicSupported topic =>
      have hrun := hclean.run (.topicSupported topic)
      rw [ForkCall.run, show f.topicSupported topic = (r, g) from h] at hrun
      exact hrun
  | forkCall change =>
      rw [show g = change.run f from h]
      exact hclean.run change
  | _ =>
      cases h
      exact hclean

end Feed

section Condition

/-- The service follows a response in which the digest is the current one, and the future
one is not observed or is the same; or the digest is the future one and is observed. -/
def InForce (f : ForkService) (digest : String) : Prop :=
  ∃ current future, f.Follows current future ∧
    (digest = current ∧ (future = current ∨ f.observedDigestLC ≠ some future) ∨
      digest = future ∧ future ≠ "" ∧ f.observedDigestLC = some future)

theorem InForce.activeDigest_eq
    {f : ForkService} {digest : String}
    (h : InForce f digest)
    (hclean : f.Clean) :
    f.activeDigest = digest := by
  obtain ⟨current, future, hfollows, hcase⟩ := h
  rw [ForkService.activeDigest_eq hfollows hclean]
  rcases hcase with ⟨rfl, rfl | hobserved⟩ | ⟨rfl, hne, hobserved⟩
  · split <;> rfl
  · rw [if_neg (fun hboth => hobserved hboth.2)]
  · rw [if_pos ⟨hne, hobserved⟩]

/-- When a goroutine reads the digest for an event, the digest of the event's topic is in
force. -/
def OwnForkInForce (c : FeedConfig) (e : FeedEvent) : Prop :=
  ∀ next, c.progs e.thread = Prog.call .activeDigest next →
    ∀ digest ev rest, next digest = Prog.call (.streamEmit ev) rest →
      InForce c.state.forks (getForkDigestFromTopic ev.topic)

variable {s : ProxyService} {input : FeedInput} {st : FeedState}
variable {G : FeedConfig → FeedEvent → Prop} {tr : List FeedEvent} {d : FeedConfig}

theorem clean_of_run
    (hclean : st.forks.Clean)
    (hrun : Run feedSem G (input.config s st) tr d) :
    d.state.forks.Clean := by
  induction hrun with
  | nil => exact hclean
  | snoc front guard last ih =>
      cases last with
      | thread hprog hsem => exact forkSem_clean hsem.2 ih

/-- The next operation of a goroutine is in order. -/
theorem stageOrder_of_next
    (hrun : Run feedSem G (input.config s st) tr d)
    {i : FeedParty} {o : ProxyOp} {k : o.Ans → ProxyProg Unit}
    (hnext : d.progs i = Prog.call o k) :
    StageOrder i.observes (callsOf i tr) o := by
  have halong := hrun.along (i := i) (observes_feed s input i [] rfl)
  rw [hnext] at halong
  exact halong.1

theorem named_of_run
    (hclean : st.forks.Clean)
    (hrun : Run feedSem OwnForkInForce (input.config s st) tr d)
    {i : FeedParty} {ev : BlockEvent} {k : Unit → ProxyProg Unit}
    (hnext : d.progs i = Prog.call (.streamEmit ev) k) :
    ev.forkDigest = getForkDigestFromTopic ev.topic := by
  induction hrun with
  | nil =>
      have horder := stageOrder_of_next (Run.nil (G := anyStep) (input.config s st)) hnext
      cases horder.emit.1
  | @snoc d d' tr e front guard last ih =>
      have hrun' := Run.snoc front guard last
      cases last with
      | @thread j o k' r t hprog hsem =>
          by_cases hi : i = j
          · subst hi
            have hstage := (stageOrder_of_next hrun' hnext).emit.1
            rw [callsOf_append, callsOf_singleton, if_pos rfl,
              stage_append_singleton] at hstage
            -- the step has read the digest, and the condition was met in the state before
            obtain ⟨-, hlast⟩ := Stage.next_stamped hstage
            cases hlast
            have hforce := guard k' hprog _ ev k
              (by rwa [← Function.update_self i (k' ev.forkDigest) d.progs])
            rw [← hforce.activeDigest_eq (clean_of_run hclean front)]
            exact hsem.2.1
          · have hother : d.progs i = Prog.call (.streamEmit ev) k := by
              rwa [← Function.update_of_ne hi (k' r) d.progs]
            exact ih hother

/-- In every run in which the digest of a block's own topic is in force whenever its event
is built, every event names the fork of its topic.  The fork service starts in any state
that it can reach. -/
theorem streamed_fork_of_ownForkInForce
    (s : ProxyService)
    (input : FeedInput)
    (caches : ProxyState)
    (history : List ForkCall)
    {tr : List FeedEvent}
    {d : FeedConfig}
    (hrun : Run feedSem OwnForkInForce
      (input.config s ⟨caches, ForkService.init.after history⟩) tr d)
    {i : FeedParty}
    {ev : BlockEvent}
    (hemit : ⟨i, .streamEmit ev, ()⟩ ∈ tr) :
    ev.forkDigest = getForkDigestFromTopic ev.topic := by
  obtain ⟨a, b, rfl⟩ := List.append_of_mem hemit
  rw [← List.singleton_append, ← List.append_assoc] at hrun
  obtain ⟨d₁, hupto, -⟩ := hrun.split
  obtain ⟨d₀, hbefore, -, hstep⟩ := hupto.of_snoc
  cases hstep with
  | thread hprog hsem =>
      exact named_of_run (ForkService.clean_init.after history) hbefore hprog

end Condition

section Settled

/-- Without a change of the digests, only the cache of the topics moves. -/
theorem forkSem_inForce
    {o : ProxyOp} {f g : ForkService} {r : o.Ans} {digest : String}
    (h : forkSem o f r g)
    (hquiet : ∀ change, o ≠ .forkCall change)
    (hforce : InForce f digest) :
    InForce g digest := by
  cases o with
  | activeDigest =>
      rw [h.2]
      exact hforce
  | topicSupported topic =>
      obtain ⟨current, future, hfollows, hcase⟩ := hforce
      have hg : (f.topicSupported topic).2 = g := congrArg Prod.snd h
      have hfollows' : ((ForkCall.topicSupported topic).run f).Follows current future :=
        hfollows.run (by simp)
      have hobserved : (f.topicSupported topic).2.observedDigestLC = f.observedDigestLC := by
        unfold ForkService.topicSupported
        split
        · rfl
        · split <;> rfl
      rw [← hg]
      refine ⟨current, future, hfollows', ?_⟩
      rw [hobserved]
      exact hcase
  | forkCall change => exact absurd rfl (hquiet change)
  | _ =>
      cases h
      exact hforce

variable {s : ProxyService} {input : FeedInput} {st : FeedState} {digest : String}
variable {G : FeedConfig → FeedEvent → Prop} {tr : List FeedEvent} {d : FeedConfig}

theorem inForce_of_run
    (hforce : InForce st.forks digest)
    (hrun : Run feedSem G (input.config s st) tr d)
    (hquiet : ∀ i change, ⟨i, .forkCall change, ()⟩ ∉ tr) :
    InForce d.state.forks digest := by
  induction hrun with
  | nil => exact hforce
  | snoc front guard last ih =>
      cases last with
      | @thread j o k r t hprog hsem =>
          refine forkSem_inForce hsem.2 ?_ (ih fun i change hmem =>
            hquiet i change (List.mem_append_left _ hmem))
          intro change ho
          subst ho
          exact hquiet j change (List.mem_append_right _ (List.mem_singleton.mpr rfl))

/-- The topic in hand was checked. -/
theorem checked_of_topicInHand
    {calls : List ProxyCall} {topic : String}
    (h : topicInHand calls = some topic) :
    ∃ supported, (⟨.topicSupported topic, supported⟩ : ProxyCall) ∈ calls := by
  obtain ⟨⟨o, r⟩, hmem, hchecked⟩ := List.mem_filterMap.mp (List.mem_of_getLast? h)
  cases o with
  | topicSupported topic' =>
      obtain rfl : topic' = topic := Option.some.inj hchecked
      exact ⟨r, hmem⟩
  | _ => cases hchecked

/-- While the digest in force does not change and all messages have topics of that digest,
the condition is met. -/
theorem run_ownForkInForce
    (hrun : Run feedSem G (input.config s st) tr d)
    (hforce : InForce st.forks digest)
    (hquiet : ∀ i change, ⟨i, .forkCall change, ()⟩ ∉ tr)
    (htopics : ∀ i topic supported, ⟨i, .topicSupported topic, supported⟩ ∈ tr →
      getForkDigestFromTopic topic = digest) :
    Run feedSem OwnForkInForce (input.config s st) tr d := by
  refine hrun.guarded ?_
  intro a e b m htr hfront next hprog read ev rest hnext
  have hsub : ∀ e', e' ∈ a → e' ∈ tr := by
    intro e' hmem
    rw [htr]
    exact List.mem_append_left _ hmem
  have halong := hfront.along (i := e.thread) (observes_feed s input e.thread [] rfl)
  rw [hprog] at halong
  have hafter := halong.2 read
  rw [hnext] at hafter
  have htopic := hafter.1.emit.2
  rw [topicInHand_of_unchecked rfl] at htopic
  obtain ⟨supported, hmem⟩ := checked_of_topicInHand htopic
  rw [htopics e.thread ev.topic supported (hsub _ (mem_of_mem_callsOf hmem))]
  exact inForce_of_run hforce hfront fun i change hchange => hquiet i change (hsub _ hchange)

end Settled

section Transition

/-- A response with a current and a future digest. -/
def transitionHistory : List ForkCall :=
  [.applyForkDigest "6a95a1a9" "b5303f2a"]

/-- A block of the current fork comes from the mesh. -/
def meshInput (changes : List ForkCall) : FeedInput where
  messages := ⟨[], [meshBlock], [], []⟩
  forkCalls n := if n = 0 then changes else []

/-- The calls of the mesh handler for the block. -/
def meshCalls (digest : String) : List ProxyCall :=
  ⟨.topicSupported blockTopic, true⟩ :: ⟨.unixMilli, 1000⟩ ::
    (arrivalCalls streamService blockTopic sampleBlock 1000 .mumP2P "16Uiu2HAmOther"
      "16Uiu2HAmOther" sampleHeader.header blockSlot false digest ++
    (⟨.messageGet (streamService.lib.xxHash sampleBlock), false⟩ :: forwardToCLCalls))

theorem fresh_sampleHeader :
    decide (diffUint64 sampleHeader.header.slot blockSlot > staleSlotThreshold) = false := by
  decide +kernel

theorem path_meshCalls
    (digest : String) :
    Path (handleMessagesFromMumP2PNode streamService [meshBlock]) (meshCalls digest)
      (.ret ()) := by
  have hdecode : decodeBeaconBlockHeader streamService.lib.snappy sampleBlock =
      .ok sampleHeader := decode_sampleBlock
  have harrival : Path (processBeaconBlockArrival streamService meshBlock.topic
      meshBlock.message 1000 .mumP2P meshBlock.sourceNodeID meshBlock.upstreamPeerID) _ _ :=
    path_arrivalCalls rfl hdecode 1000 .mumP2P _ _ blockSlot false digest
  rw [fresh_sampleHeader, Bool.not_false] at harrival
  have hblock : (parseTopicMeta meshBlock.topic).isBeaconBlock = true := isBeaconBlock_blockTopic
  have hhandle := path_handleMessageFromMumP2PNode hblock (by decide) harrival false
  have hall := hhandle.bind (f := fun _ => .ret ()) (Path.nil _)
  rw [List.append_nil] at hall
  exact hall

/-- Calls that both parts of the memory allow. -/
theorem exec_feed
    {a b : ProxyState} {f g : ForkService} {calls : List ProxyCall}
    (hcaches : Exec proxySem a calls b)
    (hforks : Exec forkSem f calls g) :
    Exec feedSem ⟨a, f⟩ calls ⟨b, g⟩ := by
  induction hcaches generalizing f with
  | nil a =>
      rw [exec_nil_iff.mp hforks]
      exact Exec.nil _
  | cons head tail ih =>
      obtain ⟨f', hhead, htail⟩ := exec_cons_iff.mp hforks
      exact Exec.cons (t := ⟨_, f'⟩) ⟨head, hhead⟩ (ih htail)

/-- The caches once the block of the mesh is streamed. -/
def meshStreamed : ProxyState :=
  { emptyCaches with
    stream := Function.update emptyCaches.stream
      (streamDedupKey .mumP2P sampleHeader.header) true }

theorem exec_meshCalls
    {f : ForkService} {digest : String}
    (hsupported : (f.topicSupported blockTopic).1 = true)
    (hdigest : (f.topicSupported blockTopic).2.activeDigest = digest) :
    Exec feedSem ⟨emptyCaches, f⟩ (meshCalls digest)
      ⟨blockStored meshStreamed, (f.topicSupported blockTopic).2⟩ := by
  refine exec_feed ?_ ?_
  · refine Exec.cons rfl (Exec.cons rfl (exec_append_iff.mpr ⟨meshStreamed, ?_, ?_⟩))
    · exact Exec.cons rfl (Exec.cons rfl (Exec.cons rfl (Exec.cons ⟨rfl, rfl⟩ (Exec.cons rfl
        (Exec.cons rfl (Exec.cons rfl (Exec.nil _)))))))
    · exact Exec.cons ⟨rfl, rfl⟩ (exec_forwardToCLCalls _)
  · refine Exec.cons (Prod.ext hsupported rfl) (Exec.cons rfl (exec_append_iff.mpr
      ⟨(f.topicSupported blockTopic).2, ?_, ?_⟩))
    · exact Exec.cons rfl (Exec.cons rfl (Exec.cons rfl (Exec.cons rfl (Exec.cons rfl
        (Exec.cons ⟨hdigest.symm, rfl⟩ (Exec.cons rfl (Exec.nil _)))))))
    · exact Exec.cons rfl (Exec.cons rfl (Exec.cons rfl (Exec.cons rfl (Exec.cons rfl
        (Exec.cons rfl (Exec.nil _))))))

/-- The calls of a goroutine that changes the digests. -/
def changeCalls (changes : List ForkCall) : List ProxyCall :=
  changes.map fun change => ⟨.forkCall change, ()⟩

theorem path_changeCalls
    (changes : List ForkCall) :
    Path (forEach (fun change => proxy (.forkCall change)) changes) (changeCalls changes)
      (.ret ()) := by
  induction changes with
  | nil => exact Path.nil _
  | cons change changes ih => exact Path.cons ih

theorem exec_changeCalls
    (st : ProxyState)
    (f : ForkService)
    (changes : List ForkCall) :
    Exec feedSem ⟨st, f⟩ (changeCalls changes) ⟨st, f.after changes⟩ := by
  induction changes generalizing f with
  | nil => exact Exec.nil _
  | cons change changes ih =>
      have hchange : feedSem (.forkCall change) ⟨st, f⟩ () ⟨st, change.run f⟩ := ⟨rfl, rfl⟩
      exact Exec.cons hchange (ih (change.run f))

/-- A goroutine changes the digests, then the block is handled. -/
def meshTrace (changes : List ForkCall) (digest : String) : List FeedEvent :=
  ((changeCalls changes).map fun x => ⟨.forks 0, x.1, x.2⟩) ++
    (meshCalls digest).map fun x => ⟨.handler .mumP2P, x.1, x.2⟩

theorem run_meshTrace
    (f : ForkService)
    (changes : List ForkCall)
    (digest : String)
    (hsupported : ((f.after changes).topicSupported blockTopic).1 = true)
    (hdigest : ((f.after changes).topicSupported blockTopic).2.activeDigest = digest) :
    ∃ d, Run feedSem anyStep ((meshInput changes).config streamService ⟨emptyCaches, f⟩)
      (meshTrace changes digest) d := by
  refine ⟨⟨fun _ => .ret (), ⟨blockStored meshStreamed,
    ((f.after changes).topicSupported blockTopic).2⟩⟩, run_of_paths ?_ ?_⟩
  · intro i
    unfold meshTrace
    rw [callsOf_append, callsOf_map, callsOf_map]
    cases i with
    | handler i =>
        rw [if_neg (by simp), List.nil_append]
        cases i with
        | mumP2P => exact path_meshCalls digest
        | _ => exact Path.nil _
    | forks n =>
        rw [if_neg (show ¬ FeedParty.handler .mumP2P = .forks n by simp), List.append_nil]
        by_cases hn : n = 0
        · subst hn
          exact path_changeCalls changes
        · rw [if_neg (by simpa using Ne.symm hn)]
          change Path (forEach _ (if n = 0 then changes else [])) _ _
          rw [if_neg hn]
          exact Path.nil _
  · rw [meshTrace, List.map_append, calls_map, calls_map]
    exact Exec.append (exec_changeCalls emptyCaches f changes) (exec_meshCalls hsupported hdigest)

/-- The event of the block, with the digest that was read for it. -/
def meshEvent (digest : String) : BlockEvent where
  slot := sampleHeader.header.slot
  proposerIndex := sampleHeader.header.proposerIndex
  parentRoot := sampleHeader.header.parentRoot
  stateRoot := sampleHeader.header.stateRoot
  blockSizeBytes := sampleBlock.length
  topic := blockTopic
  source := .mumP2P
  receivedAtMs := 1000
  gatewayID := streamService.gatewayID
  forkDigest := digest
  stale := false
  raw := sampleBlock

theorem meshEvent_mem
    (changes : List ForkCall)
    (digest : String) :
    ⟨.handler .mumP2P, .streamEmit (meshEvent digest), ()⟩ ∈ meshTrace changes digest := by
  refine List.mem_append_right _
    (List.mem_map.mpr ⟨⟨.streamEmit (meshEvent digest), ()⟩, ?_, rfl⟩)
  refine List.mem_cons_of_mem _ (List.mem_cons_of_mem _ (List.mem_append_left _ ?_))
  refine List.mem_append_right _ (List.mem_cons_of_mem _ (List.mem_cons_of_mem _ ?_))
  rw [fresh_sampleHeader]
  exact List.mem_singleton.mpr rfl

/-- Both digests are supported and the CL has switched to the future one.  A block of the
current fork still comes from the mesh, and is streamed under the future fork. -/
theorem streamed_under_other_fork :
    ∃ tr d,
      Run feedSem anyStep
        ((meshInput [.observeMessageDigest "b5303f2a"]).config streamService
          ⟨emptyCaches, ForkService.init.after transitionHistory⟩) tr d ∧
      (ForkService.init.after transitionHistory).checkForkSupported "6a95a1a9" = true ∧
      (ForkService.init.after transitionHistory).checkForkSupported "b5303f2a" = true ∧
      ∃ ev, ⟨.handler .mumP2P, .streamEmit ev, ()⟩ ∈ tr ∧
        getForkDigestFromTopic ev.topic = "6a95a1a9" ∧ ev.forkDigest = "b5303f2a" := by
  obtain ⟨d, hrun⟩ := run_meshTrace (ForkService.init.after transitionHistory)
    [.observeMessageDigest "b5303f2a"] "b5303f2a" (by decide +kernel) (by decide +kernel)
  refine ⟨_, d, hrun, by decide +kernel, by decide +kernel, meshEvent "b5303f2a",
    meshEvent_mem _ _, by decide +kernel, rfl⟩

/-- Before the CL has switched, the same block is streamed under its own fork. -/
theorem streamed_fork_of_ownForkInForce_current :
    ∃ d,
      Run feedSem OwnForkInForce
        ((meshInput []).config streamService
          ⟨emptyCaches, ForkService.init.after transitionHistory⟩)
        (meshTrace [] "6a95a1a9") d ∧
      (meshEvent "6a95a1a9").forkDigest =
        getForkDigestFromTopic (meshEvent "6a95a1a9").topic := by
  obtain ⟨d, hrun⟩ := run_meshTrace (ForkService.init.after transitionHistory) []
    "6a95a1a9" (by decide +kernel) (by decide +kernel)
  have hforce : InForce (ForkService.init.after transitionHistory) "6a95a1a9" := by
    refine ⟨"6a95a1a9", "b5303f2a", ?_, Or.inl ⟨rfl, Or.inr (by decide +kernel)⟩⟩
    exact ForkService.follows_applyForkDigest ForkService.init (by decide +kernel) "b5303f2a"
  have hquiet : ∀ i change, ⟨i, .forkCall change, ()⟩ ∉ meshTrace [] "6a95a1a9" := by
    simp [meshTrace, changeCalls, meshCalls, arrivalCalls, forwardToCLCalls]
  have htopics : ∀ i topic supported,
      ⟨i, .topicSupported topic, supported⟩ ∈ meshTrace [] "6a95a1a9" →
        getForkDigestFromTopic topic = "6a95a1a9" := by
    intro i topic supported hmem
    obtain ⟨-, rfl, -⟩ : i = .handler .mumP2P ∧ topic = blockTopic ∧ supported = true := by
      simpa [meshTrace, changeCalls, meshCalls, arrivalCalls, forwardToCLCalls] using hmem
    decide +kernel
  have hguarded := run_ownForkInForce hrun hforce hquiet htopics
  exact ⟨d, hguarded, streamed_fork_of_ownForkInForce streamService (meshInput [])
    emptyCaches transitionHistory hguarded (meshEvent_mem [] "6a95a1a9")⟩

end Transition

end GossipsubGateway
end OptimumGateway
