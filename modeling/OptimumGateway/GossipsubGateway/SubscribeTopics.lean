import OptimumGateway.Protocol.Forks

/-!
# Topics built from an accepted fork response

The loaders of `pkg/protocol/forks/bg_sync.go` validate a response of the bootstrap
service or of the fork digest hub and apply its digests.  The gateway then builds the
topics of its consensus-layer side from the digest in force
(`pkg/service/gossipsub-gateway/subscribe_nodes.go`).

`accepted_usable_iff` says which accepted responses keep those topics usable: the
ones whose current digest, and future digest if there is one, have eight hexadecimal
digits.  The bootstrap loader only asks for a current digest that is not blank, the
hub loader for one of eight bytes, and neither looks at the future digest.
-/

namespace OptimumGateway
namespace GossipsubGateway

open Foundation Protocol

section Loaders

/-- Result of `GetCurl`: the decoded body, which may be nil, the status code and the
error. -/
structure CurlReply (α : Type) where
  result : Option α
  code : Int
  err : Option GoError
deriving DecidableEq

structure ForkDigestResponse where
  chainID : String
  forkDigest : String
  futureFork : String
deriving DecidableEq

structure HubForksFile where
  forks : List String
  futureFork : String
deriving DecidableEq

def loadFromBootstrap
    (s : ForkService)
    (reply : CurlReply ForkDigestResponse) : Except GoError ForkService :=
  if reply.err.isSome = true ∨ reply.code ≠ 200 then
    .error (.wrapNilable "bootstrap fork digest request failed: code=%d err=%w"
      [toString reply.code] reply.err)
  else
    match reply.result with
    | none => .error (.new "empty fork digest in bootstrap response")
    | some res =>
        if trimSpace res.forkDigest = "" then
          .error (.new "empty fork digest in bootstrap response")
        else
          .ok (s.applyForkDigest res.forkDigest res.futureFork)

def loadFromGitHub
    (s : ForkService)
    (reply : CurlReply HubForksFile) : Except GoError ForkService :=
  match reply.err with
  | some err => .error (.wrapf "forkdigest-hub: %w" [] err)
  | none =>
      match reply.result.bind fun res => res.forks.getLast?.map (·, res.futureFork) with
      | none =>
          .error (.errorf "forkdigest-hub: code=%d empty or missing"
            [toString reply.code])
      | some (fork, futureFork) =>
          if reply.code ≠ 200 then
            .error (.errorf "forkdigest-hub: code=%d empty or missing"
              [toString reply.code])
          else
            let digest := toLower (trimSpace fork)
            if digest.utf8ByteSize ≠ 8 then
              .error (.errorf "forkdigest-hub: invalid digest length %d"
                [toString digest.utf8ByteSize])
            else
              .ok (s.applyForkDigest digest futureFork)

/-- A response of either source. -/
inductive ForkReply where
  | bootstrap (reply : CurlReply ForkDigestResponse)
  | gitHub (reply : CurlReply HubForksFile)
deriving DecidableEq

def ForkReply.load (s : ForkService) : ForkReply → Except GoError ForkService
  | .bootstrap reply => loadFromBootstrap s reply
  | .gitHub reply => loadFromGitHub s reply

/-- The current and the future digest of a response, as its source wrote them. -/
def ForkReply.digests : ForkReply → Option (String × String)
  | .bootstrap reply => reply.result.map fun res => (res.forkDigest, res.futureFork)
  | .gitHub reply =>
      reply.result.bind fun res => res.forks.getLast?.map (·, res.futureFork)

/-- Whether a response is accepted does not depend on the service, and an accepted one
has a current digest and is applied as a whole. -/
theorem ForkReply.load_of_accepted
    {s₀ s₁ : ForkService} {reply : ForkReply}
    (h : reply.load s₀ = .ok s₁) :
    ∃ current future, reply.digests = some (current, future) ∧
      trimSpace current ≠ "" ∧
      ∀ s, reply.load s = .ok (s.applyForkDigest current future) := by
  cases reply with
  | bootstrap reply =>
      obtain ⟨result, code, err⟩ := reply
      simp only [ForkReply.load, loadFromBootstrap] at h
      split at h
      · cases h
      · rename_i hcode
        cases result with
        | none => cases h
        | some res =>
            by_cases hblank : trimSpace res.forkDigest = ""
            · simp [hblank] at h
            · refine ⟨res.forkDigest, res.futureFork, rfl, hblank, ?_⟩
              intro s
              simp only [ForkReply.load, loadFromBootstrap]
              rw [if_neg hcode, if_neg hblank]
  | gitHub reply =>
      obtain ⟨result, code, err⟩ := reply
      cases err with
      | some err => cases h
      | none =>
          cases hforks : (ForkReply.gitHub ⟨result, code, none⟩).digests with
          | none =>
              simp only [ForkReply.digests] at hforks
              simp [ForkReply.load, loadFromGitHub, hforks] at h
          | some found =>
              obtain ⟨fork, future⟩ := found
              simp only [ForkReply.digests] at hforks
              by_cases hcode : code = 200
              · by_cases hlength : (toLower (trimSpace fork)).utf8ByteSize = 8
                · refine ⟨fork, future, rfl, ?_, ?_⟩
                  · intro hblank
                    rw [hblank] at hlength
                    exact absurd hlength (by decide)
                  · intro s
                    rw [← ForkService.applyForkDigest_sanitized]
                    simp [ForkReply.load, loadFromGitHub, hforks, hcode, hlength,
                      sanitizeForkDigest]
                · simp [ForkReply.load, loadFromGitHub, hforks, hcode, hlength] at h
              · simp [ForkReply.load, loadFromGitHub, hforks, hcode] at h

end Loaders

section Topics

/-- `buildFullTopic` of the gateway: a full topic as it is, nothing without a
digest. -/
def buildGatewayTopic (forkDigest topic : String) : String :=
  let topic := trimSpace topic
  if isFullEth2Topic topic = true then
    topic
  else if forkDigest = "" then
    ""
  else
    buildFullTopic forkDigest topic

def filterAndBuildEthTopics
    (unique : List String → List String)
    (forkDigest : String)
    (mumP2PNode : Bool) : List String :=
  if mumP2PNode then
    [buildGatewayTopic forkDigest beaconBlockBase, aggregatedMessagesTopic]
  else
    ((unpackTopics unique [beaconAttestationBase, beaconBlockBase]).map
      (buildGatewayTopic forkDigest)).filter (· ≠ "")

/-- Every topic of the consensus-layer side is a full topic of the digest in force
and is supported. -/
def Usable
    (unique : List String → List String)
    (s : ForkService) : Prop :=
  ∀ topic ∈ filterAndBuildEthTopics unique s.activeDigest false,
    isFullEth2Topic topic = true ∧
      getForkDigestFromTopic topic = s.activeDigest ∧
      (s.topicSupported topic).1 = true

variable {unique : List String → List String} {descriptor : String}

variable (hunique : ∀ l x, x ∈ unique l ↔ x ∈ l)
include hunique

/-- The descriptors of the consensus-layer side: all subnets and the blocks. -/
theorem mem_unpackTopics_iff :
    descriptor ∈ unpackTopics unique [beaconAttestationBase, beaconBlockBase]
      ↔
    (∃ n < attestationSubnetCount, attestationDescriptor n = descriptor) ∨
      descriptor = beaconBlockBase := by
  have hattestation : unpackTopic beaconAttestationBase =
      (List.range attestationSubnetCount).map attestationDescriptor := by
    decide +kernel
  have hblock : unpackTopic beaconBlockBase = [beaconBlockBase] := by
    decide +kernel
  rw [unpackTopics, hunique, List.flatMap_cons, List.flatMap_cons, hattestation, hblock,
    List.flatMap_nil, List.append_nil, List.mem_append, List.mem_map, List.mem_singleton]
  simp only [List.mem_range]

/-- The descriptors are names of topics. -/
theorem ethTopicName_of_mem_unpackTopics
    (h : descriptor ∈ unpackTopics unique [beaconAttestationBase, beaconBlockBase]) :
    EthTopicName descriptor.toList := by
  rcases (mem_unpackTopics_iff hunique).mp h with ⟨n, _, rfl⟩ | rfl
  · exact ethTopicName_attestationDescriptor n
  · exact ethTopicName_beaconBlockBase

omit hunique in
theorem buildGatewayTopic_eq
    {forkDigest : String}
    (hdigest : forkDigest ≠ "")
    (hname : EthTopicName descriptor.toList) :
    buildGatewayTopic forkDigest descriptor = buildFullTopic forkDigest descriptor := by
  simp [buildGatewayTopic, hname.trimSpace_eq, hname.isFullEth2Topic_eq, hdigest]

theorem filterAndBuildEthTopics_empty :
    filterAndBuildEthTopics unique "" false = [] := by
  simp only [filterAndBuildEthTopics, Bool.false_eq_true, if_false, List.filter_eq_nil_iff,
    List.mem_map]
  intro topic htopic
  obtain ⟨descriptor, hmem, rfl⟩ := htopic
  have hname := ethTopicName_of_mem_unpackTopics hunique hmem
  simp [buildGatewayTopic, hname.trimSpace_eq, hname.isFullEth2Topic_eq]

/-- Every descriptor has its topic, once there is a digest. -/
theorem buildFullTopic_mem_filterAndBuildEthTopics
    {forkDigest : String}
    (hdigest : forkDigest ≠ "")
    (h : descriptor ∈ unpackTopics unique [beaconAttestationBase, beaconBlockBase]) :
    buildFullTopic forkDigest descriptor ∈
      filterAndBuildEthTopics unique forkDigest false := by
  have hbuilt := buildGatewayTopic_eq hdigest (ethTopicName_of_mem_unpackTopics hunique h)
  simp only [filterAndBuildEthTopics, Bool.false_eq_true, if_false, List.mem_filter,
    List.mem_map]
  refine ⟨⟨descriptor, h, hbuilt⟩, ?_⟩
  simp [buildFullTopic]

omit hunique

section Accepted

variable {s : ForkService} {current future : String}

theorem usable_of_isForkDigest
    (hunique : ∀ l x, x ∈ unique l ↔ x ∈ l)
    (hfollows : s.Follows current future)
    (hclean : s.Clean)
    (hdigest : IsForkDigest s.activeDigest) :
    Usable unique s := by
  obtain ⟨hsupported, hlower⟩ := hfollows.activeDigest_supported hclean
  have hne : s.activeDigest ≠ "" := by
    intro hempty
    rw [hempty] at hdigest
    exact absurd hdigest (by decide)
  intro topic htopic
  simp only [filterAndBuildEthTopics, Bool.false_eq_true, if_false, List.mem_filter,
    List.mem_map] at htopic
  obtain ⟨⟨descriptor, hmem, rfl⟩, _⟩ := htopic
  have hname := ethTopicName_of_mem_unpackTopics hunique hmem
  rw [buildGatewayTopic_eq hne hname]
  have hdigest' : IsForkDigest (toLower s.activeDigest) := by
    rwa [hlower]
  have hname' : EthTopicName (trimSpace descriptor).toList := by
    rwa [hname.trimSpace_eq]
  have hparsed := ethTopicDigest_buildFullTopic hdigest' hname'
  have hfork := getForkDigestFromTopic_buildFullTopic hdigest' hname'
  rw [hlower] at hfork
  refine ⟨?_, hfork, ?_⟩
  · rw [isFullEth2Topic, trimSpace_buildFullTopic, hparsed]
    rfl
  · rw [ForkService.topicSupported_eq hclean, hfork, hsupported]
    intro haggregated
    rw [haggregated] at hparsed
    have hnone : ethTopicDigest aggregatedMessagesTopic = none := by
      decide
    rw [hnone] at hparsed
    cases hparsed

/-- The block topic shows whether the digest in force is well formed. -/
theorem isForkDigest_of_usable
    (hunique : ∀ l x, x ∈ unique l ↔ x ∈ l)
    (hne : s.activeDigest ≠ "")
    (h : Usable unique s) :
    IsForkDigest s.activeDigest := by
  have hmem : buildFullTopic s.activeDigest beaconBlockBase ∈
      filterAndBuildEthTopics unique s.activeDigest false :=
    buildFullTopic_mem_filterAndBuildEthTopics hunique hne
      ((mem_unpackTopics_iff hunique).mpr (Or.inr rfl))
  obtain ⟨hfull, hparsed, _⟩ := h _ hmem
  rw [isFullEth2Topic, trimSpace_buildFullTopic] at hfull
  rw [← hparsed]
  exact isForkDigest_getForkDigestFromTopic hfull

/-- An accepted response leaves usable topics, from every state of the service and
through all later observations and topic checks, iff its current digest and, unless
blank, its future digest have eight hexadecimal digits. -/
theorem accepted_usable_iff
    (hunique : ∀ l x, x ∈ unique l ↔ x ∈ l)
    {reply : ForkReply} {s₀ s₁ : ForkService}
    (haccepted : reply.load s₀ = .ok s₁)
    (hdigests : reply.digests = some (current, future)) :
    (∀ history s, reply.load (ForkService.init.after history) = .ok s →
      ∀ calls : List ForkCall,
        (∀ current' future', .applyForkDigest current' future' ∉ calls) →
        Usable unique (s.after calls))
      ↔
    IsForkDigest (sanitizeForkDigest current) ∧
      (sanitizeForkDigest future = "" ∨ IsForkDigest (sanitizeForkDigest future)) := by
  obtain ⟨current', future', hdigests', hcurrent, hload⟩ :=
    ForkReply.load_of_accepted haccepted
  obtain ⟨rfl, rfl⟩ : current' = current ∧ future' = future := by
    simpa using hdigests'.symm.trans hdigests
  have hfollows : ∀ s : ForkService,
      (s.applyForkDigest current' future').Follows (sanitizeForkDigest current')
        (sanitizeForkDigest future') :=
    fun s => ForkService.follows_applyForkDigest s hcurrent future'
  have hclean : ∀ history,
      ((ForkService.init.after history).applyForkDigest current' future').Clean :=
    fun history => (ForkService.clean_init.after history).run
      (.applyForkDigest current' future')
  constructor
  · intro h
    -- from the initial state: first the current digest, then the observed future one
    have husable := h [] _ (hload _)
    have hbefore := husable [] (by simp)
    have hactive := ForkService.activeDigest_eq (hfollows _) (hclean [])
    have hobserved : ((ForkService.init.after []).applyForkDigest current'
        future').observedDigestLC = none := rfl
    rw [hobserved, if_neg (by simp)] at hactive
    have hcurrentDigest : IsForkDigest (sanitizeForkDigest current') := by
      rw [← hactive]
      refine isForkDigest_of_usable hunique ?_ hbefore
      rw [hactive]
      exact (hfollows ForkService.init).current_ne
    refine ⟨hcurrentDigest, ?_⟩
    by_cases hblank : sanitizeForkDigest future' = ""
    · exact Or.inl hblank
    · right
      by_cases hsame : sanitizeForkDigest future' = sanitizeForkDigest current'
      · rwa [hsame]
      · have hafter := husable [.observeMessageDigest future'] (by simp)
        have hmoved : (((ForkService.init.after []).applyForkDigest current'
            future').after [.observeMessageDigest future']).activeDigest =
            sanitizeForkDigest future' := by
          rcases ForkService.activeDigest_observe (hfollows _) (hclean []) future' with
            ⟨hfalse, _⟩ | ⟨_, _, hnew, _⟩
          · rw [ForkService.observeMessageDigest_eq (hfollows _) (hclean []), hobserved,
              if_pos ⟨rfl, hblank, hsame, by simp⟩] at hfalse
            cases hfalse
          · exact hnew
        rw [← hmoved]
        refine isForkDigest_of_usable hunique ?_ hafter
        rw [hmoved]
        exact hblank
  · intro h history s hs calls hcalls
    have hstate := Except.ok.inj (hs.symm.trans (hload _))
    subst hstate
    have hfollows' := (hfollows (ForkService.init.after history)).after hcalls
    have hclean' := (hclean history).after calls
    refine usable_of_isForkDigest hunique hfollows' hclean' ?_
    rw [ForkService.activeDigest_eq hfollows' hclean']
    split
    · rename_i hfuture
      exact h.2.resolve_left hfuture.1
    · exact h.1

/-- A bootstrap response with the given digests. -/
def hoodiReply (forkDigest futureFork : String) : ForkReply :=
  .bootstrap ⟨some ⟨"hoodi", forkDigest, futureFork⟩, 200, none⟩

theorem accepted_usable_iff_transition :
    ∃ s, (hoodiReply " C6ECB76C " "ddeeff00").load ForkService.init = .ok s ∧
      Usable List.eraseDups (s.after [.observeMessageDigest "DDEEFF00"]) := by
  have haccepted : (hoodiReply " C6ECB76C " "ddeeff00").load ForkService.init =
      .ok (ForkService.init.applyForkDigest " C6ECB76C " "ddeeff00") := by
    have hblank : trimSpace " C6ECB76C " ≠ "" := by
      decide
    simp [hoodiReply, ForkReply.load, loadFromBootstrap, hblank]
  refine ⟨_, haccepted, ?_⟩
  refine (accepted_usable_iff (fun l x => List.mem_eraseDups) haccepted rfl).mpr
    ⟨by decide +kernel, Or.inr (by decide +kernel)⟩ [] _ haccepted _ (by simp)

/-- The bootstrap loader accepts a current digest of two letters, and the hub loader
one of eight letters that are not digits. -/
theorem malformed_current_accepted :
    (∃ s, (hoodiReply "zz" "").load ForkService.init = .ok s ∧
        ¬Usable List.eraseDups s) ∧
      ∃ s, (ForkReply.gitHub ⟨some ⟨["zzzzzzzz"], ""⟩, 200, none⟩).load
          ForkService.init = .ok s ∧
        ¬Usable List.eraseDups s := by
  have hnot : ∀ digest, trimSpace digest ≠ "" → ¬IsForkDigest (sanitizeForkDigest digest) →
      ¬Usable List.eraseDups (ForkService.init.applyForkDigest digest "") := by
    intro digest hblank hmalformed husable
    have hfollows := ForkService.follows_applyForkDigest ForkService.init hblank ""
    have hactive := ForkService.activeDigest_eq hfollows
      (ForkService.clean_init.run (.applyForkDigest digest ""))
    rw [if_neg (by simp)] at hactive
    rw [← hactive] at hmalformed
    refine hmalformed (isForkDigest_of_usable (fun l x => List.mem_eraseDups) ?_ husable)
    rw [hactive]
    exact hfollows.current_ne
  constructor
  · have hblank : trimSpace "zz" ≠ "" := by
      decide
    refine ⟨ForkService.init.applyForkDigest "zz" "", ?_,
      hnot "zz" hblank (by decide +kernel)⟩
    simp [hoodiReply, ForkReply.load, loadFromBootstrap, hblank]
  · have hlength : (toLower (trimSpace "zzzzzzzz")).utf8ByteSize = 8 := by
      decide +kernel
    refine ⟨ForkService.init.applyForkDigest (toLower (trimSpace "zzzzzzzz")) "", ?_,
      hnot _ (by decide +kernel) (by decide +kernel)⟩
    simp [ForkReply.load, loadFromGitHub, hlength]

end Accepted

end Topics

end GossipsubGateway
end OptimumGateway
