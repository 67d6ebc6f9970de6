import OptimumGateway.MumP2P.Handshake
import Mathlib.Tactic.Common

/-!
# Construction of the mump2p node

`NewNodeWithHost` runs on a host that is already listening.  It creates pubsub,
registers the handlers of connections and handshake streams, joins the persisted
topics and applies the options last.  From the registration on, remote events
start goroutines of the node, any number of them and from any peers, and a
handshake is checked by the handler that the node holds when the check begins.

`supplied_verified_before_allow` says when every admission is backed by the
supplied handler: when no handshake that took the built-in handler reads a message
with the node's cluster id, and when no re-admission finds the capability of its
peer missing.  The first fails while the options are not applied yet.
-/

namespace OptimumGateway
namespace MumP2P

open Foundation Foundation.Prog

structure NodeConfig where
  clusterID : String
  listenPort : Int
  maxMessageSize : Int
  bootstrapPeers : List String

/-- `Config.Validate`. -/
def NodeConfig.validate (cfg : NodeConfig) : Option GoError :=
  if cfg.listenPort ≤ 0 then
    some (.errorf "listen port must be positive: %d" [toString cfg.listenPort])
  else if cfg.maxMessageSize ≤ 0 ∨ cfg.maxMessageSize > 9223372036854775807 then
    some (.errorf
      "random message size must be positive and less than max int: %d"
      [toString cfg.maxMessageSize])
  else
    none

/-- `utils.CalculateMaxSize`: a fifth more than the size, if that fits. -/
def calculateMaxSize (src : Int) : Except GoError Int :=
  if src ≤ 0 then
    .error (.errorf "src must be positive: %d" [toString src])
  else if src > 9223372036854775807 - src / 5 then
    .error (.errorf "src is too large, final value not fit: %d" [toString src])
  else
    .ok (src + src / 5)

/-- Options of the node.  A nil function leaves the field as it is. -/
inductive NodeOption where
  | customHandshakeBuilder (given : Bool)
  | customHandshakeHandler (given : Bool)
deriving DecidableEq

section Construction

variable {Peer Msg : Type}

def NodeOption.apply : NodeOption → MeshProg Peer Msg Unit
  | .customHandshakeBuilder true => mesh .setHandshakeBuilder
  | .customHandshakeHandler true => mesh .setHandshakeHandler
  | _ => pure ()

/-- Topics whose subscription fails are skipped. -/
def joinTopics : List String → MeshProg Peer Msg Unit
  | [] => pure ()
  | topic :: rest => do
      let _ ← mesh (.subscribeTopic topic)
      joinTopics rest

def applyOptions : List NodeOption → MeshProg Peer Msg Unit
  | [] => pure ()
  | opt :: rest => do
      opt.apply
      applyOptions rest

/-- The part of `NewNodeWithHost` after the registration of the handlers. -/
def finishNode
    (parsePeers : List String → Option GoError)
    (cfg : NodeConfig)
    (topics : List String)
    (opts : List NodeOption) : MeshProg Peer Msg (Option GoError) :=
  match if cfg.bootstrapPeers.isEmpty then none
    else parsePeers cfg.bootstrapPeers with
  | some err => pure (some (.wrapf "failed to parse bootstrap peers: %w" [] err))
  | none => do
      joinTopics topics
      applyOptions opts
      pure none

/-- `NewNodeWithHost`, with the persisted topics.  `parsePeers` is the error of
`utils.PeersFromStrings`. -/
def newNodeWithHost
    (parsePeers : List String → Option GoError)
    (cfg : NodeConfig)
    (topics : List String)
    (opts : List NodeOption) : MeshProg Peer Msg (Option GoError) :=
  match cfg.validate with
  | some err => pure (some (.wrapf "failed to validate config: %w" [] err))
  | none =>
      match calculateMaxSize cfg.maxMessageSize with
      | .error err =>
          pure (some (.wrapf "failed to calculate max message size: %w" [] err))
      | .ok _ => do
          let created ← mesh .createPubSub
          match created with
          | some err => pure (some (.wrapf "failed to create mump2p: %w" [] err))
          | none =>
              mesh .registerNotifier
              mesh .registerStreamHandler
              finishNode parsePeers cfg topics opts

/-- Remote events, each with its peer. -/
inductive Arrival (Peer : Type) where
  | connection (p : Peer) (direction : Direction)
  | handshakeStream (p : Peer)

variable (check : HandshakeCheck Peer Msg)

/-- The goroutine that a remote event starts. -/
def Arrival.goroutine : Arrival Peer → MeshProg Peer Msg Unit
  | .connection p direction => do
      mesh (.arrive .connection)
      handleNewConnection check p direction
  | .handshakeStream p => do
      mesh (.arrive .handshakeStream)
      handleHandshakeStream check p

/-- The constructor and the goroutines of remote events. -/
inductive NodeThread where
  | constructor
  | remote (n : Nat)
deriving DecidableEq

abbrev NodeThread.Result : NodeThread → Type
  | .constructor => Option GoError
  | .remote _ => Unit

/-- The node under construction, with the remote events that will reach it. -/
def nodeConfig
    (parsePeers : List String → Option GoError)
    (cfg : NodeConfig)
    (topics : List String)
    (opts : List NodeOption)
    (arrivals : Nat → Arrival Peer) :
    Config NodeThread (MeshOp Peer) (MeshOp.Ans Msg) NodeThread.Result
      (MeshState Peer) where
  progs
    | .constructor => newNodeWithHost parsePeers cfg topics opts
    | .remote n => (arrivals n).goroutine check
  state := MeshState.init

/-- The checks of a node with the given cluster id and supplied handler. -/
def nodeCheck
    (decode : Msg → Except GoError Handshake)
    (clusterID : String)
    (supplied : Peer → Msg → Except GoError PeerCapability) :
    HandshakeCheck Peer Msg
  | .builtIn, _, msg => builtInHandshakeHandler decode clusterID msg
  | .supplied, p, msg => supplied p msg

end Construction

section Backing

variable {Peer Msg : Type} (check : HandshakeCheck Peer Msg)

/-- Some message of the peer was checked with this capability as the verdict. -/
def VerifiedIn
    (p : Peer)
    (c : PeerCapability)
    (calls : List (MeshCall Peer Msg)) : Prop :=
  ∃ kind msg, ⟨.readHandshake kind p, msg⟩ ∈ calls ∧ check kind p msg = .ok c

/-- What a goroutine has done itself before it admits a peer or caches its
capability. -/
def Backed
    (calls : List (MeshCall Peer Msg)) :
    MeshOp Peer → Prop
  | .allowPeerWithCapability p c =>
      VerifiedIn check p c calls ∨
        ∃ cached, ⟨.capabilitiesLoad p, cached⟩ ∈ calls ∧
          c = cached.getD { canPublish := false }
  | .capabilitiesStore p c => VerifiedIn check p c calls
  | _ => True

variable {check} {p : Peer} {c : PeerCapability}
  {calls : List (MeshCall Peer Msg)}

theorem VerifiedIn.append
    (h : VerifiedIn check p c calls)
    (later : List (MeshCall Peer Msg)) :
    VerifiedIn check p c (calls ++ later) := by
  obtain ⟨kind, msg, hmem, hcheck⟩ := h
  exact ⟨kind, msg, List.mem_append_left later hmem, hcheck⟩

theorem backed_of_grantless
    {op : MeshOp Peer}
    (h : op.Grantless) :
    Backed check calls op := by
  cases op with
  | allowPeerWithCapability q c => exact absurd rfl (h.2.1 q c)
  | capabilitiesStore q c => exact absurd rfl (h.2.2 q c)
  | _ => exact trivial

theorem along_disconnectPeer
    (p : Peer) :
    (disconnectPeer p).Along (Backed check) (fun _ _ => True) calls :=
  (disconnectPeer_forall p).along fun _ _ => backed_of_grantless

theorem along_markHandshakeValid
    (h : VerifiedIn check p c calls) :
    (markHandshakeValid p c).Along (Backed check) (fun _ _ => True) calls := by
  refine ⟨trivial, fun _ => ⟨trivial, fun _ => ⟨(h.append _).append _, fun _ =>
    ⟨trivial, ?_⟩⟩⟩⟩
  intro ready
  cases ready with
  | false => exact trivial
  | true =>
      refine ⟨Or.inl ?_, fun _ => trivial⟩
      exact (((h.append _).append _).append _).append _

theorem along_runHandshakeHandler :
    (runHandshakeHandler check p).Along (Backed check)
      (fun calls' r => ∀ c, r = .ok c → VerifiedIn check p c calls') calls := by
  refine ⟨trivial, fun kind => ⟨trivial, ?_⟩⟩
  intro msg c hc
  exact ⟨kind, msg, by simp, hc⟩

theorem along_sendHandshakeForPeer :
    (sendHandshakeForPeer check p).Along (Backed check) (fun _ _ => True)
      calls := by
  have hfail : ∀ (err : GoError) {calls'},
      (disconnectPeer p >>= fun _ => pure (some err)).Along (Backed check)
        (fun _ _ => True) calls' := by
    intro err calls'
    exact (along_disconnectPeer p).bind fun _ _ _ => trivial
  refine ⟨trivial, ?_⟩
  intro opened
  cases opened with
  | some err => exact trivial
  | none =>
      refine ⟨trivial, ?_⟩
      intro encoded
      cases encoded with
      | some err => exact hfail _
      | none =>
          refine ⟨trivial, ?_⟩
          intro closed
          cases closed with
          | some err => exact hfail _
          | none =>
              refine along_runHandshakeHandler.bind ?_
              intro calls' verdict hverdict
              cases verdict with
              | error err => exact hfail _
              | ok c =>
                  refine (along_markHandshakeValid (hverdict c rfl)).bind ?_
                  intro _ _ _
                  exact trivial

theorem along_handleHandshakeStream :
    (handleHandshakeStream check p).Along (Backed check) (fun _ _ => True)
      calls := by
  refine along_runHandshakeHandler.bind ?_
  intro calls' verdict hverdict
  cases verdict with
  | error err => exact along_disconnectPeer p
  | ok c =>
      refine ⟨trivial, ?_⟩
      intro encoded
      cases encoded with
      | some err => exact along_disconnectPeer p
      | none => exact along_markHandshakeValid ((hverdict c rfl).append _)

theorem along_openConnection
    {direction : Direction} :
    (openConnection check p direction).Along (Backed check) (fun _ _ => True)
      calls := by
  refine ⟨trivial, ?_⟩
  intro state
  cases state with
  | none =>
      cases direction with
      | inbound => exact trivial
      | outbound =>
          refine along_sendHandshakeForPeer.bind ?_
          intro calls' err _
          cases err with
          | none => exact trivial
          | some err => exact (along_disconnectPeer p).bind fun _ _ _ => trivial
  | some state =>
      cases state with
      | handshakeInvalid =>
          exact (along_disconnectPeer p).bind fun _ _ _ => trivial
      | handshakeValid =>
          refine ⟨trivial, ?_⟩
          intro ready
          cases ready with
          | false => exact trivial
          | true =>
              refine ⟨trivial, fun cached => ⟨Or.inr ?_, fun _ => trivial⟩⟩
              exact ⟨cached, by simp, rfl⟩

theorem along_goroutine
    (arrival : Arrival Peer) :
    (arrival.goroutine check).Along (Backed check) (fun _ _ => True) [] := by
  cases arrival with
  | handshakeStream p =>
      exact ⟨trivial, fun _ => along_handleHandshakeStream⟩
  | connection p direction =>
      refine ⟨trivial, fun _ => ?_⟩
      refine along_openConnection.bind ?_
      intro calls' waiting _
      cases waiting with
      | false => exact trivial
      | true =>
          exact (awaitHandshake_forall p).along fun _ _ => backed_of_grantless

theorem joinTopics_forall
    (topics : List String) :
    (joinTopics topics : MeshProg Peer Msg Unit).Forall MeshOp.Grantless := by
  induction topics with
  | nil => exact trivial
  | cons topic rest ih => exact ⟨by simp [MeshOp.Grantless], fun _ => ih⟩

theorem applyOptions_forall
    (opts : List NodeOption) :
    (applyOptions opts : MeshProg Peer Msg Unit).Forall MeshOp.Grantless := by
  have happly : ∀ opt : NodeOption,
      (opt.apply : MeshProg Peer Msg Unit).Forall MeshOp.Grantless := by
    intro opt
    cases opt with
    | customHandshakeBuilder given | customHandshakeHandler given =>
        cases given with
        | false => exact trivial
        | true => exact ⟨by simp [MeshOp.Grantless], fun _ => trivial⟩
  induction opts with
  | nil => exact trivial
  | cons opt rest ih => exact (happly opt).bind fun _ => ih

/-- The constructor admits nobody. -/
theorem along_newNodeWithHost
    {parsePeers : List String → Option GoError} {cfg : NodeConfig}
    {topics : List String} {opts : List NodeOption} :
    (newNodeWithHost parsePeers cfg topics opts).Along (Backed check)
      (fun _ _ => True) [] := by
  have hfinish : ∀ calls', (finishNode parsePeers cfg topics opts).Along
      (Backed check) (fun _ _ => True) calls' := by
    intro calls'
    unfold finishNode
    split
    · exact trivial
    · refine ((joinTopics_forall topics).along
        fun _ _ => backed_of_grantless).bind ?_
      intro _ _ _
      refine ((applyOptions_forall opts).along
        fun _ _ => backed_of_grantless).bind ?_
      intro _ _ _
      exact trivial
  unfold newNodeWithHost
  split
  · exact trivial
  · split
    · exact trivial
    · refine ⟨trivial, ?_⟩
      intro created
      cases created with
      | some err => exact trivial
      | none => exact ⟨trivial, fun _ => ⟨trivial, fun _ => hfinish _⟩⟩

end Backing

section Runs

variable {Peer Msg : Type} {clusterID : String} {c : PeerCapability}

/-- The condition on the steps of a run: a handshake that took the built-in handler
reads no message with the node's cluster id, and the capability of a peer is not
looked up while it is missing. -/
def ForeignBeforeOptions
    (decode : Msg → Except GoError Handshake)
    (clusterID : String) :
    Config NodeThread (MeshOp Peer) (MeshOp.Ans Msg) NodeThread.Result
      (MeshState Peer) → Event NodeThread (MeshOp Peer) (MeshOp.Ans Msg) → Prop
  | _, ⟨_, .readHandshake .builtIn _, msg⟩ =>
      ∀ h, decode msg = .ok h → h.clusterID ≠ clusterID
  | d, ⟨_, .capabilitiesLoad p, _⟩ => d.state.peerCapabilities p ≠ none
  | _, _ => True

/-- What the trace of such a run says about the memory. -/
structure Recorded
    (decode : Msg → Except GoError Handshake)
    (clusterID : String)
    (tr : List (Event NodeThread (MeshOp Peer) (MeshOp.Ans Msg)))
    (d : Config NodeThread (MeshOp Peer) (MeshOp.Ans Msg) NodeThread.Result
      (MeshState Peer)) : Prop where
  cached : ∀ p c, d.state.peerCapabilities p = some c →
    ∃ j, ⟨j, .capabilitiesStore p c, ()⟩ ∈ tr
  loaded : ∀ i p r, ⟨i, .capabilitiesLoad p, r⟩ ∈ tr →
    ∃ c j, r = some c ∧ ⟨j, .capabilitiesStore p c, ()⟩ ∈ tr
  foreign : ∀ i p msg h, ⟨i, .readHandshake .builtIn p, msg⟩ ∈ tr →
    decode msg = .ok h → h.clusterID ≠ clusterID

theorem Handshake.clusterID_of_validate
    {hs : Handshake}
    (h : hs.validate clusterID = none) :
    hs.clusterID = clusterID := by
  unfold Handshake.validate at h
  grind

/-- A message that the built-in handler accepts has the cluster id of the node. -/
theorem builtInHandshakeHandler_ok
    {decode : Msg → Except GoError Handshake} {msg : Msg}
    (h : builtInHandshakeHandler decode clusterID msg = .ok c) :
    ∃ hs, decode msg = .ok hs ∧ hs.clusterID = clusterID := by
  unfold builtInHandshakeHandler at h
  cases hdecode : decode msg with
  | error err =>
      rw [hdecode] at h
      cases h
  | ok hs =>
      rw [hdecode] at h
      change (match hs.validate clusterID with
        | some err => _
        | none => _) = Except.ok c at h
      cases hvalidate : hs.validate clusterID with
      | none => exact ⟨hs, rfl, Handshake.clusterID_of_validate hvalidate⟩
      | some err =>
          rw [hvalidate] at h
          cases h

variable {decode : Msg → Except GoError Handshake}
  {supplied : Peer → Msg → Except GoError PeerCapability}
  {parsePeers : List String → Option GoError} {cfg : NodeConfig}
  {topics : List String} {opts : List NodeOption} {arrivals : Nat → Arrival Peer}
  {tr : List (Event NodeThread (MeshOp Peer) (MeshOp.Ans Msg))}
  {d : Config NodeThread (MeshOp Peer) (MeshOp.Ans Msg) NodeThread.Result
    (MeshState Peer)}

/-- Each thread of the node keeps its obligations. -/
theorem along_thread
    (check : HandshakeCheck Peer Msg)
    (i : NodeThread) :
    ((nodeConfig check parsePeers cfg topics opts arrivals).progs i).Along
      (Backed check) (fun _ _ => True) [] := by
  cases i with
  | constructor => exact along_newNodeWithHost
  | remote n => exact along_goroutine (arrivals n)

/-- What a thread verified, the supplied handler verified. -/
theorem Recorded.supplied_of_verified
    {i : NodeThread} {p : Peer}
    (h : Recorded decode cfg.clusterID tr d)
    (hverified : VerifiedIn (nodeCheck decode cfg.clusterID supplied) p c
      (callsOf i tr)) :
    ∃ j msg, ⟨j, .readHandshake .supplied p, msg⟩ ∈ tr ∧
      supplied p msg = .ok c := by
  obtain ⟨kind, msg, hcall, hcheck⟩ := hverified
  have hread := mem_of_mem_callsOf hcall
  cases kind with
  | supplied => exact ⟨i, msg, hread, hcheck⟩
  | builtIn =>
      obtain ⟨hs, hdecode, hcluster⟩ := builtInHandshakeHandler_ok hcheck
      exact absurd hcluster (h.foreign i p msg hs hread hdecode)

variable [DecidableEq Peer]

/-- A capability that is cached after a step was cached before or is stored by the
step. -/
theorem capability_origin
    {op : MeshOp Peer} {r : op.Ans Msg} {s t : MeshState Peer}
    (h : meshSem op s r t)
    {p : Peer}
    (hc : t.peerCapabilities p = some c) :
    op = .capabilitiesStore p c ∨ s.peerCapabilities p = some c := by
  cases op with
  | capabilitiesStore q c' =>
      have ht : t = _ := h
      subst ht
      by_cases hq : p = q
      · subst hq
        simp only [Function.update_self, Option.some.injEq] at hc
        rw [hc]
        exact Or.inl rfl
      · simp only [Function.update_of_ne hq] at hc
        exact Or.inr hc
  | capabilitiesDelete q =>
      have ht : t = _ := h
      subst ht
      by_cases hq : p = q
      · subst hq
        simp at hc
      · simp only [Function.update_of_ne hq] at hc
        exact Or.inr hc
  | arrive event =>
      cases event with
      | connection | handshakeStream => exact Or.inr (h.2 ▸ hc)
  | peersMapGet | capabilitiesLoad | pubsubReady | loadHandler =>
      exact Or.inr (h.2 ▸ hc)
  | _ =>
      have ht : t = _ := h
      subst ht
      exact Or.inr hc

theorem Recorded.step
    {d d' : Config NodeThread (MeshOp Peer) (MeshOp.Ans Msg) NodeThread.Result
      (MeshState Peer)}
    {e : Event NodeThread (MeshOp Peer) (MeshOp.Ans Msg)}
    (h : Recorded decode clusterID tr d)
    (hguard : ForeignBeforeOptions decode clusterID d e)
    (hstep : Step meshSem d e d') :
    Recorded decode clusterID (tr ++ [e]) d' := by
  obtain ⟨hprog, hsem⟩ := hstep
  refine ⟨?_, ?_, ?_⟩
  · intro p c hc
    rcases capability_origin hsem hc with rfl | hbefore
    · exact ⟨_, List.mem_append_right _ (List.mem_singleton.mpr rfl)⟩
    · obtain ⟨j, hj⟩ := h.cached p c hbefore
      exact ⟨j, List.mem_append_left _ hj⟩
  · intro i p r hload
    rcases List.mem_append.mp hload with hload | hload
    · obtain ⟨c, j, hr, hj⟩ := h.loaded i p r hload
      exact ⟨c, j, hr, List.mem_append_left _ hj⟩
    · -- the answer of the lookup is what the map holds, and that is not missing
      cases List.mem_singleton.mp hload
      obtain ⟨c, hc⟩ := Option.ne_none_iff_exists'.mp hguard
      obtain ⟨j, hj⟩ := h.cached p c hc
      exact ⟨c, j, hsem.1.trans hc, List.mem_append_left _ hj⟩
  · intro i p msg hs hread
    rcases List.mem_append.mp hread with hread | hread
    · exact h.foreign i p msg hs hread
    · cases List.mem_singleton.mp hread
      exact hguard hs

theorem recorded_of_run
    (h : Run meshSem (ForeignBeforeOptions decode cfg.clusterID)
      (nodeConfig (nodeCheck decode cfg.clusterID supplied) parsePeers cfg topics
        opts arrivals) tr d) :
    Recorded decode cfg.clusterID tr d := by
  refine h.invariant ⟨?_, ?_, ?_⟩ ?_
  · intro p c hc
    cases hc
  · intro i p r hload
    cases hload
  · intro i p msg hs hread
    cases hread
  · intro tr d e d' hrec hguard hstep
    exact hrec.step hguard hstep

/-- In every run of the construction and any remote events whose steps meet the
condition, each admission follows a handshake that the supplied handler verified
with the same capability. -/
theorem supplied_verified_before_allow
    (h : Run meshSem (ForeignBeforeOptions decode cfg.clusterID)
      (nodeConfig (nodeCheck decode cfg.clusterID supplied) parsePeers cfg topics
        opts arrivals) tr d)
    {before : List (Event NodeThread (MeshOp Peer) (MeshOp.Ans Msg))}
    {i : NodeThread} {p : Peer} {c : PeerCapability}
    (hallow : before ++ [⟨i, .allowPeerWithCapability p c, ()⟩] <+: tr) :
    ∃ j msg, ⟨j, .readHandshake .supplied p, msg⟩ ∈ before ∧
      supplied p msg = .ok c := by
  obtain ⟨d₁, hupto⟩ := h.before hallow
  obtain ⟨d₀, hbefore⟩ := h.before ((List.prefix_append before _).trans hallow)
  have hrec := recorded_of_run hbefore
  have hpath := hupto.path i
  rw [callsOf_append, callsOf_singleton, if_pos rfl] at hpath
  have hbacked := hpath.along (along_thread _ i)
  rw [List.nil_append] at hbacked
  rcases hbacked with hverified | ⟨cached, hload, hc⟩
  · exact hrec.supplied_of_verified hverified
  · -- a re-admission: the capability was stored by a goroutine that verified it
    obtain ⟨c', j, rfl, hstore⟩ := hrec.loaded i p cached (mem_of_mem_callsOf hload)
    cases hc
    obtain ⟨a, b, hsplit⟩ := List.append_of_mem (call_mem_callsOf hstore)
    have hpath' := hbefore.path j
    rw [hsplit] at hpath'
    have hverified := hpath'.along (along_thread _ j)
    rw [List.nil_append] at hverified
    apply hrec.supplied_of_verified
    rw [hsplit]
    exact hverified.append _

end Runs

section Samples

/-- JSON objects with string members. -/
abbrev JSONObject := List (String × String)

def decodeHandshake (msg : JSONObject) : Except GoError Handshake :=
  .ok ⟨(msg.lookup "cluster_id").getD ""⟩

/-- A supplied handler that refuses messages without a token. -/
def requireToken (_ : Nat) (msg : JSONObject) : Except GoError PeerCapability :=
  if (msg.lookup "jwt_token").isSome then
    .ok { canPublish := true }
  else
    .error (.new "invalid JWT token")

def hoodiNodeConfig : NodeConfig where
  clusterID := "hoodi"
  listenPort := 33212
  maxMessageSize := 1048576
  bootstrapPeers := []

/-- A node with a builder and a handler of its own.  Peer 7 opens handshake
streams. -/
def hoodiNode :
    Config NodeThread (MeshOp Nat) (MeshOp.Ans JSONObject) NodeThread.Result
      (MeshState Nat) :=
  nodeConfig (nodeCheck decodeHandshake hoodiNodeConfig.clusterID requireToken)
    (fun _ => none) hoodiNodeConfig []
    [.customHandshakeBuilder true, .customHandshakeHandler true]
    (fun _ => .handshakeStream 7)

/-- A handshake stream that arrives before the options are applied. -/
def earlyStream : List (Event NodeThread (MeshOp Nat) (MeshOp.Ans JSONObject)) :=
  [⟨.constructor, .createPubSub, none⟩,
    ⟨.constructor, .registerNotifier, ()⟩,
    ⟨.constructor, .registerStreamHandler, ()⟩,
    ⟨.remote 0, .arrive .handshakeStream, ()⟩,
    ⟨.remote 0, .loadHandler, .builtIn⟩,
    ⟨.remote 0, .readHandshake .builtIn 7, [("cluster_id", "hoodi")]⟩,
    ⟨.remote 0, .encodeHandshake 7, none⟩,
    ⟨.remote 0, .peersMapPut 7 .handshakeValid, ()⟩,
    ⟨.remote 0, .approvedStore 7, ()⟩,
    ⟨.remote 0, .capabilitiesStore 7 ⟨true⟩, ()⟩,
    ⟨.remote 0, .pubsubReady, true⟩]

/-- The built-in handler admits a peer whose only message the supplied handler
refuses. -/
theorem admitted_by_builtIn :
    (∃ d, Run meshSem anyStep hoodiNode
      (earlyStream ++ [⟨.remote 0, .allowPeerWithCapability 7 ⟨true⟩, ()⟩]) d) ∧
      ¬∃ j msg, ⟨j, .readHandshake .supplied 7, msg⟩ ∈ earlyStream ∧
        requireToken 7 msg = .ok ⟨true⟩ := by
  constructor
  · exact ⟨_, Run.next rfl rfl (Run.next rfl rfl (Run.next rfl rfl (Run.next rfl ⟨rfl, rfl⟩
      (Run.next rfl ⟨rfl, rfl⟩ (Run.next rfl rfl (Run.next rfl rfl (Run.next rfl rfl
      (Run.next rfl rfl (Run.next rfl rfl (Run.next rfl ⟨rfl, rfl⟩
      (Run.next rfl rfl (Run.nil _))))))))))))⟩
  · intro hex
    obtain ⟨j, msg, hread, _⟩ := hex
    simp [earlyStream] at hread

/-- A handshake stream that arrives after the options are applied. -/
def lateStream : List (Event NodeThread (MeshOp Nat) (MeshOp.Ans JSONObject)) :=
  [⟨.constructor, .createPubSub, none⟩,
    ⟨.constructor, .registerNotifier, ()⟩,
    ⟨.constructor, .registerStreamHandler, ()⟩,
    ⟨.constructor, .setHandshakeBuilder, ()⟩,
    ⟨.constructor, .setHandshakeHandler, ()⟩,
    ⟨.remote 0, .arrive .handshakeStream, ()⟩,
    ⟨.remote 0, .loadHandler, .supplied⟩,
    ⟨.remote 0, .readHandshake .supplied 7,
      [("cluster_id", "hoodi"), ("jwt_token", "eyJhbGciOiJFUzI1NiJ9.eyJzdWIiOiJhIn0.c2ln")]⟩,
    ⟨.remote 0, .encodeHandshake 7, none⟩,
    ⟨.remote 0, .peersMapPut 7 .handshakeValid, ()⟩,
    ⟨.remote 0, .approvedStore 7, ()⟩,
    ⟨.remote 0, .capabilitiesStore 7 ⟨true⟩, ()⟩,
    ⟨.remote 0, .pubsubReady, true⟩]

theorem lateStream_run :
    ∃ d, Run meshSem (ForeignBeforeOptions decodeHandshake hoodiNodeConfig.clusterID)
      hoodiNode (lateStream ++ [⟨.remote 0, .allowPeerWithCapability 7 ⟨true⟩, ()⟩]) d := by
  exact ⟨_, Run.cons trivial (Step.thread rfl rfl)
    (Run.cons trivial (Step.thread rfl rfl)
    (Run.cons trivial (Step.thread rfl rfl)
    (Run.cons trivial (Step.thread rfl rfl)
    (Run.cons trivial (Step.thread rfl rfl)
    (Run.cons trivial (Step.thread rfl ⟨rfl, rfl⟩)
    (Run.cons trivial (Step.thread rfl ⟨rfl, rfl⟩)
    (Run.cons trivial (Step.thread rfl rfl)
    (Run.cons trivial (Step.thread rfl rfl)
    (Run.cons trivial (Step.thread rfl rfl)
    (Run.cons trivial (Step.thread rfl rfl)
    (Run.cons trivial (Step.thread rfl rfl)
    (Run.cons trivial (Step.thread rfl ⟨rfl, rfl⟩)
    (Run.cons trivial (Step.thread rfl rfl) (Run.nil _))))))))))))))⟩

theorem supplied_verified_before_allow_late :
    ∃ j msg, ⟨j, .readHandshake .supplied 7, msg⟩ ∈ lateStream ∧
      requireToken 7 msg = .ok ⟨true⟩ := by
  obtain ⟨d, hrun⟩ := lateStream_run
  exact supplied_verified_before_allow hrun (List.prefix_refl _)

end Samples

end MumP2P
end OptimumGateway
