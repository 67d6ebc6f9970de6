import OptimumGateway.Foundation.CrashSafety
import OptimumGateway.Foundation.GoError

/-!
# Peer admission of the mump2p node

This module models `pkg/service/mum_p2p/handshake.go`, the peer-state functions of
`service.go`, and the construction of the node in `NewNodeWithHost`.

The node keeps three maps: `peersMap` with expiring entries, `peersApprovedMap`,
which the message filter of pubsub reads, and `peerCapabilities`.  Every access to
a map, every call of pubsub and every exchange with the remote peer is one
operation, so that the handlers can be interleaved at that granularity.  What the
network and the remote peer do is the answer of the operation.

A remote handshake message is a value of the type `Msg`.  `check` holds what the
two handshake handlers make of it: the built-in one that the node is created with,
and the one supplied as an option.
-/

namespace OptimumGateway
namespace MumP2P

open Foundation Foundation.Prog

inductive PeerState where
  | handshakeValid
  | handshakeInvalid
deriving DecidableEq

structure PeerCapability where
  canPublish : Bool
deriving DecidableEq

inductive Direction where
  | inbound
  | outbound
deriving DecidableEq

/-- Which function the field `handshakeHandler` of the node holds. -/
inductive HandlerKind where
  | builtIn
  | supplied
deriving DecidableEq

/-- Remote events that start a goroutine of the node. -/
inductive RemoteEvent where
  | connection
  | handshakeStream
deriving DecidableEq

inductive MeshOp (Peer : Type) where
  | peersMapGet (p : Peer)
  | peersMapPut (p : Peer) (state : PeerState)
  | peersMapDelete (p : Peer)
  | peersMapExpire (p : Peer)
  | approvedStore (p : Peer)
  | approvedDelete (p : Peer)
  | capabilitiesLoad (p : Peer)
  | capabilitiesStore (p : Peer) (capability : PeerCapability)
  | capabilitiesDelete (p : Peer)
  | pubsubReady
  | allowPeerWithCapability (p : Peer) (capability : PeerCapability)
  | denyPeer (p : Peer)
  | connectedness (p : Peer)
  | closePeer (p : Peer)
  | newStream (p : Peer)
  | encodeHandshake (p : Peer)
  | closeWrite (p : Peer)
  | loadHandler
  | readHandshake (kind : HandlerKind) (p : Peer)
  | waitTick (p : Peer)
  | waitTimeout (p : Peer)
  | arrive (event : RemoteEvent)
  | createPubSub
  | registerNotifier
  | registerStreamHandler
  | subscribeTopic (topic : String)
  | setHandshakeBuilder
  | setHandshakeHandler
deriving DecidableEq

abbrev MeshOp.Ans {Peer : Type} (Msg : Type) : MeshOp Peer → Type
  | .peersMapGet _ => Option PeerState
  | .capabilitiesLoad _ => Option PeerCapability
  | .pubsubReady => Bool
  | .connectedness _ => Bool
  | .newStream _ => Option GoError
  | .encodeHandshake _ => Option GoError
  | .closeWrite _ => Option GoError
  | .loadHandler => HandlerKind
  | .readHandshake _ _ => Msg
  | .waitTick _ => Bool
  | .createPubSub => Option GoError
  | .subscribeTopic _ => Option GoError
  | _ => Unit

abbrev MeshProg (Peer Msg : Type) :=
  Prog (MeshOp Peer) (MeshOp.Ans Msg)

abbrev MeshCall (Peer Msg : Type) :=
  Call (MeshOp Peer) (MeshOp.Ans Msg)

/-- The node, the admission table of its pubsub and what it has registered on the
host. -/
structure MeshState (Peer : Type) where
  peersMap : Peer → Option PeerState
  peersApprovedMap : Peer → Bool
  peerCapabilities : Peer → Option PeerCapability
  admission : Peer → Option PeerCapability
  ps : Bool
  handshakeHandler : HandlerKind
  notifying : Bool
  serving : Bool

section Model

variable {Peer Msg : Type}

/-- The node before its construction: nothing registered, nobody known. -/
def MeshState.init : MeshState Peer where
  peersMap := fun _ => none
  peersApprovedMap := fun _ => false
  peerCapabilities := fun _ => none
  admission := fun _ => none
  ps := false
  handshakeHandler := .builtIn
  notifying := false
  serving := false

/-- The node after its construction, with the handler that is then in force. -/
def MeshState.constructed (kind : HandlerKind) : MeshState Peer :=
  { MeshState.init with
    ps := true
    handshakeHandler := kind
    notifying := true
    serving := true }

/-- The filter given to `WithPeerMsgFilter`. -/
def MeshState.peerMsgFilter (s : MeshState Peer) (p : Peer) : Bool :=
  s.peersApprovedMap p

/-- Meaning of the operations.  Pubsub denies by default, `AllowPeerWithCapability`
admits and `DenyPeer` revokes.  A remote event reaches the node only through what
is registered. -/
def meshSem [DecidableEq Peer] :
    Sem (MeshOp Peer) (MeshOp.Ans Msg) (MeshState Peer)
  | .peersMapGet p, s, r, t => r = s.peersMap p ∧ t = s
  | .peersMapPut p state, s, _, t =>
      t = { s with peersMap := Function.update s.peersMap p (some state) }
  | .peersMapDelete p, s, _, t =>
      t = { s with peersMap := Function.update s.peersMap p none }
  | .peersMapExpire p, s, _, t =>
      t = { s with peersMap := Function.update s.peersMap p none }
  | .approvedStore p, s, _, t =>
      t = { s with
        peersApprovedMap := Function.update s.peersApprovedMap p true }
  | .approvedDelete p, s, _, t =>
      t = { s with
        peersApprovedMap := Function.update s.peersApprovedMap p false }
  | .capabilitiesLoad p, s, r, t => r = s.peerCapabilities p ∧ t = s
  | .capabilitiesStore p c, s, _, t =>
      t = { s with
        peerCapabilities := Function.update s.peerCapabilities p (some c) }
  | .capabilitiesDelete p, s, _, t =>
      t = { s with
        peerCapabilities := Function.update s.peerCapabilities p none }
  | .pubsubReady, s, r, t => r = s.ps ∧ t = s
  | .allowPeerWithCapability p c, s, _, t =>
      t = { s with admission := Function.update s.admission p (some c) }
  | .denyPeer p, s, _, t =>
      t = { s with admission := Function.update s.admission p none }
  | .loadHandler, s, r, t => r = s.handshakeHandler ∧ t = s
  | .arrive .connection, s, _, t => s.notifying = true ∧ t = s
  | .arrive .handshakeStream, s, _, t => s.serving = true ∧ t = s
  | .createPubSub, s, r, t => t = { s with ps := r.isNone }
  | .registerNotifier, s, _, t => t = { s with notifying := true }
  | .registerStreamHandler, s, _, t => t = { s with serving := true }
  | .setHandshakeHandler, s, _, t => t = { s with handshakeHandler := .supplied }
  | _, s, _, t => t = s

/-- Issue one operation of the node. -/
abbrev mesh (op : MeshOp Peer) : MeshProg Peer Msg (op.Ans Msg) :=
  Prog.op op

def setPeerState
    (p : Peer)
    (state : PeerState)
    (capability : PeerCapability) : MeshProg Peer Msg Unit := do
  mesh (.peersMapPut p state)
  match state with
  | .handshakeValid =>
      mesh (.approvedStore p)
      mesh (.capabilitiesStore p capability)
  | .handshakeInvalid =>
      mesh (.peersMapDelete p)
      mesh (.approvedDelete p)
      mesh (.capabilitiesDelete p)

def markHandshakeValid
    (p : Peer)
    (capability : PeerCapability) : MeshProg Peer Msg Unit := do
  setPeerState p .handshakeValid capability
  let ready ← mesh .pubsubReady
  if ready then mesh (.allowPeerWithCapability p capability) else pure ()

def readmitCapability (p : Peer) : MeshProg Peer Msg PeerCapability := do
  let capability ← mesh (.capabilitiesLoad p)
  pure (capability.getD { canPublish := false })

def disconnectPeer (p : Peer) : MeshProg Peer Msg Unit := do
  setPeerState p .handshakeInvalid { canPublish := false }
  let ready ← mesh .pubsubReady
  if ready then mesh (.denyPeer p) else pure ()
  let connected ← mesh (.connectedness p)
  if connected then mesh (.closePeer p) else pure ()

/-- `entities.Handshake`. -/
structure Handshake where
  clusterID : String
deriving DecidableEq

def Handshake.validate (h : Handshake) (clusterID : String) : Option GoError :=
  if h.clusterID = "" then
    some (.new "handshake has no cluster ID")
  else if h.clusterID ≠ clusterID then
    some (.new "handshake cluster ID does not match expected")
  else
    none

/-- The handler that `NewNodeWithHost` creates the node with. -/
def builtInHandshakeHandler
    (decode : Msg → Except GoError Handshake)
    (clusterID : String)
    (msg : Msg) : Except GoError PeerCapability := do
  let handshake ← decode msg
  match handshake.validate clusterID with
  | some err =>
      .error (.wrapf "validating handshake response, remote cluster `%s`: %w"
        [handshake.clusterID] err)
  | none => .ok { canPublish := true }

/-- What each handshake handler makes of a message from a peer. -/
abbrev HandshakeCheck (Peer Msg : Type) :=
  HandlerKind → Peer → Msg → Except GoError PeerCapability

variable (check : HandshakeCheck Peer Msg)

/-- Call the handler of the node on the message of a stream.  The field is read
before the handler waits for the message. -/
def runHandshakeHandler
    (p : Peer) : MeshProg Peer Msg (Except GoError PeerCapability) := do
  let kind ← mesh .loadHandler
  let msg ← mesh (.readHandshake kind p)
  pure (check kind p msg)

def sendHandshakeForPeer (p : Peer) : MeshProg Peer Msg (Option GoError) := do
  match ← mesh (.newStream p) with
  | some err => pure (some (.wrapf "sending handshake message: %w" [] err))
  | none =>
      match ← mesh (.encodeHandshake p) with
      | some err =>
          disconnectPeer p
          pure (some (.wrapf "encoding handshake message: %w" [] err))
      | none =>
          match ← mesh (.closeWrite p) with
          | some err =>
              disconnectPeer p
              pure (some (.wrapf "closing write stream: %w" [] err))
          | none =>
              match ← runHandshakeHandler check p with
              | .error err =>
                  disconnectPeer p
                  pure (some
                    (.wrapf "verifying handshake response: %w" [] err))
              | .ok capability =>
                  markHandshakeValid p capability
                  pure none

/-- The polls of `waitHandshakeValid`: a tick every second until the deadline of
ten seconds that the caller's context sets. -/
def waitPolls (p : Peer) : Nat → MeshProg Peer Msg Bool
  | 0 => do
      mesh (.waitTimeout p)
      pure false
  | n + 1 => do
      let tick ← mesh (.waitTick p)
      if tick then
        let state ← mesh (.peersMapGet p)
        if state = some .handshakeValid then pure true else waitPolls p n
      else
        mesh (.waitTimeout p)
        pure false

def waitHandshakeValid (p : Peer) : MeshProg Peer Msg Bool :=
  waitPolls p 10

/-- `handleNewConnection` up to the wait of an inbound connection.  The result
says whether it goes on to wait. -/
def openConnection (p : Peer) (direction : Direction) :
    MeshProg Peer Msg Bool := do
  match ← mesh (.peersMapGet p) with
  | some .handshakeValid =>
      if ← mesh .pubsubReady then
        let capability ← readmitCapability p
        mesh (.allowPeerWithCapability p capability)
      else
        pure ()
      pure false
  | some .handshakeInvalid =>
      disconnectPeer p
      pure false
  | none =>
      match direction with
      | .outbound =>
          if (← sendHandshakeForPeer check p).isSome then
            disconnectPeer p
          else
            pure ()
          pure false
      | .inbound => pure true

/-- The wait of an inbound connection. -/
def awaitHandshake (p : Peer) : MeshProg Peer Msg Unit := do
  let valid ← waitHandshakeValid p
  if valid then pure () else disconnectPeer p

def handleNewConnection (p : Peer) (direction : Direction) :
    MeshProg Peer Msg Unit := do
  let waiting ← openConnection check p direction
  if waiting then awaitHandshake p else pure ()

/-- The stream handler that `RegisterHandshakeHandler` sets. -/
def handleHandshakeStream (p : Peer) : MeshProg Peer Msg Unit := do
  match ← runHandshakeHandler check p with
  | .error _ => disconnectPeer p
  | .ok capability =>
      match ← mesh (.encodeHandshake p) with
      | some _ => disconnectPeer p
      | none => markHandshakeValid p capability

/-- Operations that neither admit a peer nor record one as admitted, and leave
pubsub in place. -/
def MeshOp.Grantless (op : MeshOp Peer) : Prop :=
  op ≠ .createPubSub ∧ (∀ q c, op ≠ .allowPeerWithCapability q c) ∧
    ∀ q c, op ≠ .capabilitiesStore q c

theorem disconnectPeer_forall
    (p : Peer) :
    (disconnectPeer p : MeshProg Peer Msg Unit).Forall MeshOp.Grantless := by
  have hclose : (mesh (.connectedness p) >>= fun connected =>
      if connected then mesh (.closePeer p) else pure () :
        MeshProg Peer Msg Unit).Forall MeshOp.Grantless := by
    refine ⟨by simp [MeshOp.Grantless], ?_⟩
    intro connected
    cases connected with
    | false => exact trivial
    | true => exact ⟨by simp [MeshOp.Grantless], fun _ => trivial⟩
  refine ⟨by simp [MeshOp.Grantless], fun _ => ⟨by simp [MeshOp.Grantless],
    fun _ => ⟨by simp [MeshOp.Grantless], fun _ => ⟨by simp [MeshOp.Grantless],
      fun _ => ⟨by simp [MeshOp.Grantless], ?_⟩⟩⟩⟩⟩
  intro ready
  cases ready with
  | false => exact hclose
  | true => exact ⟨by simp [MeshOp.Grantless], fun _ => hclose⟩

theorem waitPolls_forall
    (p : Peer)
    (n : Nat) :
    (waitPolls p n : MeshProg Peer Msg Bool).Forall MeshOp.Grantless := by
  induction n with
  | zero => exact ⟨by simp [MeshOp.Grantless], fun _ => trivial⟩
  | succ n ih =>
      refine ⟨by simp [MeshOp.Grantless], ?_⟩
      intro tick
      cases tick with
      | false => exact ⟨by simp [MeshOp.Grantless], fun _ => trivial⟩
      | true =>
          refine ⟨by simp [MeshOp.Grantless], ?_⟩
          intro state
          change Prog.Forall _ (if state = some .handshakeValid then _ else _)
          by_cases hstate : state = some .handshakeValid
          · rw [if_pos hstate]
            exact trivial
          · rw [if_neg hstate]
            exact ih

theorem awaitHandshake_forall
    (p : Peer) :
    (awaitHandshake p : MeshProg Peer Msg Unit).Forall MeshOp.Grantless := by
  refine (waitPolls_forall p 10).bind ?_
  intro valid
  cases valid with
  | true => exact trivial
  | false => exact disconnectPeer_forall p

end Model

end MumP2P
end OptimumGateway
