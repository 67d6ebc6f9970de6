import OptimumGateway.MumP2P.Handshake
import Mathlib.Tactic.Common

/-!
# Admission follows the last handshake

The handlers of the node are executed one after another, each to its end, for any
number of peers: a connection is opened in either direction, the wait of an
inbound connection ends, a handshake stream is served, the cached state of a peer
expires.

The outcome of a handshake is what the network and the handshake handler answer:
a message that the handler accepts is a verification, and a message it refuses, an
exchange that breaks off or a wait that times out is a failure.  The proof follows
the part of the state that belongs to one peer, its `PeerView`.  Every operation
acts on the view of its own peer only, and every handler leaves the view of its
peer settled.
-/

namespace OptimumGateway
namespace MumP2P

open Foundation Foundation.Prog

/-- Outcome of a handshake. -/
inductive Outcome where
  | failed
  | verified (capability : PeerCapability)
deriving DecidableEq

/-- The events that make the node run a handler. -/
inductive MeshEvent (Peer : Type) where
  | connected (p : Peer) (direction : Direction)
  | waitEnds (p : Peer)
  | handshakeStream (p : Peer)
  | expires (p : Peer)

section Outcomes

variable {Peer Msg : Type} (check : HandshakeCheck Peer Msg)

def MeshEvent.handler : MeshEvent Peer → MeshProg Peer Msg Unit
  | .connected p direction => do
      let _ ← openConnection check p direction
      pure ()
  | .waitEnds p => awaitHandshake p
  | .handshakeStream p => handleHandshakeStream check p
  | .expires p => mesh (.peersMapExpire p)

/-- The peer that an operation is about. -/
def MeshOp.peer : MeshOp Peer → Option Peer
  | .peersMapGet p | .peersMapPut p _ | .peersMapDelete p | .peersMapExpire p
  | .approvedStore p | .approvedDelete p | .capabilitiesLoad p
  | .capabilitiesStore p _ | .capabilitiesDelete p
  | .allowPeerWithCapability p _ | .denyPeer p | .connectedness p | .closePeer p
  | .newStream p | .encodeHandshake p | .closeWrite p | .readHandshake _ p
  | .waitTick p | .waitTimeout p => some p
  | _ => none

/-- The verdict of a handshake handler as an outcome. -/
def verdictOutcome : Except GoError PeerCapability → Outcome
  | .ok capability => .verified capability
  | .error _ => .failed

/-- The outcome of a handshake that an answer brings. -/
def answerOutcome : (op : MeshOp Peer) → op.Ans Msg → Option Outcome
  | .newStream _, some _ => some .failed
  | .encodeHandshake _, some _ => some .failed
  | .closeWrite _, some _ => some .failed
  | .readHandshake kind p, msg => some (verdictOutcome (check kind p msg))
  | .waitTimeout _, _ => some .failed
  | _, _ => none

variable [DecidableEq Peer]

/-- The most recent outcome of a peer in the calls made so far. -/
def lastOutcome
    (p : Peer)
    (calls : List (MeshCall Peer Msg)) : Option Outcome :=
  calls.foldl (fun last c =>
    if c.1.peer = some p then (answerOutcome check c.1 c.2).or last else last) none

theorem lastOutcome_append_singleton
    (p : Peer)
    (calls : List (MeshCall Peer Msg))
    (op : MeshOp Peer) (r : op.Ans Msg) :
    lastOutcome check p (calls ++ [⟨op, r⟩]) =
      if op.peer = some p then
        (answerOutcome check op r).or (lastOutcome check p calls)
      else
        lastOutcome check p calls := by
  unfold lastOutcome
  rw [List.foldl_append]
  rfl

end Outcomes

/-- What the node knows of one peer, with the peer's last outcome. -/
structure PeerView where
  state : Option PeerState
  approved : Bool
  capability : Option PeerCapability
  last : Option Outcome

namespace PeerView

/-- The capability that the last outcome granted. -/
def granted : Option Outcome → Option PeerCapability
  | some (.verified capability) => some capability
  | _ => none

theorem last_of_granted
    {last : Option Outcome} {c : PeerCapability}
    (h : granted last = some c) :
    last = some (.verified c) := by
  cases last with
  | none => exact nomatch h
  | some o =>
      cases o with
      | failed => exact nomatch h
      | verified c' => exact congrArg (fun c => some (Outcome.verified c)) (Option.some.inj h)

/-- Between handlers the maps hold what the last outcome says, except that the
cached state may have expired. -/
structure Settled (v : PeerView) : Prop where
  capability : v.capability = granted v.last
  approved : v.approved = v.capability.isSome
  state : v.state = none ∨ v.state = some .handshakeValid ∧ v.capability.isSome

end PeerView

section Views

variable {Peer Msg : Type} [DecidableEq Peer] (check : HandshakeCheck Peer Msg)

/-- A memory of the node with the calls made so far. -/
abbrev Traced (Peer Msg : Type) :=
  List (MeshCall Peer Msg) × MeshState Peer

/-- The view of a peer. -/
def view (p : Peer) (x : Traced Peer Msg) : PeerView where
  state := x.2.peersMap p
  approved := x.2.peersApprovedMap p
  capability := x.2.peerCapabilities p
  last := lastOutcome check p x.1

/-- What an operation about the peer makes of its view. -/
def PeerView.after (v : PeerView) : (op : MeshOp Peer) → op.Ans Msg → PeerView
  | .peersMapPut _ state, _ => { v with state := some state }
  | .peersMapDelete _, _ => { v with state := none }
  | .peersMapExpire _, _ => { v with state := none }
  | .approvedStore _, _ => { v with approved := true }
  | .approvedDelete _, _ => { v with approved := false }
  | .capabilitiesStore _ c, _ => { v with capability := some c }
  | .capabilitiesDelete _, _ => { v with capability := none }
  | op, r => { v with last := (answerOutcome check op r).or v.last }

/-- The answers that are read off the view. -/
def PeerView.Answers (v : PeerView) : (op : MeshOp Peer) → op.Ans Msg → Prop
  | .peersMapGet _, r => r = v.state
  | .capabilitiesLoad _, r => r = v.capability
  | _, _ => True

variable {check} {p : Peer} {x y : Traced Peer Msg}
  {op : MeshOp Peer} {r : op.Ans Msg}

theorem meshSem_frame
    {s t : MeshState Peer}
    (h : meshSem op s r t)
    (hop : op.peer ≠ some p) :
    t.peersMap p = s.peersMap p ∧
      t.peersApprovedMap p = s.peersApprovedMap p ∧
      t.peerCapabilities p = s.peerCapabilities p := by
  cases op with
  | arrive event =>
      cases event with
      | connection | handshakeStream => simp [h.2]
  | peersMapGet q | capabilitiesLoad q | pubsubReady | loadHandler => simp [h.2]
  | _ =>
      subst h
      simp_all [MeshOp.peer, Function.update_of_ne, eq_comm]

theorem view_frame
    (h : meshSem.traced op x r y)
    (hop : op.peer ≠ some p) :
    view check p y = view check p x := by
  obtain ⟨hstate, happroved, hcapability⟩ := meshSem_frame h.1 hop
  have hlast : lastOutcome check p y.1 = lastOutcome check p x.1 := by
    rw [h.2, lastOutcome_append_singleton, if_neg hop]
  unfold view
  rw [hstate, happroved, hcapability, hlast]

/-- An operation about the peer changes the view as `PeerView.after` says. -/
theorem view_after
    (h : meshSem.traced op x r y)
    (hop : op.peer = some p) :
    view check p y = (view check p x).after check op r ∧
      (view check p x).Answers op r := by
  obtain ⟨hsem, htrace⟩ := h
  have hlast : lastOutcome check p y.1 =
      (answerOutcome check op r).or (lastOutcome check p x.1) := by
    rw [htrace, lastOutcome_append_singleton, if_pos hop]
  unfold view
  rw [hlast]
  cases op with
  | peersMapGet q | capabilitiesLoad q =>
      cases hop
      exact ⟨by simp [hsem.2, PeerView.after, answerOutcome], hsem.1⟩
  | arrive | pubsubReady | loadHandler | createPubSub | registerNotifier
  | registerStreamHandler | subscribeTopic | setHandshakeBuilder
  | setHandshakeHandler => exact nomatch hop
  | _ =>
      cases hop
      have hy : y.2 = _ := hsem
      simp [hy, PeerView.after, PeerView.Answers, answerOutcome]

end Views

section Handlers

variable {Peer Msg : Type} [DecidableEq Peer] (check : HandshakeCheck Peer Msg)

/-- Every admission so far was backed by the peer's last outcome, capability
included. -/
def Justified (calls : List (MeshCall Peer Msg)) : Prop :=
  ∀ before p c,
    before ++ [⟨.allowPeerWithCapability p c, ()⟩] <+: calls →
      lastOutcome check p before = some (.verified c)

/-- The program admits peers only after their verdicts. -/
abbrev SafeNode {α : Type} :=
  Safe (α := α) meshSem.traced fun y : Traced Peer Msg => Justified check y.1

/-- While a handler works on peer `q`, whose view is `v`, every other peer is
settled. -/
structure Working (q : Peer) (v : PeerView) (x : Traced Peer Msg) : Prop where
  justified : Justified check x.1
  others : ∀ p, p ≠ q → (view check p x).Settled
  own : view check q x = v

/-- What holds between handlers. -/
structure Between (x : Traced Peer Msg) : Prop where
  justified : Justified check x.1
  settled : ∀ p, (view check p x).Settled

variable {check} {q : Peer} {v : PeerView} {x : Traced Peer Msg} {op : MeshOp Peer}

theorem Between.working
    (h : Between check x)
    (q : Peer) :
    Working check q (view check q x) x := by
  exact ⟨h.justified, fun p _ => h.settled p, rfl⟩

theorem Working.between
    (h : Working check q v x)
    (hv : v.Settled) :
    Between check x := by
  refine ⟨h.justified, ?_⟩
  intro p
  by_cases hp : p = q
  · subst hp
    rw [h.own]
    exact hv
  · exact h.others p hp

theorem justified_append_singleton
    {calls : List (MeshCall Peer Msg)}
    {r : op.Ans Msg}
    (h : Justified check calls)
    (hallow : ∀ p c, op = .allowPeerWithCapability p c →
      lastOutcome check p calls = some (.verified c)) :
    Justified check (calls ++ [⟨op, r⟩]) := by
  intro before p c hprefix
  rcases List.prefix_concat_iff.mp hprefix with heq | hold
  · obtain ⟨rfl, hcall⟩ := List.append_inj' heq rfl
    exact hallow p c (Sigma.mk.inj (List.cons.inj hcall).1).1.symm
  · exact h before p c hold

variable (hw : Working check q v x)
include hw

/-- One operation of a handler: it is about the handler's peer or about none, and
it admits the peer only with the capability that was verified. -/
theorem safe_call
    {α : Type} {Q : α → Traced Peer Msg → Prop}
    {k : op.Ans Msg → MeshProg Peer Msg α}
    (hpeer : op.peer = some q)
    (hallow : ∀ p c, op = .allowPeerWithCapability p c →
      v.last = some (.verified c))
    (hk : ∀ r y, v.Answers op r → Working check q (v.after check op r) y →
      SafeNode check Q (k r) y) :
    SafeNode check Q (Prog.call op k) x := by
  refine ⟨hw.justified, ?_⟩
  intro r y hstep
  have hown : view check q y = _ ∧ _ := view_after hstep hpeer
  obtain ⟨hview, hanswers⟩ := hown
  rw [hw.own] at hview hanswers
  refine hk r y hanswers ⟨?_, ?_, hview⟩
  · rw [hstep.2]
    refine justified_append_singleton hw.justified ?_
    intro p c hop
    have hp : p = q := by
      rw [hop] at hpeer
      exact Option.some.inj hpeer
    rw [hp]
    exact (congrArg PeerView.last hw.own).trans (hallow p c hop)
  · intro p hp
    rw [view_frame hstep (by rw [hpeer]; exact fun h => hp (Option.some.inj h).symm)]
    exact hw.others p hp

theorem safe_call_none
    {α : Type} {Q : α → Traced Peer Msg → Prop}
    {k : op.Ans Msg → MeshProg Peer Msg α}
    (hpeer : op.peer = none)
    (hk : ∀ r y, Working check q v y →
      SafeNode check Q (k r) y) :
    SafeNode check Q (Prog.call op k) x := by
  refine ⟨hw.justified, ?_⟩
  intro r y hstep
  have hview : ∀ p, view check p y = view check p x := by
    intro p
    exact view_frame hstep (by simp [hpeer])
  refine hk r y ⟨?_, ?_, ?_⟩
  · rw [hstep.2]
    refine justified_append_singleton hw.justified ?_
    intro p c hop
    rw [hop] at hpeer
    exact nomatch hpeer
  · intro p hp
    rw [hview p]
    exact hw.others p hp
  · rw [hview q]
    exact hw.own

theorem safe_disconnectPeer :
    SafeNode check (fun _ y => Working check q ⟨none, false, none, v.last⟩ y)
      (disconnectPeer q) x := by
  have hclose : ∀ y, Working check q ⟨none, false, none, v.last⟩ y →
      SafeNode check (fun _ y => Working check q ⟨none, false, none, v.last⟩ y)
        (mesh (.connectedness q) >>= fun connected =>
          if connected then mesh (.closePeer q) else pure ()) y := by
    intro y hw
    refine safe_call hw rfl (fun _ _ h => nomatch h) ?_
    intro connected y' _ hw
    cases connected with
    | false => exact ⟨hw.justified, hw⟩
    | true =>
        refine safe_call hw rfl (fun _ _ h => nomatch h) ?_
        intro _ y'' _ hw
        exact ⟨hw.justified, hw⟩
  refine safe_call hw rfl (fun _ _ h => nomatch h) ?_
  intro _ y₁ _ hw
  refine safe_call hw rfl (fun _ _ h => nomatch h) ?_
  intro _ y₂ _ hw
  refine safe_call hw rfl (fun _ _ h => nomatch h) ?_
  intro _ y₃ _ hw
  refine safe_call hw rfl (fun _ _ h => nomatch h) ?_
  intro _ y₄ _ hw
  refine safe_call_none hw rfl ?_
  intro ready y₅ hw
  cases ready with
  | false => exact hclose y₅ hw
  | true =>
      refine safe_call hw rfl (fun _ _ h => nomatch h) ?_
      intro _ y₆ _ hw
      exact hclose y₆ hw

/-- After a failure, disconnecting leaves the peer settled. -/
theorem safe_disconnectPeer_failed
    (hlast : v.last = some .failed) :
    SafeNode check (fun _ y => Between check y) (disconnectPeer q) x := by
  refine (safe_disconnectPeer hw).mono ?_
  intro _ y hw
  refine hw.between ⟨?_, rfl, Or.inl rfl⟩
  rw [hlast]
  rfl

/-- A verified peer is recorded and admitted with the verified capability. -/
theorem safe_markHandshakeValid
    {c : PeerCapability}
    (hlast : v.last = some (.verified c)) :
    SafeNode check (fun _ y => Between check y) (markHandshakeValid q c) x := by
  have hsettled :
      PeerView.Settled ⟨some .handshakeValid, true, some c, v.last⟩ := by
    refine ⟨?_, rfl, Or.inr ⟨rfl, rfl⟩⟩
    rw [hlast]
    rfl
  refine safe_call hw rfl (fun _ _ h => nomatch h) ?_
  intro _ y₁ _ hw
  refine safe_call hw rfl (fun _ _ h => nomatch h) ?_
  intro _ y₂ _ hw
  refine safe_call hw rfl (fun _ _ h => nomatch h) ?_
  intro _ y₃ _ hw
  refine safe_call_none hw rfl ?_
  intro ready y₄ hw
  cases ready with
  | false => exact ⟨hw.justified, hw.between hsettled⟩
  | true =>
      refine safe_call hw rfl ?_ ?_
      · intro p c' hop
        cases hop
        exact hlast
      · intro _ y₅ _ hw
        exact ⟨hw.justified, hw.between hsettled⟩

/-- The verdict of the handshake handler is the peer's last outcome. -/
theorem safe_runHandshakeHandler :
    SafeNode check (fun r y => Working check q { v with last := some (verdictOutcome r) } y)
      (runHandshakeHandler check q) x := by
  refine safe_call_none hw rfl ?_
  intro kind y₁ hw
  refine safe_call hw rfl (fun _ _ h => nomatch h) ?_
  intro msg y₂ _ hw
  exact ⟨hw.justified, hw⟩

/-- An outbound handshake ends settled, or returns an error after a failure. -/
theorem safe_sendHandshakeForPeer :
    SafeNode check (fun r y => match r with
        | some _ => ∃ v', Working check q v' y ∧ v'.last = some .failed
        | none => Between check y)
      (sendHandshakeForPeer check q) x := by
  have hfail : ∀ (err : GoError) {v' : PeerView} {y : Traced Peer Msg},
      Working check q v' y → v'.last = some .failed →
      SafeNode check (fun r y => match r with
          | some _ => ∃ v', Working check q v' y ∧ v'.last = some .failed
          | none => Between check y)
        (disconnectPeer q >>= fun _ => pure (some err)) y := by
    intro err v' y hw hlast
    refine (safe_disconnectPeer hw).bind ?_
    intro _ y' hjust hw
    exact ⟨hjust, _, hw, hlast⟩
  refine safe_call hw rfl (fun _ _ h => nomatch h) ?_
  intro opened y₁ _ hw
  cases opened with
  | some err => exact ⟨hw.justified, _, hw, rfl⟩
  | none =>
      refine safe_call hw rfl (fun _ _ h => nomatch h) ?_
      intro encoded y₂ _ hw
      cases encoded with
      | some err => exact hfail _ hw rfl
      | none =>
          refine safe_call hw rfl (fun _ _ h => nomatch h) ?_
          intro closed y₃ _ hw
          cases closed with
          | some err => exact hfail _ hw rfl
          | none =>
              refine (safe_runHandshakeHandler hw).bind ?_
              intro verdict y₄ hjust hverdict
              cases verdict with
              | error err => exact hfail _ hverdict rfl
              | ok c =>
                  refine (safe_markHandshakeValid hverdict rfl).bind ?_
                  intro _ y₅ hjust hbetween
                  exact ⟨hjust, hbetween⟩

theorem safe_handleHandshakeStream :
    SafeNode check (fun _ y => Between check y) (handleHandshakeStream check q) x := by
  refine (safe_runHandshakeHandler hw).bind ?_
  intro verdict y₁ _ hverdict
  cases verdict with
  | error err => exact safe_disconnectPeer_failed hverdict rfl
  | ok c =>
      refine safe_call hverdict rfl (fun _ _ h => nomatch h) ?_
      intro encoded y₂ _ hw
      cases encoded with
      | some err => exact safe_disconnectPeer_failed hw rfl
      | none => exact safe_markHandshakeValid hw rfl

omit hw in
/-- The wait ends with the view as it was, or times out. -/
theorem safe_waitPolls
    (n : Nat)
    (hw : Working check q v x) :
    SafeNode check (fun r y => Working check q
        { v with last := if r then v.last else some .failed } y)
      (waitPolls q n) x := by
  have htimeout : ∀ y, Working check q v y →
      SafeNode check (fun r y => Working check q
          { v with last := if r then v.last else some .failed } y)
        (mesh (.waitTimeout q) >>= fun _ => pure false) y := by
    intro y hw
    refine safe_call hw rfl (fun _ _ h => nomatch h) ?_
    intro _ y' _ hw
    exact ⟨hw.justified, hw⟩
  induction n generalizing x with
  | zero =>
      exact htimeout x hw
  | succ n ih =>
      refine safe_call hw rfl (fun _ _ h => nomatch h) ?_
      intro tick y₁ _ hw
      cases tick with
      | false => exact htimeout y₁ hw
      | true =>
          refine safe_call hw rfl (fun _ _ h => nomatch h) ?_
          intro state y₂ _ hw
          change Safe _ _ _ (if state = some .handshakeValid then _ else _) y₂
          by_cases hstate : state = some .handshakeValid
          · rw [if_pos hstate]
            exact ⟨hw.justified, hw⟩
          · rw [if_neg hstate]
            exact ih hw

theorem safe_awaitHandshake
    (hv : v.Settled) :
    SafeNode check (fun _ y => Between check y) (awaitHandshake q) x := by
  refine (safe_waitPolls 10 hw).bind ?_
  intro valid y hjust hw
  cases valid with
  | true => exact ⟨hjust, hw.between hv⟩
  | false => exact safe_disconnectPeer_failed hw rfl

/-- A known peer is admitted again with its cached capability, and an unknown one
goes through a handshake. -/
theorem safe_openConnection
    {direction : Direction}
    (hv : v.Settled) :
    SafeNode check (fun _ y => Between check y) (openConnection check q direction) x := by
  refine safe_call hw rfl (fun _ _ h => nomatch h) ?_
  intro state y₁ hstate hw
  change state = v.state at hstate
  rcases hv.state with hnone | ⟨hvalid, hsome⟩
  · rw [hnone] at hstate
    subst hstate
    cases direction with
    | inbound => exact ⟨hw.justified, hw.between hv⟩
    | outbound =>
        refine (safe_sendHandshakeForPeer hw).bind ?_
        intro err y₂ hjust hsent
        cases err with
        | none => exact ⟨hjust, hsent⟩
        | some err =>
            obtain ⟨v', hw', hlast⟩ := hsent
            refine (safe_disconnectPeer_failed hw' hlast).bind ?_
            intro _ y₃ hjust hbetween
            exact ⟨hjust, hbetween⟩
  · rw [hvalid] at hstate
    subst hstate
    refine safe_call_none hw rfl ?_
    intro ready y₂ hw
    cases ready with
    | false => exact ⟨hw.justified, hw.between hv⟩
    | true =>
        obtain ⟨c, hc⟩ := Option.isSome_iff_exists.mp hsome
        refine safe_call hw rfl (fun _ _ h => nomatch h) ?_
        intro cached y₃ hcached hw
        change cached = v.capability at hcached
        rw [hc] at hcached
        subst hcached
        refine safe_call hw rfl ?_ ?_
        · intro p c' hop
          cases hop
          have hgranted := hv.capability
          rw [hc] at hgranted
          exact PeerView.last_of_granted hgranted.symm
        · intro _ y₄ _ hw
          exact ⟨hw.justified, hw.between hv⟩

omit hw

/-- Every handler keeps what holds between handlers. -/
theorem safe_handler
    (event : MeshEvent Peer)
    (hx : Between check x) :
    SafeNode check (fun _ y => Between check y) (event.handler check) x := by
  cases event with
  | connected p direction =>
      refine (safe_openConnection (hx.working p) (hx.settled p)).bind ?_
      intro _ y hjust hbetween
      exact ⟨hjust, hbetween⟩
  | waitEnds p => exact safe_awaitHandshake (hx.working p) (hx.settled p)
  | handshakeStream p => exact safe_handleHandshakeStream (hx.working p)
  | expires p =>
      refine safe_call (hx.working p) rfl (fun _ _ h => nomatch h) ?_
      intro _ y _ hw
      have hv := hx.settled p
      exact ⟨hw.justified, hw.between ⟨hv.capability, hv.approved, Or.inl rfl⟩⟩

end Handlers

section Runs

variable {Peer Msg : Type} [DecidableEq Peer] {check : HandshakeCheck Peer Msg}

theorem between_constructed
    (kind : HandlerKind) :
    Between check (([], MeshState.constructed kind) : Traced Peer Msg) := by
  constructor
  · intro before p c hprefix
    simp at hprefix
  · intro p
    exact ⟨rfl, rfl, Or.inl rfl⟩

/-- In every run of the handlers: a peer is admitted as a publisher only while its
last outcome is a verification that granted it, it is not admitted at all while
its last outcome is a failure, it passes the message filter exactly while its last
outcome is a verification, and the approved peers are those with a capability. -/
theorem admission_follows_lastOutcome
    {kind : HandlerKind}
    {tr : List (MeshCall Peer Msg)}
    {s : MeshState Peer}
    (h : Handled meshSem (MeshEvent.handler check)
      (MeshState.constructed kind) tr s) :
    (∀ before p c,
      before ++ [⟨.allowPeerWithCapability p c, ()⟩] <+: tr →
      c.canPublish = true →
        ∃ c', lastOutcome check p before = some (.verified c') ∧
          c'.canPublish = true) ∧
    (∀ before p c,
      before ++ [⟨.allowPeerWithCapability p c, ()⟩] <+: tr →
        lastOutcome check p before ≠ some .failed) ∧
    (∀ p, s.peerMsgFilter p = true
      ↔
      ∃ c, lastOutcome check p tr = some (.verified c)) ∧
    (∀ p, s.peersApprovedMap p = true ↔ (s.peerCapabilities p).isSome) := by
  have hbetween : Between check (tr, s) :=
    h.invariant (fun event x hx => safe_handler event hx)
      (between_constructed kind)
  have happroved : ∀ p,
      s.peersApprovedMap p = (s.peerCapabilities p).isSome := by
    intro p
    exact (hbetween.settled p).approved
  refine ⟨?_, ?_, ?_, ?_⟩
  · intro before p c hprefix hpublish
    exact ⟨c, hbetween.justified before p c hprefix, hpublish⟩
  · intro before p c hprefix hfailed
    rw [hbetween.justified before p c hprefix] at hfailed
    exact nomatch hfailed
  · intro p
    have hcapability : s.peerCapabilities p =
        PeerView.granted (lastOutcome check p tr) :=
      (hbetween.settled p).capability
    rw [MeshState.peerMsgFilter, happroved p, hcapability,
      Option.isSome_iff_exists]
    constructor
    · rintro ⟨c, hc⟩
      exact ⟨c, PeerView.last_of_granted hc⟩
    · rintro ⟨c, hc⟩
      rw [hc]
      exact ⟨c, rfl⟩
  · intro p
    rw [happroved p]

/-- A check that knows only the built-in handler of the cluster `hoodi`. -/
def hoodiCheck : HandshakeCheck Nat Handshake :=
  fun _ _ msg => builtInHandshakeHandler .ok "hoodi" msg

/-- The calls of a served handshake stream. -/
def servedCalls : List (MeshCall Nat Handshake) :=
  [⟨.loadHandler, .builtIn⟩, ⟨.readHandshake .builtIn 7, ⟨"hoodi"⟩⟩,
    ⟨.encodeHandshake 7, none⟩, ⟨.peersMapPut 7 .handshakeValid, ()⟩,
    ⟨.approvedStore 7, ()⟩, ⟨.capabilitiesStore 7 ⟨true⟩, ()⟩,
    ⟨.pubsubReady, true⟩, ⟨.allowPeerWithCapability 7 ⟨true⟩, ()⟩]

/-- What a reconnect of the same peer reads before it is admitted again. -/
def reconnectReads : List (MeshCall Nat Handshake) :=
  [⟨.peersMapGet 7, some .handshakeValid⟩, ⟨.pubsubReady, true⟩,
    ⟨.capabilitiesLoad 7, some ⟨true⟩⟩]

def admittedState : MeshState Nat :=
  { (MeshState.constructed .builtIn : MeshState Nat) with
    peersMap := Function.update (fun _ => none) 7 (some .handshakeValid)
    peersApprovedMap := Function.update (fun _ => false) 7 true
    peerCapabilities := Function.update (fun _ => none) 7 (some ⟨true⟩)
    admission := Function.update (fun _ => none) 7 (some ⟨true⟩) }

theorem handled_served :
    Handled meshSem (MeshEvent.handler hoodiCheck)
      (MeshState.constructed .builtIn) servedCalls admittedState := by
  have hpath : Path (MeshEvent.handler hoodiCheck (.handshakeStream 7))
      servedCalls (Prog.ret ()) := by
    repeat (first | exact Path.nil _ | apply Path.cons)
  have hexec : Exec meshSem (MeshState.constructed .builtIn) servedCalls
      admittedState := by
    exact Exec.cons ⟨rfl, rfl⟩ (Exec.cons rfl (Exec.cons rfl (Exec.cons rfl
      (Exec.cons rfl (Exec.cons rfl (Exec.cons ⟨rfl, rfl⟩
        (Exec.cons rfl (Exec.nil _))))))))
  exact Handled.snoc (Handled.nil _) hpath hexec

theorem handled_reconnected :
    ∃ s, Handled meshSem (MeshEvent.handler hoodiCheck)
      (MeshState.constructed .builtIn)
      (servedCalls ++
        (reconnectReads ++ [⟨.allowPeerWithCapability 7 ⟨true⟩, ()⟩])) s := by
  have hpath : Path (MeshEvent.handler hoodiCheck (.connected 7 .inbound))
      (reconnectReads ++ [⟨.allowPeerWithCapability 7 ⟨true⟩, ()⟩])
      (Prog.ret ()) := by
    repeat (first | exact Path.nil _ | apply Path.cons)
  exact ⟨_, Handled.snoc handled_served hpath
    (Exec.cons ⟨rfl, rfl⟩ (Exec.cons ⟨rfl, rfl⟩ (Exec.cons ⟨rfl, rfl⟩
      (Exec.cons rfl (Exec.nil _)))))⟩

theorem admission_follows_lastOutcome_reconnected :
    ∃ s, Handled meshSem (MeshEvent.handler hoodiCheck)
        (MeshState.constructed .builtIn)
        (servedCalls ++
          (reconnectReads ++ [⟨.allowPeerWithCapability 7 ⟨true⟩, ()⟩])) s ∧
      (∃ c, lastOutcome hoodiCheck 7 (servedCalls ++ reconnectReads) =
        some (.verified c) ∧ c.canPublish = true) ∧
      s.peerMsgFilter 7 = true := by
  obtain ⟨s, h⟩ := handled_reconnected
  have hmain := admission_follows_lastOutcome h
  refine ⟨s, h, ?_, ?_⟩
  · refine hmain.1 _ 7 ⟨true⟩ ?_ rfl
    exact ⟨[], by simp only [List.append_assoc, List.append_nil]⟩
  · exact (hmain.2.2.1 7).mpr ⟨⟨true⟩, rfl⟩

end Runs

end MumP2P
end OptimumGateway
