import OptimumGateway.Foundation.CallHistory
import OptimumGateway.Foundation.GoMap
import Mathlib.Data.Finset.Card
import Mathlib.Tactic.Ring

/-!
# Accounting of the CL peers

This module models `onPeerConnected` and `onPeerDisconnected` of
`pkg/service/gossipsub-gateway/setup_libp2p_host.go`, with the gauge `cl_peers` of
`pkg/service/telemetry/peers.go`.

The network delivers a notification for every connection that is opened or closed.  A
connection of a peer that the allowlist refuses is not counted and the peer is told to go,
but when that connection is closed it is counted off all the same.
`clPeers_eq_iff` says what this means: the direct peers are right in every history, and the
gauge is right exactly as long as no refused connection has been closed.
-/

namespace OptimumGateway
namespace GossipsubGateway

open Foundation

section Callbacks

variable {Peer : Type} [DecidableEq Peer]

/-- `network.Conn`. -/
structure Conn (Peer : Type) where
  remotePeer : Peer
  remoteMultiaddr : String

/-- `peer.AddrInfo`. -/
structure AddrInfo (Peer : Type) where
  id : Peer
  addrs : List String

structure CLHost (Peer : Type) where
  directCLPeersAllowlist : Finset Peer
  /-- `String` of a peer id. -/
  text : Peer → String

/-- What the callbacks write.  There is no gauge when metrics are off. -/
structure CLPeers (Peer : Type) where
  libP2PDirectPeers : GoMap String (AddrInfo Peer)
  clPeers : Option Int
  /-- The calls of `ClosePeer`. -/
  closed : List Peer

/-- The service before the first connection. -/
def CLPeers.start (metrics : Bool) : CLPeers Peer where
  libP2PDirectPeers := ∅
  clPeers := if metrics then some 0 else none
  closed := []

variable (h : CLHost Peer)

/-- The allowlist lets the peer in.  An empty allowlist lets everybody in. -/
def CLHost.Admits (p : Peer) : Prop :=
  p ∈ h.directCLPeersAllowlist ∨ h.directCLPeersAllowlist = ∅

instance : DecidablePred h.Admits :=
  fun _ => inferInstanceAs (Decidable (_ ∨ _))

def clPeerConnected (s : CLPeers Peer) : CLPeers Peer :=
  { s with clPeers := s.clPeers.map (· + 1) }

def clPeerDisconnected (s : CLPeers Peer) : CLPeers Peer :=
  { s with clPeers := s.clPeers.map (· - 1) }

def onPeerConnected (conn : Conn Peer) (s : CLPeers Peer) : CLPeers Peer :=
  if conn.remotePeer ∉ h.directCLPeersAllowlist ∧ 0 < h.directCLPeersAllowlist.card then
    { s with closed := s.closed ++ [conn.remotePeer] }
  else
    clPeerConnected { s with
      libP2PDirectPeers := s.libP2PDirectPeers.insert (h.text conn.remotePeer)
        ⟨conn.remotePeer, [conn.remoteMultiaddr]⟩ }

/-- `connected` is what `Connectedness` answers. -/
def onPeerDisconnected (connected : Bool) (conn : Conn Peer) (s : CLPeers Peer) : CLPeers Peer :=
  clPeerDisconnected
    (if connected then s
    else { s with libP2PDirectPeers := s.libP2PDirectPeers.erase (h.text conn.remotePeer) })

end Callbacks

section Histories

variable {Peer : Type} [DecidableEq Peer]

inductive Notification (Peer : Type) where
  | connected (conn : Conn Peer)
  | disconnected (conn : Conn Peer)

/-- The service, and the peers of the open connections of its host. -/
structure CLNetwork (Peer : Type) where
  peers : CLPeers Peer
  opened : Multiset Peer

def CLNetwork.start (metrics : Bool) : CLNetwork Peer :=
  ⟨CLPeers.start metrics, 0⟩

variable (h : CLHost Peer)

/-- Only an open connection is closed, and `Connectedness` is about the others. -/
def notify (s : CLNetwork Peer) : Notification Peer → CLNetwork Peer → Prop
  | .connected conn, t =>
      t = ⟨onPeerConnected h conn s.peers, conn.remotePeer ::ₘ s.opened⟩
  | .disconnected conn, t =>
      conn.remotePeer ∈ s.opened ∧
        t = ⟨onPeerDisconnected h
            (decide (conn.remotePeer ∈ s.opened.erase conn.remotePeer)) conn s.peers,
          s.opened.erase conn.remotePeer⟩

/-- A connection is closed that the allowlist had refused. -/
def ClosesRefused : Notification Peer → Prop
  | .connected _ => False
  | .disconnected conn => ¬ h.Admits conn.remotePeer

instance : DecidablePred (ClosesRefused h) := by
  intro n
  cases n with
  | connected conn => exact inferInstanceAs (Decidable False)
  | disconnected conn => exact inferInstanceAs (Decidable (¬ _))

variable {h} {metrics : Bool} {ns : List (Notification Peer)} {s t : CLNetwork Peer}
variable {n : Notification Peer}

theorem onPeerConnected_of_admits
    {conn : Conn Peer} {s : CLPeers Peer}
    (hadmits : h.Admits conn.remotePeer) :
    onPeerConnected h conn s = clPeerConnected { s with
      libP2PDirectPeers := s.libP2PDirectPeers.insert (h.text conn.remotePeer)
        ⟨conn.remotePeer, [conn.remoteMultiaddr]⟩ } := by
  unfold onPeerConnected
  rw [if_neg]
  rintro ⟨hnot, hcard⟩
  rcases hadmits with hmem | hempty
  · exact hnot hmem
  · rw [hempty] at hcard
    exact absurd hcard (by simp)

theorem onPeerConnected_of_refused
    {conn : Conn Peer} {s : CLPeers Peer}
    (hrefused : ¬ h.Admits conn.remotePeer) :
    onPeerConnected h conn s = { s with closed := s.closed ++ [conn.remotePeer] } := by
  unfold onPeerConnected
  rw [if_pos]
  obtain ⟨hnot, hempty⟩ := not_or.mp hrefused
  exact ⟨hnot, Finset.card_pos.mpr (Finset.nonempty_iff_ne_empty.mpr hempty)⟩

/-- The direct peers are those that the allowlist lets in and that are connected. -/
def DirectPeers (h : CLHost Peer) (s : CLNetwork Peer) : Prop :=
  ∀ key, key ∈ s.peers.libP2PDirectPeers
    ↔ ∃ p, h.text p = key ∧ h.Admits p ∧ p ∈ s.opened

section Opened

variable {p : Peer} {opened : Multiset Peer} {key : String}

omit [DecidableEq Peer] in
theorem exists_admitted_cons_iff :
    (∃ q, h.text q = key ∧ h.Admits q ∧ q ∈ p ::ₘ opened)
      ↔
    (key = h.text p ∧ h.Admits p) ∨ ∃ q, h.text q = key ∧ h.Admits q ∧ q ∈ opened := by
  constructor
  · rintro ⟨q, rfl, hadmits, hq⟩
    rcases Multiset.mem_cons.mp hq with rfl | hq
    · exact Or.inl ⟨rfl, hadmits⟩
    · exact Or.inr ⟨q, rfl, hadmits, hq⟩
  · rintro (⟨rfl, hadmits⟩ | ⟨q, hkey, hadmits, hq⟩)
    · exact ⟨p, rfl, hadmits, Multiset.mem_cons_self p opened⟩
    · exact ⟨q, hkey, hadmits, Multiset.mem_cons_of_mem hq⟩

theorem exists_admitted_erase_iff
    (htext : Function.Injective h.text) :
    (∃ q, h.text q = key ∧ h.Admits q ∧ q ∈ opened.erase p)
      ↔
    (key = h.text p → p ∈ opened.erase p) ∧
      ∃ q, h.text q = key ∧ h.Admits q ∧ q ∈ opened := by
  constructor
  · rintro ⟨q, rfl, hadmits, hq⟩
    refine ⟨?_, q, rfl, hadmits, Multiset.mem_of_mem_erase hq⟩
    intro hkey
    rwa [htext hkey] at hq
  · rintro ⟨hstill, q, rfl, hadmits, hq⟩
    refine ⟨q, rfl, hadmits, ?_⟩
    by_cases hqp : q = p
    · rw [hqp] at hstill ⊢
      exact hstill rfl
    · exact (Multiset.mem_erase_of_ne hqp).mpr hq

end Opened

theorem DirectPeers.step
    (htext : Function.Injective h.text)
    (hs : DirectPeers h s)
    (hstep : notify h s n t) :
    DirectPeers h t := by
  intro key
  cases n with
  | connected conn =>
      obtain rfl := hstep
      rw [exists_admitted_cons_iff, ← hs key]
      by_cases hadmits : h.Admits conn.remotePeer
      · simp [onPeerConnected_of_admits hadmits, clPeerConnected, AList.mem_insert, hadmits]
      · simp [onPeerConnected_of_refused hadmits, hadmits]
  | disconnected conn =>
      obtain ⟨-, rfl⟩ := hstep
      rw [exists_admitted_erase_iff htext, ← hs key]
      by_cases hstill : conn.remotePeer ∈ s.opened.erase conn.remotePeer
      · simp [onPeerDisconnected, clPeerDisconnected, hstill]
      · simp [onPeerDisconnected, clPeerDisconnected, hstill, AList.mem_erase]

/-- What a notification does to the gauge, in terms of the open connections. -/
theorem clPeers_step
    {v : Int}
    (hv : s.peers.clPeers = some v)
    (hstep : notify h s n t) :
    t.peers.clPeers = some (v + (t.opened.countP h.Admits - s.opened.countP h.Admits -
      if ClosesRefused h n then 1 else 0)) := by
  cases n with
  | connected conn =>
      obtain rfl := hstep
      have hopen : ¬ ClosesRefused h (.connected conn) := id
      by_cases hadmits : h.Admits conn.remotePeer
      · rw [onPeerConnected_of_admits hadmits, if_neg hopen, Multiset.countP_cons_of_pos _ hadmits]
        simp only [clPeerConnected, hv, Option.map_some, Option.some.injEq]
        push_cast
        ring
      · rw [onPeerConnected_of_refused hadmits, if_neg hopen, Multiset.countP_cons_of_neg _ hadmits]
        simp [hv]
  | disconnected conn =>
      obtain ⟨hmem, rfl⟩ := hstep
      have hgauge : (onPeerDisconnected h (decide (conn.remotePeer ∈
          s.opened.erase conn.remotePeer)) conn s.peers).clPeers = some (v - 1) := by
        unfold onPeerDisconnected clPeerDisconnected
        split <;> simp [hv]
      have hcount : s.opened.countP h.Admits =
          (s.opened.erase conn.remotePeer).countP h.Admits +
            if h.Admits conn.remotePeer then 1 else 0 := by
        nth_rewrite 1 [← Multiset.cons_erase hmem]
        rw [Multiset.countP_cons]
      change (onPeerDisconnected h _ conn s.peers).clPeers = _
      rw [hgauge, hcount]
      by_cases hadmits : h.Admits conn.remotePeer
      · simp only [ClosesRefused, hadmits, not_true_eq_false, if_true, if_false, Option.some.injEq]
        push_cast
        ring
      · simp only [ClosesRefused, hadmits, not_false_eq_true, if_true, if_false, Option.some.injEq]
        push_cast
        ring

theorem clPeers_none
    (hv : s.peers.clPeers = none)
    (hstep : notify h s n t) :
    t.peers.clPeers = none := by
  cases n with
  | connected conn =>
      obtain rfl := hstep
      change (onPeerConnected h conn s.peers).clPeers = none
      unfold onPeerConnected clPeerConnected
      split <;> simp [hv]
  | disconnected conn =>
      obtain ⟨-, rfl⟩ := hstep
      change (onPeerDisconnected h _ conn s.peers).clPeers = none
      unfold onPeerDisconnected clPeerDisconnected
      split <;> simp [hv]

/-- The gauge is the number of open connections of admitted peers, less the refused
connections that were closed. -/
theorem clPeers_eq
    (hcalls : Calls (notify h) (CLNetwork.start metrics) ns t)
    {v : Int}
    (hv : t.peers.clPeers = some v) :
    v = t.opened.countP h.Admits - ns.countP (ClosesRefused h ·) := by
  induction ns using List.reverseRecOn generalizing t v with
  | nil =>
      obtain rfl := Calls.nil_iff.mp hcalls
      cases metrics with
      | false => cases hv
      | true =>
          cases hv
          simp [CLNetwork.start]
  | append_singleton ns n ih =>
      obtain ⟨u, hns, hn⟩ := Calls.snoc_iff.mp hcalls
      cases hu : u.peers.clPeers with
      | none =>
          rw [clPeers_none hu hn] at hv
          cases hv
      | some w =>
          have hw := ih hns hu
          rw [clPeers_step hu hn, Option.some.injEq] at hv
          rw [← hv, hw, List.countP_append, List.countP_singleton]
          by_cases hrefused : ClosesRefused h n
          · simp only [hrefused, decide_true, if_true]
            push_cast
            ring
          · simp only [hrefused, decide_false, if_false, Bool.false_eq_true]
            push_cast
            ring

/-- In every history the direct peers are the admitted peers with an open connection, and
the gauge counts the open connections of admitted peers exactly if no refused connection
has been closed. -/
theorem clPeers_eq_iff
    (h : CLHost Peer)
    (htext : Function.Injective h.text)
    (metrics : Bool)
    (ns : List (Notification Peer))
    {t : CLNetwork Peer}
    (hcalls : Calls (notify h) (CLNetwork.start metrics) ns t) :
    (∀ key, key ∈ t.peers.libP2PDirectPeers
        ↔ ∃ p, h.text p = key ∧ h.Admits p ∧ p ∈ t.opened) ∧
      ∀ v, t.peers.clPeers = some v →
        (v = t.opened.countP h.Admits
          ↔
        ∀ conn, .disconnected conn ∈ ns → h.Admits conn.remotePeer) := by
  constructor
  · refine Calls.invariant hcalls ?_ fun u n w hu hn => DirectPeers.step htext hu hn
    intro key
    simp [CLNetwork.start, CLPeers.start]
  · intro v hv
    rw [clPeers_eq hcalls hv]
    have hzero : (t.opened.countP h.Admits : Int) - ns.countP (ClosesRefused h ·) =
        t.opened.countP h.Admits ↔ ns.countP (ClosesRefused h ·) = 0 := by
      omega
    rw [hzero, List.countP_eq_zero]
    constructor
    · intro hns conn hmem
      by_contra hrefused
      exact hns _ hmem (decide_eq_true hrefused)
    · intro hadmits n hmem hn
      cases n with
      | connected conn => exact of_decide_eq_true hn
      | disconnected conn => exact of_decide_eq_true hn (hadmits conn hmem)

end Histories

section Refused

/-- Only the peer `prysm` is let in. -/
def pickyHost : CLHost String where
  directCLPeersAllowlist := {"prysm"}
  text := id

def connOf (p : String) : Conn String :=
  ⟨p, "/ip4/127.0.0.1/tcp/9000"⟩

/-- A refused peer comes and goes, and the gauge is negative. -/
theorem refused_peer_counted :
    ∃ t, Calls (notify pickyHost) (CLNetwork.start true)
        [.connected (connOf "lighthouse"), .disconnected (connOf "lighthouse")] t ∧
      t.opened = 0 ∧ t.peers.clPeers = some (-1) := by
  refine ⟨_, ⟨_, rfl, _, ⟨by decide, rfl⟩, rfl⟩, ?_, ?_⟩
  · decide
  · decide

/-- Two connections of the admitted peer, one of which is closed. -/
theorem clPeers_eq_iff_admitted :
    ∃ t, Calls (notify pickyHost) (CLNetwork.start true)
        [.connected (connOf "prysm"), .connected (connOf "prysm"),
          .disconnected (connOf "prysm")] t ∧
      t.peers.clPeers = some 1 ∧ (1 : Int) = t.opened.countP pickyHost.Admits ∧
      "prysm" ∈ t.peers.libP2PDirectPeers := by
  have hcalls : Calls (notify pickyHost) (CLNetwork.start true)
      [.connected (connOf "prysm"), .connected (connOf "prysm"),
        .disconnected (connOf "prysm")] _ :=
    ⟨_, rfl, _, rfl, _, ⟨by decide, rfl⟩, rfl⟩
  obtain ⟨hpeers, hgauge⟩ := clPeers_eq_iff pickyHost Function.injective_id true _ hcalls
  refine ⟨_, hcalls, by decide, (hgauge 1 (by decide)).mpr ?_, (hpeers "prysm").mpr ?_⟩
  · intro conn hmem
    simp only [List.mem_cons, reduceCtorEq, Notification.disconnected.injEq, List.not_mem_nil,
      or_false, false_or] at hmem
    rw [hmem]
    exact Or.inl (by decide)
  · exact ⟨"prysm", rfl, Or.inl (by decide), by decide⟩

end Refused

end GossipsubGateway
end OptimumGateway
