import OptimumGateway.MumP2P.Admission

/-!
# Re-admission against a handshake of the same peer

A reconnecting peer whose cached state is valid is admitted again without a
handshake: the connection goroutine reads the state, reads the cached capability
and calls `AllowPeerWithCapability`.  A handshake handler of the same peer runs in
another goroutine and updates the three maps before it calls pubsub.

`admission_eq_iff` says for which interleavings the admission of the peer is the
one of the handshake in the end.  It is not when the connection decides on what it
read before the handler wrote, and admits the peer after the handler's own call.
-/

namespace OptimumGateway
namespace MumP2P

open Foundation Foundation.Prog

inductive RaceParty where
  | connection
  | handler
deriving DecidableEq

abbrev RaceParty.Result : RaceParty → Type
  | .connection => Bool
  | .handler => Unit

section Race

variable {Peer Msg : Type}

/-- What a handshake handler does with the outcome of the handshake. -/
def Outcome.conclude (p : Peer) : Outcome → MeshProg Peer Msg Unit
  | .failed => disconnectPeer p
  | .verified c => markHandshakeValid p c

/-- The admission that a handshake outcome calls for. -/
def Outcome.admission : Outcome → Option PeerCapability
  | .failed => none
  | .verified c => some c

/-- A reconnect of the peer and a handshake handler of the same peer. -/
def raceConfig
    (check : HandshakeCheck Peer Msg)
    (p : Peer)
    (outcome : Outcome)
    (s : MeshState Peer) :
    Config RaceParty (MeshOp Peer) (MeshOp.Ans Msg) RaceParty.Result
      (MeshState Peer) where
  progs
    | .connection => openConnection check p .inbound
    | .handler => outcome.conclude p
  state := s

/-- The capability that a re-admission finds in the maps. -/
def MeshState.cachedCapability (s : MeshState Peer) (p : Peer) : PeerCapability :=
  (s.peerCapabilities p).getD { canPublish := false }

/-- The re-admission overtakes the handshake: it decides on what was there before
the handler's updates and takes effect after the handler's call of pubsub. -/
def Overtaken
    (p : Peer)
    (s : MeshState Peer)
    (tr : List (Event RaceParty (MeshOp Peer) (MeshOp.Ans Msg))) :
    Outcome → Prop
  | .failed =>
      s.peersMap p = some .handshakeValid ∧
      Precedes tr (.connection, .peersMapGet p)
        (.handler, .peersMapPut p .handshakeInvalid) ∧
      ∃ c, Precedes tr (.handler, .denyPeer p)
        (.connection, .allowPeerWithCapability p c)
  | .verified c =>
      s.cachedCapability p ≠ c ∧
      Precedes tr (.connection, .capabilitiesLoad p)
        (.handler, .capabilitiesStore p c) ∧
      Precedes tr (.handler, .allowPeerWithCapability p c)
        (.connection, .allowPeerWithCapability p (s.cachedCapability p))

variable [DecidableEq Peer] {l : List (MeshCall Peer Msg)} {p : Peer}

/-- Calls that change the cached state of the peer. -/
def stateWrite (p : Peer) :
    MeshCall Peer Msg → Option (Option PeerState)
  | ⟨.peersMapPut q state, _⟩ => if p = q then some (some state) else none
  | ⟨.peersMapDelete q, _⟩ => if p = q then some none else none
  | ⟨.peersMapExpire q, _⟩ => if p = q then some none else none
  | _ => none

/-- Calls that change the cached capability of the peer. -/
def capabilityWrite (p : Peer) :
    MeshCall Peer Msg → Option (Option PeerCapability)
  | ⟨.capabilitiesStore q c, _⟩ => if p = q then some (some c) else none
  | ⟨.capabilitiesDelete q, _⟩ => if p = q then some none else none
  | _ => none

/-- Calls that change the admission of the peer. -/
def admissionWrite (p : Peer) :
    MeshCall Peer Msg → Option (Option PeerCapability)
  | ⟨.allowPeerWithCapability q c, _⟩ => if p = q then some (some c) else none
  | ⟨.denyPeer q, _⟩ => if p = q then some none else none
  | _ => none

/-- Calls that change whether pubsub is there. -/
def pubsubWrite : MeshCall Peer Msg → Option Bool
  | ⟨.createPubSub, r⟩ => some r.isNone
  | _ => none

theorem update_eq_getD
    {V : Type}
    (f : Peer → V) (p q : Peer) (v : V) :
    Function.update f q v p = (if p = q then some v else none).getD (f p) := by
  by_cases h : p = q
  · subst h
    simp
  · simp [h]

/-- What one operation writes to the entries of a peer. -/
theorem meshSem_writes
    {op : MeshOp Peer} {r : op.Ans Msg} {s t : MeshState Peer}
    (h : meshSem op s r t)
    (p : Peer) :
    t.peersMap p = (stateWrite p ⟨op, r⟩).getD (s.peersMap p) ∧
    t.peerCapabilities p =
      (capabilityWrite p ⟨op, r⟩).getD (s.peerCapabilities p) ∧
    t.admission p = (admissionWrite p ⟨op, r⟩).getD (s.admission p) := by
  cases op with
  | arrive event =>
      cases event <;>
        simp [h.2, stateWrite, capabilityWrite, admissionWrite]
  | peersMapGet | capabilitiesLoad | pubsubReady | loadHandler =>
      simp [h.2, stateWrite, capabilityWrite, admissionWrite]
  | _ =>
      have ht : t = _ := h
      simp [ht, stateWrite, capabilityWrite, admissionWrite, update_eq_getD]

theorem writes_pubsub :
    Writes (meshSem : Sem (MeshOp Peer) (MeshOp.Ans Msg) (MeshState Peer))
      (fun s => s.ps) pubsubWrite := by
  intro op s r t h
  cases op with
  | arrive event => cases event <;> simp [h.2, pubsubWrite]
  | peersMapGet | capabilitiesLoad | pubsubReady | loadHandler =>
      simp [h.2, pubsubWrite]
  | _ =>
      have ht : t = _ := h
      simp [ht, pubsubWrite]

/-- The map updates of `disconnectPeer`. -/
def dropCalls (p : Peer) : List (MeshCall Peer Msg) :=
  [⟨.peersMapPut p .handshakeInvalid, ()⟩, ⟨.peersMapDelete p, ()⟩,
    ⟨.approvedDelete p, ()⟩, ⟨.capabilitiesDelete p, ()⟩]

/-- The map updates of `markHandshakeValid`. -/
def recordCalls (p : Peer) (c : PeerCapability) :
    List (MeshCall Peer Msg) :=
  [⟨.peersMapPut p .handshakeValid, ()⟩, ⟨.approvedStore p, ()⟩,
    ⟨.capabilitiesStore p c, ()⟩]

/-- The reads of a re-admission. -/
def readmitReads (p : Peer) (cached : Option PeerCapability) :
    List (MeshCall Peer Msg) :=
  [⟨.peersMapGet p, some .handshakeValid⟩, ⟨.pubsubReady, true⟩,
    ⟨.capabilitiesLoad p, cached⟩]

omit [DecidableEq Peer] in
/-- The calls of `disconnectPeer`: the updates, the question for pubsub and its
call, and then calls of the network only. -/
theorem disconnectPeer_calls
    (h : Path (disconnectPeer p) l (Prog.ret ())) :
    ∃ ready rest, l = dropCalls p ++
        (⟨.pubsubReady, ready⟩ ::
          ((if ready then [⟨.denyPeer p, ()⟩] else []) ++ rest)) ∧
      ∀ c ∈ rest, c.1 = .connectedness p ∨ c.1 = .closePeer p := by
  have hclose : ∀ {m : List (MeshCall Peer Msg)},
      Path (mesh (.connectedness p) >>= fun connected =>
        if connected then mesh (.closePeer p) else pure ()) m (Prog.ret ()) →
      ∀ c ∈ m, c.1 = .connectedness p ∨ c.1 = .closePeer p := by
    intro m hm
    obtain ⟨connected, m₁, rfl, hm₁⟩ := path_call_ret_iff.mp hm
    cases connected with
    | false =>
        obtain ⟨rfl, _⟩ := path_ret_iff.mp hm₁
        simp
    | true =>
        obtain ⟨_, m₂, rfl, hm₂⟩ := path_call_ret_iff.mp hm₁
        obtain ⟨rfl, _⟩ := path_ret_iff.mp hm₂
        simp
  obtain ⟨_, l₁, rfl, h₁⟩ := path_call_ret_iff.mp h
  obtain ⟨_, l₂, rfl, h₂⟩ := path_call_ret_iff.mp h₁
  obtain ⟨_, l₃, rfl, h₃⟩ := path_call_ret_iff.mp h₂
  obtain ⟨_, l₄, rfl, h₄⟩ := path_call_ret_iff.mp h₃
  obtain ⟨ready, l₅, rfl, h₅⟩ := path_call_ret_iff.mp h₄
  cases ready with
  | false => exact ⟨false, l₅, rfl, hclose h₅⟩
  | true =>
      obtain ⟨_, l₆, rfl, h₆⟩ := path_call_ret_iff.mp h₅
      exact ⟨true, l₆, rfl, hclose h₆⟩

omit [DecidableEq Peer] in
theorem markHandshakeValid_calls
    {c : PeerCapability}
    (h : Path (markHandshakeValid p c) l (Prog.ret ())) :
    ∃ ready, l = recordCalls p c ++
      (⟨.pubsubReady, ready⟩ ::
        (if ready then [⟨.allowPeerWithCapability p c, ()⟩] else [])) := by
  obtain ⟨_, l₁, rfl, h₁⟩ := path_call_ret_iff.mp h
  obtain ⟨_, l₂, rfl, h₂⟩ := path_call_ret_iff.mp h₁
  obtain ⟨_, l₃, rfl, h₃⟩ := path_call_ret_iff.mp h₂
  obtain ⟨ready, l₄, rfl, h₄⟩ := path_call_ret_iff.mp h₃
  cases ready with
  | false =>
      obtain ⟨rfl, _⟩ := path_ret_iff.mp h₄
      exact ⟨false, rfl⟩
  | true =>
      obtain ⟨_, l₅, rfl, h₅⟩ := path_call_ret_iff.mp h₄
      obtain ⟨rfl, _⟩ := path_ret_iff.mp h₅
      exact ⟨true, rfl⟩

omit [DecidableEq Peer] in
theorem openConnection_calls
    {check : HandshakeCheck Peer Msg} {waiting : Bool}
    (h : Path (openConnection check p .inbound) l (Prog.ret waiting)) :
    l = [⟨.peersMapGet p, none⟩] ∨
    (∃ l', l = ⟨.peersMapGet p, some .handshakeInvalid⟩ :: l' ∧
      Path (disconnectPeer p) l' (Prog.ret ())) ∨
    l = [⟨.peersMapGet p, some .handshakeValid⟩, ⟨.pubsubReady, false⟩] ∨
    ∃ cached, l = readmitReads p cached ++
      [⟨.allowPeerWithCapability p (cached.getD ⟨false⟩), ()⟩] := by
  obtain ⟨state, l₁, rfl, h₁⟩ := path_call_ret_iff.mp h
  cases state with
  | none =>
      obtain ⟨rfl, _⟩ := path_ret_iff.mp h₁
      exact Or.inl rfl
  | some state =>
      cases state with
      | handshakeInvalid =>
          have h₂ : Path (disconnectPeer p >>= fun _ => pure false) l₁
              (Prog.ret waiting) := h₁
          obtain ⟨_, m, m', rfl, hm, hm'⟩ := path_bind_ret h₂
          obtain ⟨rfl, _⟩ := path_ret_iff.mp hm'
          rw [List.append_nil]
          exact Or.inr (Or.inl ⟨m, rfl, hm⟩)
      | handshakeValid =>
          obtain ⟨ready, l₂, rfl, h₂⟩ := path_call_ret_iff.mp h₁
          cases ready with
          | false =>
              obtain ⟨rfl, _⟩ := path_ret_iff.mp h₂
              exact Or.inr (Or.inr (Or.inl rfl))
          | true =>
              obtain ⟨cached, l₃, rfl, h₃⟩ := path_call_ret_iff.mp h₂
              obtain ⟨_, l₄, rfl, h₄⟩ := path_call_ret_iff.mp h₃
              obtain ⟨rfl, _⟩ := path_ret_iff.mp h₄
              exact Or.inr (Or.inr (Or.inr ⟨cached, rfl⟩))

end Race

section Interleaving

variable {Peer Msg : Type} [DecidableEq Peer] {check : HandshakeCheck Peer Msg}
variable {p : Peer} {outcome : Outcome} {s : MeshState Peer}
variable {tr : List (Event RaceParty (MeshOp Peer) (MeshOp.Ans Msg))}
variable {d : Config RaceParty (MeshOp Peer) (MeshOp.Ans Msg) RaceParty.Result
  (MeshState Peer)} {l m : List (MeshCall Peer Msg)} {cached : Option PeerCapability}
variable {b : List (Event RaceParty (MeshOp Peer) (MeshOp.Ans Msg))} {c : PeerCapability}

theorem writes_state :
    Writes (meshSem : Sem (MeshOp Peer) (MeshOp.Ans Msg) (MeshState Peer))
      (fun s => s.peersMap p) (stateWrite p) := by
  intro o s r t h
  exact (meshSem_writes h p).1

theorem writes_capability :
    Writes (meshSem : Sem (MeshOp Peer) (MeshOp.Ans Msg) (MeshState Peer))
      (fun s => s.peerCapabilities p) (capabilityWrite p) := by
  intro o s r t h
  exact (meshSem_writes h p).2.1

theorem writes_admission :
    Writes (meshSem : Sem (MeshOp Peer) (MeshOp.Ans Msg) (MeshState Peer))
      (fun s => s.admission p) (admissionWrite p) := by
  intro o s r t h
  exact (meshSem_writes h p).2.2

variable (hrun : Run meshSem anyStep (raceConfig check p outcome s) tr d)
include hrun

/-- While no call creates pubsub, the question for it is answered as it was at
the start. -/
theorem ready_of_mem
    (hquiet : ∀ i, ∀ c ∈ callsOf i tr, pubsubWrite c = none)
    {i : RaceParty} {r : Bool}
    (hr : ⟨.pubsubReady, r⟩ ∈ callsOf i tr) :
    r = s.ps := by
  obtain ⟨l, m, hcalls⟩ := List.append_of_mem hr
  obtain ⟨a, b, rfl, _, _⟩ := callsOf_eq_append_cons hcalls
  obtain ⟨u, v, hpre, hread, _⟩ := hrun.split_at
  have hnone : lastWrite pubsubWrite (a.map Event.call) = none := by
    rw [lastWrite_eq_none_iff]
    intro c hc
    obtain ⟨e, he, rfl⟩ := List.mem_map.mp hc
    refine hquiet e.thread _ (call_mem_callsOf ?_)
    simp [he]
  have hps := Exec.cell writes_pubsub hpre
  rw [hnone] at hps
  exact hread.1.trans hps

/-- The state that a reconnect reads first is what the handler has written before,
or the state at the start. -/
theorem state_reads
    {state : Option PeerState}
    (hcalls : callsOf .connection tr = ⟨.peersMapGet p, state⟩ :: l) :
    ∃ a b, tr = a ++ ⟨.connection, .peersMapGet p, state⟩ :: b ∧
      callsOf .connection a = [] ∧
      state = (lastWrite (stateWrite p) (callsOf .handler a)).getD
        (s.peersMap p) := by
  obtain ⟨a, b, rfl, ha, _⟩ := callsOf_eq_append_cons (l := []) hcalls
  obtain ⟨u, v, hpre, hread, _⟩ := hrun.split_at
  have hstate := Exec.cell (writes_state (p := p)) hpre
  rw [lastWrite_of_thread (i := .handler)] at hstate
  · exact ⟨a, b, rfl, ha, hread.1.trans hstate⟩
  · intro j hj c hc
    cases j with
    | handler => exact absurd rfl hj
    | connection =>
        rw [ha] at hc
        exact nomatch hc

/-- The capability that a reconnect loads is what the handler has written before,
or the capability at the start. -/
theorem capability_reads
    (hcalls : callsOf .connection tr = readmitReads p cached ++ l) :
    ∃ a b, tr = a ++ ⟨.connection, .capabilitiesLoad p, cached⟩ :: b ∧
      callsOf .connection a =
        [⟨.peersMapGet p, some .handshakeValid⟩, ⟨.pubsubReady, true⟩] ∧
      cached = (lastWrite (capabilityWrite p) (callsOf .handler a)).getD
        (s.peerCapabilities p) := by
  have hsplit : callsOf .connection tr =
      [⟨.peersMapGet p, some .handshakeValid⟩, ⟨.pubsubReady, true⟩] ++
        ⟨.capabilitiesLoad p, cached⟩ :: l := hcalls
  obtain ⟨a, b, rfl, ha, _⟩ := callsOf_eq_append_cons hsplit
  obtain ⟨u, v, hpre, hread, _⟩ := hrun.split_at
  have hcapability := Exec.cell (writes_capability (p := p)) hpre
  rw [lastWrite_of_thread (i := .handler)] at hcapability
  · exact ⟨a, b, rfl, ha, hread.1.trans hcapability⟩
  · intro j hj c hc
    cases j with
    | handler => exact absurd rfl hj
    | connection =>
        rw [ha] at hc
        rcases List.mem_cons.mp hc with rfl | hc
        · rfl
        · rw [List.mem_singleton] at hc
          subst hc
          rfl

/-- In the end the admission is what the connection wrote after the handler's
call, or else what the handler's call wrote. -/
theorem admission_after
    {op : MeshOp Peer} {r : op.Ans Msg} {value : Option PeerCapability}
    (hcalls : callsOf .handler tr = l ++ ⟨op, r⟩ :: m)
    (hvalue : admissionWrite p ⟨op, r⟩ = some value)
    (hrest : ∀ c ∈ m, admissionWrite p c = none) :
    ∃ a b, tr = a ++ ⟨.handler, op, r⟩ :: b ∧
      callsOf .handler a = l ∧
      callsOf .connection tr = callsOf .connection a ++ callsOf .connection b ∧
      d.state.admission p =
        (lastWrite (admissionWrite p) (callsOf .connection b)).getD value := by
  obtain ⟨a, b, rfl, ha, hb⟩ := callsOf_eq_append_cons hcalls
  obtain ⟨u, v, _, hwrite, hpost⟩ := hrun.split_at
  refine ⟨a, b, rfl, ha, ?_, ?_⟩
  · exact callsOf_append_cons_ne a b (by decide)
  · have hv := (meshSem_writes hwrite p).2.2
    rw [hvalue] at hv
    have hfinal := Exec.cell (writes_admission (p := p)) hpost
    rw [lastWrite_of_thread (i := .connection), hv] at hfinal
    · exact hfinal
    · intro j hj c hc
      cases j with
      | connection => exact absurd rfl hj
      | handler =>
          rw [hb] at hc
          exact hrest c hc

omit hrun

/-- A re-admission makes its call last, so it comes after the handler's call
exactly when the connection still has calls to make by then. -/
theorem readmit_after
    {a : List (Event RaceParty (MeshOp Peer) (MeshOp.Ans Msg))}
    (hcalls : callsOf .connection a ++ callsOf .connection b =
      l ++ [⟨.allowPeerWithCapability p c, ()⟩]) :
    lastWrite (admissionWrite p) (callsOf .connection b) =
        (if (RaceParty.connection, MeshOp.allowPeerWithCapability p c) ∈
            b.map Event.label then some (some c) else none) := by
  rcases List.eq_nil_or_concat (callsOf .connection b) with hnil | ⟨l', x, hx⟩
  · have hnot : (RaceParty.connection, MeshOp.allowPeerWithCapability p c) ∉
        b.map Event.label := by
      rw [label_mem_iff, hnil]
      simp
    rw [if_neg hnot, hnil]
    rfl
  · rw [List.concat_eq_append] at hx
    rw [hx, ← List.append_assoc] at hcalls
    obtain ⟨_, hlast⟩ := List.append_inj' hcalls rfl
    cases hlast
    have hmem : (RaceParty.connection, MeshOp.allowPeerWithCapability p c) ∈
        b.map Event.label := by
      rw [label_mem_iff, hx]
      simp
    rw [if_pos hmem, hx]
    exact lastWrite_concat (by simp [admissionWrite])

omit [DecidableEq Peer] in
theorem pubsubWrite_eq_none
    {c : MeshCall Peer Msg}
    (h : c.1 ≠ .createPubSub) :
    pubsubWrite c = none := by
  obtain ⟨op, r⟩ := c
  cases op with
  | createPubSub => exact absurd rfl h
  | _ => rfl

/-- Calls other than `AllowPeerWithCapability` admit nobody. -/
theorem admissionWrite_eq_none
    {c : MeshCall Peer Msg} {v : Option PeerCapability}
    (h : ∀ q c', c.1 ≠ .allowPeerWithCapability q c')
    (hv : admissionWrite p c = some v) :
    v = none := by
  obtain ⟨op, r⟩ := c
  cases op with
  | allowPeerWithCapability q c' => exact absurd rfl (h q c')
  | denyPeer q =>
      simp only [admissionWrite] at hv
      split at hv
      · exact (Option.some.inj hv).symm
      · exact nomatch hv
  | _ => exact nomatch hv

omit [DecidableEq Peer] in
theorem conclude_forall :
    (outcome.conclude p : MeshProg Peer Msg Unit).Forall
      (· ≠ .createPubSub) := by
  cases outcome with
  | failed => exact (disconnectPeer_forall p).mono fun _ h => h.1
  | verified c =>
      refine ⟨by simp, fun _ => ⟨by simp, fun _ => ⟨by simp, fun _ =>
        ⟨by simp, ?_⟩⟩⟩⟩
      intro ready
      cases ready with
      | false => exact trivial
      | true => exact ⟨by simp, fun _ => trivial⟩

omit [DecidableEq Peer] in
theorem openConnection_forall :
    (openConnection check p .inbound).Forall (· ≠ .createPubSub) := by
  refine ⟨by simp, ?_⟩
  intro state
  cases state with
  | none => exact trivial
  | some state =>
      cases state with
      | handshakeInvalid =>
          have hdrop : (disconnectPeer p : MeshProg Peer Msg Unit).Forall
              (· ≠ .createPubSub) :=
            (disconnectPeer_forall p).mono fun _ h => h.1
          exact hdrop.bind fun _ => trivial
      | handshakeValid =>
          refine ⟨by simp, ?_⟩
          intro ready
          cases ready with
          | false => exact trivial
          | true => exact ⟨by simp, fun _ => ⟨by simp, fun _ => trivial⟩⟩

variable {waiting : Bool}

/-- In a finished race every question for pubsub was answered with yes. -/
theorem finished_ready
    (hps : s.ps = true)
    (hrun : Run meshSem anyStep (raceConfig check p outcome s) tr d)
    (hconnection : Path (openConnection check p .inbound)
      (callsOf .connection tr) (Prog.ret waiting))
    (hhandler : Path (outcome.conclude p) (callsOf .handler tr) (Prog.ret ()))
    {i : RaceParty} {r : Bool}
    (hr : ⟨.pubsubReady, r⟩ ∈ callsOf i tr) :
    r = true := by
  rw [← hps]
  refine ready_of_mem hrun ?_ hr
  intro j
  cases j with
  | connection =>
      intro c hc
      exact pubsubWrite_eq_none (hconnection.forall_mem openConnection_forall c hc)
  | handler =>
      intro c hc
      exact pubsubWrite_eq_none (hhandler.forall_mem conclude_forall c hc)

omit [DecidableEq Peer] in
theorem connection_calls
    (h : Path (openConnection check p .inbound) l (Prog.ret waiting))
    (hready : ∀ r, ⟨.pubsubReady, r⟩ ∈ l → r = true) :
    l = [⟨.peersMapGet p, none⟩] ∨
    (∃ l', l = ⟨.peersMapGet p, some .handshakeInvalid⟩ :: l' ∧
      Path (disconnectPeer p) l' (Prog.ret ())) ∨
    ∃ cached, l = readmitReads p cached ++
      [⟨.allowPeerWithCapability p (cached.getD ⟨false⟩), ()⟩] := by
  rcases openConnection_calls h with hl | hl | rfl | hl
  · exact Or.inl hl
  · exact Or.inr (Or.inl hl)
  · have hfalse := hready false (by simp)
    exact nomatch hfalse
  · exact Or.inr (Or.inr hl)

omit [DecidableEq Peer] in
theorem failed_calls
    (h : Path (disconnectPeer p) l (Prog.ret ()))
    (hready : ∀ r, ⟨.pubsubReady, r⟩ ∈ l → r = true) :
    ∃ rest, l = (dropCalls p ++ [⟨.pubsubReady, true⟩]) ++
        ⟨.denyPeer p, ()⟩ :: rest ∧
      ∀ c ∈ rest, c.1 = .connectedness p ∨ c.1 = .closePeer p := by
  obtain ⟨ready, rest, rfl, hrest⟩ := disconnectPeer_calls h
  obtain rfl : ready = true := hready ready (by simp)
  exact ⟨rest, by simp, hrest⟩

omit [DecidableEq Peer] in
theorem verified_calls
    (h : Path (markHandshakeValid p c) l (Prog.ret ()))
    (hready : ∀ r, ⟨.pubsubReady, r⟩ ∈ l → r = true) :
    l = (recordCalls p c ++ [⟨.pubsubReady, true⟩]) ++
      [⟨.allowPeerWithCapability p c, ()⟩] := by
  obtain ⟨ready, rfl⟩ := markHandshakeValid_calls h
  obtain rfl : ready = true := hready ready (by simp)
  simp

/-- The calls of a failed handshake never leave a valid state, and its first call
changes the state. -/
theorem failed_state
    {rest : List (MeshCall Peer Msg)}
    (hrest : ∀ c ∈ rest, c.1 = .connectedness p ∨ c.1 = .closePeer p)
    (hl : l ++ m = (dropCalls p ++ [⟨.pubsubReady, true⟩]) ++
      ⟨.denyPeer p, ()⟩ :: rest)
    {old : Option PeerState}
    (hvalid : (lastWrite (stateWrite p) l).getD old = some .handshakeValid) :
    l = [] := by
  cases hlast : lastWrite (stateWrite p) l with
  | none =>
      cases l with
      | nil => rfl
      | cons c l =>
          have hc : c = ⟨.peersMapPut p .handshakeInvalid, ()⟩ := by
            simp only [dropCalls, List.cons_append, List.cons.injEq] at hl
            exact hl.1
          have hnone := lastWrite_eq_none_iff.mp hlast c List.mem_cons_self
          rw [hc] at hnone
          simp [stateWrite] at hnone
  | some v =>
      rw [hlast] at hvalid
      cases hvalid
      have hquiet : rest.filterMap (stateWrite p) = [] := by
        refine List.filterMap_eq_nil_iff.mpr ?_
        rintro ⟨op, r⟩ hmem
        rcases hrest _ hmem with rfl | rfl
        · rfl
        · rfl
      have hwritten := mem_filterMap_of_part hl hlast
      rw [List.filterMap_append, List.filterMap_cons_none rfl, hquiet] at hwritten
      simp [dropCalls, stateWrite] at hwritten

variable (hl :
    l ++ m = (recordCalls p c ++ [⟨.pubsubReady, true⟩]) ++ [⟨.allowPeerWithCapability p c, ()⟩])
include hl

/-- A verified handshake leaves no invalid state. -/
theorem verified_state
    {old : Option PeerState}
    (hold : old ≠ some .handshakeInvalid) :
    (lastWrite (stateWrite p) l).getD old ≠ some .handshakeInvalid := by
  cases hlast : lastWrite (stateWrite p) l with
  | none => exact hold
  | some v =>
      intro hinvalid
      cases hinvalid
      have hwritten := mem_filterMap_of_part hl hlast
      simp [recordCalls, stateWrite] at hwritten

/-- A verified handshake caches its own capability and no other. -/
theorem verified_capability
    (old : Option PeerCapability) :
    (lastWrite (capabilityWrite p) l).getD old = some c ∨
      (lastWrite (capabilityWrite p) l).getD old = old ∧
        MeshOp.capabilitiesStore p c ∈ m.map Sigma.fst := by
  cases hlast : lastWrite (capabilityWrite p) l with
  | none =>
      refine Or.inr ⟨rfl, ?_⟩
      have hstore : (⟨.capabilitiesStore p c, ()⟩ :
          MeshCall Peer Msg) ∈ l ++ m := by
        rw [hl]
        simp [recordCalls]
      rcases List.mem_append.mp hstore with hmem | hmem
      · have hnone := lastWrite_eq_none_iff.mp hlast _ hmem
        simp [capabilityWrite] at hnone
      · exact List.mem_map_of_mem hmem
  | some v =>
      have hwritten := mem_filterMap_of_part hl hlast
      obtain rfl : some c = v := by
        simpa [recordCalls, capabilityWrite] using hwritten
      exact Or.inl rfl

omit hl

/-- A connection that admits nobody leaves the word to the handler. -/
theorem admission_without_readmit
    {value : Option PeerCapability}
    (hwrites : ∀ c ∈ callsOf .connection b, ∀ v,
      admissionWrite p c = some v → v = value) :
    (lastWrite (admissionWrite p) (callsOf .connection b)).getD value =
      value := by
  cases hlast : lastWrite (admissionWrite p) (callsOf .connection b) with
  | none => rfl
  | some v =>
      obtain ⟨c, hc, hv⟩ := lastWrite_eq_some hlast
      exact hwrites c hc v hv

omit [DecidableEq Peer] in
/-- The only admission of a re-admission is its last call. -/
theorem readmit_label
    {c' : PeerCapability}
    (hcalls : l ++ callsOf .connection b = readmitReads p cached ++
      [⟨.allowPeerWithCapability p c, ()⟩])
    (hlabel : (RaceParty.connection, MeshOp.allowPeerWithCapability p c') ∈
      b.map Event.label) :
    c' = c := by
  rw [label_mem_iff] at hlabel
  obtain ⟨x, hx, hop⟩ := List.mem_map.mp hlabel
  have hmem : x ∈ l ++ callsOf .connection b := List.mem_append_right l hx
  rw [hcalls] at hmem
  simp only [readmitReads, List.cons_append, List.nil_append, List.mem_cons,
    List.not_mem_nil, or_false] at hmem
  rcases hmem with rfl | rfl | rfl | rfl
  · exact nomatch hop
  · exact nomatch hop
  · exact nomatch hop
  · exact (MeshOp.allowPeerWithCapability.inj hop).2.symm

/-- A reconnect that reads a valid state while a handshake fails has read it
before the handler's first update. -/
theorem valid_read_before_drop
    (hrun : Run meshSem anyStep (raceConfig check p .failed s) tr d)
    {rest : List (MeshCall Peer Msg)}
    (hrest : ∀ c ∈ rest, c.1 = .connectedness p ∨ c.1 = .closePeer p)
    (hhandler : callsOf .handler tr =
      (dropCalls p ++ [⟨.pubsubReady, true⟩]) ++ ⟨.denyPeer p, ()⟩ :: rest)
    (hconnection : callsOf .connection tr =
      ⟨.peersMapGet p, some .handshakeValid⟩ :: l) :
    s.peersMap p = some .handshakeValid ∧
      Precedes tr (.connection, .peersMapGet p)
        (.handler, .peersMapPut p .handshakeInvalid) := by
  obtain ⟨a, b, rfl, ha, hstate⟩ := state_reads hrun hconnection
  rw [callsOf_append_cons_ne a b (by decide)] at hhandler
  have hnil : callsOf .handler a = [] := failed_state hrest hhandler hstate.symm
  rw [hnil] at hstate hhandler
  refine ⟨hstate.symm, ?_⟩
  rw [precedes_from_iff (by rw [ha]; simp), label_mem_iff]
  rw [List.nil_append] at hhandler
  rw [hhandler]
  simp [dropCalls]

theorem failed_admission_iff
    (hps : s.ps = true)
    (hrun : Run meshSem anyStep (raceConfig check p .failed s) tr d)
    (hconnection : Path (openConnection check p .inbound)
      (callsOf .connection tr) (Prog.ret waiting))
    (hhandler : Path (Outcome.failed.conclude p) (callsOf .handler tr)
      (Prog.ret ())) :
    d.state.admission p = none ↔ ¬ Overtaken p s tr .failed := by
  have hready : ∀ i r, ⟨.pubsubReady, r⟩ ∈ callsOf i tr → r = true := by
    intro i r
    exact finished_ready hps hrun hconnection hhandler
  obtain ⟨rest, hcalls, hrest⟩ := failed_calls hhandler (hready .handler)
  have hvalue : admissionWrite p
      (⟨.denyPeer p, ()⟩ : MeshCall Peer Msg) = some none := by
    simp [admissionWrite]
  have hdeny : ∀ c ∈ rest, admissionWrite p c = none := by
    intro c hc
    obtain ⟨op, r⟩ := c
    rcases hrest _ hc with rfl | rfl
    · rfl
    · rfl
  obtain ⟨a, b, htr, ha, hsplit, hfinal⟩ :=
    admission_after hrun hcalls hvalue hdeny
  have hafter : ∀ y, Precedes tr (.handler, .denyPeer p) y ↔
      y ∈ b.map Event.label := by
    intro y
    rw [htr]
    exact precedes_from_iff (by rw [ha]; simp [dropCalls])
  by_cases hallow : ∃ x ∈ callsOf .connection tr, ∃ q c,
      x.1 = .allowPeerWithCapability q c
  · rcases connection_calls hconnection (hready .connection) with
      hl | ⟨l', hl, hdrop⟩ | ⟨cached, hl⟩
    · rw [hl] at hallow
      simp at hallow
    · rw [hl] at hallow
      obtain ⟨x, hx, q, c, hop⟩ := hallow
      rcases List.mem_cons.mp hx with rfl | hx
      · exact nomatch hop
      · exact absurd hop
          ((hdrop.forall_mem (disconnectPeer_forall p) x hx).2.1 q c)
    · have hread := valid_read_before_drop hrun hrest hcalls hl
      rw [hsplit] at hl
      rw [hfinal, readmit_after hl]
      split
      · rename_i hmem
        refine iff_of_false (by simp) (not_not_intro ?_)
        exact ⟨hread.1, hread.2, _, (hafter _).mpr hmem⟩
      · rename_i hmem
        refine iff_of_true rfl ?_
        intro hovertaken
        obtain ⟨_, _, c, hprec⟩ := hovertaken
        rw [hafter] at hprec
        rw [readmit_label hl hprec] at hprec
        exact hmem hprec
  · have hnone : d.state.admission p = none := by
      rw [hfinal]
      refine admission_without_readmit ?_
      intro x hx v hv
      refine admissionWrite_eq_none ?_ hv
      intro q c hop
      refine hallow ⟨x, ?_, q, c, hop⟩
      rw [hsplit]
      exact List.mem_append_right _ hx
    refine iff_of_true hnone ?_
    intro hovertaken
    obtain ⟨_, _, c, hprec⟩ := hovertaken
    rw [hafter, label_mem_iff] at hprec
    obtain ⟨x, hx, hop⟩ := List.mem_map.mp hprec
    refine hallow ⟨x, ?_, p, c, hop⟩
    rw [hsplit]
    exact List.mem_append_right _ hx

variable (hrun : Run meshSem anyStep (raceConfig check p (.verified c) s) tr d)
variable (hhandler : callsOf .handler tr =
  (recordCalls p c ++ [⟨.pubsubReady, true⟩]) ++ [⟨.allowPeerWithCapability p c, ()⟩])
include hrun hhandler

theorem no_invalid_read
    (hstart : s.peersMap p ≠ some .handshakeInvalid) :
    callsOf .connection tr ≠ ⟨.peersMapGet p, some .handshakeInvalid⟩ :: l := by
  intro hconnection
  obtain ⟨a, b, rfl, ha, hstate⟩ := state_reads hrun hconnection
  rw [callsOf_append_cons_ne a b (by decide)] at hhandler
  exact verified_state hhandler hstart hstate.symm

/-- While a handshake is verified, a re-admission finds the verified capability,
or reads the old one before the handler stores. -/
theorem cached_capability
    (hconnection : callsOf .connection tr = readmitReads p cached ++ l) :
    cached = some c ∨
      cached = s.peerCapabilities p ∧
        Precedes tr (.connection, .capabilitiesLoad p)
          (.handler, .capabilitiesStore p c) := by
  obtain ⟨a, b, rfl, ha, hcached⟩ := capability_reads hrun hconnection
  rw [callsOf_append_cons_ne a b (by decide)] at hhandler
  rcases verified_capability hhandler (s.peerCapabilities p) with hnew | ⟨hold, hmem⟩
  · exact Or.inl (hcached.trans hnew)
  · refine Or.inr ⟨hcached.trans hold, ?_⟩
    rw [precedes_from_iff (by rw [ha]; simp), label_mem_iff]
    exact hmem

omit hrun hhandler

theorem verified_admission_iff
    (hps : s.ps = true)
    (hstart : s.peersMap p ≠ some .handshakeInvalid)
    (hrun : Run meshSem anyStep (raceConfig check p (.verified c) s) tr d)
    (hconnection : Path (openConnection check p .inbound)
      (callsOf .connection tr) (Prog.ret waiting))
    (hhandler : Path ((Outcome.verified c).conclude p) (callsOf .handler tr)
      (Prog.ret ())) :
    d.state.admission p = some c ↔ ¬ Overtaken p s tr (.verified c) := by
  have hready : ∀ i r, ⟨.pubsubReady, r⟩ ∈ callsOf i tr → r = true := by
    intro i r
    exact finished_ready hps hrun hconnection hhandler
  have hcalls := verified_calls hhandler (hready .handler)
  have hvalue : admissionWrite p (⟨.allowPeerWithCapability p c, ()⟩ :
      MeshCall Peer Msg) = some (some c) := by
    simp [admissionWrite]
  obtain ⟨a, b, htr, ha, hsplit, hfinal⟩ :=
    admission_after hrun hcalls hvalue (by simp)
  have hafter : ∀ y, Precedes tr (.handler, .allowPeerWithCapability p c) y ↔
      y ∈ b.map Event.label := by
    intro y
    rw [htr]
    exact precedes_from_iff (by rw [ha]; simp [recordCalls])
  rcases connection_calls hconnection (hready .connection) with
    hl | ⟨l', hl, _⟩ | ⟨cached, hl⟩
  · have hb : ∀ x ∈ callsOf .connection b,
        x = ⟨.peersMapGet p, none⟩ := by
      intro x hx
      have hmem := List.mem_append_right (callsOf .connection a) hx
      rw [← hsplit, hl, List.mem_singleton] at hmem
      exact hmem
    refine iff_of_true ?_ ?_
    · rw [hfinal]
      refine admission_without_readmit ?_
      intro x hx v hv
      rw [hb x hx] at hv
      exact nomatch hv
    · intro hovertaken
      have hprec := hovertaken.2.2
      rw [hafter, label_mem_iff] at hprec
      obtain ⟨x, hx, hop⟩ := List.mem_map.mp hprec
      rw [hb x hx] at hop
      exact nomatch hop
  · exact absurd hl (no_invalid_read hrun hcalls hstart)
  · have hcached := cached_capability hrun hcalls hl
    rw [hsplit] at hl
    rw [hfinal, readmit_after hl]
    by_cases hsame : cached.getD ⟨false⟩ = c
    · refine iff_of_true ?_ ?_
      · split
        · exact congrArg some hsame
        · rfl
      · intro hovertaken
        have hprec := (hafter _).mp hovertaken.2.2
        exact hovertaken.1 ((readmit_label hl hprec).trans hsame)
    · have hold : s.cachedCapability p = cached.getD ⟨false⟩ ∧
          Precedes tr (.connection, .capabilitiesLoad p)
            (.handler, .capabilitiesStore p c) := by
        rcases hcached with rfl | ⟨rfl, hprec⟩
        · exact absurd rfl hsame
        · exact ⟨rfl, hprec⟩
      split
      · rename_i hmem
        refine iff_of_false ?_ (not_not_intro ?_)
        · intro heq
          exact hsame (Option.some.inj heq)
        · refine ⟨?_, hold.2, ?_⟩
          · rw [hold.1]
            exact hsame
          · rw [hafter, hold.1]
            exact hmem
      · rename_i hmem
        refine iff_of_true rfl ?_
        intro hovertaken
        have hprec := (hafter _).mp hovertaken.2.2
        rw [hold.1] at hprec
        exact hmem hprec

/-- When both have finished, the admission of the peer is the one of the handshake
exactly when the re-admission has not overtaken it. -/
theorem admission_eq_iff
    (hps : s.ps = true)
    (hstart : s.peersMap p ≠ some .handshakeInvalid)
    (hrun : Run meshSem anyStep (raceConfig check p outcome s) tr d)
    (hconnection : d.progs .connection = Prog.ret waiting)
    (hhandler : d.progs .handler = Prog.ret ()) :
    d.state.admission p = outcome.admission ↔ ¬ Overtaken p s tr outcome := by
  have hcpath := hrun.path .connection
  have hhpath := hrun.path .handler
  rw [hconnection] at hcpath
  rw [hhandler] at hhpath
  cases outcome with
  | failed => exact failed_admission_iff hps hrun hcpath hhpath
  | verified c => exact verified_admission_iff hps hstart hrun hcpath hhpath

/-- The reconnect of an admitted peer reads its valid state, a failed handshake of
the peer runs to its end, and then the reconnect admits the peer again. -/
def readmitAfterFailure :
    List (Event RaceParty (MeshOp Nat) (MeshOp.Ans Handshake)) :=
  [⟨.connection, .peersMapGet 7, some .handshakeValid⟩,
    ⟨.connection, .pubsubReady, true⟩,
    ⟨.handler, .peersMapPut 7 .handshakeInvalid, ()⟩,
    ⟨.handler, .peersMapDelete 7, ()⟩,
    ⟨.handler, .approvedDelete 7, ()⟩,
    ⟨.handler, .capabilitiesDelete 7, ()⟩,
    ⟨.handler, .pubsubReady, true⟩,
    ⟨.handler, .denyPeer 7, ()⟩,
    ⟨.handler, .connectedness 7, true⟩,
    ⟨.handler, .closePeer 7, ()⟩,
    ⟨.connection, .capabilitiesLoad 7, none⟩,
    ⟨.connection, .allowPeerWithCapability 7 ⟨false⟩, ()⟩]

theorem readmitAfterFailure_run :
    ∃ d, Run meshSem anyStep (raceConfig hoodiCheck 7 .failed admittedState)
        readmitAfterFailure d ∧
      d.progs .connection = Prog.ret false ∧
      d.progs .handler = Prog.ret () ∧
      d.state.admission 7 = some ⟨false⟩ := by
  refine ⟨_, Run.next rfl ⟨rfl, rfl⟩ (Run.next rfl ⟨rfl, rfl⟩ (Run.next rfl rfl (Run.next rfl rfl
    (Run.next rfl rfl (Run.next rfl rfl (Run.next rfl ⟨rfl, rfl⟩ (Run.next rfl rfl
    (Run.next rfl rfl (Run.next rfl rfl (Run.next rfl ⟨rfl, rfl⟩
    (Run.next rfl rfl (Run.nil _)))))))))))), ?_, ?_, ?_⟩
  · rfl
  · rfl
  · rfl

/-- A peer whose handshake failed is admitted in the end. -/
theorem failed_peer_readmitted :
    ¬ ∀ (outcome : Outcome) (s : MeshState Nat)
        (tr : List (Event RaceParty (MeshOp Nat) (MeshOp.Ans Handshake)))
        (d : Config RaceParty (MeshOp Nat) (MeshOp.Ans Handshake)
          RaceParty.Result (MeshState Nat))
        (waiting : Bool),
      s.ps = true → s.peersMap 7 ≠ some .handshakeInvalid →
      Run meshSem anyStep (raceConfig hoodiCheck 7 outcome s) tr d →
      d.progs .connection = Prog.ret waiting →
      d.progs .handler = Prog.ret () →
      d.state.admission 7 = outcome.admission := by
  intro h
  obtain ⟨d, hrun, hconnection, hhandler, hadmission⟩ := readmitAfterFailure_run
  have hnone := h .failed admittedState _ d false rfl (by decide) hrun
    hconnection hhandler
  rw [hadmission] at hnone
  exact nomatch hnone

/-- The reconnect of the peer follows the failed handshake. -/
def reconnectAfterFailure :
    List (Event RaceParty (MeshOp Nat) (MeshOp.Ans Handshake)) :=
  (readmitAfterFailure.drop 2).take 8 ++ [⟨.connection, .peersMapGet 7, none⟩]

theorem admission_eq_iff_readmitted :
    (∃ d, Run meshSem anyStep (raceConfig hoodiCheck 7 .failed admittedState)
        readmitAfterFailure d ∧
      d.progs .connection = Prog.ret false ∧
      d.progs .handler = Prog.ret () ∧
      (d.state.admission 7 = Outcome.failed.admission
        ↔
      ¬ Overtaken 7 admittedState readmitAfterFailure .failed)) ∧
    ∃ d, Run meshSem anyStep (raceConfig hoodiCheck 7 .failed admittedState)
        reconnectAfterFailure d ∧
      d.progs .connection = Prog.ret true ∧
      d.progs .handler = Prog.ret () ∧
      d.state.admission 7 = Outcome.failed.admission := by
  refine ⟨?_, ?_⟩
  · obtain ⟨d, hrun, hconnection, hhandler, _⟩ := readmitAfterFailure_run
    exact ⟨d, hrun, hconnection, hhandler,
      admission_eq_iff rfl (by decide) hrun hconnection hhandler⟩
  · have hrun : Run meshSem anyStep (raceConfig hoodiCheck 7 .failed admittedState)
        reconnectAfterFailure _ :=
      Run.next rfl rfl (Run.next rfl rfl (Run.next rfl rfl (Run.next rfl rfl
        (Run.next rfl ⟨rfl, rfl⟩ (Run.next rfl rfl (Run.next rfl rfl (Run.next rfl rfl
        (Run.next rfl ⟨rfl, rfl⟩ (Run.nil _)))))))))
    refine ⟨_, hrun, rfl, rfl, (admission_eq_iff rfl (by decide) hrun rfl rfl).mpr ?_⟩
    -- nothing follows the read
    rintro ⟨-, hread, -⟩
    have hquiet : callsOf .connection ((readmitAfterFailure.drop 2).take 8) = [] := rfl
    rw [reconnectAfterFailure, precedes_from_iff (by rw [hquiet]; simp)] at hread
    exact nomatch hread

end Interleaving

end MumP2P
end OptimumGateway
