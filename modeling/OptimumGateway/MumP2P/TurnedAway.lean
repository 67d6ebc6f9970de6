import OptimumGateway.MumP2P.Construction
import OptimumGateway.MumP2P.ReadmitRace

/-!
# Reconnects of a peer whose handshake failed

`disconnectPeer` marks the peer as invalid, and `handleNewConnection` turns away a peer that
it finds marked.  The mark is put and deleted by the same call of `setPeerState`, so that it
stands only while that call is between its `Put` and its `Delete`.

`turned_away_iff` is about any number of goroutines.  A reconnect of the peer is turned away
exactly when its lookup falls into such a window.  Otherwise it opens a handshake stream, or
waits for the peer to open one, as if nothing had failed.
-/

namespace OptimumGateway
namespace MumP2P

open Foundation Foundation.Prog

section Pool

/-- What makes the node run: remote events, and entries that expire. -/
inductive MeshActivity (Peer : Type) where
  | remote (arrival : Arrival Peer)
  | expiry (p : Peer)

variable {Peer Msg : Type} (check : HandshakeCheck Peer Msg)

def MeshActivity.program : MeshActivity Peer → MeshProg Peer Msg Unit
  | .remote arrival => arrival.goroutine check
  | .expiry p => mesh (.peersMapExpire p)

abbrev MeshPool (Peer Msg : Type) :=
  Config Nat (MeshOp Peer) (MeshOp.Ans Msg) (fun _ => Unit) (MeshState Peer)

abbrev PoolEvent (Peer Msg : Type) := Event Nat (MeshOp Peer) (MeshOp.Ans Msg)

/-- The node with the goroutines that its events start. -/
def meshPool (activities : Nat → MeshActivity Peer) (s : MeshState Peer) : MeshPool Peer Msg where
  progs n := (activities n).program check
  state := s

end Pool

section Marks

variable {Peer Msg : Type}

/-- The last call put the mark of the peer. -/
def JustMarked (calls : List (MeshCall Peer Msg)) (p : Peer) : Prop :=
  calls.getLast? = some ⟨.peersMapPut p .handshakeInvalid, ()⟩

/-- Whoever put a mark deletes it next. -/
def DeletesMark (calls : List (MeshCall Peer Msg)) (op : MeshOp Peer) : Prop :=
  ∀ p, JustMarked calls p → op = .peersMapDelete p

/-- A program that leaves no mark behind. -/
def Tidy {α : Type} (prog : MeshProg Peer Msg α) : Prop :=
  ∀ calls, (∀ p, ¬ JustMarked calls p) →
    prog.Along DeletesMark (fun calls' _ => ∀ p, ¬ JustMarked calls' p) calls

/-- Operations that put no mark. -/
def Markless (op : MeshOp Peer) : Prop :=
  ∀ p, op ≠ .peersMapPut p .handshakeInvalid

variable {α β : Type}

theorem not_justMarked_concat
    {op : MeshOp Peer} {r : op.Ans Msg} {calls : List (MeshCall Peer Msg)}
    (h : Markless op)
    (p : Peer) :
    ¬ JustMarked (calls ++ [⟨op, r⟩]) p := by
  intro hmarked
  rw [JustMarked, List.getLast?_concat] at hmarked
  exact h p (congrArg Sigma.fst (Option.some.inj hmarked))

theorem Tidy.pure
    (a : α) :
    Tidy (Pure.pure a : MeshProg Peer Msg α) := by
  intro calls hcalls
  exact hcalls

theorem Tidy.bind
    {prog : MeshProg Peer Msg α} {f : α → MeshProg Peer Msg β}
    (hprog : Tidy prog)
    (hf : ∀ a, Tidy (f a)) :
    Tidy (prog >>= f) := by
  intro calls hcalls
  exact (hprog calls hcalls).bind fun calls' a hcalls' => hf a calls' hcalls'

theorem Tidy.call
    {op : MeshOp Peer} {k : op.Ans Msg → MeshProg Peer Msg α}
    (hop : Markless op)
    (hk : ∀ r, Tidy (k r)) :
    Tidy (.call op k) := by
  intro calls hcalls
  refine ⟨fun p hmarked => absurd hmarked (hcalls p), ?_⟩
  intro r
  exact hk r _ fun p => not_justMarked_concat hop p

theorem Tidy.op
    {op : MeshOp Peer}
    (hop : Markless op) :
    Tidy (mesh op : MeshProg Peer Msg (op.Ans Msg)) := by
  exact Tidy.call hop fun r => Tidy.pure r

theorem tidy_setPeerState
    (p : Peer)
    (state : PeerState)
    (capability : PeerCapability) :
    Tidy (setPeerState p state capability : MeshProg Peer Msg Unit) := by
  cases state with
  | handshakeValid =>
      exact Tidy.call nofun fun _ => Tidy.call nofun fun _ => Tidy.op nofun
  | handshakeInvalid =>
      intro calls hcalls
      refine ⟨fun q hmarked => absurd hmarked (hcalls q), fun _ => ⟨?_, fun _ => ?_⟩⟩
      · intro q hmarked
        rw [JustMarked, List.getLast?_concat] at hmarked
        cases hmarked
        rfl
      · exact (Tidy.call nofun fun _ => Tidy.op nofun) _ fun q => not_justMarked_concat nofun q

theorem tidy_disconnectPeer
    (p : Peer) :
    Tidy (disconnectPeer p : MeshProg Peer Msg Unit) := by
  refine (tidy_setPeerState p _ _).bind fun _ => Tidy.call nofun fun ready => ?_
  have hclose : Tidy (do
      let connected ← mesh (.connectedness p)
      if connected then mesh (.closePeer p) else pure () : MeshProg Peer Msg Unit) := by
    refine Tidy.call nofun fun connected => ?_
    cases connected with
    | true => exact Tidy.op nofun
    | false => exact Tidy.pure ()
  cases ready with
  | true => exact Tidy.call nofun fun _ => hclose
  | false => exact hclose

theorem tidy_markHandshakeValid
    (p : Peer)
    (capability : PeerCapability) :
    Tidy (markHandshakeValid p capability : MeshProg Peer Msg Unit) := by
  refine (tidy_setPeerState p _ _).bind fun _ => Tidy.call nofun fun ready => ?_
  cases ready with
  | true => exact Tidy.op nofun
  | false => exact Tidy.pure ()

variable (check : HandshakeCheck Peer Msg)

theorem tidy_runHandshakeHandler
    (p : Peer) :
    Tidy (runHandshakeHandler check p) := by
  exact Tidy.call nofun fun _ => Tidy.call nofun fun _ => Tidy.pure _

theorem tidy_sendHandshakeForPeer
    (p : Peer) :
    Tidy (sendHandshakeForPeer check p) := by
  refine Tidy.call nofun fun opened => ?_
  cases opened with
  | some err => exact Tidy.pure _
  | none =>
      refine Tidy.call nofun fun encoded => ?_
      cases encoded with
      | some err => exact (tidy_disconnectPeer p).bind fun _ => Tidy.pure _
      | none =>
          refine Tidy.call nofun fun closed => ?_
          cases closed with
          | some err => exact (tidy_disconnectPeer p).bind fun _ => Tidy.pure _
          | none =>
              refine (tidy_runHandshakeHandler check p).bind fun verdict => ?_
              cases verdict with
              | error err => exact (tidy_disconnectPeer p).bind fun _ => Tidy.pure _
              | ok capability =>
                  exact (tidy_markHandshakeValid p capability).bind fun _ => Tidy.pure _

theorem tidy_handleHandshakeStream
    (p : Peer) :
    Tidy (handleHandshakeStream check p) := by
  refine (tidy_runHandshakeHandler check p).bind fun verdict => ?_
  cases verdict with
  | error err => exact tidy_disconnectPeer p
  | ok capability =>
      refine Tidy.call nofun fun encoded => ?_
      cases encoded with
      | some err => exact tidy_disconnectPeer p
      | none => exact tidy_markHandshakeValid p capability

theorem tidy_waitPolls
    (p : Peer)
    (n : Nat) :
    Tidy (waitPolls p n : MeshProg Peer Msg Bool) := by
  induction n with
  | zero => exact Tidy.call nofun fun _ => Tidy.pure _
  | succ n ih =>
      refine Tidy.call nofun fun tick => ?_
      cases tick with
      | false => exact Tidy.call nofun fun _ => Tidy.pure _
      | true =>
          refine Tidy.call nofun fun state => ?_
          change Tidy (if state = some .handshakeValid then _ else _)
          split
          · exact Tidy.pure _
          · exact ih

theorem tidy_openConnection
    (p : Peer)
    (direction : Direction) :
    Tidy (openConnection check p direction) := by
  refine Tidy.call nofun fun state => ?_
  cases state with
  | some state =>
      cases state with
      | handshakeInvalid => exact (tidy_disconnectPeer p).bind fun _ => Tidy.pure _
      | handshakeValid =>
          refine Tidy.call nofun fun ready => ?_
          cases ready with
          | true => exact Tidy.call nofun fun _ => Tidy.call nofun fun _ => Tidy.pure _
          | false => exact Tidy.pure _
  | none =>
      cases direction with
      | inbound => exact Tidy.pure _
      | outbound =>
          refine (tidy_sendHandshakeForPeer check p).bind fun sent => ?_
          split
          · exact (tidy_disconnectPeer p).bind fun _ => Tidy.pure _
          · exact Tidy.pure _

/-- No goroutine of the node leaves a mark behind. -/
theorem tidy_program
    (activity : MeshActivity Peer) :
    Tidy (activity.program check) := by
  cases activity with
  | expiry p => exact Tidy.op nofun
  | remote arrival =>
      cases arrival with
      | handshakeStream p => exact Tidy.call nofun fun _ => tidy_handleHandshakeStream check p
      | connection p direction =>
          refine Tidy.call nofun fun _ => (tidy_openConnection check p direction).bind ?_
          intro waiting
          split
          · refine (tidy_waitPolls p 10).bind fun valid => ?_
            split
            · exact Tidy.pure _
            · exact tidy_disconnectPeer p
          · exact Tidy.pure _

end Marks

section Reconnect

variable {Peer Msg : Type} [DecidableEq Peer] {check : HandshakeCheck Peer Msg}
variable {activities : Nat → MeshActivity Peer} {s : MeshState Peer}
variable {a b : List (PoolEvent Peer Msg)} {d : MeshPool Peer Msg}
variable {p : Peer} {direction : Direction} {i : Nat} {calls : List (MeshCall Peer Msg)}
variable {rest : MeshProg Peer Msg Unit}

/-- The mark of the peer was put and its entry not written since. -/
def MarkStands (p : Peer) (a : List (PoolEvent Peer Msg)) : Prop :=
  ∃ before j after, a = before ++ ⟨j, .peersMapPut p .handshakeInvalid, ()⟩ :: after ∧
    ∀ e ∈ after, stateWrite p e.call = none

/-- The handshake of the peer failed, and since then none was verified and its entry did not
expire. -/
def FailedBefore (p : Peer) (a : List (PoolEvent Peer Msg)) : Prop :=
  ∃ before j after, a = before ++ ⟨j, .peersMapPut p .handshakeInvalid, ()⟩ :: after ∧
    ∀ k, ⟨k, .peersMapPut p .handshakeValid, ()⟩ ∉ after ∧ ⟨k, .peersMapExpire p, ()⟩ ∉ after

/-- After its lookup the goroutine only disconnects the peer. -/
def TurnedAway
    (p : Peer)
    (calls : List (MeshCall Peer Msg))
    (rest : MeshProg Peer Msg Unit) : Prop :=
  Path (disconnectPeer p >>= fun _ => pure ()) calls rest

/-- What a reconnect does first when it does not know the peer: it opens a handshake stream,
or waits for one. -/
def Direction.firstStep (p : Peer) : Direction → MeshOp Peer
  | .outbound => .newStream p
  | .inbound => .waitTick p

/-- After its lookup the goroutine goes on with the operation. -/
def GoesOnWith
    (op : MeshOp Peer)
    (calls : List (MeshCall Peer Msg))
    (rest : MeshProg Peer Msg Unit) : Prop :=
  ∃ k, Path (.call op k) calls rest

omit [DecidableEq Peer] in
theorem TurnedAway.goesOnWith
    (h : TurnedAway p calls rest) :
    GoesOnWith (.peersMapPut p .handshakeInvalid) calls rest :=
  ⟨_, h⟩

omit [DecidableEq Peer] in
theorem GoesOnWith.unique
    {op op' : MeshOp Peer}
    (h : GoesOnWith op calls rest)
    (h' : GoesOnWith op' calls rest) :
    op = op' := by
  obtain ⟨k, hpath⟩ := h
  obtain ⟨k', hpath'⟩ := h'
  rcases path_call_iff.mp hpath with ⟨rfl, hrest⟩ | ⟨r, l, rfl, -⟩
  · rcases path_call_iff.mp hpath' with ⟨-, hrest'⟩ | ⟨r', l', hnil, -⟩
    · rw [hrest] at hrest'
      injection hrest'
    · cases hnil
  · rcases path_call_iff.mp hpath' with ⟨hnil, -⟩ | ⟨r', l', hcons, -⟩
    · cases hnil
    · injection hcons with hcall
      injection hcall

omit [DecidableEq Peer] in
/-- What the goroutine of a reconnect does after its lookup. -/
theorem path_reconnect
    {state : Option PeerState}
    (h : Path ((Arrival.connection p direction).goroutine check)
      (⟨.arrive .connection, ()⟩ :: ⟨.peersMapGet p, state⟩ :: calls) rest) :
    (state = some .handshakeInvalid → TurnedAway p calls rest) ∧
    (state = none → GoesOnWith (direction.firstStep p) calls rest) := by
  cases h with
  | cons h =>
      cases h with
      | cons h =>
          constructor
          · rintro rfl
            have hdrop : Path (disconnectPeer p >>= (fun _ => pure false) >>= fun waiting =>
              if waiting then awaitHandshake p else pure ()) calls rest := h
            rw [bind_assoc] at hdrop
            exact hdrop
          · rintro rfl
            cases direction with
            | inbound | outbound => exact ⟨_, h⟩

/-- The calls that write the entry of the peer. -/
theorem stateWrite_eq_some
    {c : MeshCall Peer Msg} {written : Option PeerState}
    (h : stateWrite p c = some written) :
    (∃ state, written = some state ∧ c = ⟨.peersMapPut p state, ()⟩) ∨
      written = none ∧ (c = ⟨.peersMapDelete p, ()⟩ ∨ c = ⟨.peersMapExpire p, ()⟩) := by
  obtain ⟨op, r⟩ := c
  cases op with
  | peersMapPut q state =>
      simp only [stateWrite] at h
      split at h
      · rename_i hp
        subst hp
        exact Or.inl ⟨state, (Option.some.inj h).symm, rfl⟩
      · cases h
  | peersMapDelete q =>
      simp only [stateWrite] at h
      split at h
      · rename_i hp
        subst hp
        exact Or.inr ⟨(Option.some.inj h).symm, Or.inl rfl⟩
      · cases h
  | peersMapExpire q =>
      simp only [stateWrite] at h
      split at h
      · rename_i hp
        subst hp
        exact Or.inr ⟨(Option.some.inj h).symm, Or.inr rfl⟩
      · cases h
  | _ => cases h

theorem stateWrite_put
    (state : PeerState) :
    stateWrite p (⟨.peersMapPut p state, ()⟩ : MeshCall Peer Msg) =
      some (some state) := by
  simp [stateWrite]

theorem markStands_iff :
    MarkStands p a
      ↔
    lastWrite (stateWrite p) (a.map Event.call) = some (some .handshakeInvalid) := by
  rw [lastWrite_eq_some_iff]
  constructor
  · rintro ⟨before, j, after, rfl, hafter⟩
    refine ⟨before.map Event.call, ⟨.peersMapPut p .handshakeInvalid, ()⟩,
      after.map Event.call, by rw [List.map_append]; rfl, stateWrite_put _, ?_⟩
    intro c hc
    obtain ⟨e, he, rfl⟩ := List.mem_map.mp hc
    exact hafter e he
  · rintro ⟨before, c, after, hcalls, hc, hafter⟩
    obtain ⟨state, hstate, rfl⟩ := (stateWrite_eq_some hc).resolve_right nofun
    cases hstate
    obtain ⟨x, y, rfl, rfl, hy⟩ := List.map_eq_append_iff.mp hcalls
    obtain ⟨e, z, rfl, he, rfl⟩ := List.map_eq_cons_iff.mp hy
    obtain ⟨j, op, r⟩ := e
    cases he
    exact ⟨x, j, z, rfl, fun e he => hafter _ (List.mem_map_of_mem he)⟩

/-- The state that a lookup reads is the last one that was written. -/
theorem lookup_reads
    {state : Option PeerState}
    (hrun : Run meshSem anyStep (meshPool check activities s)
      (a ++ ⟨i, .peersMapGet p, state⟩ :: b) d) :
    state = (lastWrite (stateWrite p) (a.map Event.call)).getD (s.peersMap p) := by
  obtain ⟨u, v, hbefore, hread, -⟩ := hrun.split_at
  exact hread.1.trans (Exec.cell (writes_state (p := p)) hbefore)

/-- After a failure the entry holds the mark or nothing. -/
theorem state_after_failure
    {old : Option PeerState}
    (h : FailedBefore p a)
    (hstands : ¬ MarkStands p a) :
    (lastWrite (stateWrite p) (a.map Event.call)).getD old = none := by
  obtain ⟨before, j, after, rfl, hafter⟩ := h
  rw [markStands_iff] at hstands
  have hwrites : lastWrite (stateWrite p)
      ((before ++ ⟨j, .peersMapPut p .handshakeInvalid, ()⟩ :: after).map Event.call) =
        (lastWrite (stateWrite p) (after.map Event.call)).or (some (some .handshakeInvalid)) := by
    rw [List.append_cons, List.map_append, lastWrite_append, List.map_append]
    exact congrArg _ (lastWrite_concat (stateWrite_put _))
  rw [hwrites] at hstands ⊢
  cases hlast : lastWrite (stateWrite p) (after.map Event.call) with
  | none =>
      rw [hlast] at hstands
      exact absurd rfl hstands
  | some written =>
      rw [hlast] at hstands
      obtain ⟨c, hc, hwritten⟩ := lastWrite_eq_some hlast
      obtain ⟨⟨k, op, r⟩, he, rfl⟩ := List.mem_map.mp hc
      rcases stateWrite_eq_some hwritten with ⟨state, rfl, hcall⟩ | ⟨rfl, -⟩
      · cases hcall
        cases state with
        | handshakeValid => exact absurd he (hafter k).1
        | handshakeInvalid => exact absurd rfl hstands
      · rfl

/-- While the mark stands, the goroutine that put it is about to delete it. -/
theorem MarkStands.window
    (hstands : MarkStands p a)
    (hrun : Run meshSem anyStep (meshPool check activities s) a d) :
    ∃ j k, d.progs j = .call (.peersMapDelete p) k := by
  obtain ⟨before, j, after, rfl, hafter⟩ := hstands
  have htidy := tidy_program check (activities j) [] nofun
  have hmarked : ∀ l : List (MeshCall Peer Msg),
      JustMarked (l ++ [⟨.peersMapPut p .handshakeInvalid, ()⟩]) p := by
    intro l
    exact List.getLast?_concat
  have hcalls : callsOf j (before ++ ⟨j, .peersMapPut p .handshakeInvalid, ()⟩ :: after) =
      callsOf j before ++ [⟨.peersMapPut p .handshakeInvalid, ()⟩] ++ callsOf j after := by
    rw [callsOf_append, callsOf_cons_self, List.append_cons]
  -- the goroutine has made no call since, for its next one would be the deletion
  have hidle : callsOf j after = [] := by
    cases hnext : callsOf j after with
    | nil => rfl
    | cons c l =>
        obtain ⟨op, r⟩ := c
        have hpath := hrun.path j
        rw [hcalls, hnext] at hpath
        have hdelete : op = .peersMapDelete p := hpath.along htidy p (hmarked _)
        subst hdelete
        have hmem := mem_of_mem_callsOf (hnext ▸ List.mem_cons_self)
        have hnone := hafter _ hmem
        rw [Event.call, stateWrite, if_pos rfl] at hnone
        cases hnone
  have hhere := hrun.along htidy
  rw [hcalls, hidle, List.append_nil] at hhere
  cases hprog : d.progs j with
  | ret a =>
      rw [hprog] at hhere
      exact absurd (hmarked _) (hhere p)
  | call op k =>
      rw [hprog] at hhere
      have hdelete : op = .peersMapDelete p := hhere.1 p (hmarked _)
      subst hdelete
      exact ⟨j, k, hprog⟩

/-- A reconnect after a failed handshake is turned away exactly when its lookup falls between
the `Put` and the `Delete` of a mark; otherwise it starts a handshake or waits for one. -/
theorem turned_away_iff
    {check : HandshakeCheck Peer Msg}
    {activities : Nat → MeshActivity Peer}
    {s : MeshState Peer}
    {a b : List (PoolEvent Peer Msg)}
    {d : MeshPool Peer Msg}
    {p : Peer}
    {direction : Direction}
    {i : Nat}
    {state : Option PeerState}
    (hi : activities i = .remote (.connection p direction))
    (hrun : Run meshSem anyStep (meshPool check activities s)
      (a ++ ⟨i, .peersMapGet p, state⟩ :: b) d)
    (hfirst : callsOf i a = [⟨.arrive .connection, ()⟩])
    (hfailed : FailedBefore p a) :
    (TurnedAway p (callsOf i b) (d.progs i) ↔ MarkStands p a) ∧
    (¬ MarkStands p a → GoesOnWith (direction.firstStep p) (callsOf i b) (d.progs i)) ∧
    (MarkStands p a → ∃ m j k, Run meshSem anyStep (meshPool check activities s) a m ∧
      m.progs j = .call (.peersMapDelete p) k) := by
  have hstate := lookup_reads hrun
  have hpath := hrun.path i
  rw [callsOf_append, callsOf_cons_self, hfirst] at hpath
  have hprog : (meshPool check activities s).progs i =
      (Arrival.connection p direction).goroutine check := by
    show (activities i).program check = _
    rw [hi]
    rfl
  rw [hprog] at hpath
  obtain ⟨hinvalid, hnone⟩ := path_reconnect hpath
  have hother : ¬ MarkStands p a →
      GoesOnWith (direction.firstStep p) (callsOf i b) (d.progs i) := by
    intro hstands
    exact hnone (hstate.trans (state_after_failure hfailed hstands))
  refine ⟨⟨?_, ?_⟩, hother, ?_⟩
  · intro haway
    by_contra hstands
    have hop := (hother hstands).unique haway.goesOnWith
    cases direction <;> cases hop
  · intro hstands
    refine hinvalid ?_
    rw [hstate, markStands_iff.mp hstands]
    rfl
  · intro hstands
    obtain ⟨m, hfront, -⟩ := hrun.split
    obtain ⟨j, k, hnext⟩ := hstands.window hfront
    exact ⟨m, j, k, hfront, hnext⟩

/-- A handshake stream of the peer `7`, and a connection from it. -/
def failThenReconnect : Nat → MeshActivity Nat
  | 0 => .remote (.handshakeStream 7)
  | _ => .remote (.connection 7 .inbound)

/-- The handshake of the peer is refused, up to the mark. -/
def markedTrace : List (PoolEvent Nat Handshake) :=
  [⟨0, .arrive .handshakeStream, ()⟩, ⟨0, .loadHandler, .builtIn⟩,
    ⟨0, .readHandshake .builtIn 7, ⟨"mainnet"⟩⟩, ⟨0, .peersMapPut 7 .handshakeInvalid, ()⟩]

/-- What the refusal does after the mark. -/
def droppedTrace : List (PoolEvent Nat Handshake) :=
  [⟨0, .peersMapDelete 7, ()⟩, ⟨0, .approvedDelete 7, ()⟩, ⟨0, .capabilitiesDelete 7, ()⟩,
    ⟨0, .pubsubReady, true⟩, ⟨0, .denyPeer 7, ()⟩, ⟨0, .connectedness 7, true⟩,
    ⟨0, .closePeer 7, ()⟩]

/-- The configuration of the example. -/
abbrev failThenReconnectPool : MeshPool Nat Handshake :=
  meshPool hoodiCheck failThenReconnect (MeshState.constructed .builtIn)

/-- The peer is refused and dropped, reconnects, and the node waits for a handshake. -/
theorem run_reconnect_after_drop :
    ∃ d, Run meshSem anyStep failThenReconnectPool
        (markedTrace ++ (droppedTrace ++ [⟨1, .arrive .connection, ()⟩]) ++
          ⟨1, .peersMapGet 7, none⟩ :: [⟨1, .waitTick 7, true⟩]) d := by
  refine ⟨_, Run.next rfl ⟨rfl, rfl⟩ (Run.next rfl ⟨rfl, rfl⟩ (Run.next rfl rfl (Run.next rfl rfl
    (Run.next rfl rfl (Run.next rfl rfl (Run.next rfl rfl (Run.next rfl ⟨rfl, rfl⟩
    (Run.next rfl rfl (Run.next rfl rfl (Run.next rfl rfl (Run.next rfl ⟨rfl, rfl⟩
    (Run.next rfl ⟨rfl, rfl⟩ (Run.next rfl rfl (Run.nil _))))))))))))))⟩

/-- A peer that was just dropped for a failed handshake is not turned away. -/
theorem dropped_peer_awaited :
    ¬ ∀ (activities : Nat → MeshActivity Nat) (a b : List (PoolEvent Nat Handshake))
        (d : MeshPool Nat Handshake) (direction : Direction) (i : Nat)
        (state : Option PeerState),
      activities i = .remote (.connection 7 direction) →
      Run meshSem anyStep (meshPool hoodiCheck activities (MeshState.constructed .builtIn))
        (a ++ ⟨i, .peersMapGet 7, state⟩ :: b) d →
      callsOf i a = [⟨.arrive .connection, ()⟩] →
      FailedBefore 7 a →
      TurnedAway 7 (callsOf i b) (d.progs i) := by
  intro h
  obtain ⟨d, hrun⟩ := run_reconnect_after_drop
  have haway := h failThenReconnect _ _ d .inbound 1 none rfl hrun rfl
    ⟨markedTrace.take 3, 0, droppedTrace ++ [⟨1, .arrive .connection, ()⟩], rfl, fun k => by
      simp [droppedTrace]⟩
  rcases path_call_iff.mp haway with ⟨hnil, -⟩ | ⟨r, l, hcons, -⟩
  · cases hnil
  · cases hcons

/-- A reconnect whose lookup comes right after the mark is turned away. -/
theorem turned_away_in_window :
    ∃ d, Run meshSem anyStep failThenReconnectPool
        (markedTrace ++ [⟨1, .arrive .connection, ()⟩] ++
          ⟨1, .peersMapGet 7, some .handshakeInvalid⟩ :: []) d ∧
      FailedBefore 7 (markedTrace ++ [⟨1, .arrive .connection, ()⟩]) ∧
      TurnedAway 7 [] (d.progs 1) := by
  have hrun : ∃ d, Run meshSem anyStep failThenReconnectPool
      (markedTrace ++ [⟨1, .arrive .connection, ()⟩] ++
        ⟨1, .peersMapGet 7, some .handshakeInvalid⟩ :: []) d := by
    refine ⟨_, Run.next rfl ⟨rfl, rfl⟩ (Run.next rfl ⟨rfl, rfl⟩ (Run.next rfl rfl
      (Run.next rfl rfl (Run.next rfl ⟨rfl, rfl⟩ (Run.next rfl ⟨rfl, rfl⟩ (Run.nil _))))))⟩
  obtain ⟨d, hrun⟩ := hrun
  have hfailed : FailedBefore 7 (markedTrace ++ [⟨1, .arrive .connection, ()⟩]) :=
    ⟨markedTrace.take 3, 0, [⟨1, .arrive .connection, ()⟩], rfl, fun k => by simp⟩
  have hstands : MarkStands 7 (markedTrace ++ [⟨1, .arrive .connection, ()⟩]) :=
    ⟨markedTrace.take 3, 0, [⟨1, .arrive .connection, ()⟩], rfl, by
      simp [stateWrite, Event.call]⟩
  refine ⟨d, hrun, hfailed, ?_⟩
  have hi : failThenReconnect 1 = .remote (.connection 7 .inbound) := rfl
  exact (turned_away_iff hi hrun rfl hfailed).1.mpr hstands

end Reconnect

end MumP2P
end OptimumGateway
