import OptimumGateway.Foundation.Bytes
import OptimumGateway.Foundation.Polling
import OptimumGateway.MumP2P.Handshake

/-!
# From bootstrap nodes to discovery

This module models `pkg/service/mum_p2p/bootstrap.go`, `waitHandshakeValid` of
`handshake.go`, and the list of peers that `RegisterAndGetMumP2PPeers` of the bootstrapper
returns.  Instants are in nanoseconds.

An attempt succeeds when it finds the state of a listed peer to be valid while it polls.  The
state is written when a handshake is verified and is gone 15 seconds later, and a peer that
stays connected makes no other handshake.  Attempts poll for 15 seconds and are 60 seconds
apart, and an entry that names this node is skipped.

`discovery_starts_iff` is about surroundings in which, from some instant on, every listed peer
but this node is connected after a verified handshake.  Discovery starts exactly when the list
is empty, or an attempt before that instant has seen a handshake, or one after it has a
handshake in sight: less than 14 seconds before its start, or while it polls.
-/

namespace OptimumGateway
namespace MumP2P
namespace Bootstrap

open Foundation

section Registration

/-- What the bootstrap server says about a gateway. -/
structure RegisteredGateway where
  gatewayID : String
  p2pAddr : String

/-- The loop of `RegisterAndGetMumP2PPeers`: an address that cannot be parsed is skipped,
another key under the own id is an error, and the own address is kept. -/
def mumP2PPeers
    (addressInfo : String → Except GoError Bytes)
    (idString : Bytes → String)
    (gatewayID : String)
    (predicted : Bytes) : List RegisteredGateway → Except GoError (List String)
  | [] => .ok []
  | gateway :: rest =>
      match addressInfo gateway.p2pAddr with
      | .error _ => mumP2PPeers addressInfo idString gatewayID predicted rest
      | .ok id =>
          if gateway.gatewayID = gatewayID ∧ idString id ≠ idString predicted then
            .error (.new "gateway with same ID already exists")
          else do
            let result ← mumP2PPeers addressInfo idString gatewayID predicted rest
            pure (gateway.p2pAddr :: result)

/-- A gateway that is the only one registered gets itself. -/
theorem mumP2PPeers_self
    {addressInfo : String → Except GoError Bytes} {predicted : Bytes} {addr : String}
    (idString : Bytes → String)
    (gatewayID : String)
    (haddr : addressInfo addr = .ok predicted) :
    mumP2PPeers addressInfo idString gatewayID predicted [⟨gatewayID, addr⟩] = .ok [addr] := by
  simp [mumP2PPeers, haddr, pure, bind, Except.pure, Except.bind]

end Registration

section Model

def second : Nat := 1000000000

/-- The time for an attempt, and for a handshake to become valid. -/
def timeout : Nat := 15 * second

/-- The time between two looks at the state of a peer. -/
def interval : Nat := 1 * second

/-- The time between two attempts. -/
def sleepTime : Nat := 60 * second

/-- The lifetime of an entry of `peersMap`. -/
def stateTTL : Nat := 15 * second

/-- The state of a peer is put or deleted. -/
structure StateMark where
  instant : Nat
  state : Option PeerState

/-- What the loop finds around it. -/
structure Surroundings where
  self : Bytes
  bootstrapNodes : List Bytes
  /-- The instant at which the context of the node is done. -/
  ctxDone : Option Nat
  connected : Bytes → Nat → Bool
  /-- How long `Connect` takes from an instant on, if it succeeds. -/
  connect : Bytes → Nat → Option Nat
  /-- The marks of a peer, oldest first. -/
  marks : Bytes → List StateMark
  /-- Whether `select` takes a tick that comes with the deadline. -/
  tickWins : Bytes → Nat → Bool

variable (env : Surroundings)

def getPeerState (id : Bytes) (now : Nat) : Option PeerState :=
  match ((env.marks id).filter fun mark => mark.instant ≤ now).getLast? with
  | none => none
  | some mark => if now < mark.instant + stateTTL then mark.state else none

/-- The deadline of a context with a timeout. -/
def deadline (start : Nat) : Nat :=
  match env.ctxDone with
  | none => start + timeout
  | some done => min (start + timeout) done

def tickTaken (limit : Nat) (id : Bytes) (tick : Nat) : Bool :=
  tick < limit || (tick = limit && env.tickWins id tick)

/-- The tick at which the state is found valid. -/
def waitHandshakeValid (limit : Nat) (id : Bytes) (start : Nat) : Option Nat :=
  poll (tickTaken env (min limit (start + timeout)) id)
    (fun tick => getPeerState env id tick = some .handshakeValid) interval 16 (start + interval)

/-- When a peer is reached: it is connected, or `Connect` succeeds before the deadline. -/
def reached (start : Nat) (id : Bytes) : Option Nat :=
  if env.connected id start then
    some start
  else
    match env.connect id start with
    | none => none
    | some delay => if start + delay < deadline env start then some (start + delay) else none

/-- The goroutine of one entry of the list. -/
def dial (start : Nat) (id : Bytes) : Option Nat :=
  if id = env.self then
    none
  else if id = [] then
    none
  else
    match reached env start id with
    | none => none
    | some since => waitHandshakeValid env (deadline env start) id since

/-- The instant of the first success, or none once the deadline is over. -/
def connectToBootstrapNodes (start : Nat) : Option Nat :=
  (env.bootstrapNodes.filterMap (dial env start)).min?

/-- How the loop ends. -/
inductive BootstrapEnd where
  | cancelled
  | discovery (instant : Nat)
deriving DecidableEq

/-- One round of the loop; none if it goes on. -/
def bootstrapRound (now : Nat) : Option BootstrapEnd :=
  if env.ctxDone.any (· ≤ now) then
    some .cancelled
  else if env.bootstrapNodes = [] then
    some (.discovery now)
  else
    (connectToBootstrapNodes env now).map .discovery

/-- A number of rounds of the loop; a failed attempt lasts until its deadline. -/
def retryBootstrapConnect (rounds now : Nat) : Option BootstrapEnd :=
  retry (bootstrapRound env) (fun start => deadline env start + sleepTime) rounds now

/-- The loop starts `advertiseAndDiscover`. -/
def DiscoveryStarts (now : Nat) : Prop :=
  ∃ rounds instant, retryBootstrapConnect env rounds now = some (.discovery instant)

end Model

section Attempts

variable {env : Surroundings} {id : Bytes} {start : Nat}

/-- The attempt sees a verified handshake of the peer. -/
def SeenIn (env : Surroundings) (start : Nat) (id : Bytes) : Prop :=
  ∃ since k, reached env start id = some since ∧
    tickTaken env (deadline env start) id (since + (k + 1) * interval) = true ∧
    getPeerState env id (since + (k + 1) * interval) = some .handshakeValid

theorem takenUpTo_tickTaken
    (limit : Nat)
    (id : Bytes) :
    TakenUpTo (tickTaken env limit id) := by
  intro t t' hle htaken
  rcases Nat.eq_or_lt_of_le hle with rfl | hlt
  · exact htaken
  · have hlimit : t' ≤ limit := by
      rcases Bool.or_eq_true_iff.mp htaken with hbefore | hlast
      · exact (of_decide_eq_true hbefore).le
      · exact (of_decide_eq_true (Bool.and_eq_true_iff.mp hlast).1).le
    exact Bool.or_eq_true_iff.mpr (Or.inl (decide_eq_true (hlt.trans_le hlimit)))

theorem tickTaken_of_gt
    {limit tick : Nat}
    (h : limit < tick) :
    tickTaken env limit id tick = false := by
  simp [tickTaken, h.not_gt, h.ne']

theorem deadline_le
    (start : Nat) :
    deadline env start ≤ start + timeout := by
  unfold deadline
  cases env.ctxDone with
  | none => exact Nat.le_refl _
  | some done => exact Nat.min_le_left _ _

theorem start_le_of_reached
    {since : Nat}
    (h : reached env start id = some since) :
    start ≤ since := by
  unfold reached at h
  split at h
  · cases h
    exact Nat.le_refl _
  · split at h
    · exact nomatch h
    · split at h
      · cases h
        exact Nat.le_add_right _ _
      · exact nomatch h

/-- The rounds of the wait suffice for its time. -/
theorem waitHandshakeValid_isSome_iff
    {limit since : Nat} :
    (waitHandshakeValid env limit id since).isSome = true
      ↔
    ∃ k, tickTaken env (min limit (since + timeout)) id (since + (k + 1) * interval) = true ∧
      getPeerState env id (since + (k + 1) * interval) = some .handshakeValid := by
  have hlate : min limit (since + timeout) < since + interval + 16 * interval := by
    have hmin := Nat.min_le_right limit (since + timeout)
    have hsixteen : timeout < interval + 16 * interval := by
      decide
    omega
  have htick : ∀ k, since + interval + k * interval = since + (k + 1) * interval := by
    intro k
    rw [Nat.succ_mul]
    omega
  unfold waitHandshakeValid
  rw [poll_isSome_iff (takenUpTo_tickTaken _ _) (tickTaken_of_gt hlate)]
  simp only [htick, decide_eq_true_eq]

theorem dial_isSome_iff :
    (dial env start id).isSome = true ↔ id ≠ env.self ∧ id ≠ [] ∧ SeenIn env start id := by
  unfold dial
  by_cases hself : id = env.self
  · simp [hself]
  · by_cases hempty : id = []
    · simp [hempty]
    · rw [if_neg hself, if_neg hempty]
      cases hreached : reached env start id with
      | none => simp [SeenIn, hreached]
      | some since =>
          have hlimit : min (deadline env start) (since + timeout) = deadline env start := by
            have hstart := start_le_of_reached hreached
            have hdeadline : deadline env start ≤ start + timeout := deadline_le start
            exact Nat.min_eq_left (hdeadline.trans (Nat.add_le_add_right hstart _))
          rw [waitHandshakeValid_isSome_iff, hlimit]
          simp [SeenIn, hreached, hself, hempty]

theorem connectToBootstrapNodes_isSome_iff :
    (connectToBootstrapNodes env start).isSome = true
      ↔
    ∃ id ∈ env.bootstrapNodes, id ≠ env.self ∧ id ≠ [] ∧ SeenIn env start id := by
  have hsome : ∀ l : List Nat, l.min?.isSome = true ↔ ∃ t, t ∈ l := by
    intro l
    cases l with
    | nil => simp
    | cons t l => simp [List.min?_cons]
  rw [connectToBootstrapNodes, hsome]
  constructor
  · rintro ⟨t, ht⟩
    obtain ⟨id, hid, hdial⟩ := List.mem_filterMap.mp ht
    exact ⟨id, hid, dial_isSome_iff.mp (by rw [hdial]; rfl)⟩
  · rintro ⟨id, hid, hseen⟩
    obtain ⟨t, ht⟩ := Option.isSome_iff_exists.mp (dial_isSome_iff.mpr hseen)
    exact ⟨t, List.mem_filterMap.mpr ⟨id, hid, ht⟩⟩

/-- The start of an attempt after failed ones. -/
def attemptStart (now i : Nat) : Nat :=
  now + i * (timeout + sleepTime)

theorem bootstrapRound_isSome_iff
    (hctx : env.ctxDone = none) :
    (bootstrapRound env start).isSome = true
      ↔
    env.bootstrapNodes = [] ∨
      ∃ id ∈ env.bootstrapNodes, id ≠ env.self ∧ id ≠ [] ∧ SeenIn env start id := by
  rw [bootstrapRound, hctx, Option.any_none, if_neg Bool.false_ne_true]
  by_cases hnodes : env.bootstrapNodes = []
  · simp [hnodes]
  · rw [if_neg hnodes, Option.isSome_map, connectToBootstrapNodes_isSome_iff]
    simp [hnodes]

/-- A loop that is not cancelled can only end with discovery. -/
theorem discovery_of_isSome
    {rounds now : Nat}
    (hctx : env.ctxDone = none)
    (h : (retryBootstrapConnect env rounds now).isSome = true) :
    ∃ instant, retryBootstrapConnect env rounds now = some (.discovery instant) := by
  have hround : ∀ start, bootstrapRound env start ≠ some .cancelled := by
    intro start
    rw [bootstrapRound, hctx, Option.any_none, if_neg Bool.false_ne_true]
    split
    · exact nofun
    · cases connectToBootstrapNodes env start with
      | none | some t => exact nofun
  induction rounds generalizing now with
  | zero => exact nomatch h
  | succ rounds ih =>
      rw [retryBootstrapConnect, retry] at h ⊢
      cases hnow : bootstrapRound env now with
      | none =>
          rw [hnow] at h
          exact ih h
      | some result =>
          cases result with
          | cancelled => exact absurd hnow (hround now)
          | discovery instant => exact ⟨instant, rfl⟩

theorem discoveryStarts_iff_seen
    {now : Nat}
    (hctx : env.ctxDone = none) :
    DiscoveryStarts env now
      ↔
    env.bootstrapNodes = [] ∨ ∃ i, ∃ id ∈ env.bootstrapNodes,
      id ≠ env.self ∧ id ≠ [] ∧ SeenIn env (attemptStart now i) id := by
  have hstarts : DiscoveryStarts env now
      ↔ ∃ rounds, (retryBootstrapConnect env rounds now).isSome = true := by
    constructor
    · rintro ⟨rounds, instant, h⟩
      exact ⟨rounds, by rw [h]; rfl⟩
    · rintro ⟨rounds, h⟩
      exact ⟨rounds, discovery_of_isSome hctx h⟩
  have hiterate : ∀ i, (fun start => deadline env start + sleepTime)^[i] now =
      attemptStart now i := by
    intro i
    induction i with
    | zero => simp [attemptStart]
    | succ i ih =>
        rw [Function.iterate_succ_apply', ih]
        simp only [deadline, hctx, attemptStart, Nat.succ_mul]
        omega
  rw [hstarts]
  unfold retryBootstrapConnect
  rw [exists_retry_iff]
  simp only [hiterate, bootstrapRound_isSome_iff hctx]
  by_cases hnodes : env.bootstrapNodes = []
  · simp [hnodes]
  · simp [hnodes]

end Attempts

section Settled

/-- From an instant on, every listed peer but this node is connected, and the latest mark of
it is a verified handshake. -/
structure SettledFrom (env : Surroundings) (settled : Nat) : Prop where
  connected : ∀ id ∈ env.bootstrapNodes, id ≠ env.self →
    ∀ now, settled ≤ now → env.connected id now = true
  verified : ∀ id ∈ env.bootstrapNodes, id ≠ env.self → ∀ now, settled ≤ now →
    ∃ mark, ((env.marks id).filter fun mark => mark.instant ≤ now).getLast? = some mark ∧
      mark.state = some .handshakeValid
  ordered : ∀ id ∈ env.bootstrapNodes, id ≠ env.self →
    (env.marks id).Pairwise fun mark mark' => mark.instant ≤ mark'.instant

/-- The last tick of an attempt for a peer that is connected when it starts. -/
def lastTick (env : Surroundings) (start : Nat) (id : Bytes) : Nat :=
  if env.tickWins id (start + timeout) then start + timeout else start + timeout - interval

/-- A handshake that an attempt can see: it is verified before the last tick, and is not
forgotten at the first one. -/
def InSight (env : Surroundings) (start : Nat) (id : Bytes) : Prop :=
  ∃ mark ∈ env.marks id, mark.state = some .handshakeValid ∧
    start + interval < mark.instant + stateTTL ∧ mark.instant ≤ lastTick env start id

variable {env : Surroundings} {id : Bytes} {now settled : Nat}

/-- No mark of an ordered list is later than the last one. -/
theorem instant_le_of_getLast
    {marks : List StateMark} {mark last : StateMark}
    (hordered : marks.Pairwise fun mark mark' => mark.instant ≤ mark'.instant)
    (hmem : mark ∈ marks)
    (hlast : marks.getLast? = some last) :
    mark.instant ≤ last.instant := by
  obtain ⟨front, rfl⟩ := List.getLast?_eq_some_iff.mp hlast
  rcases List.mem_append.mp hmem with hfront | hmem
  · exact (List.pairwise_append.mp hordered).2.2 mark hfront last (List.mem_singleton.mpr rfl)
  · rw [List.mem_singleton.mp hmem]

/-- The state of a settled peer is valid while some handshake of it is fresh. -/
theorem SettledFrom.getPeerState_iff
    (h : SettledFrom env settled)
    (hid : id ∈ env.bootstrapNodes)
    (hself : id ≠ env.self)
    (hnow : settled ≤ now) :
    getPeerState env id now = some .handshakeValid
      ↔
    ∃ mark ∈ env.marks id, mark.state = some .handshakeValid ∧ mark.instant ≤ now ∧
      now < mark.instant + stateTTL := by
  obtain ⟨last, hlast, hvalid⟩ := h.verified id hid hself now hnow
  have hordered := (h.ordered id hid hself).filter fun mark => mark.instant ≤ now
  have hread : getPeerState env id now =
      if now < last.instant + stateTTL then last.state else none := by
    rw [getPeerState, hlast]
  rw [hread]
  constructor
  · intro hstate
    obtain ⟨hmem, hbefore⟩ := List.mem_filter.mp (List.mem_of_getLast? hlast)
    refine ⟨last, hmem, hvalid, of_decide_eq_true hbefore, ?_⟩
    by_contra hold
    rw [if_neg hold] at hstate
    exact nomatch hstate
  · rintro ⟨mark, hmem, -, hbefore, hfresh⟩
    have hle := instant_le_of_getLast hordered
      (List.mem_filter.mpr ⟨hmem, decide_eq_true hbefore⟩) hlast
    rw [if_pos (by omega), hvalid]

/-- The ticks of an attempt that finds the peer connected. -/
theorem tickTaken_iff
    {start k : Nat}
    (hctx : env.ctxDone = none) :
    tickTaken env (deadline env start) id (start + (k + 1) * interval) = true
      ↔
    start + (k + 1) * interval ≤ lastTick env start id := by
  have hdeadline : deadline env start = start + timeout := by
    rw [deadline, hctx]
  rw [hdeadline, tickTaken, lastTick, Bool.or_eq_true, Bool.and_eq_true, decide_eq_true_eq,
    decide_eq_true_eq]
  cases hwins : env.tickWins id (start + timeout) with
  | true =>
      rw [if_pos rfl]
      constructor
      · rintro (hlt | ⟨heq, -⟩)
        · exact hlt.le
        · exact heq.le
      · intro hle
        rcases Nat.eq_or_lt_of_le hle with heq | hlt
        · exact Or.inr ⟨heq, by rw [heq, hwins]⟩
        · exact Or.inl hlt
  | false =>
      rw [if_neg Bool.false_ne_true]
      constructor
      · rintro (hlt | ⟨heq, htick⟩)
        · unfold interval timeout second at *
          omega
        · rw [heq, hwins] at htick
          exact nomatch htick
      · intro hle
        unfold interval timeout second at *
        omega

/-- A settled peer is seen only by an attempt that has one of its handshakes in sight. -/
theorem SettledFrom.seenIn_iff
    (h : SettledFrom env settled)
    (hctx : env.ctxDone = none)
    (hid : id ∈ env.bootstrapNodes)
    (hself : id ≠ env.self)
    (hnow : settled ≤ now) :
    SeenIn env now id ↔ InSight env now id := by
  have hreached : reached env now id = some now := by
    rw [reached, if_pos (h.connected id hid hself now hnow)]
  have hstate := fun k => h.getPeerState_iff hid hself
    (hnow.trans (Nat.le_add_right now ((k + 1) * interval)))
  constructor
  · rintro ⟨since, k, hsince, htaken, hvalid⟩
    rw [hreached] at hsince
    cases hsince
    rw [tickTaken_iff hctx] at htaken
    obtain ⟨mark, hmem, hverified, hbefore, hfresh⟩ := (hstate k).mp hvalid
    have hfirst : interval ≤ (k + 1) * interval := Nat.le_mul_of_pos_left _ (Nat.succ_pos k)
    exact ⟨mark, hmem, hverified, by omega, by omega⟩
  · rintro ⟨mark, hmem, hverified, hfresh, hlast⟩
    -- the first tick that does not come before the handshake
    obtain ⟨k, hbefore, hafter, hk⟩ : ∃ k, mark.instant ≤ now + (k + 1) * interval ∧
        now + (k + 1) * interval < mark.instant + stateTTL ∧
        now + (k + 1) * interval ≤ lastTick env now id := by
      have hgrid : lastTick env now id = now + 14 * interval ∨
          lastTick env now id = now + 15 * interval := by
        unfold lastTick timeout interval
        split
        · right
          omega
        · left
          omega
      refine ⟨(mark.instant - now - 1) / second, ?_⟩
      generalize lastTick env now id = last at hlast hgrid ⊢
      unfold interval stateTTL second at *
      omega
    exact ⟨now, k, hreached, (tickTaken_iff hctx).mpr hk,
      (hstate k).mpr ⟨mark, hmem, hverified, hbefore, hafter⟩⟩

/-- Discovery starts exactly when the list is empty, or an attempt that begins before
everything is settled sees a handshake, or one that begins later has a handshake in sight. -/
theorem discovery_starts_iff
    (hctx : env.ctxDone = none)
    (hsettled : SettledFrom env settled) :
    DiscoveryStarts env now
      ↔
    env.bootstrapNodes = [] ∨ ∃ i, ∃ id ∈ env.bootstrapNodes, id ≠ env.self ∧ id ≠ [] ∧
      ((attemptStart now i < settled ∧ SeenIn env (attemptStart now i) id) ∨
        (settled ≤ attemptStart now i ∧ InSight env (attemptStart now i) id)) := by
  have hseen : ∀ i, ∀ id ∈ env.bootstrapNodes, id ≠ env.self →
      (SeenIn env (attemptStart now i) id
        ↔
      (attemptStart now i < settled ∧ SeenIn env (attemptStart now i) id) ∨
        (settled ≤ attemptStart now i ∧ InSight env (attemptStart now i) id)) := by
    intro i id hid hself
    rcases Nat.lt_or_ge (attemptStart now i) settled with hbefore | hafter
    · simp [hbefore, hbefore.not_ge]
    · rw [hsettled.seenIn_iff hctx hid hself hafter]
      simp [hafter, hafter.not_gt]
  rw [discoveryStarts_iff_seen hctx]
  exact or_congr Iff.rfl (exists_congr fun i => exists_congr fun id => and_congr_right fun hid =>
    and_congr_right fun hself => and_congr_right fun _ => hseen i id hid hself)

end Settled

section LoneGateway

def ownID : Bytes := [1]

def otherID : Bytes := [2]

/-- The list names nobody but this node, as the registration of a first gateway does. -/
def alone : Surroundings where
  self := ownID
  bootstrapNodes := [ownID]
  ctxDone := none
  connected := fun _ _ => false
  connect := fun _ _ => none
  marks := fun _ => []
  tickWins := fun _ _ => true

/-- The other peer cannot be dialled; it dials at an instant, makes its handshake, and stays. -/
def dialledAt (instant : Nat) : Surroundings where
  self := ownID
  bootstrapNodes := [otherID]
  ctxDone := none
  connected := fun _ now => instant ≤ now
  connect := fun _ _ => none
  marks := fun _ => [⟨instant, some .handshakeValid⟩]
  tickWins := fun _ _ => true

theorem settled_alone :
    SettledFrom alone 0 := by
  have hnone : ∀ id ∈ alone.bootstrapNodes, ¬ id ≠ alone.self := by
    decide
  exact ⟨fun id hid hself => absurd hself (hnone id hid),
    fun id hid hself => absurd hself (hnone id hid),
    fun id hid hself => absurd hself (hnone id hid)⟩

theorem settled_dialledAt
    (instant : Nat) :
    SettledFrom (dialledAt instant) instant := by
  refine ⟨?_, ?_, fun _ _ _ => List.pairwise_singleton _ _⟩
  · intro id _ _ now hnow
    exact decide_eq_true hnow
  · intro id _ _ now hnow
    exact ⟨⟨instant, some .handshakeValid⟩, by simp [dialledAt, hnow], rfl⟩

/-- A gateway that is listed alone never starts discovery, and neither does one whose only peer
has made its handshake while the loop was asleep. -/
theorem discovery_never_starts :
    mumP2PPeers (fun _ => .ok ownID) (fun _ => "own") "gateway" ownID
        [⟨"gateway", "/ip4/10.0.0.1/tcp/33212/p2p/own"⟩] =
      .ok ["/ip4/10.0.0.1/tcp/33212/p2p/own"] ∧
    SettledFrom alone 0 ∧
    ¬ DiscoveryStarts alone 0 ∧
    SettledFrom (dialledAt (40 * second)) (40 * second) ∧
    ¬ DiscoveryStarts (dialledAt (40 * second)) 0 := by
  refine ⟨mumP2PPeers_self _ _ rfl, settled_alone, ?_, settled_dialledAt _, ?_⟩
  · rw [discoveryStarts_iff_seen rfl]
    rintro (hempty | ⟨i, id, hid, hself, -⟩)
    · exact nomatch hempty
    · exact hself (List.mem_singleton.mp hid)
  · rw [discoveryStarts_iff_seen rfl]
    rintro (hempty | ⟨i, id, hid, hself, -, hseen⟩)
    · exact nomatch hempty
    · cases i with
      | zero =>
          -- the first attempt cannot reach the peer
          obtain ⟨since, k, hsince, -⟩ := hseen
          exact nomatch hsince
      | succ i =>
          have hstart : 75 * second ≤ attemptStart 0 (i + 1) := by
            unfold attemptStart timeout sleepTime second
            omega
          have hafter : 40 * second ≤ attemptStart 0 (i + 1) :=
            (Nat.mul_le_mul_right second (by decide)).trans hstart
          obtain ⟨mark, hmem, -, hfresh, -⟩ :=
            ((settled_dialledAt (40 * second)).seenIn_iff rfl hid hself hafter).mp hseen
          have hmark : mark.instant = 40 * second := by
            rw [List.mem_singleton.mp hmem]
          rw [hmark] at hfresh
          unfold interval stateTTL second at *
          omega

/-- A peer that dials shortly before the second attempt is seen by it. -/
theorem discovery_starts_dialled :
    SettledFrom (dialledAt (70 * second)) (70 * second) ∧
      DiscoveryStarts (dialledAt (70 * second)) 0 := by
  refine ⟨settled_dialledAt _, (discovery_starts_iff rfl (settled_dialledAt _)).mpr ?_⟩
  refine Or.inr ⟨1, otherID, by decide, by decide, by decide, Or.inr ⟨by decide, ?_⟩⟩
  exact ⟨⟨70 * second, some .handshakeValid⟩, List.mem_singleton.mpr rfl, rfl, by decide,
    by decide⟩

end LoneGateway

end Bootstrap
end MumP2P
end OptimumGateway
