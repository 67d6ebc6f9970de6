import OptimumGateway.GossipsubGateway.MessagesProxy
import OptimumGateway.Protocol.Slots

/-!
# Consumer streams

This module models the hub of `pkg/service/streamhub` and the two transports of
`pkg/service/stream` from the moment a consumer is admitted and subscribed.

A connection has two goroutines.  The send loop waits in a `select` for an event of its
subscription, a refreshed token or a tick; it is the only one that writes frames.  The
reader takes tokens from the client and hands them to the loop through a channel with one
slot.  Any number of other goroutines emit events into the hub.

The loops of the two transports differ in the ping of the WebSocket and in how a stream
that is cut ends.  They are one program with the transport as a parameter.  A loop is
unrolled a given number of times; every finite run of the source's loop is a run of an
unrolling.
-/

namespace OptimumGateway
namespace Stream

open Foundation Foundation.Prog Protocol GossipsubGateway

inductive Transport where
  | ws
  | grpc
deriving DecidableEq

inductive ReauthMode where
  | off
  | observe
  | enforce
deriving DecidableEq

/-- What the loops read from their configuration. -/
structure Config where
  reauthMode : ReauthMode
  heartbeats : Bool
  genesis : Time

inductive Frame where
  | lagged (dropped : UInt64)
  | block (ev : BlockEvent)
  | heartbeat (lastSlot expectedSlot silenceMs : UInt64)
  | ping
  | close (reason : String)
deriving DecidableEq

/-- The cases of the `select` that a loop has besides its channels. -/
structure Ticks where
  ping : Bool
  reauth : Bool
  heartbeat : Bool
deriving DecidableEq

/-- The case that a `select` takes. -/
inductive LoopCase where
  | done
  | events (ev : Option BlockEvent)
  | refresh (token : String)
  | reauth
  | heartbeat
  | ping
deriving DecidableEq

inductive StreamOp where
  | emit (ev : BlockEvent)
  | select (key : String) (ticks : Ticks)
  | dropped (key : String)
  | send (key : String) (frame : Frame)
  | close (key : String)
  | now
  | authenticate (token : String)
  | drain (key : String)
  | offer (key token : String)
deriving DecidableEq

/-- A frame is sent or the connection fails; a token authenticates as a subject or not. -/
abbrev StreamOp.Ans : StreamOp → Type
  | .emit _ => Unit
  | .select _ _ => LoopCase
  | .dropped _ => UInt64
  | .send _ _ => Bool
  | .close _ => Unit
  | .now => Time
  | .authenticate _ => Option String
  | .drain _ => Option String
  | .offer _ _ => Bool

abbrev StreamProg := Prog StreamOp StreamOp.Ans

abbrev StreamCall := Call StreamOp StreamOp.Ans

abbrev stream (op : StreamOp) : StreamProg op.Ans :=
  Prog.op op

section Frames

/-- The WebSocket frame of an event; the raw block goes out in raw mode only. -/
def writeBlock (raw : Bool) (ev : BlockEvent) : BlockEvent :=
  if !raw && ev.raw ≠ [] then { ev with raw := [] } else ev

/-- The gRPC frame of an event. -/
def toProto (raw : Bool) (ev : BlockEvent) : BlockEvent where
  slot := ev.slot
  proposerIndex := ev.proposerIndex
  parentRoot := ev.parentRoot
  stateRoot := ev.stateRoot
  blockSizeBytes := ev.blockSizeBytes
  topic := ev.topic
  source := ev.source
  receivedAtMs := ev.receivedAtMs
  gatewayID := ev.gatewayID
  forkDigest := ev.forkDigest
  stale := ev.stale
  raw := if raw then ev.raw else []

def Transport.encode : Transport → Bool → BlockEvent → BlockEvent
  | .ws => writeBlock
  | .grpc => toProto

/-- `livenessState`. -/
structure LivenessState where
  lastSlot : UInt64
  lastBlock : Int64

def LivenessState.observe (slot : UInt64) (now : Time) : LivenessState :=
  ⟨slot, now.unixMilli⟩

/-- The heartbeat frame at an instant. -/
def LivenessState.snapshot (l : LivenessState) (genesis now : Time) : Frame :=
  let ms := now.unixMilli - l.lastBlock
  .heartbeat l.lastSlot (currentSlot genesis now now)
    (if l.lastBlock > 0 ∧ ms > 0 then ms.toUInt64 else 0)

end Frames

section Programs

variable (cfg : Config)

/-- The variables of a send loop. -/
structure LoopVars where
  token : String
  failing : Bool
  lastDropped : UInt64
  live : LivenessState

/-- The connection as the loop sees it. -/
structure Connection where
  key : String
  transport : Transport
  subject : String
  raw : Bool

/-- `connAuth.accept`. -/
def accept (subject candidate : String) : StreamProg Bool := do
  let got ← stream (.authenticate candidate)
  pure (got = some subject)

/-- `connAuth.reverify`: whether to cut the stream, and the new `failing`. -/
def reverify (failing : Bool) (token : String) : StreamProg (Bool × Bool) := do
  match ← stream (.authenticate token) with
  | some _ => pure (false, false)
  | none =>
      if cfg.reauthMode = .enforce then
        pure (true, failing)
      else
        pure (false, true)

/-- The lag frame, if the counter has moved; false when it cannot be sent. -/
def sendLag (key : String) (lastDropped d : UInt64) : StreamProg Bool :=
  if d ≠ lastDropped then
    stream (.send key (.lagged d))
  else
    pure true

/-- The case of an event. -/
def sendEvent (c : Connection) (v : LoopVars) (ev : BlockEvent) :
    StreamProg (Option LoopVars) := do
  let d ← stream (.dropped c.key)
  let lagSent ← sendLag c.key v.lastDropped d
  if !lagSent then
    pure none
  else
    let sent ← stream (.send c.key (.block (c.transport.encode c.raw ev)))
    if !sent then
      pure none
    else
      let now ← stream .now
      pure (some { v with lastDropped := d, live := LivenessState.observe ev.slot now })

/-- The case of a re-auth tick.  Only the WebSocket says why it closes. -/
def reauthTick (c : Connection) (v : LoopVars) : StreamProg (Option LoopVars) := do
  let verdict ← reverify cfg v.failing v.token
  if verdict.1 then
    match c.transport with
    | .ws =>
        let _ ← stream (.send c.key (.close "token expired, refresh required"))
        pure none
    | .grpc => pure none
  else
    pure (some { v with failing := verdict.2 })

def ticks (t : Transport) : Ticks where
  ping := t = .ws
  reauth := cfg.reauthMode ≠ .off
  heartbeat := cfg.heartbeats

/-- One turn of a send loop; nothing when the loop returns. -/
def turn (c : Connection) (v : LoopVars) : StreamProg (Option LoopVars) := do
  match ← stream (.select c.key (ticks cfg c.transport)) with
  | .done => pure none
  | .events none => pure none
  | .events (some ev) => sendEvent c v ev
  | .refresh t => do
      let ok ← accept c.subject t
      pure (some (if ok then { v with token := t } else v))
  | .reauth => reauthTick cfg c v
  | .heartbeat => do
      let now ← stream .now
      let sent ← stream (.send c.key (v.live.snapshot cfg.genesis now))
      pure (if sent then some v else none)
  | .ping => do
      let sent ← stream (.send c.key .ping)
      pure (if sent then some v else none)

/-- The loop for a number of turns; when it returns, the subscription is closed. -/
def loop (c : Connection) : Nat → LoopVars → StreamProg Unit
  | 0, _ => pure ()
  | turns + 1, v => do
      match ← turn cfg c v with
      | none => stream (.close c.key)
      | some v => loop c turns v

def LoopVars.start (token : String) : LoopVars :=
  ⟨token, false, 0, ⟨0, 0⟩⟩

/-- `Server.serve` of the WebSocket transport. -/
def serve (key subject token : String) (raw : Bool) (turns : Nat) : StreamProg Unit :=
  loop cfg ⟨key, .ws, subject, raw⟩ turns (LoopVars.start token)

/-- The loop of `GRPCServer.Subscribe`. -/
def subscribe (key subject token : String) (raw : Bool) (turns : Nat) : StreamProg Unit :=
  loop cfg ⟨key, .grpc, subject, raw⟩ turns (LoopVars.start token)

/-- `offerLatest`: two selects that do not block. -/
def offerLatest (key v : String) : StreamProg Unit := do
  let _ ← stream (.drain key)
  let _ ← stream (.offer key v)
  pure ()

/-- The tokens in the messages of a gRPC client. -/
def recvTokens (key : String) : List String → StreamProg Unit
  | [] => pure ()
  | t :: messages => do
      if t ≠ "" then
        offerLatest key t
        recvTokens key messages
      else
        recvTokens key messages

/-- The read pump of the WebSocket; a message that does not parse is skipped. -/
def readPump (key : String) : List (Option String) → StreamProg Unit
  | [] => pure ()
  | none :: messages => readPump key messages
  | some t :: messages => do
      if t = "" then
        readPump key messages
      else
        offerLatest key t
        readPump key messages

/-- A goroutine that emits events into the hub. -/
def emitAll : List BlockEvent → StreamProg Unit
  | [] => pure ()
  | ev :: events => do
      stream (.emit ev)
      emitAll events

end Programs

section Memory

/-- The default of `Subscribe`. -/
def defaultBufferSize : Nat := 64

/-- A subscription: its channel, its counter, and the record of what was offered to it
with whether there was room. -/
structure Subscription where
  registered : Bool
  bufSize : Nat
  events : List BlockEvent
  dropped : UInt64
  offered : List (BlockEvent × Bool)

/-- `Service.Subscribe`. -/
def newSubscription (bufSize : Int) : Subscription where
  registered := true
  bufSize := if bufSize ≤ 0 then defaultBufferSize else bufSize.toNat
  events := []
  dropped := 0
  offered := []

theorem toNat_add_one_of_lt
    {dropped : UInt64}
    (h : dropped.toNat + 1 < 2 ^ 64) :
    (dropped + 1).toNat = dropped.toNat + 1 := by
  rw [UInt64.toNat_add]
  exact Nat.mod_eq_of_lt h

/-- The broadcaster offers an event to a listener. -/
def Subscription.offer (s : Subscription) (ev : BlockEvent) : Subscription :=
  if !s.registered then
    s
  else if s.events.length < s.bufSize then
    { s with events := s.events ++ [ev], offered := s.offered ++ [(ev, true)] }
  else
    { s with dropped := s.dropped + 1, offered := s.offered ++ [(ev, false)] }

structure StreamState where
  subs : String → Subscription
  refresh : String → Option String

def StreamState.setSub (s : StreamState) (key : String) (sub : Subscription) : StreamState :=
  { s with subs := Function.update s.subs key sub }

def StreamState.setRefresh (s : StreamState) (key : String) (v : Option String) : StreamState :=
  { s with refresh := Function.update s.refresh key v }

/-- A closed channel is readable once it is empty; ticks come when they are enabled. -/
def selectSem (key : String) (ticks : Ticks) (s : StreamState) :
    LoopCase → StreamState → Prop
  | .done, t => t = s
  | .events none, t =>
      (s.subs key).registered = false ∧ (s.subs key).events = [] ∧ t = s
  | .events (some ev), t =>
      ∃ rest, (s.subs key).events = ev :: rest ∧
        t = s.setSub key { s.subs key with events := rest }
  | .refresh v, t => s.refresh key = some v ∧ t = s.setRefresh key none
  | .reauth, t => ticks.reauth = true ∧ t = s
  | .heartbeat, t => ticks.heartbeat = true ∧ t = s
  | .ping, t => ticks.ping = true ∧ t = s

/-- The channels and the counters answer for themselves; the network, the clock and the
authenticator answer anything. -/
def streamSem : Sem StreamOp StreamOp.Ans StreamState
  | .emit ev, s, _, t => t = { s with subs := fun key => (s.subs key).offer ev }
  | .select key ticks, s, r, t => selectSem key ticks s r t
  | .dropped key, s, r, t => r = (s.subs key).dropped ∧ t = s
  | .close key, s, _, t => t = s.setSub key { s.subs key with registered := false }
  | .drain key, s, r, t => r = s.refresh key ∧ t = s.setRefresh key none
  | .offer key v, s, r, t =>
      if s.refresh key = none then r = true ∧ t = s.setRefresh key (some v)
      else r = false ∧ t = s
  | _, s, _, t => t = s

end Memory

section Threads

inductive StreamThread where
  | emitter (i : Nat)
  | sender (key : String)
  | reader (key : String)
deriving DecidableEq

/-- A consumer: its transport and mode, the subject and the token it was admitted with,
the size of its buffer, the messages it sends, and how long its loop runs. -/
structure Consumer where
  transport : Transport
  raw : Bool
  subject : String
  token : String
  bufSize : Int
  grpcMessages : List String
  wsMessages : List (Option String)
  turns : Nat

structure StreamInput where
  emitted : Nat → List BlockEvent
  consumer : String → Consumer

variable (cfg : Config) (input : StreamInput)

def StreamInput.program : StreamThread → StreamProg Unit
  | .emitter i => emitAll (input.emitted i)
  | .sender key =>
      let c := input.consumer key
      match c.transport with
      | .ws => serve cfg key c.subject c.token c.raw c.turns
      | .grpc => subscribe cfg key c.subject c.token c.raw c.turns
  | .reader key =>
      let c := input.consumer key
      match c.transport with
      | .ws => readPump key c.wsMessages
      | .grpc => recvTokens key c.grpcMessages

/-- Every consumer is subscribed and nothing has been emitted. -/
def StreamInput.initial : StreamState where
  subs key := newSubscription (input.consumer key).bufSize
  refresh _ := none

abbrev StreamConfig :=
  Foundation.Config StreamThread StreamOp StreamOp.Ans (fun _ => Unit) StreamState

abbrev StreamEvent := Foundation.Event StreamThread StreamOp StreamOp.Ans

def StreamInput.config : StreamConfig :=
  ⟨input.program cfg, input.initial⟩

/-- The connection that a send loop serves. -/
def Consumer.connection (c : Consumer) (key : String) : Connection :=
  ⟨key, c.transport, c.subject, c.raw⟩

theorem program_sender
    (key : String) :
    input.program cfg (.sender key) =
      loop cfg ((input.consumer key).connection key) (input.consumer key).turns
        (LoopVars.start (input.consumer key).token) := by
  simp only [StreamInput.program, Consumer.connection]
  cases (input.consumer key).transport with
  | ws | grpc => rfl

end Threads

end Stream
end OptimumGateway
