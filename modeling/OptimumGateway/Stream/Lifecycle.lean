import Mathlib.Data.List.FinRange
import OptimumGateway.Foundation.Holders
import OptimumGateway.Foundation.Implementation
import OptimumGateway.Stream.ConnLimiter
import OptimumGateway.Stream.SendLoop

/-!
# The life of a consumer connection

This module models `handle` and `serve` of `pkg/service/stream/ws.go`, `Subscribe` of
`pkg/service/stream/grpc.go`, and `Subscribe`, `Emit` and `Close` of
`pkg/service/streamhub/service.go`, from the request of a consumer to the end of its stream.

A handler checks the request, authenticates the consumer, takes a slot of the limiter,
subscribes to the hub, serves the stream, and gives everything back.  The two transports
share one limiter and one hub.  Subscribing takes two steps, the registration of the listener
and the entry of its drop counter, and so does closing.

The network, the clock and the authenticator answer anything; a token that the reader of a
connection has passed on may be any token.  The keys of the subscriptions are `uuid`s, which
are taken to be distinct.

`view` says what the calls of one handler amount to.  Every handler keeps to an order of its
calls (`Allowed`); from that the books of the limiter and of the hub are derived for any
number of handlers in any interleaving (`Books`).
-/

namespace OptimumGateway
namespace Stream

open Foundation Foundation.Prog Protocol GossipsubGateway

section Requests

/-- `normalizeMode`: the mode, and whether it is allowed. -/
def normalizeMode (mode : String) : String × Bool :=
  let mode := if mode = "" then "metadata" else mode
  (mode, mode = "metadata" ∨ mode = "raw")

/-- `topicsOK`. -/
def topicsOK (topics : List String) : Bool :=
  topics.all fun t => t = "" ∨ t = "beacon_block"

/-- `strings.CutPrefix`. -/
def cutPrefix (s front : String) : Option String :=
  if front.toList.isPrefixOf s.toList then
    some (String.ofList (s.toList.drop front.length))
  else
    none

/-- What the WebSocket handler reads from the HTTP request. -/
structure WSRequest where
  mode : String
  topics : String
  authorization : String
  subprotocols : List String

/-- `bearerToken`: the header, or the offer of a browser. -/
def bearerToken (r : WSRequest) : String :=
  match cutPrefix r.authorization "Bearer " with
  | some tok => trimSpace tok
  | none => (r.subprotocols.findSome? fun p => cutPrefix p "bearer.").getD ""

/-- `metadataToken`: the metadata may be absent, and so may its `authorization`. -/
def metadataToken : Option (List String) → String
  | none => ""
  | some [] => ""
  | some (tok :: _) => trimSpace ((cutPrefix tok "Bearer ").getD tok)

structure SubscribeRequest where
  mode : String
  topics : List String

/-- The first message of a gRPC client. -/
inductive FirstRecv where
  | request (req : SubscribeRequest)
  | eof
  | failed

inductive Client where
  | ws (r : WSRequest)
  | grpc (authorization : Option (List String))

/-- The token that a client is admitted with. -/
def Client.token : Client → String
  | .ws r => bearerToken r
  | .grpc authorization => metadataToken authorization

end Requests

section Programs

inductive StatusCode where
  | invalidArgument
  | unauthenticated
  | resourceExhausted
deriving DecidableEq

/-- How a handler ends.  `serving` stands for a handler that is still in its loop. -/
inductive HandlerResult where
  | httpError (text : String) (code : Nat)
  | status (code : StatusCode) (text : String)
  | recvFailed
  | upgradeFailed
  | ended
  | serving
deriving DecidableEq

inductive HandlerOp where
  | recv
  | acquire (subject : String)
  | upgrade
  | register (key : String) (bufSize : Int)
  | storeCounter (key : String)
  | stream (op : StreamOp)
  | closeConn
  | unregister (key : String)
  | deleteCounter (key : String)
  | release (c : Release)

abbrev HandlerOp.Ans : HandlerOp → Type
  | .recv => FirstRecv
  | .acquire _ => Option Release
  | .upgrade => Bool
  | .stream op => op.Ans
  | _ => Unit

abbrev HandlerProg := Prog HandlerOp HandlerOp.Ans

abbrev HandlerCall := Call HandlerOp HandlerOp.Ans

abbrev handlerOp (op : HandlerOp) : HandlerProg op.Ans :=
  Prog.op op

structure ServerConfig where
  maxConns : Int
  maxConnsPerSub : Int
  bufferSize : Int
  loop : Config

variable (srv : ServerConfig)

/-- The WebSocket handler closes its connection itself. -/
def closeTransport : Transport → HandlerProg Unit
  | .ws => handlerOp .closeConn
  | .grpc => pure ()

/-- The deferred functions of `serve` and of `Subscribe`. -/
def finish (c : Connection) (slot : Release) : HandlerProg HandlerResult := do
  closeTransport c.transport
  handlerOp (.unregister c.key)
  handlerOp (.deleteCounter c.key)
  handlerOp (.release slot)
  pure .ended

/-- The loop for a number of turns. -/
def serveLoop (c : Connection) (slot : Release) : Nat → LoopVars → HandlerProg HandlerResult
  | 0, _ => pure .serving
  | turns + 1, v => do
      match ← (turn srv.loop c v).rename HandlerOp.stream with
      | none => finish c slot
      | some v => serveLoop c slot turns v

/-- `Service.Subscribe` of the hub, then the loop. -/
def subscribeAndServe (c : Connection) (token : String) (slot : Release) (turns : Nat) :
    HandlerProg HandlerResult := do
  handlerOp (.register c.key srv.bufferSize)
  handlerOp (.storeCounter c.key)
  serveLoop srv c slot turns (LoopVars.start token)

/-- `Server.handle`, and the goroutine of `serve` that it starts. -/
def Server.handle (key : String) (r : WSRequest) (turns : Nat) :
    HandlerProg HandlerResult :=
  let mode := normalizeMode r.mode
  if !mode.2 then
    pure (.httpError "invalid mode" 400)
  else if !topicsOK [r.topics] then
    pure (.httpError "unsupported topics" 400)
  else do
    let token := bearerToken r
    match ← handlerOp (.stream (.authenticate token)) with
    | none => pure (.httpError "unauthorized" 401)
    | some subject =>
        match ← handlerOp (.acquire subject) with
        | none => pure (.httpError "too many connections" 503)
        | some slot => do
            let upgraded ← handlerOp .upgrade
            if !upgraded then do
              handlerOp (.release slot)
              pure .upgradeFailed
            else
              subscribeAndServe srv ⟨key, .ws, subject, mode.1 = "raw"⟩ token slot turns

/-- `GRPCServer.Subscribe` once the request has been received. -/
def GRPCServer.serveRequest
    (key token : String)
    (turns : Nat)
    (req : SubscribeRequest) : HandlerProg HandlerResult :=
  let mode := normalizeMode req.mode
  if !mode.2 then
    pure (.status .invalidArgument "invalid mode")
  else if !topicsOK req.topics then
    pure (.status .invalidArgument "unsupported topics")
  else do
    match ← handlerOp (.stream (.authenticate token)) with
    | none => pure (.status .unauthenticated "unauthorized")
    | some subject =>
        match ← handlerOp (.acquire subject) with
        | none => pure (.status .resourceExhausted "too many connections")
        | some slot =>
            subscribeAndServe srv ⟨key, .grpc, subject, mode.1 = "raw"⟩ token slot turns

/-- `GRPCServer.Subscribe`. -/
def GRPCServer.subscribe
    (key : String)
    (authorization : Option (List String))
    (turns : Nat) : HandlerProg HandlerResult := do
  match ← handlerOp .recv with
  | .eof => pure (.status .invalidArgument "no subscribe request received")
  | .failed => pure .recvFailed
  | .request req => serveRequest srv key (metadataToken authorization) turns req

def Client.handler (key : String) (turns : Nat) : Client → HandlerProg HandlerResult
  | .ws r => Server.handle srv key r turns
  | .grpc authorization => GRPCServer.subscribe srv key authorization turns

end Programs

section Memory

/-- A listener of the hub.  `counted` says that the map of the drop counters has its key;
`missed` records the drops for which the map had none. -/
structure Listener where
  registered : Bool
  counted : Bool
  bufSize : Nat
  events : List BlockEvent
  dropped : UInt64
  missed : Nat

/-- A listener that was just registered. -/
def Listener.new (bufSize : Int) : Listener where
  registered := true
  counted := false
  bufSize := if bufSize ≤ 0 then defaultBufferSize else bufSize.toNat
  events := []
  dropped := 0
  missed := 0

/-- What `Emit` does to one listener. -/
def Listener.offer (l : Listener) (ev : BlockEvent) : Listener :=
  if !l.registered then
    l
  else if l.events.length < l.bufSize then
    { l with events := l.events ++ [ev] }
  else if l.counted then
    { l with dropped := l.dropped + 1 }
  else
    { l with missed := l.missed + 1 }

structure ServerState where
  limiter : ConnLimiter
  listeners : String → Listener

def ServerState.modify (s : ServerState) (key : String) (f : Listener → Listener) :
    ServerState :=
  { s with listeners := Function.update s.listeners key (f (s.listeners key)) }

@[simp] theorem ServerState.modify_self
    (s : ServerState)
    (key : String)
    (f : Listener → Listener) :
    (s.modify key f).listeners key = f (s.listeners key) := by
  simp [ServerState.modify]

theorem ServerState.modify_ne
    (s : ServerState)
    {key k : String}
    (f : Listener → Listener)
    (h : k ≠ key) :
    (s.modify key f).listeners k = s.listeners k := by
  simp [ServerState.modify, h]

/-- The case of a `select` on the channel of the events. -/
def receiveSem (key : String) (s : ServerState) : LoopCase → ServerState → Prop
  | .events none, t =>
      (s.listeners key).registered = false ∧ (s.listeners key).events = [] ∧ t = s
  | .events (some ev), t =>
      ∃ rest, (s.listeners key).events = ev :: rest ∧
        t = s.modify key fun l => { l with events := rest }
  | _, t => t = s

def serverSem : Sem HandlerOp HandlerOp.Ans ServerState
  | .acquire subject, s, r, t => ∃ now order, IsReading now ∧
      order.Perm (s.limiter.acquire subject now order).1.starts.keys ∧
      r = (s.limiter.acquire subject now order).2 ∧
      t = { s with limiter := (s.limiter.acquire subject now order).1 }
  | .release c, s, _, t => ∃ order,
      order.Perm (s.limiter.release c order).starts.keys ∧
      t = { s with limiter := s.limiter.release c order }
  | .register key bufSize, s, _, t => t = s.modify key fun _ => Listener.new bufSize
  | .storeCounter key, s, _, t => t = s.modify key fun l => { l with counted := true }
  | .unregister key, s, _, t => t = s.modify key fun l => { l with registered := false }
  | .deleteCounter key, s, _, t => t = s.modify key fun l => { l with counted := false }
  | .stream (.emit ev), s, _, t =>
      t = { s with listeners := fun key => (s.listeners key).offer ev }
  | .stream (.select key _), s, r, t => receiveSem key s r t
  | .stream (.dropped key), s, r, t => r = (s.listeners key).dropped ∧ t = s
  | _, s, _, t => t = s

end Memory

section Threads

inductive ServerThread (n : Nat) where
  | handler (i : Fin n)
  | emitter (i : Nat)
deriving DecidableEq

/-- The consumers, the keys of their subscriptions, how long each loop runs, and the events
of the emitters. -/
structure ServerInput (n : Nat) where
  client : Fin n → Client
  key : Fin n → String
  key_injective : Function.Injective key
  turns : Fin n → Nat
  emitted : Nat → List BlockEvent

abbrev ServerThread.Result {n : Nat} : ServerThread n → Type
  | .handler _ => HandlerResult
  | .emitter _ => Unit

variable {n : Nat} (srv : ServerConfig) (input : ServerInput n)

def ServerInput.program : (i : ServerThread n) → HandlerProg i.Result
  | .handler i => (input.client i).handler srv (input.key i) (input.turns i)
  | .emitter i => (emitAll (input.emitted i)).rename HandlerOp.stream

def ServerConfig.initial : ServerState where
  limiter := ConnLimiter.new srv.maxConns srv.maxConnsPerSub
  listeners _ := ⟨false, false, 0, [], 0, 0⟩

abbrev ServerPool (n : Nat) :=
  Foundation.Config (ServerThread n) HandlerOp HandlerOp.Ans ServerThread.Result ServerState

abbrev ServerEvent (n : Nat) := Foundation.Event (ServerThread n) HandlerOp HandlerOp.Ans

def ServerInput.config : ServerPool n :=
  ⟨input.program srv, srv.initial⟩

/-- `SubscriberCount`: the number of drop counters in the map. -/
def ServerInput.subscriberCount (s : ServerState) : Nat :=
  (List.finRange n).countP fun i => (s.listeners (input.key i)).counted

end Threads

section Views

/-- What a handler has of the limiter and of the hub. -/
structure View where
  slot : Option Release
  registered : Bool
  counted : Bool

/-- A handler that has nothing. -/
def View.empty : View :=
  ⟨none, false, false⟩

def View.advance (v : View) : HandlerCall → View
  | ⟨.acquire _, some c⟩ => { v with slot := some c }
  | ⟨.register _ _, _⟩ => { v with registered := true, counted := false }
  | ⟨.storeCounter _, _⟩ => { v with counted := true }
  | ⟨.unregister _, _⟩ => { v with registered := false }
  | ⟨.deleteCounter _, _⟩ => { v with counted := false }
  | ⟨.release _, _⟩ => { v with slot := none }
  | _ => v

/-- What a handler has after some calls. -/
def view (calls : List HandlerCall) : View :=
  calls.foldl View.advance View.empty

theorem view_concat
    (calls : List HandlerCall)
    (x : HandlerCall) :
    view (calls ++ [x]) = (view calls).advance x := by
  simp [view]

variable {calls : List HandlerCall}

theorem view_after
    {v : View}
    (h : view calls = v)
    (x : HandlerCall) :
    view (calls ++ [x]) = v.advance x := by
  rw [view_concat, h]

/-- The request that a client has made. -/
def Requested (client : Client) (calls : List HandlerCall) (req : SubscribeRequest) : Prop :=
  match client with
  | .ws r => req = ⟨r.mode, [r.topics]⟩
  | .grpc _ => ⟨.recv, .request req⟩ ∈ calls

/-- A client was admitted as a subject: its request is allowed, and the authenticator knows
its token. -/
structure Admitted (client : Client) (calls : List HandlerCall) (subject : String) : Prop where
  authenticated : ⟨.stream (.authenticate client.token), some subject⟩ ∈ calls
  requested : ∃ req, Requested client calls req ∧ (normalizeMode req.mode).2 = true ∧
    topicsOK req.topics = true

theorem Requested.mono
    {client : Client} {calls' : List HandlerCall} {req : SubscribeRequest}
    (h : Requested client calls req)
    (hsub : calls ⊆ calls') :
    Requested client calls' req := by
  cases client with
  | ws r => exact h
  | grpc authorization => exact hsub h

theorem Admitted.mono
    {client : Client} {calls' : List HandlerCall} {subject : String}
    (h : Admitted client calls subject)
    (hsub : calls ⊆ calls') :
    Admitted client calls' subject := by
  obtain ⟨req, hreq, hmode, htopics⟩ := h.requested
  exact ⟨hsub h.authenticated, req, hreq.mono hsub, hmode, htopics⟩

/-- The operations of a loop on its own connection. -/
def OwnOp (key : String) : StreamOp → Prop
  | .select k _ => k = key
  | .dropped k => k = key
  | .send k _ => k = key
  | .now => True
  | .authenticate _ => True
  | _ => False

/-- What a handler has when it issues an operation. -/
def Allowed (client : Client) (key : String) (bufSize : Int) (calls : List HandlerCall) :
    HandlerOp → Prop
  | .recv => view calls = View.empty
  | .acquire subject => view calls = View.empty ∧ Admitted client calls subject
  | .upgrade => ∃ c, view calls = ⟨some c, false, false⟩
  | .register k b => k = key ∧ b = bufSize ∧ ∃ c, view calls = ⟨some c, false, false⟩
  | .storeCounter k => k = key ∧ ∃ c, view calls = ⟨some c, true, false⟩
  | .stream (.authenticate _) =>
      view calls = View.empty ∨ ∃ c, view calls = ⟨some c, true, true⟩
  | .stream op => OwnOp key op ∧ ∃ c, view calls = ⟨some c, true, true⟩
  | .closeConn => ∃ c, view calls = ⟨some c, true, true⟩
  | .unregister k => k = key ∧ ∃ c, view calls = ⟨some c, true, true⟩
  | .deleteCounter k => k = key ∧ ∃ c, view calls = ⟨some c, false, true⟩
  | .release c => view calls = ⟨some c, false, false⟩

/-- A handler that has returned has nothing; one that is in its loop has everything. -/
def EndsAs (calls : List HandlerCall) : HandlerResult → Prop
  | .serving => ∃ c, view calls = ⟨some c, true, true⟩
  | _ => view calls = View.empty

theorem endsAs_of_empty
    {result : HandlerResult}
    (hresult : result ≠ .serving)
    (hview : view calls = View.empty) :
    EndsAs calls result := by
  cases result with
  | serving => exact absurd rfl hresult
  | _ => exact hview

end Views

section Promises

variable {srv : ServerConfig} {client : Client} {key : String} {h : List HandlerCall}
variable {bufSize : Int} {c : Connection} {slot : Release}

theorem forall_sendEvent
    (c : Connection)
    (v : LoopVars)
    (ev : BlockEvent) :
    (sendEvent c v ev).Forall (OwnOp c.key) := by
  refine ⟨rfl, fun d => ?_⟩
  have hlag : (sendLag c.key v.lastDropped d).Forall (OwnOp c.key) := by
    unfold sendLag
    split
    · exact ⟨rfl, fun sent => trivial⟩
    · exact trivial
  refine hlag.bind fun lagSent => ?_
  cases lagSent with
  | false => exact trivial
  | true =>
      refine ⟨rfl, fun sent => ?_⟩
      cases sent with
      | false => exact trivial
      | true => exact ⟨trivial, fun now => trivial⟩

theorem forall_reauthTick
    (cfg : Config)
    (c : Connection)
    (v : LoopVars) :
    (reauthTick cfg c v).Forall (OwnOp c.key) := by
  have hreverify : (reverify cfg v.failing v.token).Forall (OwnOp c.key) := by
    refine ⟨trivial, fun got => ?_⟩
    cases got with
    | some subject => exact trivial
    | none =>
        dsimp only
        split <;> exact trivial
  refine hreverify.bind fun verdict => ?_
  cases verdict.1 with
  | false => exact trivial
  | true =>
      cases c.transport with
      | ws => exact ⟨rfl, fun sent => trivial⟩
      | grpc => exact trivial

theorem forall_turn
    (cfg : Config)
    (c : Connection)
    (v : LoopVars) :
    (turn cfg c v).Forall (OwnOp c.key) := by
  refine ⟨rfl, fun choice => ?_⟩
  cases choice with
  | done => exact trivial
  | events ev =>
      cases ev with
      | none => exact trivial
      | some ev => exact forall_sendEvent c v ev
  | refresh t => exact ⟨trivial, fun got => trivial⟩
  | reauth => exact forall_reauthTick cfg c v
  | heartbeat => exact ⟨trivial, fun now => ⟨rfl, fun sent => trivial⟩⟩
  | ping => exact ⟨rfl, fun sent => trivial⟩

/-- The deferred functions give everything back. -/
theorem along_finish
    (hview : view h = ⟨some slot, true, true⟩) :
    (finish c slot).Along (Allowed client c.key bufSize) EndsAs h := by
  have hclose : (closeTransport c.transport).Along
      (Allowed client c.key bufSize) (fun h' _ => view h' = ⟨some slot, true, true⟩) h := by
    cases c.transport with
    | ws => exact ⟨⟨slot, hview⟩, fun r => view_after hview ⟨.closeConn, r⟩⟩
    | grpc => exact hview
  refine hclose.bind fun h' _ hh' => ?_
  refine ⟨⟨rfl, slot, hh'⟩, fun r₁ => ?_⟩
  have hun := view_after hh' ⟨.unregister c.key, r₁⟩
  refine ⟨⟨rfl, slot, hun⟩, fun r₂ => ?_⟩
  have hdel := view_after hun ⟨.deleteCounter c.key, r₂⟩
  exact ⟨hdel, fun r₃ => view_after hdel ⟨.release slot, r₃⟩⟩

theorem along_serveLoop
    {turns : Nat} {v : LoopVars}
    (hview : view h = ⟨some slot, true, true⟩) :
    (serveLoop srv c slot turns v).Along (Allowed client c.key bufSize) EndsAs h := by
  induction turns generalizing v h with
  | zero => exact ⟨slot, hview⟩
  | succ turns ih =>
      have hown : (turn srv.loop c v).Forall
          fun o => ∃ op, HandlerOp.stream o = .stream op ∧ OwnOp c.key op :=
        (forall_turn srv.loop c v).mono fun op hop => ⟨op, rfl, hop⟩
      have hturn : ((turn srv.loop c v).rename HandlerOp.stream).Forall
          fun o => ∃ op, o = .stream op ∧ OwnOp c.key op :=
        @Forall.rename _ _ HandlerOp.Ans _ HandlerOp.stream _ _ hown
      have halong := hturn.along_invariant (J := Allowed client c.key bufSize)
        (K := fun h => view h = ⟨some slot, true, true⟩) hview
        (by
          intro h o hh ho
          obtain ⟨op, rfl, hop⟩ := ho
          cases op with
          | authenticate token => exact Or.inr ⟨slot, hh⟩
          | _ => exact ⟨hop, slot, hh⟩)
        (by
          intro h o r hh ho
          obtain ⟨op, rfl, -⟩ := ho
          exact view_after hh ⟨.stream op, r⟩)
      refine halong.bind fun h' next hh' => ?_
      cases next with
      | none => exact along_finish hh'
      | some v => exact ih hh'

theorem along_subscribeAndServe
    {token : String} {turns : Nat}
    (hview : view h = ⟨some slot, false, false⟩) :
    (subscribeAndServe srv c token slot turns).Along
      (Allowed client c.key srv.bufferSize) EndsAs h := by
  refine ⟨⟨rfl, rfl, slot, hview⟩, fun r₁ => ?_⟩
  have hreg := view_after hview ⟨.register c.key srv.bufferSize, r₁⟩
  exact ⟨⟨rfl, slot, hreg⟩, fun r₂ => along_serveLoop (view_after hreg ⟨.storeCounter c.key, r₂⟩)⟩

/-- A request is checked, its client is authenticated and takes a slot, and `rest` is what
follows. -/
theorem along_admit
    {token : String} {badMode badTopics unauthorized tooMany : HandlerResult}
    {req : SubscribeRequest} {rest : String → Release → HandlerProg HandlerResult}
    (hends : ∀ result ∈ [badMode, badTopics, unauthorized, tooMany], result ≠ .serving)
    (hview : view h = View.empty)
    (htoken : token = client.token)
    (hreq : Requested client h req)
    (hrest : ∀ h' subject slot, view h' = ⟨some slot, false, false⟩ →
      (rest subject slot).Along (Allowed client key bufSize) EndsAs h') :
    (if !(normalizeMode req.mode).2 then pure badMode
      else if !topicsOK req.topics then pure badTopics
      else handlerOp (.stream (.authenticate token)) >>= fun got =>
        match got with
        | none => pure unauthorized
        | some subject => handlerOp (.acquire subject) >>= fun got =>
            match got with
            | none => pure tooMany
            | some slot => rest subject slot).Along (Allowed client key bufSize) EndsAs h := by
  simp only [List.forall_mem_cons] at hends
  obtain ⟨hbadMode, hbadTopics, hunauthorized, htooMany, -⟩ := hends
  split
  · exact endsAs_of_empty hbadMode hview
  · rename_i hmode
    split
    · exact endsAs_of_empty hbadTopics hview
    · rename_i htopics
      refine ⟨Or.inl hview, fun got => ?_⟩
      have hauth := view_after hview ⟨.stream (.authenticate token), got⟩
      cases got with
      | none => exact endsAs_of_empty hunauthorized hauth
      | some subject =>
          refine ⟨⟨hauth, by simp [htoken], req, hreq.mono (by simp), by simpa using hmode,
            by simpa using htopics⟩, fun slot => ?_⟩
          have hslot := view_after hauth ⟨.acquire subject, slot⟩
          cases slot with
          | none => exact endsAs_of_empty htooMany hslot
          | some slot => exact hrest _ subject slot hslot

theorem along_handle
    (r : WSRequest)
    (turns : Nat) :
    (Server.handle srv key r turns).Along (Allowed (.ws r) key srv.bufferSize) EndsAs [] := by
  have hreq : Requested (.ws r) [] ⟨r.mode, [r.topics]⟩ := rfl
  refine along_admit (by simp) rfl rfl hreq ?_
  intro h subject slot hview
  refine ⟨⟨slot, hview⟩, fun upgraded => ?_⟩
  have hup := view_after hview ⟨.upgrade, upgraded⟩
  cases upgraded with
  | false => exact ⟨hup, fun r => view_after hup ⟨.release slot, r⟩⟩
  | true => exact along_subscribeAndServe hup

theorem along_subscribe
    (authorization : Option (List String))
    (turns : Nat) :
    (GRPCServer.subscribe srv key authorization turns).Along
      (Allowed (.grpc authorization) key srv.bufferSize) EndsAs [] := by
  refine ⟨rfl, fun first => ?_⟩
  cases first with
  | eof | failed => exact rfl
  | request req =>
      have hreq : Requested (.grpc authorization) [⟨.recv, .request req⟩] req :=
        List.mem_singleton_self _
      exact along_admit (by simp) rfl rfl hreq
        fun h subject slot hview => along_subscribeAndServe hview

theorem along_handler
    (client : Client)
    (turns : Nat) :
    (client.handler srv key turns).Along (Allowed client key srv.bufferSize) EndsAs [] := by
  cases client with
  | ws r => exact along_handle r turns
  | grpc authorization => exact along_subscribe authorization turns

end Promises

section HandlerSteps

variable {s t : ServerState}

/-- What a call of a handler does to its listener. -/
def Listener.touch (x : HandlerCall) (l : Listener) : Listener :=
  match x with
  | ⟨.register _ b, _⟩ => Listener.new b
  | ⟨.storeCounter _, _⟩ => { l with counted := true }
  | ⟨.unregister _, _⟩ => { l with registered := false }
  | ⟨.deleteCounter _, _⟩ => { l with counted := false }
  | ⟨.stream (.select _ _), .events (some _)⟩ => { l with events := l.events.tail }
  | _ => l

/-- A handler touches only its own listener, and only its first and its last call of the
limiter change the limiter. -/
theorem handler_sem
    {client : Client} {key : String} {bufSize : Int} {calls : List HandlerCall}
    {o : HandlerOp} {r : o.Ans}
    (hallowed : Allowed client key bufSize calls o)
    (hsem : serverSem o s r t) :
    t.listeners = (s.modify key (Listener.touch ⟨o, r⟩)).listeners ∧
      (t.limiter = s.limiter ∧ (∀ v : View, (v.advance ⟨o, r⟩).slot = v.slot) ∨
        (∃ subject, o = .acquire subject) ∨ ∃ c, o = .release c) := by
  have hself : s.listeners = (s.modify key fun l => l).listeners :=
    (Function.update_eq_self key s.listeners).symm
  cases o with
  | acquire subject =>
      obtain ⟨now, order, -, -, -, rfl⟩ := hsem
      exact ⟨hself, Or.inr (Or.inl ⟨subject, rfl⟩)⟩
  | release c =>
      obtain ⟨order, -, rfl⟩ := hsem
      exact ⟨hself, Or.inr (Or.inr ⟨c, rfl⟩)⟩
  | stream op =>
      have hkeep : t = s → Listener.touch ⟨.stream op, r⟩ = id →
          t.listeners = (s.modify key (Listener.touch ⟨.stream op, r⟩)).listeners ∧
            t.limiter = s.limiter := by
        rintro rfl htouch
        rw [htouch]
        exact ⟨hself, rfl⟩
      have hstream : t.listeners = (s.modify key (Listener.touch ⟨.stream op, r⟩)).listeners ∧
          t.limiter = s.limiter := by
        cases op with
        | select k ticks =>
            obtain rfl : k = key := hallowed.1
            cases r with
            | events ev =>
                cases ev with
                | none => exact hkeep hsem.2.2 rfl
                | some ev =>
                    obtain ⟨rest, hrest, rfl⟩ := hsem
                    simp [ServerState.modify, Listener.touch, hrest]
            | _ => exact hkeep hsem rfl
        | dropped k => exact hkeep hsem.2 rfl
        | send k frame | now | authenticate token => exact hkeep hsem rfl
        | _ => exact hallowed.1.elim
      exact ⟨hstream.1, Or.inl ⟨hstream.2, fun v => rfl⟩⟩
  | register k _ | storeCounter k | unregister k | deleteCounter k =>
      obtain ⟨rfl, -⟩ := hallowed
      rw [show t = _ from hsem]
      exact ⟨rfl, Or.inl ⟨rfl, fun v => rfl⟩⟩
  | _ =>
      rw [show t = s from hsem]
      exact ⟨hself, Or.inl ⟨rfl, fun v => rfl⟩⟩

end HandlerSteps

section Books

variable {n : Nat} {srv : ServerConfig} {input : ServerInput n}
variable {tr : List (ServerEvent n)} {s t : ServerState} {i : Fin n} {o : HandlerOp} {r : o.Ans}
variable {l : ConnLimiter} {c : Release} {v : View}

/-- What handler `i` has after a trace. -/
def viewOf (tr : List (ServerEvent n)) (i : Fin n) : View :=
  view (callsOf (.handler i) tr)

/-- The slots that the handlers hold after a trace. -/
def heldSlots (tr : List (ServerEvent n)) : List Release :=
  holdings (fun i => (viewOf tr i).slot) (List.finRange n)

theorem viewOf_self
    (i : Fin n)
    (o : HandlerOp)
    (r : o.Ans) :
    viewOf (tr ++ [⟨.handler i, o, r⟩]) i = (viewOf tr i).advance ⟨o, r⟩ := by
  rw [viewOf, callsOf_concat_self, view_concat]
  rfl

theorem viewOf_ne
    {thread : ServerThread n}
    (h : thread ≠ .handler i)
    (o : HandlerOp)
    (r : o.Ans) :
    viewOf (tr ++ [⟨thread, o, r⟩]) i = viewOf tr i := by
  rw [viewOf, callsOf_concat_ne tr o r h]
  rfl

theorem viewOf_other
    {j : Fin n}
    (h : j ≠ i)
    (o : HandlerOp)
    (r : o.Ans) :
    viewOf (tr ++ [⟨.handler i, o, r⟩]) j = viewOf tr j := by
  exact viewOf_ne (fun heq => h (ServerThread.handler.inj heq).symm) o r

theorem heldSlots_concat
    (tr : List (ServerEvent n))
    (i : Fin n)
    (o : HandlerOp)
    (r : o.Ans) :
    ((viewOf tr i).slot.toList ++ heldSlots (tr ++ [⟨.handler i, o, r⟩])).Perm
      (((viewOf tr i).advance ⟨o, r⟩).slot.toList ++ heldSlots tr) := by
  have hother : ∀ j, j ≠ i →
      (viewOf (tr ++ [⟨.handler i, o, r⟩]) j).slot = (viewOf tr j).slot := by
    intro j hj
    rw [viewOf_other hj]
  rw [← viewOf_self]
  exact holdings_update_perm (List.nodup_finRange n) (List.mem_finRange i) hother

/-- The live connections of the limiter are the slots that are held. -/
def LimiterBooks (srv : ServerConfig) (tr : List (ServerEvent n)) (l : ConnLimiter) : Prop :=
  ∃ issued called live, LimiterInv srv.maxConns srv.maxConnsPerSub l issued called live ∧
    (live.map Conn.release).Perm (heldSlots tr) ∧ issued.length ≤ tr.length

theorem LimiterBooks.keep
    (h : LimiterBooks srv tr l)
    (hslot : ((viewOf tr i).advance ⟨o, r⟩).slot = (viewOf tr i).slot) :
    LimiterBooks srv (tr ++ [⟨.handler i, o, r⟩]) l := by
  obtain ⟨issued, called, live, hinv, hperm, hissued⟩ := h
  have hsame := heldSlots_concat tr i o r
  rw [hslot, List.perm_append_left_iff] at hsame
  exact ⟨issued, called, live, hinv, hperm.trans hsame.symm, hissued.trans (by simp)⟩

theorem LimiterBooks.acquire
    {subject : String} {now : Time} {order : List UInt64}
    (h : LimiterBooks srv tr l)
    (hlength : tr.length < 2 ^ 64)
    (hnone : (viewOf tr i).slot = none)
    (hnow : IsReading now)
    (horder : order.Perm (l.acquire subject now order).1.starts.keys) :
    LimiterBooks srv
      (tr ++ [⟨.handler i, .acquire subject, (l.acquire subject now order).2⟩])
      (l.acquire subject now order).1 := by
  by_cases hfull : l.conns ≥ l.maxConns ∨ l.count subject ≥ l.maxConnsPerSub
  · rw [ConnLimiter.acquire_of_full hfull]
    exact h.keep rfl
  · obtain ⟨issued, called, live, hinv, hperm, hissued⟩ := h
    rw [ConnLimiter.acquire_of_room hfull] at horder ⊢
    refine ⟨_, called, _, hinv.addConn (hissued.trans_lt hlength) hfull hnow horder, ?_,
      by simpa using hissued⟩
    have htake := heldSlots_concat tr i (.acquire subject) (some ⟨subject, l.nextID⟩)
    rw [hnone] at htake
    rw [List.map_append]
    refine List.perm_append_comm.trans ?_
    exact (hperm.cons _).trans htake.symm

theorem LimiterBooks.release
    {order : List UInt64} {r : Unit}
    (h : LimiterBooks srv tr l)
    (hsome : (viewOf tr i).slot = some c)
    (horder : order.Perm (l.release c order).starts.keys) :
    LimiterBooks srv (tr ++ [⟨.handler i, .release c, r⟩]) (l.release c order) := by
  obtain ⟨issued, called, live, hinv, hperm, hissued⟩ := h
  have hheld : c ∈ heldSlots tr :=
    mem_holdings_iff.mpr ⟨i, List.mem_finRange i, hsome⟩
  obtain ⟨d, hd, rfl⟩ := List.mem_map.mp (hperm.mem_iff.mpr hheld)
  have hlive : d.release.id ∈ l.starts := (hinv.tracks.mem_starts _).mpr ⟨d, hd, rfl⟩
  rw [ConnLimiter.release_of_live hlive] at horder ⊢
  refine ⟨issued, _, _, hinv.dropConn hd horder, ?_, hissued.trans (by simp)⟩
  have hback := heldSlots_concat tr i (.release d.release) r
  rw [hsome] at hback
  have herase : (d.release :: (live.erase d).map Conn.release).Perm (live.map Conn.release) :=
    ((List.perm_cons_erase hd).map Conn.release).symm
  exact List.Perm.cons_inv ((herase.trans hperm).trans hback.symm)

/-- A listener of the hub is what its handler has of it. -/
structure Mirrors (l : Listener) (v : View) : Prop where
  registered : l.registered = v.registered
  counted : l.counted = v.counted

/-- The hub has what the handlers have of it. -/
def HubBooks (input : ServerInput n) (tr : List (ServerEvent n)) (s : ServerState) : Prop :=
  ∀ i, Mirrors (s.listeners (input.key i)) (viewOf tr i)

theorem Mirrors.touch
    {l : Listener}
    (h : Mirrors l v)
    (x : HandlerCall) :
    Mirrors (l.touch x) (v.advance x) := by
  obtain ⟨o, r⟩ := x
  cases o with
  | acquire subject => cases r <;> exact ⟨h.registered, h.counted⟩
  | register k b => exact ⟨rfl, rfl⟩
  | storeCounter k => exact ⟨h.registered, rfl⟩
  | unregister k => exact ⟨rfl, h.counted⟩
  | deleteCounter k => exact ⟨h.registered, rfl⟩
  | stream op =>
      have hkeep : (l.touch ⟨.stream op, r⟩).registered = l.registered ∧
          (l.touch ⟨.stream op, r⟩).counted = l.counted := by
        unfold Listener.touch
        split <;> simp_all
      exact ⟨hkeep.1.trans h.registered, hkeep.2.trans h.counted⟩
  | _ => exact ⟨h.registered, h.counted⟩

theorem HubBooks.step
    (h : HubBooks input tr s)
    (hlisteners : t.listeners = (s.modify (input.key i) (Listener.touch ⟨o, r⟩)).listeners) :
    HubBooks input (tr ++ [⟨.handler i, o, r⟩]) t := by
  intro j
  rw [hlisteners]
  by_cases hj : j = i
  · rw [hj, viewOf_self, ServerState.modify_self]
    exact (h i).touch _
  · have hkey : input.key j ≠ input.key i := fun heq => hj (input.key_injective heq)
    rw [viewOf_other hj, ServerState.modify_ne s _ hkey]
    exact h j

/-- What holds of the server after a trace. -/
structure Books (srv : ServerConfig) (input : ServerInput n) (tr : List (ServerEvent n))
    (s : ServerState) : Prop where
  limiter : tr.length ≤ 2 ^ 64 → LimiterBooks srv tr s.limiter
  hub : HubBooks input tr s
  held : ∀ i, (viewOf tr i).registered = true → ∃ c, (viewOf tr i).slot = some c
  admitted : ∀ i c, (viewOf tr i).slot = some c →
    Admitted (input.client i) (callsOf (.handler i) tr) c.subject

/-- The books of the limiter and of the hub after a call of a handler. -/
theorem Books.handler_books
    (h : Books srv input tr s)
    (hallowed : Allowed (input.client i) (input.key i) srv.bufferSize
      (callsOf (.handler i) tr) o)
    (hsem : serverSem o s r t) :
    (tr.length < 2 ^ 64 → LimiterBooks srv (tr ++ [⟨.handler i, o, r⟩]) t.limiter) ∧
      HubBooks input (tr ++ [⟨.handler i, o, r⟩]) t := by
  obtain ⟨hlisteners, hlimiter⟩ := handler_sem hallowed hsem
  refine ⟨fun hlength => ?_, h.hub.step hlisteners⟩
  have hbefore := h.limiter hlength.le
  rcases hlimiter with ⟨hsame, hslot⟩ | ⟨subject, rfl⟩ | ⟨c, rfl⟩
  · rw [hsame]
    exact hbefore.keep (hslot _)
  · obtain ⟨now, order, hnow, horder, rfl, rfl⟩ := hsem
    have hnone : (viewOf tr i).slot = none := by
      rw [viewOf, hallowed.1]
      rfl
    exact hbefore.acquire hlength hnone hnow horder
  · obtain ⟨order, horder, rfl⟩ := hsem
    have hsome : (viewOf tr i).slot = some c := by
      rw [viewOf, show view _ = _ from hallowed]
    exact hbefore.release hsome horder

/-- A handler that has a slot had it before, or has just got it. -/
theorem slot_advance
    {x : HandlerCall}
    (h : (v.advance x).slot = some c) :
    v.slot = some c ∨ ∃ subject, x = ⟨.acquire subject, some c⟩ := by
  obtain ⟨o, r⟩ := x
  cases o with
  | acquire subject =>
      cases r with
      | none => exact Or.inl h
      | some c' =>
          have hc : c' = c := Option.some.inj h
          exact Or.inr ⟨subject, by rw [hc]⟩
  | release c' => cases h
  | _ => exact Or.inl h

/-- A handler that is registered holds a slot. -/
theorem slot_of_registered
    {client : Client} {key : String} {bufSize : Int} {calls : List HandlerCall}
    (hallowed : Allowed client key bufSize calls o)
    (hbefore : (view calls).registered = true → ∃ c, (view calls).slot = some c)
    (h : ((view calls).advance ⟨o, r⟩).registered = true) :
    ∃ c, ((view calls).advance ⟨o, r⟩).slot = some c := by
  cases o with
  | acquire subject =>
      cases r with
      | none => exact hbefore h
      | some c => exact ⟨c, rfl⟩
  | register k b =>
      obtain ⟨-, -, c, hview⟩ := hallowed
      exact ⟨c, by rw [hview]; rfl⟩
  | unregister k => cases h
  | release c =>
      rw [show view calls = _ from hallowed] at h
      cases h
  | _ => exact hbefore h

/-- A slot is for the subject it was asked for. -/
theorem subject_of_acquire
    {subject : String}
    (h : serverSem (.acquire subject) s (some c) t) :
    c.subject = subject := by
  obtain ⟨now, order, -, -, hr, -⟩ := h
  by_cases hfull : s.limiter.conns ≥ s.limiter.maxConns ∨
      s.limiter.count subject ≥ s.limiter.maxConnsPerSub
  · rw [ConnLimiter.acquire_of_full hfull] at hr
    cases hr
  · rw [ConnLimiter.acquire_of_room hfull] at hr
    rw [Option.some.inj hr]

theorem callsOf_subset
    (i : ServerThread n)
    (e : ServerEvent n) :
    callsOf i tr ⊆ callsOf i (tr ++ [e]) := by
  rw [callsOf_append]
  exact List.subset_append_left _ _

theorem Books.handler_step
    (h : Books srv input tr s)
    (hallowed : Allowed (input.client i) (input.key i) srv.bufferSize
      (callsOf (.handler i) tr) o)
    (hsem : serverSem o s r t) :
    Books srv input (tr ++ [⟨.handler i, o, r⟩]) t := by
  obtain ⟨hlimiter, hhub⟩ := h.handler_books hallowed hsem
  refine ⟨fun hlength => hlimiter ?_, hhub, ?_, ?_⟩
  · rw [List.length_append, List.length_singleton] at hlength
    omega
  · intro j hregistered
    by_cases hj : j = i
    · subst hj
      rw [viewOf_self] at hregistered ⊢
      exact slot_of_registered hallowed (h.held j) hregistered
    · rw [viewOf_other hj] at hregistered ⊢
      exact h.held j hregistered
  · intro j c hslot
    by_cases hj : j = i
    · subst hj
      rw [viewOf_self] at hslot
      rcases slot_advance hslot with hold | ⟨subject, hcall⟩
      · exact (h.admitted j c hold).mono (callsOf_subset _ _)
      · cases hcall
        rw [subject_of_acquire hsem]
        exact hallowed.2.mono (callsOf_subset _ _)
    · rw [viewOf_other hj] at hslot
      exact (h.admitted j c hslot).mono (callsOf_subset _ _)

theorem Listener.offer_mirrors
    {l : Listener}
    (h : Mirrors l v)
    (ev : BlockEvent) :
    Mirrors (l.offer ev) v := by
  unfold Listener.offer
  split
  · exact h
  · split
    · exact ⟨h.registered, h.counted⟩
    · split
      · exact ⟨h.registered, h.counted⟩
      · exact ⟨h.registered, h.counted⟩

/-- An emitter changes no book. -/
theorem Books.emitter_step
    {k : Nat} {ev : BlockEvent} {r : Unit}
    (h : Books srv input tr s)
    (hsem : serverSem (.stream (.emit ev)) s r t) :
    Books srv input (tr ++ [⟨.emitter k, .stream (.emit ev), r⟩]) t := by
  have hview : ∀ i, viewOf (tr ++ [⟨.emitter k, .stream (.emit ev), r⟩]) i = viewOf tr i := by
    intro i
    have hne : ServerThread.emitter k ≠ .handler i := by simp
    exact viewOf_ne hne (.stream (.emit ev)) r
  rw [show t = _ from hsem]
  refine ⟨fun hlength => ?_, ?_, ?_, ?_⟩
  · rw [List.length_append, List.length_singleton] at hlength
    obtain ⟨issued, called, live, hinv, hperm, hissued⟩ :=
      h.limiter ((Nat.le_succ _).trans hlength)
    refine ⟨issued, called, live, hinv, ?_, hissued.trans (by simp)⟩
    rw [heldSlots, holdings_congr fun i _ => by rw [hview i]]
    exact hperm
  · intro i
    rw [hview]
    exact Listener.offer_mirrors (h.hub i) ev
  · intro i hregistered
    rw [hview] at hregistered ⊢
    exact h.held i hregistered
  · intro i c hslot
    rw [hview] at hslot
    exact (h.admitted i c hslot).mono (callsOf_subset _ _)

end Books

section Runs

variable {n : Nat} {srv : ServerConfig} {input : ServerInput n}
variable {tr : List (ServerEvent n)} {d : ServerPool n}

/-- What the threads promise about their operations. -/
def ServerPromise (srv : ServerConfig) (input : ServerInput n) :
    ServerThread n → List HandlerCall → HandlerOp → Prop
  | .handler i, calls, o => Allowed (input.client i) (input.key i) srv.bufferSize calls o
  | .emitter _, _, o => ∃ ev, o = .stream (.emit ev)

/-- What the threads leave behind. -/
def ServerEndsAs : (i : ServerThread n) → List HandlerCall → i.Result → Prop
  | .handler _, calls, result => EndsAs calls result
  | .emitter _, _, _ => True

theorem forall_emitAll
    (events : List BlockEvent) :
    (emitAll events).Forall fun o => ∃ ev, HandlerOp.stream o = .stream (.emit ev) := by
  induction events with
  | nil => exact trivial
  | cons ev events ih => exact ⟨⟨ev, rfl⟩, fun _ => ih⟩

theorem along_server
    (i : ServerThread n) :
    (input.program srv i).Along (ServerPromise srv input i) (ServerEndsAs i) [] := by
  cases i with
  | handler i => exact along_handler (input.client i) (input.turns i)
  | emitter i =>
      have hemit : (input.program srv (.emitter i)).Forall
          fun o => ∃ ev, o = .stream (.emit ev) :=
        @Forall.rename _ _ HandlerOp.Ans _ HandlerOp.stream _ _ (forall_emitAll (input.emitted i))
      exact hemit.along fun _ _ ho => ho

theorem books_of_run
    (hconns : 0 ≤ srv.maxConns)
    (hperSub : 0 ≤ srv.maxConnsPerSub)
    (hrun : Run serverSem anyStep (input.config srv) tr d) :
    Books srv input tr d.state := by
  refine hrun.memory_invariant along_server ?_ ?_
  · refine ⟨fun _ => ⟨[], [], [], LimiterInv.new hconns hperSub, ?_, le_rfl⟩,
      fun i => ⟨rfl, rfl⟩, ?_, ?_⟩
    · have hnone : heldSlots ([] : List (ServerEvent n)) = [] := holdings_eq_nil fun i _ => rfl
      rw [hnone]
      exact List.Perm.nil
    · intro i hregistered
      cases hregistered
    · intro i c hslot
      cases hslot
  · intro tr s i o r t hbooks hpromise hsem
    cases i with
    | handler i => exact hbooks.handler_step hpromise hsem
    | emitter i =>
        obtain ⟨ev, rfl⟩ := hpromise
        exact hbooks.emitter_step hsem

/-- A handler that has returned has nothing. -/
theorem view_of_returned
    {i : Fin n} {result : HandlerResult}
    (hrun : Run serverSem anyStep (input.config srv) tr d)
    (hret : d.progs (.handler i) = .ret result)
    (hresult : result ≠ .serving) :
    viewOf tr i = View.empty := by
  have halong := hrun.along (along_server (.handler i))
  rw [hret] at halong
  cases result with
  | serving => exact absurd rfl hresult
  | _ => exact halong

/-- A frame is sent by a handler that holds a slot, for the consumer admitted with it. -/
theorem slot_of_frame
    {before after : List (ServerEvent n)} {thread : ServerThread n} {key : String}
    {frame : Frame} {sent : Bool}
    (hconns : 0 ≤ srv.maxConns)
    (hperSub : 0 ≤ srv.maxConnsPerSub)
    (hrun : Run serverSem anyStep (input.config srv)
      (before ++ ⟨thread, .stream (.send key frame), sent⟩ :: after) d) :
    ∃ i c, thread = .handler i ∧ key = input.key i ∧ (viewOf before i).slot = some c ∧
      Admitted (input.client i) (callsOf (.handler i) before) c.subject := by
  have hpath := hrun.path thread
  rw [callsOf_append, callsOf_cons_self] at hpath
  have hpromise := hpath.along (h := []) (along_server thread)
  obtain ⟨d₀, hbefore, -⟩ := hrun.split
  cases thread with
  | handler i =>
      obtain ⟨hkey, c, hview⟩ := hpromise
      have hslot : (viewOf before i).slot = some c :=
        congrArg View.slot hview
      exact ⟨i, c, rfl, hkey, hslot, (books_of_run hconns hperSub hbefore).admitted i c hslot⟩
  | emitter k =>
      obtain ⟨ev, hop⟩ := hpromise
      cases hop

/-- The connections of the two transports are accounted for in every interleaving.  The caps
count the slots that handlers hold, as long as the ids of the limiter do not wrap.  A listener
of the hub, and a frame when it is sent, is for a consumer that asked for what is offered, was
authenticated, and holds a slot as that subject.  A handler that has returned, by whatever
path, has given back its listener, its counter and its slot; when all have, nothing is left. -/
theorem connections_accounted
    (hconns : 0 ≤ srv.maxConns)
    (hperSub : 0 ≤ srv.maxConnsPerSub)
    (hrun : Run serverSem anyStep (input.config srv) tr d)
    (hlength : tr.length ≤ 2 ^ 64) :
    d.state.limiter.conns = (heldSlots tr).length ∧
      d.state.limiter.conns ≤ srv.maxConns ∧
      (∀ subject, d.state.limiter.count subject =
          (heldSlots tr).countP (fun c => c.subject = subject) ∧
        d.state.limiter.count subject ≤ srv.maxConnsPerSub) ∧
      (∀ i, (d.state.listeners (input.key i)).registered = true →
        ∃ c, (viewOf tr i).slot = some c ∧
          Admitted (input.client i) (callsOf (.handler i) tr) c.subject) ∧
      (∀ before thread key frame sent after,
        tr = before ++ ⟨thread, .stream (.send key frame), sent⟩ :: after →
        ∃ i c, thread = .handler i ∧ key = input.key i ∧ (viewOf before i).slot = some c ∧
          Admitted (input.client i) (callsOf (.handler i) before) c.subject) ∧
      (∀ i result, d.progs (.handler i) = .ret result → result ≠ .serving →
        (viewOf tr i).slot = none ∧
          (d.state.listeners (input.key i)).registered = false ∧
          (d.state.listeners (input.key i)).counted = false) ∧
      ((∀ i, callsOf (.handler i) tr = [] ∨
          ∃ result, d.progs (.handler i) = .ret result ∧ result ≠ .serving) →
        d.state.limiter.conns = 0 ∧ d.state.limiter.starts.keys = [] ∧
          (∀ subject, d.state.limiter.perSub.lookup subject = none) ∧
          input.subscriberCount d.state = 0) := by
  have hbooks := books_of_run hconns hperSub hrun
  obtain ⟨issued, called, live, hinv, hperm, -⟩ := hbooks.limiter hlength
  have hlive : live.length = (heldSlots tr).length := by
    rw [← hperm.length_eq, List.length_map]
  refine ⟨?_, ?_, ?_, ?_, ?_, ?_, ?_⟩
  · rw [hinv.tracks.conns, hlive]
  · rw [hinv.tracks.conns]
    exact hinv.total
  · intro subject
    rw [hinv.tracks.count]
    exact ⟨congrArg Nat.cast (connsOf_eq_countP hperm subject), hinv.perSubject subject⟩
  · intro i hregistered
    rw [(hbooks.hub i).registered] at hregistered
    obtain ⟨c, hslot⟩ := hbooks.held i hregistered
    exact ⟨c, hslot, hbooks.admitted i c hslot⟩
  · intro before thread key frame sent after htr
    rw [htr] at hrun
    exact slot_of_frame hconns hperSub hrun
  · intro i result hret hresult
    have hview := view_of_returned hrun hret hresult
    rw [(hbooks.hub i).registered, (hbooks.hub i).counted, hview]
    exact ⟨rfl, rfl, rfl⟩
  · intro hall
    have hempty : ∀ i, viewOf tr i = View.empty := by
      intro i
      rcases hall i with hnone | ⟨result, hret, hresult⟩
      · rw [viewOf, hnone]
        rfl
      · exact view_of_returned hrun hret hresult
    have hslots : heldSlots tr = [] :=
      holdings_eq_nil fun i _ => by rw [hempty i]; rfl
    obtain rfl : live = [] := by
      rw [hslots] at hlive
      exact List.length_eq_zero_iff.mp hlive
    refine ⟨by rw [hinv.tracks.conns]; rfl, ?_, ?_, ?_⟩
    · exact List.length_eq_zero_iff.mp hinv.tracks.length_starts
    · intro subject
      rw [hinv.tracks.perSub]
      rfl
    · refine List.countP_eq_zero.mpr ?_
      intro i _
      rw [(hbooks.hub i).counted, hempty i]
      simp [View.empty]

/-- A gateway without authentication, with room for one consumer. -/
def sampleServer : ServerConfig :=
  ⟨1, 1, 1, ⟨.off, true, Time.unix 1606824023⟩⟩

/-- Two gRPC consumers without a token. -/
def sampleConsumers : ServerInput 2 where
  client _ := .grpc none
  key i := if i = 0 then "c" else "d"
  key_injective := by decide
  turns _ := 2
  emitted _ := []

/-- The first consumer is admitted. -/
def sampleAdmission : List (ServerEvent 2) :=
  [⟨.handler 0, .recv, .request ⟨"", []⟩⟩,
   ⟨.handler 0, .stream (.authenticate ""), some "dev-local"⟩,
   ⟨.handler 0, .acquire "dev-local", some ⟨"dev-local", 0⟩⟩,
   ⟨.handler 0, .register "c" 1, ()⟩]

/-- The second consumer is turned away, the first one gets a heartbeat. -/
def sampleServing : List (ServerEvent 2) :=
  [⟨.handler 0, .storeCounter "c", ()⟩,
   ⟨.handler 1, .recv, .request ⟨"raw", []⟩⟩,
   ⟨.handler 1, .stream (.authenticate ""), some "dev-local"⟩,
   ⟨.handler 1, .acquire "dev-local", none⟩,
   ⟨.handler 0, .stream (.select "c" (ticks sampleServer.loop .grpc)), .heartbeat⟩,
   ⟨.handler 0, .stream .now, sampleStart⟩]

/-- It goes away. -/
def sampleEnd : List (ServerEvent 2) :=
  [⟨.handler 0, .stream (.select "c" (ticks sampleServer.loop .grpc)), .done⟩,
   ⟨.handler 0, .unregister "c", ()⟩,
   ⟨.handler 0, .deleteCounter "c", ()⟩,
   ⟨.handler 0, .release ⟨"dev-local", 0⟩, ()⟩]

def sampleFrame : Frame :=
  (LoopVars.start "").live.snapshot sampleServer.loop.genesis sampleStart

def sampleLife : List (ServerEvent 2) :=
  (sampleAdmission ++ sampleServing) ++
    ⟨.handler 0, .stream (.send "c" sampleFrame), true⟩ :: sampleEnd

theorem run_sampleLife :
    ∃ d, Run serverSem anyStep (sampleConsumers.config sampleServer) sampleLife d ∧
      d.progs (.handler 0) = .ret .ended ∧
      d.progs (.handler 1) = .ret (.status .resourceExhausted "too many connections") := by
  refine ⟨_, Run.next rfl rfl (Run.next rfl rfl (Run.next rfl
      ⟨sampleStart, [0], isReading_sampleStart, by decide, rfl, rfl⟩
    (Run.next rfl rfl (Run.next rfl rfl (Run.next rfl rfl (Run.next rfl rfl (Run.next rfl
      ⟨sampleStart, [0], isReading_sampleStart, by decide, rfl, rfl⟩
    (Run.next rfl rfl (Run.next rfl rfl (Run.next rfl rfl (Run.next rfl rfl (Run.next rfl rfl
    (Run.next rfl rfl (Run.next rfl ⟨[], by decide, rfl⟩ (Run.nil _))))))))))))))), ?_, ?_⟩
  · rfl
  · rfl

/-- The frame is sent while the consumer holds its slot, and after its life nothing is
left. -/
theorem connections_accounted_life :
    ∃ d, Run serverSem anyStep (sampleConsumers.config sampleServer) sampleLife d ∧
      (∃ c, (viewOf (sampleAdmission ++ sampleServing) 0).slot = some c ∧
        Admitted (.grpc none) (callsOf (.handler 0) (sampleAdmission ++ sampleServing))
          c.subject) ∧
      d.state.limiter.conns = 0 ∧ sampleConsumers.subscriberCount d.state = 0 := by
  obtain ⟨d, hrun, hended, hrefused⟩ := run_sampleLife
  obtain ⟨-, -, -, -, hframes, -, hall⟩ :=
    @connections_accounted _ sampleServer _ _ _ (by decide) (by decide) hrun (by decide)
  obtain ⟨i, c, hthread, -, hslot, hadmitted⟩ := hframes _ _ _ _ _ _ rfl
  cases hthread
  have hreturned : ∀ i, callsOf (.handler i) sampleLife = [] ∨
      ∃ result, d.progs (.handler i) = .ret result ∧ result ≠ .serving := by
    refine Fin.forall_fin_two.mpr ⟨?_, ?_⟩
    · exact Or.inr ⟨_, hended, by simp⟩
    · exact Or.inr ⟨_, hrefused, by simp⟩
  obtain ⟨hconns, -, -, hcount⟩ := hall hreturned
  exact ⟨d, hrun, ⟨c, hslot, hadmitted⟩, hconns, hcount⟩

end Runs

end Stream
end OptimumGateway
