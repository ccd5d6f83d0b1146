import TcpServer.ControllerLayer.RequestHandler
import TcpServer.ServiceLayer.Server

/-!
# Sessions

`ControllerLayer/Session.cpp` over the server: any number of connections, each read, handled and
written by callbacks of the `io_context`, while the tasks of the server run in its pools.

What goes on outside the server is a list of pending operations (`Op`): asynchronous reads and writes
that will complete, a request whose handler has yet to get `server_mutex`, and a task of
`GetAllItemDescription`. Nothing in the list says that a connection has only one of them. What the
server has is a list of agents (`Server.lean`), each with the response callback it was handed. A step
completes one operation or moves one agent; all orders are possible.

- A response callback is `send_response` bound to a session. A `Ticket` is the callback of one request:
  the connection, and which request of the connection it is of. Only the connection is used by the
  code; the rest is there to say what a response answers.
- The handler has `server_mutex` until the operation it calls has posted its task (`submitting`).
- The keep-alive flag of a response is left open until its write has completed; it is read off the version
  and the fields of the message, which are in `Message.lean`. The bytes of a message are left out, and so
  is the deadline of `tcp_stream`, which makes a read or a write fail.
- A handler that throws ends the program, which is to say the machine has no such step. An allocation that
  fails in `CheckSessionIdSize` does so too; here the agent is at `threw` then and keeps its callback.
- The callbacks of the calls return.
-/

namespace TcpServer

open Interleaving RequestHandler

/-- The response callback of a request. -/
structure Ticket where
  connection : ℕ
  /-- The request is the connection's first, second, ... -/
  number : ℕ
  request : Request
  deriving DecidableEq, Repr

/-- What has happened on a connection. -/
inductive Event where
  /-- A request was read. -/
  | received (req : Request)
  /-- The write of a response was started, by the callback of a request. -/
  | responded (t : Ticket) (r : Response)
  deriving DecidableEq, Repr

/-- An operation that is pending outside the server. -/
inductive Op where
  | asyncRead (connection : ℕ)
  /-- The request is read, and `handle_request` waits for `server_mutex`. -/
  | handleRequest (t : Ticket)
  /-- A task of `GetAllItemDescription`. -/
  | describe (t : Ticket)
  | asyncWrite (connection : ℕ) (r : Response)
  deriving DecidableEq, Repr

/-- The connection an operation is of. -/
def Op.connection : Op → ℕ
  | .asyncRead k => k
  | .handleRequest t | .describe t => t.connection
  | .asyncWrite k _ => k

/-- Whether an event is the reading of a request. -/
def Event.isReceived : Event → Bool
  | .received _ => true
  | .responded _ _ => false

/-- The number of requests read. -/
def requests (h : List Event) : ℕ := h.countP Event.isReceived

/-- The sessions and the server. -/
structure Network where
  /-- What has happened on each connection, the newest first. -/
  histories : List (List Event)
  ops : List Op
  /-- The agents of the server with the callbacks they were handed. -/
  tasks : List (Frame × Ticket)
  memory : Memory

/-- What a step of the network is: a connection is accepted, an operation completes, or an agent of the
server moves. -/
inductive Occurrence where
  | accept
  /-- `none` is an error, the end of the stream included. -/
  | onRead (connection : ℕ) (req : Option Request)
  | handle (t : Ticket)
  | describe (t : Ticket)
  /-- `none` is an error, otherwise it is the keep-alive flag. -/
  | onWrite (connection : ℕ) (r : Response) (keepAlive : Option Bool)
  | run (j : ℕ)

/-- In the thread of the handler that called the operation. -/
def Frame.submitting : Frame → Bool
  | .cart _ pc => match pc with
    | .called | .resizing | .sized | .counting | .counted | .posting => true
    | _ => false
  | .order _ pc => match pc with
    | .called | .resizing | .posting => true
    | _ => false

/-- The answer the next move of an agent gives its callback. -/
def Frame.answer? : Frame → Option Answer
  | .cart c (.applied granted) => match c.kind with
    | .buy => some (if granted then .bought else .tooMany c.itemId)
    | .remove => none
  | .cart c .leaving => match c.kind with
    | .buy => none
    | .remove => some .removed
  | .cart _ _ => none
  | .order c .refused => some (.notSufficient c.orderSum c.sessionId)
  | .order c .answering => some (.ready c.sessionId)
  | .order _ _ => none

namespace Network

variable (n : Network)

/-- The server of the network. -/
def server : ServerState := { agents := n.tasks.map Prod.fst, memory := n.memory }

/-- What has happened on a connection. -/
def history (connection : ℕ) : List Event := n.histories.getD connection []

/-- An operation is no longer pending. -/
def complete (op : Op) : Network := { n with ops := n.ops.erase op }

/-- `do_read`. -/
def doRead (connection : ℕ) : Network := { n with ops := n.ops ++ [.asyncRead connection] }

/-- `on_read`, up to the call of `handle_request`: an error closes the connection or gives it up. -/
def onRead (connection : ℕ) : Option Request → Network
  | none => n
  | some request =>
    let number := requests (n.history connection) + 1
    { n with histories := n.histories.modify connection (.received request :: ·)
             ops := n.ops ++ [.handleRequest { connection, number, request }] }

/-- `send_response`, by a callback. -/
def sendResponse (t : Ticket) (r : Response) : Network :=
  { n with histories := n.histories.modify t.connection (.responded t r :: ·)
           ops := n.ops ++ [.asyncWrite t.connection r] }

/-- `on_write`. -/
def onWrite (connection : ℕ) : Option Bool → Network
  | none => n
  | some keepAlive => if keepAlive then n.doRead connection else n

/-- A call of an operation, with the callback: its thread enters the server. -/
def enter (t : Ticket) : Call → Network
  | .getAllItemDescription => { n with ops := n.ops ++ [.describe t] }
  | .buy itemId itemCount sessionId =>
    let call : CartCall := { kind := .buy, itemId, itemCount, sessionId, throws := false }
    { n with tasks := n.tasks ++ [(.cart call .called, t)] }
  | .remove itemId itemCount sessionId =>
    let call : CartCall := { kind := .remove, itemId, itemCount, sessionId, throws := false }
    { n with tasks := n.tasks ++ [(.cart call .called, t)] }
  | .makeOrder orderSum sessionId =>
    { n with tasks := n.tasks ++ [(.order { orderSum, sessionId } .called, t)] }

/-- What the handler does to the outside, with the callback. -/
def perform (t : Ticket) : Network → Effect → Network
  | n, .respond r => n.sendResponse t r
  | n, .handOver c => n.enter t c

section Step

variable (cfg : Config) (parse : String → Option Json) (undef : ℚ → SizeT)

/-- `handle_request`. -/
def handle (t : Ticket) : Option Network :=
  match handleRequestOn parse undef emit t.request { table := n.memory.table, effects := [] } with
  | .ok _ front => some (front.effects.foldl (perform t) n)
  | .error _ _ => none

/-- A move of an agent, and the call of its callback if the move makes one. -/
def run (j : ℕ) : Option Network := do
  let (f, t) ← n.tasks[j]?
  let (f', memory) ← (TcpServer.server cfg).move n.server f
  let n := { n with tasks := n.tasks.set j (f', t), memory }
  match f.answer? with
  | some a => return n.sendResponse t (callback a)
  | none => return n

/-- One step of the network. -/
def step : Occurrence → Option Network
  | .accept => some ({ n with histories := n.histories ++ [[]] }.doRead n.histories.length)
  | .onRead k req =>
    if .asyncRead k ∈ n.ops then some ((n.complete (.asyncRead k)).onRead k req) else none
  | .handle t =>
    if .handleRequest t ∈ n.ops ∧ n.server.agents.countP Frame.submitting = 0 then
      (n.complete (.handleRequest t)).handle parse undef t
    else none
  | .describe t =>
    if .describe t ∈ n.ops ∧ n.server.agents.countP Frame.onMainPool < cfg.mainThreads then
      some ((n.complete (.describe t)).sendResponse t
        (callback (getAllItemDescription cfg.itemHolder)))
    else none
  | .onWrite k r keepAlive =>
    if .asyncWrite k r ∈ n.ops then some ((n.complete (.asyncWrite k r)).onWrite k keepAlive)
    else none
  | .run j => n.run cfg j

end Step

end Network

/-- The network of a server, before any connection. -/
def Config.network (cfg : Config) : Network :=
  { histories := [], ops := [], tasks := [], memory := cfg.memory }

/-- The machine of a network. -/
def networkMachine (cfg : Config) (parse : String → Option Json) (undef : ℚ → SizeT) :
    Transition.Machine Network Occurrence where
  init n := n = cfg.network
  step n := n.step cfg parse undef

end TcpServer
