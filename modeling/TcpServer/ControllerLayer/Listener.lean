import TcpServer.ControllerLayer.Session

/-!
# The listener and the process

`ControllerLayer/Listener.cpp` and `main.cpp`. The listener accepts one connection after the other:
`on_accept` starts a session and accepts again. After an error it does neither, and nobody else accepts.

The threads of `main` run the `io_context` until it has no work: no accept, read or write is pending,
and no handler is queued or running. The tasks in the pools of the server are not the context's work.
When `ioc.run()` returns, `main` leaves the threads it has not joined to the destructor of a vector, and
that ends the process. An exception that leaves a handler ends it as well, in whatever thread.

- A constructor that fails leaves a listener whose first accept fails. Whether an accept fails is open.
- A handler that calls an operation of the server is running until the operation has posted its task
  (`submitting`), or while the exception of `CheckSessionIdSize` leaves it (`escaping`).
- How many threads run the context makes no difference.
-/

namespace TcpServer

open RequestHandler

/-- How far the process is. -/
inductive Phase where
  | serving
  /-- `ioc.run()` has returned. -/
  | outOfWork
  /-- An exception has left a handler. -/
  | terminated
  deriving DecidableEq, Repr

/-- The sessions and the server, and the listener. -/
structure Process where
  network : Network
  /-- `async_accept` is pending. -/
  accepting : Bool
  phase : Phase

/-- What a step of the process is. -/
inductive Turn where
  | onAccept (failed : Bool)
  /-- A step of the sessions or the server. -/
  | session (a : Occurrence)
  /-- The handler of a request throws. -/
  | escape (t : Ticket)
  /-- `CheckSessionIdSize` has thrown in the handler that called it. -/
  | escapeCall (j : ℕ)
  | outOfWork

/-- What the context waits for, or runs. -/
def Op.onContext : Op → Bool
  | .asyncRead _ | .handleRequest _ | .asyncWrite _ _ => true
  | .describe _ => false

/-- The exception is on its way to the handler. -/
def Frame.escaping : Frame → Bool
  | .cart _ pc => decide (pc = .threw)
  | .order _ pc => decide (pc = .threw)

/-- A handler is in the call. -/
def Frame.inHandler (f : Frame) : Bool := f.submitting || f.escaping

namespace Process

variable (p : Process)

/-- The work of the context. -/
def work : ℕ :=
  (if p.accepting then 1 else 0) + p.network.ops.countP Op.onContext +
    p.network.server.agents.countP Frame.inHandler

section Step

variable (cfg : Config) (parse : String → Option Json) (undef : ℚ → SizeT)

/-- `on_accept`. -/
def onAccept (failed : Bool) : Option Process :=
  if failed then some { p with accepting := false }
  else (p.network.step cfg parse undef .accept).map fun network => { p with network }

/-- A handler that throws. -/
def escape (t : Ticket) : Option Process :=
  match handleRequestOn parse undef emit t.request
      { table := p.network.memory.table, effects := [] } with
  | .ok _ _ => none
  | .error _ _ => some { p with phase := .terminated }

/-- One step of the process. -/
def step (a : Turn) : Option Process :=
  if p.phase = .serving then
    match a with
    | .onAccept failed => if p.accepting then p.onAccept cfg parse undef failed else none
    | .session .accept => none
    | .session a => (p.network.step cfg parse undef a).map fun network => { p with network }
    | .escape t =>
      if .handleRequest t ∈ p.network.ops ∧
          p.network.server.agents.countP Frame.submitting = 0 then
        p.escape parse undef t
      else none
    | .escapeCall j =>
      if (p.network.server.agents[j]?.map Frame.escaping) = some true then
        some { p with phase := .terminated }
      else none
    | .outOfWork => if p.work = 0 then some { p with phase := .outOfWork } else none
  else none

end Step

end Process

/-- The process, with its first accept pending. -/
def Config.process (cfg : Config) : Process :=
  { network := cfg.network, accepting := true, phase := .serving }

/-- The machine of the process. -/
def processMachine (cfg : Config) (parse : String → Option Json) (undef : ℚ → SizeT) :
    Transition.Machine Process Turn where
  init p := p = cfg.process
  step p := p.step cfg parse undef

end TcpServer
