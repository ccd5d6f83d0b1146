import TcpServer.ServiceLayer.Store
import TcpServer.ServiceLayer.Table

/-!
# The request handler

`ControllerLayer/RequestHandler.h`: one HTTP request is read, checked and routed. What it does to the
outside is a list of effects: a response given to `responce_func`, or the response callback handed to
an operation of the server. A handler that does not return leaves by an exception, with the effects it
has had so far.

The handler waits for `server_mutex` before it does any of this, and an operation of the server goes on in
its thread up to the point where it posts its task; neither is in here. What a call of an operation does
is left open (`handleRequestOn`); for the sessions it is recorded (`emit`), and starts an agent of the
server, which has the mutex until its task is posted (`ControllerLayer/Session`).

The arguments of a call are read in some order the compiler chooses; here it is the written one. Every
order reads the same values and fails on the same bodies.

`parse` (`none` where the text is not JSON) and the conversion of doubles that are no `size_t` are
parameters.
-/

namespace TcpServer

inductive Verb where
  | get
  | post
  | delete_
  | other (name : String)
  deriving DecidableEq, Repr

/-- What the handler reads of a request. -/
structure Request where
  method : Verb
  target : String
  body : String
  deriving DecidableEq, Repr

/-- What the handler sets of a response. -/
structure Response where
  result : ℕ
  body : String
  deriving DecidableEq, Repr

/-- A call of an operation of the server. -/
inductive Call where
  | getAllItemDescription
  | buy (itemId itemCount : SizeT) (sessionId : SessionId)
  | remove (itemId itemCount : SizeT) (sessionId : SessionId)
  | makeOrder (orderSum : SizeT) (sessionId : SessionId)
  deriving DecidableEq, Repr

/-- What the handler does to the outside. -/
inductive Effect where
  | respond (r : Response)
  | handOver (c : Call)
  deriving DecidableEq, Repr

/-- What the handler works on: the server's table, and the effects so far. -/
structure Front where
  table : Table
  effects : List Effect
  deriving DecidableEq, Repr

abbrev Handler := EStateM Abort Front

namespace RequestHandler

/-- `callback`: the response an operation's answer becomes. -/
def callback (a : Answer) : Response where
  result :=
    if a.status.text = "payment_failure" then 402
    else if a.status.text = "internal_error" then 500
    else 200
  body := a.msg

/-- A client is told 200 exactly when the operation was a success. -/
theorem callback_result (a : Answer) : (callback a).result = 200 ↔ a.status = .ok := by
  unfold callback
  cases a.status <;> simp [Status.text]

def respond (r : Response) : Handler Unit :=
  modify fun s => { s with effects := s.effects ++ [.respond r] }

def notFound (target : String) : Handler Unit :=
  respond { result := 404, body := "The resource '" ++ target ++ "' was not found." }

def unsupportedMethod (why : String) : Handler Unit := respond { result := 405, body := why }

def invalidParams (why : String) : Handler Unit := respond { result := 422, body := why }

/-- A step that may leave by an exception. -/
def attempt {X : Type} : Except Abort X → Handler X
  | .ok x => pure x
  | .error e => throw e

/-- One check of `check_params`, and the body its lookup leaves behind. -/
def checkParam (key : String) (js : Json) : Except Abort (Bool × Json) :=
  if js.contains key then do
    let (v, js) ← js.subscript key
    return (v.isNumberUnsigned, js)
  else .ok (true, js)

/-- `check_params`: the checks in their order, up to the first that fails. -/
def checkParams (js : Json) : Except Abort (Bool × Json) :=
  ["id", "count", "sessionId", "order_sum"].foldlM
    (fun r key => if r.1 then checkParam key r.2 else .ok r) (true, js)

section Handle

variable (parse : String → Option Json) (undef : ℚ → SizeT)

/-- `nlohmann::json::parse`. -/
def parseBody (body : String) : Except Abort Json :=
  match parse body with
  | some js => .ok js
  | none => .error .parseError

/-- `js[key].get<size_t>()`, and the body the lookup leaves behind. -/
def readSizeT (js : Json) (key : String) : Except Abort (SizeT × Json) := do
  let (v, js) ← js.subscript key
  let n ← v.getSizeT undef
  return (n, js)

/-- The arguments of `Buy` and `Remove`. -/
def readCart (js : Json) : Except Abort (SizeT × SizeT × SizeT) := do
  let (i, js) ← readSizeT undef js "id"
  let (c, js) ← readSizeT undef js "count"
  let (s, _) ← readSizeT undef js "sessionId"
  return (i, c, s)

/-- The arguments of `MakeOrder`. -/
def readOrder (js : Json) : Except Abort (SizeT × SizeT) := do
  let (o, js) ← readSizeT undef js "order_sum"
  let (s, _) ← readSizeT undef js "sessionId"
  return (o, s)

/-- `handle_request` once it has `server_mutex`, with the operations of the server left open: `call` is what
a call of one does. -/
def handleRequestOn (call : Call → Handler Unit) (req : Request) : Handler Unit := do
  if req.method = .get then
    if req.target = "/get_description" then call .getAllItemDescription
    else notFound req.target
  else
    let js ← attempt (parseBody parse req.body)
    let (valid, js) ← attempt (checkParams js)
    if !valid then invalidParams "invalid body parameters"
    else if req.method = .post then
      if req.target = "/buy" then
        let (i, c, s) ← attempt (readCart undef js)
        call (.buy i c s)
      else if req.target = "/make_order" then
        let (o, s) ← attempt (readOrder undef js)
        call (.makeOrder o s)
      else notFound req.target
    else if req.method = .delete_ then
      if req.target = "/remove" then
        let (i, c, s) ← attempt (readCart undef js)
        call (.remove i c s)
      else notFound req.target
    else unsupportedMethod "unsupported_method"

end Handle

/-- A call that is only recorded: nothing of the operation has run yet. -/
def emit (c : Call) : Handler Unit :=
  modify fun s => { s with effects := s.effects ++ [.handOver c] }

end RequestHandler

end TcpServer
