import TcpServer.Base.Interleaving
import TcpServer.ServiceLayer.Store
import TcpServer.ServiceLayer.Table

/-!
# The server

`ServiceLayer/Server.cpp` as threads that take small steps over shared memory. Each call of `Buy`,
`Remove` or `MakeOrder` is one agent of an interleaving: it starts in the thread that calls it and
goes on as a task of a pool, and its program counter says how far it has come. Whatever the code does
under no lock, or under a lock others can get between two of its accesses, is a step of its own.

- A lock is held by the agents at a point where the code holds it; nobody else keeps a record of it.
  `bying_removing_mutex` is free when no agent holds it. `resize_atomics_mutex` can be had alone when
  no agent has it at all, and shared when no agent has it alone. The latter is what is documented of
  `std::shared_mutex`, and an assumption: an implementation that lets a thread wait for the lock to be
  shared because another one waits to have it alone is not covered.
- A pool runs a queued task when one of its threads is idle; in which order is left open.
- `wait(false)` on a gate returns when the gate is open.
- A call whose vectors cannot be had ends in the exception. An access out of range leaves the memory
  `undefined`, and nothing is said about what follows: the machine stops.

The task of `GetAllItemDescription` takes no lock and reads only the file's text, so that it is no agent
here; it is modelled with the sessions, and where the pools are waited for, as are `Wait`, `Join` and
`Stop`. Not modelled are the destructor and the prints.
-/

namespace TcpServer

open Interleaving

/-! ## The agents -/

inductive CartKind where
  | buy
  | remove
  deriving DecidableEq, Repr

/-- A call of `Buy` or `Remove`; `throws` says how its callback ends. -/
structure CartCall where
  kind : CartKind
  itemId : ItemId
  itemCount : SizeT
  sessionId : SessionId
  throws : Bool
  deriving DecidableEq, Repr

/-- Where a `Buy` or a `Remove` is: what it does next, and what it holds. -/
inductive CartPc where
  /-- Entered; `CheckSessionIdSize` takes the table's lock alone. -/
  | called
  /-- Alone on the table. -/
  | resizing
  | sized
  /-- With the table's lock shared, before `++`. -/
  | counting
  | counted
  | posting
  /-- The call has returned; the task waits for a thread of `mainThreadPool`. -/
  | queued
  | started
  /-- With the mutex, before the first access to the maps. -/
  | locked
  /-- A `Buy` that found enough in stock. -/
  | admitted
  /-- The stock is changed and the cart is not. -/
  | moved
  /-- The maps are done; the callback of a `Buy` comes next. -/
  | applied (granted : Bool)
  | settling
  /-- With the mutex and the table's lock shared, before `--`. -/
  | decrementing
  | testing
  /-- The count was zero at the test; the gate opens next. -/
  | opening
  /-- The callback of a `Remove` comes next, then the end of the task. -/
  | leaving
  | ended
  /-- The callback of a `Buy` has thrown; the rest of the task is not run. -/
  | abandoned
  /-- The call has left by an exception. -/
  | threw
  deriving DecidableEq, Repr

/-- A call of `MakeOrder`. -/
structure OrderCall where
  orderSum : SizeT
  sessionId : SessionId
  deriving DecidableEq, Repr

/-- Where a `MakeOrder` is. -/
inductive OrderPc where
  | called
  | resizing
  | posting
  /-- The call has returned; the task waits for a thread of `makeOrderThreadPool`. -/
  | queued
  | started
  /-- With the table's lock shared, at `wait(false)`. -/
  | gate
  /-- Past the gate, the table's lock not yet given back. -/
  | passed
  | ordering
  /-- With the mutex, before `CheckOrderCost`. -/
  | locked
  | refused
  | accepted (totalCookingTime : SizeT)
  /-- The cart is erased, the mutex not yet given back. -/
  | erased (totalCookingTime : SizeT)
  | cooking (totalCookingTime : SizeT)
  | answering
  | ended
  | threw
  deriving DecidableEq, Repr

inductive Frame where
  | cart (call : CartCall) (pc : CartPc)
  | order (call : OrderCall) (pc : OrderPc)
  deriving DecidableEq, Repr

def Frame.sessionId : Frame → SessionId
  | .cart c _ => c.sessionId
  | .order c _ => c.sessionId

/-- Has `bying_removing_mutex`. -/
def Frame.holdsMutex : Frame → Bool
  | .cart _ pc => match pc with
    | .locked | .admitted | .moved | .applied _ | .settling | .decrementing | .testing | .opening
    | .leaving => true
    | _ => false
  | .order _ pc => match pc with
    | .locked | .refused | .accepted _ | .erased _ => true
    | _ => false

/-- Has `resize_atomics_mutex` alone. -/
def Frame.holdsTable : Frame → Bool
  | .cart _ pc => decide (pc = .resizing)
  | .order _ pc => decide (pc = .resizing)

/-- Has `resize_atomics_mutex` shared. -/
def Frame.sharesTable : Frame → Bool
  | .cart _ pc => match pc with
    | .counting | .counted | .decrementing | .testing | .opening | .leaving => true
    | _ => false
  | .order _ pc => match pc with
    | .gate | .passed => true
    | _ => false

/-- Occupies a thread of `mainThreadPool`. -/
def Frame.onMainPool : Frame → Bool
  | .cart _ pc => match pc with
    | .started | .locked | .admitted | .moved | .applied _ | .settling | .decrementing | .testing
    | .opening | .leaving => true
    | _ => false
  | .order _ _ => false

/-- Occupies a thread of `makeOrderThreadPool`. -/
def Frame.onOrderPool : Frame → Bool
  | .cart _ _ => false
  | .order _ pc => match pc with
    | .started | .gate | .passed | .ordering | .locked | .refused | .accepted _ | .erased _
    | .cooking _ | .answering => true
    | _ => false

/-! ## The memory -/

/-- What the agents share. -/
structure Memory where
  table : Table
  store : Store
  undefined : Bool

/-- What a server is made of. -/
structure Config where
  maxUsers : SizeT
  itemHolder : ItemHolder
  /-- Whether vectors of a length can be had. -/
  alloc : ℕ → Bool
  mainThreads : ℕ
  orderThreads : ℕ
  mainThreads_pos : 0 < mainThreads
  orderThreads_pos : 0 < orderThreads

/-- The memory of a new server. -/
def Config.memory (cfg : Config) : Memory where
  table := .ofLength cfg.maxUsers.toNat
  store := .initial cfg.itemHolder
  undefined := false

abbrev ServerState := State Frame Memory

/-- A new server, before any call. -/
def Config.start (cfg : Config) : ServerState := { agents := [], memory := cfg.memory }

/-- A server with room for four sessions and one thread in each pool, which sells burgers. -/
def Config.diner : Config where
  maxUsers := 4
  itemHolder := .burger
  alloc _ := true
  mainThreads := 1
  orderThreads := 1
  mainThreads_pos := Nat.one_pos
  orderThreads_pos := Nat.one_pos

namespace ServerState

variable (s : ServerState)

def mutexFree : Bool := decide (s.agents.countP Frame.holdsMutex = 0)

/-- Nobody has the table's lock alone. -/
def tableShareable : Bool := decide (s.agents.countP Frame.holdsTable = 0)

/-- Nobody has the table's lock. -/
def tableFree : Bool := s.tableShareable && decide (s.agents.countP Frame.sharesTable = 0)

end ServerState

/-! ## The moves -/

/-- A step guarded by a lock or an idle thread. -/
def Memory.goIf {P : Type} (m : Memory) (free : Bool) (next : P) : Option (P × Memory) :=
  if free then some (next, m) else none

/-- A step on the table, from `here`. -/
def Memory.onTable {P : Type} (m : Memory) (here : P) (r : Except Abort Table) (next : P) :
    P × Memory :=
  match r with
  | .ok table => (next, { m with table })
  | .error _ => (here, { m with undefined := true })

/-- The step of `CheckSessionIdSize`: its exception leaves the call. -/
def Memory.resize {P : Type} (m : Memory) (alloc : ℕ → Bool) (sessionId : SessionId)
    (here next threw : P) : P × Memory :=
  match m.table.checkSessionIdSize alloc sessionId with
  | .error .badAlloc => (threw, m)
  | r => m.onTable here r next

/-- The next step of a `Buy` or a `Remove`. -/
def cartMove (cfg : Config) (s : ServerState) (c : CartCall) : CartPc → Option (CartPc × Memory)
  | .called => s.memory.goIf s.tableFree .resizing
  | .resizing => some (s.memory.resize cfg.alloc c.sessionId .resizing .sized .threw)
  | .sized => s.memory.goIf s.tableShareable .counting
  | .counting =>
    some (s.memory.onTable .counting (s.memory.table.increment c.sessionId) .counted)
  | .counted => some (.posting, s.memory)
  | .posting => some (.queued, s.memory)
  | .queued =>
    s.memory.goIf (decide (s.agents.countP Frame.onMainPool < cfg.mainThreads)) .started
  | .started => s.memory.goIf s.mutexFree .locked
  | .locked => match c.kind with
    | .buy =>
      let (granted, store) := s.memory.store.guardBuy c.itemId c.itemCount
      some (if granted then .admitted else .applied false, { s.memory with store })
    | .remove =>
      some (.moved, { s.memory with store := s.memory.store.returnStock c.itemId c.itemCount })
  | .admitted =>
    some (.moved, { s.memory with store := s.memory.store.takeStock c.itemId c.itemCount })
  | .moved => match c.kind with
    | .buy => some (.applied true,
        { s.memory with store := s.memory.store.addToCart c.itemId c.itemCount c.sessionId })
    | .remove => some (.applied true,
        { s.memory with store := s.memory.store.takeFromCart c.itemId c.itemCount c.sessionId })
  | .applied _ => match c.kind with
    | .buy => some (if c.throws then .abandoned else .settling, s.memory)
    | .remove => some (.settling, s.memory)
  | .settling => s.memory.goIf s.tableShareable .decrementing
  | .decrementing =>
    some (s.memory.onTable .decrementing (s.memory.table.decrement c.sessionId) .testing)
  | .testing => match s.memory.table.loadCount c.sessionId with
    | .ok count => some (if count = 0 then .opening else .leaving, s.memory)
    | .error _ => some (.testing, { s.memory with undefined := true })
  | .opening =>
    some (s.memory.onTable .opening (s.memory.table.raiseFlag c.sessionId) .leaving)
  | .leaving => some (.ended, s.memory)
  | .ended | .abandoned | .threw => none

/-- The next step of a `MakeOrder`. -/
def orderMove (cfg : Config) (s : ServerState) (c : OrderCall) :
    OrderPc → Option (OrderPc × Memory)
  | .called => s.memory.goIf s.tableFree .resizing
  | .resizing => some (s.memory.resize cfg.alloc c.sessionId .resizing .posting .threw)
  | .posting => some (.queued, s.memory)
  | .queued =>
    s.memory.goIf (decide (s.agents.countP Frame.onOrderPool < cfg.orderThreads)) .started
  | .started => s.memory.goIf s.tableShareable .gate
  | .gate => match s.memory.table.loadFlag c.sessionId with
    | .ok open_ => s.memory.goIf open_ .passed
    | .error _ => some (.gate, { s.memory with undefined := true })
  | .passed => some (.ordering, s.memory)
  | .ordering => s.memory.goIf s.mutexFree .locked
  | .locked =>
    let (accepted, totalCookingTime, store) :=
      s.memory.store.checkOrderCost c.orderSum c.sessionId
    some (if accepted then .accepted totalCookingTime else .refused, { s.memory with store })
  -- the callback of a refused order runs under the mutex
  | .refused => some (.ended, s.memory)
  | .accepted k =>
    some (.erased k, { s.memory with store := s.memory.store.eraseCart c.sessionId })
  | .erased k => some (.cooking k, s.memory)
  | .cooking _ => some (.answering, s.memory)
  | .answering => some (.ended, s.memory)
  | .ended | .threw => none

/-- The server: calls start in the thread that makes them, and each moves on its own. -/
def server (cfg : Config) : Program Frame Memory where
  fresh
    | .cart _ pc => decide (pc = .called)
    | .order _ pc => decide (pc = .called)
  move s f :=
    if s.memory.undefined then none
    else match f with
      | .cart c pc => (cartMove cfg s c pc).map fun r => (.cart c r.1, r.2)
      | .order c pc => (orderMove cfg s c pc).map fun r => (.order c r.1, r.2)

/-- The machine of a server. -/
abbrev serverMachine (cfg : Config) : Transition.Machine ServerState (Action Frame) :=
  (server cfg).machine cfg.memory

/-- Some moves of one agent. -/
def moves (k n : ℕ) : List (Action Frame) := List.replicate n (.run k)

/-- A `Buy` of one burger. -/
def burgerFor (sessionId : SessionId) : CartCall :=
  { kind := .buy, itemId := 1, itemCount := 1, sessionId, throws := false }

/-- A `MakeOrder` of one burger. -/
def orderFor (sessionId : SessionId) : OrderCall := { orderSum := 730, sessionId }

end TcpServer
