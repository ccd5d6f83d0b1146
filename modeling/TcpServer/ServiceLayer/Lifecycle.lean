import TcpServer.ServiceLayer.Server
import TcpServer.ServiceLayer.ThreadPool

/-!
# Waiting for the pools

`Server::Wait`, `Join` and `Stop`, around the machine of the calls. `Wait` and `Join` are one program:
they wait for `makeOrderThreadPool` first and for `mainThreadPool` then. The tasks that
`GetAllItemDescription` posts are counted here, since they are on `mainThreadPool` as well.

Each pool is there as its history: the moves of the calls and of their tasks are read off as what is
posted to it, taken by its threads, and returns (`poolEvent?`). What the history makes the pool do is
said by the parameter `pool`. That a task needs an idle thread, of so many, is in the machine of the calls
already.
-/

namespace TcpServer

open Interleaving

/-- Where the thread that calls `Wait` or `Join` is. -/
inductive Waiter where
  | idle
  /-- At `makeOrderThreadPool.wait()`. -/
  | orders
  /-- At `mainThreadPool.wait()`. -/
  | main
  | returned
  deriving DecidableEq, Repr

/-- Posted to `mainThreadPool` and not started. -/
def Frame.queuedMain : Frame → Bool
  | .cart _ pc => decide (pc = .queued)
  | .order _ _ => false

/-- Posted to `makeOrderThreadPool` and not started. -/
def Frame.queuedOrder : Frame → Bool
  | .cart _ _ => false
  | .order _ pc => decide (pc = .queued)

section Events

variable (queued running : Frame → Bool)

/-- What a move of an agent is to a pool, whose queue and whose threads are told by two predicates. -/
def poolEvent? (f f' : Frame) : Option PoolEvent :=
  if !queued f && queued f' then some .post
  else if !running f && running f' then some .start
  else if running f && !running f' then some .finish
  else none

/-- What an action of the server is to a pool. -/
def poolEvents (s s' : ServerState) : Action Frame → PoolHistory
  | .spawn _ => []
  | .run k => (s.agents[k]?.bind fun f =>
      s'.agents[k]?.bind fun f' => poolEvent? queued running f f').toList

end Events

/-- A server with its pools and the thread that waits for them. -/
structure Lifecycle where
  server : ServerState
  /-- The queued tasks of `GetAllItemDescription`. -/
  descriptions : ℕ
  orderPool : PoolHistory
  mainPool : PoolHistory
  waiter : Waiter
  /-- `Stop` has stopped the one pool and not the other. -/
  stopping : Bool

/-- A new server. -/
def Config.lifecycle (cfg : Config) : Lifecycle where
  server := cfg.start
  descriptions := 0
  orderPool := []
  mainPool := []
  waiter := .idle
  stopping := false

inductive LifeAction where
  /-- A call, or a move of a call or of its task. -/
  | server (a : Action Frame)
  | getAllItemDescription
  /-- A thread runs a task of `GetAllItemDescription`. -/
  | describe
  /-- A call of `Wait` or of `Join`. -/
  | wait
  /-- `makeOrderThreadPool.wait()` returns. -/
  | orderPoolDone
  /-- `mainThreadPool.wait()` returns. -/
  | mainPoolDone
  /-- A call of `Stop`, its first statement. -/
  | stop
  | stopMain

namespace Lifecycle

variable (l : Lifecycle)

/-- How many tasks are queued on `mainThreadPool`. -/
def queuedMain : ℕ := l.server.agents.countP Frame.queuedMain + l.descriptions

def queuedOrders : ℕ := l.server.agents.countP Frame.queuedOrder

/-- The server has made a step. -/
def goesOn (a : Action Frame) (s' : ServerState) : Lifecycle :=
  { l with
    server := s'
    orderPool := poolEvents Frame.queuedOrder Frame.onOrderPool l.server s' a ++ l.orderPool
    mainPool := poolEvents Frame.queuedMain Frame.onMainPool l.server s' a ++ l.mainPool }

variable (pool : ThreadPool)

/-- A queued task starts only on a pool that takes it. -/
def lets (f : Frame) : Bool :=
  (!f.queuedMain || pool.takes l.mainPool) && (!f.queuedOrder || pool.takes l.orderPool)

def letsAct : Action Frame → Bool
  | .spawn _ => true
  | .run k => l.server.agents[k]?.all (l.lets pool)

def step (cfg : Config) : LifeAction → Option Lifecycle
  | .server a =>
    if l.letsAct pool a then ((TcpServer.server cfg).step l.server a).map (l.goesOn a) else none
  | .getAllItemDescription =>
    some { l with descriptions := l.descriptions + 1, mainPool := .post :: l.mainPool }
  | .describe =>
    if l.descriptions ≠ 0 ∧ pool.takes l.mainPool ∧
        l.server.agents.countP Frame.onMainPool < cfg.mainThreads then
      some { l with
        descriptions := l.descriptions - 1, mainPool := .finish :: .start :: l.mainPool }
    else none
  | .wait =>
    if l.waiter = .idle ∨ l.waiter = .returned then
      some { l with orderPool := .wait :: l.orderPool, waiter := .orders }
    else none
  | .orderPoolDone =>
    if l.waiter = .orders ∧ pool.returns l.orderPool then
      some { l with mainPool := .wait :: l.mainPool, waiter := .main }
    else none
  | .mainPoolDone =>
    if l.waiter = .main ∧ pool.returns l.mainPool then some { l with waiter := .returned } else none
  | .stop => if l.stopping then none else
      some { l with orderPool := .stop :: l.orderPool, stopping := true }
  | .stopMain => if l.stopping then
      some { l with mainPool := .stop :: l.mainPool, stopping := false } else none

end Lifecycle

/-- The machine of a server with its pools. -/
def lifeMachine (cfg : Config) (pool : ThreadPool) : Transition.Machine Lifecycle LifeAction where
  init l := l = cfg.lifecycle
  step l := l.step pool cfg

end TcpServer
