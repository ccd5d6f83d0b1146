import TcpServer.Laws.Draining
import TcpServer.ServiceLayer.Lifecycle

/-!
# Where the tasks are

What a step of the server is, when its pools are looked at as well (`lifeStep_cases`), and what the
history of a pool says about the agents: so many of them are queued in it and so many occupy a thread
(`tallied`). From there on the agents answer for what is outstanding, and a task that is posted and
neither queued nor running has finished (`finished_of_offPools`). A pool whose `wait` has returned
neither runs anything nor will (`Idle`).
-/

namespace TcpServer

open Interleaving Transition

/-! ## Steps -/

/-- A move of an agent, of either kind. -/
inductive FrameStep (cfg : Config) (s : ServerState) : Frame → Frame → Memory → Prop
  | cart {c : CartCall} {pc pc' : CartPc} {m' : Memory} (h : CartStep cfg s c pc pc' m') :
    FrameStep cfg s (.cart c pc) (.cart c pc') m'
  | order {c : OrderCall} {pc pc' : OrderPc} {m' : Memory} (h : OrderStep cfg s c pc pc' m') :
    FrameStep cfg s (.order c pc) (.order c pc') m'

/-- What a step of the server with its pools is. -/
inductive LifeStep (cfg : Config) (pool : ThreadPool) (l : Lifecycle) : LifeAction → Lifecycle → Prop
  | server {a : Action Frame} {s' : ServerState} (lets : l.letsAct pool a = true)
    (h : (server cfg).step l.server a = some s') : LifeStep cfg pool l (.server a) (l.goesOn a s')
  | getAllItemDescription : LifeStep cfg pool l .getAllItemDescription
      { l with descriptions := l.descriptions + 1, mainPool := .post :: l.mainPool }
  | describe (some : l.descriptions ≠ 0) (takes : pool.takes l.mainPool = true) :
    LifeStep cfg pool l .describe
      { l with descriptions := l.descriptions - 1, mainPool := .finish :: .start :: l.mainPool }
  | wait (h : l.waiter = .idle ∨ l.waiter = .returned) : LifeStep cfg pool l .wait
      { l with orderPool := .wait :: l.orderPool, waiter := .orders }
  | orderPoolDone (h : l.waiter = .orders) (returns : pool.returns l.orderPool = true) :
    LifeStep cfg pool l .orderPoolDone { l with mainPool := .wait :: l.mainPool, waiter := .main }
  | mainPoolDone (h : l.waiter = .main) (returns : pool.returns l.mainPool = true) :
    LifeStep cfg pool l .mainPoolDone { l with waiter := .returned }
  | stop : LifeStep cfg pool l .stop { l with orderPool := .stop :: l.orderPool, stopping := true }
  | stopMain :
    LifeStep cfg pool l .stopMain { l with mainPool := .stop :: l.mainPool, stopping := false }

section Steps

variable {cfg : Config} {pool : ThreadPool} {s s' : ServerState} {l l' : Lifecycle} {m' : Memory}
  {f f' : Frame}

theorem lifeStep_cases {a : LifeAction} (h : l.step pool cfg a = some l') :
    LifeStep cfg pool l a l' := by
  cases a with
  | server a =>
    obtain ⟨lets, h⟩ := Option.ite_none_right_eq_some.mp h
    obtain ⟨s', hs, rfl⟩ := Option.map_eq_some_iff.mp h
    exact .server lets hs
  | getAllItemDescription =>
    obtain rfl := Option.some.inj h
    exact .getAllItemDescription
  | describe =>
    obtain ⟨⟨some, takes, _⟩, h⟩ := Option.ite_none_right_eq_some.mp h
    obtain rfl := Option.some.inj h
    exact .describe some takes
  | wait =>
    obtain ⟨here, h⟩ := Option.ite_none_right_eq_some.mp h
    obtain rfl := Option.some.inj h
    exact .wait here
  | orderPoolDone =>
    obtain ⟨⟨here, returns⟩, h⟩ := Option.ite_none_right_eq_some.mp h
    obtain rfl := Option.some.inj h
    exact .orderPoolDone here returns
  | mainPoolDone =>
    obtain ⟨⟨here, returns⟩, h⟩ := Option.ite_none_right_eq_some.mp h
    obtain rfl := Option.some.inj h
    exact .mainPoolDone here returns
  | stop =>
    obtain ⟨_, h⟩ := Option.ite_none_left_eq_some.mp h
    obtain rfl := Option.some.inj h
    exact .stop
  | stopMain =>
    obtain ⟨_, h⟩ := Option.ite_none_right_eq_some.mp h
    obtain rfl := Option.some.inj h
    exact .stopMain

/-- A move of the server: one agent moves, or the memory is undefined from here on. -/
theorem run_cases {k : ℕ} (h : (server cfg).step s (.run k) = some s') :
    (∃ f f' m', s.agents[k]? = some f ∧ FrameStep cfg s f f' m' ∧
      s' = { agents := s.agents.set k f', memory := m' }) ∨
    s' = { s with memory := { s.memory with undefined := true } } := by
  cases step_cases h with
  | cart hk hstep => exact .inl ⟨_, _, _, hk, .cart hstep, rfl⟩
  | order hk hstep => exact .inl ⟨_, _, _, hk, .order hstep, rfl⟩
  | undefined _ _ => exact .inr rfl

/-- A call that starts is nowhere on a pool. -/
theorem offPools_of_spawn {f : Frame} (h : (server cfg).step s (.spawn f) = some s') :
    (f.queuedMain = false ∧ f.onMainPool = false) ∧
      (f.queuedOrder = false ∧ f.onOrderPool = false) ∧
      f.answered = false ∧ s' = { s with agents := s.agents ++ [f] } := by
  cases step_cases h with
  | callCart c => exact ⟨⟨rfl, rfl⟩, ⟨rfl, rfl⟩, rfl, rfl⟩
  | callOrder c => exact ⟨⟨rfl, rfl⟩, ⟨rfl, rfl⟩, rfl, rfl⟩

/-- Who moves is let by the pools. -/
theorem lets_of_run {k : ℕ} {f : Frame} (lets : l.letsAct pool (.run k) = true)
    (hk : l.server.agents[k]? = some f) :
    (f.queuedMain = true → pool.takes l.mainPool = true) ∧
      (f.queuedOrder = true → pool.takes l.orderPool = true) := by
  rw [Lifecycle.letsAct, hk, Option.all_some, Lifecycle.lets, Bool.and_eq_true, Bool.or_eq_true,
    Bool.or_eq_true, Bool.not_eq_true', Bool.not_eq_true'] at lets
  exact ⟨fun hf => lets.1.resolve_left fun hnot => Bool.false_ne_true (hnot.symm.trans hf),
    fun hf => lets.2.resolve_left fun hnot => Bool.false_ne_true (hnot.symm.trans hf)⟩

/-! ## Where an agent is in its pool -/

/-- The call has returned: its task was posted. -/
def Frame.posted : Frame → Bool
  | .cart _ pc => match pc with
    | .called | .resizing | .sized | .counting | .counted | .posting | .threw => false
    | _ => true
  | .order _ pc => match pc with
    | .called | .resizing | .posting | .threw => false
    | _ => true

/-- Neither queued nor running. -/
def Frame.offPools (f : Frame) : Bool :=
  !f.queuedMain && !f.queuedOrder && !f.onMainPool && !f.onOrderPool

theorem offPools_iff : f.offPools = true ↔
    (f.queuedMain = false ∧ f.onMainPool = false) ∧
      (f.queuedOrder = false ∧ f.onOrderPool = false) := by
  simp only [Frame.offPools, Bool.and_eq_true, Bool.not_eq_true']
  tauto

/-- A move of an agent of a pool: from outside into the queue, from there to a thread, and out again. -/
inductive PoolMove : (queued running queued' running' : Bool) → Option PoolEvent → Prop
  | outside : PoolMove false false false false none
  | post : PoolMove false false true false (some .post)
  | start : PoolMove true false false true (some .start)
  | inside : PoolMove false true false true none
  | finish : PoolMove false true false false (some .finish)

theorem FrameStep.mainMove (h : FrameStep cfg s f f' m') :
    PoolMove f.queuedMain f.onMainPool f'.queuedMain f'.onMainPool
      (poolEvent? Frame.queuedMain Frame.onMainPool f f') := by
  cases h with
  | cart h => cases h <;> first | exact .inside | exact .outside | exact .post | exact .start |
      exact .finish
  | order h => exact .outside

theorem FrameStep.orderMove (h : FrameStep cfg s f f' m') :
    PoolMove f.queuedOrder f.onOrderPool f'.queuedOrder f'.onOrderPool
      (poolEvent? Frame.queuedOrder Frame.onOrderPool f f') := by
  cases h with
  | cart h => exact .outside
  | order h => cases h <;> first | exact .inside | exact .outside | exact .post | exact .start |
      exact .finish

theorem FrameStep.posted (h : FrameStep cfg s f f' m') (hf : f.posted = true) :
    f'.posted = true := by
  cases h with
  | cart h => cases h <;> first | rfl | cases hf
  | order h => cases h <;> first | rfl | cases hf

theorem FrameStep.task (h : FrameStep cfg s f f' m') : f'.task = f.task := by
  cases h <;> rfl

/-- What is finished does not move. -/
theorem FrameStep.unfinished (h : FrameStep cfg s f f' m') : f.finished = false := by
  cases h with
  | cart h => cases h <;> rfl
  | order h => cases h <;> rfl

/-- A call before it has posted its task, or after its task, leaves the maps alone and runs no
callback. -/
theorem FrameStep.offPools (h : FrameStep cfg s f f' m') (hf : f.offPools = true) :
    m'.store = s.memory.store ∧ f'.answered = f.answered := by
  cases h with
  | cart h => cases h <;> first | exact ⟨rfl, rfl⟩ | cases hf
  | order h => cases h <;> first | exact ⟨rfl, rfl⟩ | cases hf

/-- **A task that was posted and is neither queued nor running is finished.** -/
theorem finished_of_offPools (hf : f.offPools = true) (posted : f.posted = true) :
    f.finished = true := by
  cases f with
  | cart c pc =>
    cases pc <;> first
      | rfl
      | exact absurd hf Bool.false_ne_true
      | exact absurd posted Bool.false_ne_true
  | order c pc =>
    cases pc <;> first
      | rfl
      | exact absurd hf Bool.false_ne_true
      | exact absurd posted Bool.false_ne_true

/-- Who is on no thread has run its task when it is finished, and not before. -/
theorem done?_of_idle (main : f.onMainPool = false) (orders : f.onOrderPool = false) :
    f.done? = if f.finished then some f.task else none := by
  cases f with
  | cart c pc => cases pc <;> first | rfl | exact absurd main.symm Bool.false_ne_true
  | order c pc => cases pc <;> first | rfl | exact absurd orders.symm Bool.false_ne_true

/-- The mutex is held on the threads of the pools. -/
theorem holdsMutex_of_idle (main : f.onMainPool = false) (orders : f.onOrderPool = false) :
    f.holdsMutex = false := by
  cases f with
  | cart c pc => cases pc <;> first | rfl | exact absurd main.symm Bool.false_ne_true
  | order c pc => cases pc <;> first | rfl | exact absurd orders.symm Bool.false_ne_true

/-! ## The histories and the agents -/

section Moves

variable {h : PoolHistory} {agents : List Frame} {queued running : Frame → Bool} {k : ℕ}
  {e : Option PoolEvent}

/-- The event of a move tells its change of the queue and of the threads. -/
theorem Tally.move {n : ℕ} (t : Tally h (agents.countP queued + n) (agents.countP running))
    (hk : agents[k]? = some f) (move : PoolMove (queued f) (running f) (queued f') (running f') e) :
    Tally (e.toList ++ h) ((agents.set k f').countP queued + n)
      ((agents.set k f').countP running) := by
  have hqueued := countP_set queued f' hk
  have hrunning := countP_set running f' hk
  generalize queued f = q, running f = r, queued f' = q', running f' = r' at move hqueued hrunning
  cases move with
  | outside =>
    simp only [Bool.false_eq_true, if_false, Nat.add_zero] at hqueued hrunning
    rw [hqueued, hrunning]
    exact t
  | post =>
    simp only [Bool.false_eq_true, if_false, if_true, Nat.add_zero] at hqueued hrunning
    rw [hqueued, hrunning, Nat.add_right_comm]
    exact t.post
  | start =>
    simp only [Bool.false_eq_true, if_false, if_true, Nat.add_zero] at hqueued hrunning
    rw [← hqueued, Nat.add_right_comm] at t
    rw [hrunning]
    exact t.start
  | inside =>
    rw [Nat.add_right_cancel hqueued, Nat.add_right_cancel hrunning]
    exact t
  | finish =>
    simp only [Bool.false_eq_true, if_false, if_true, Nat.add_zero] at hqueued hrunning
    rw [← hrunning] at t
    rw [hqueued]
    exact t.finish

end Moves

/-- The histories of the pools are those of the agents. -/
structure Tallied (l : Lifecycle) : Prop where
  orders : Tally l.orderPool l.queuedOrders (l.server.agents.countP Frame.onOrderPool)
  main : Tally l.mainPool l.queuedMain (l.server.agents.countP Frame.onMainPool)

theorem poolEvents_of_move {queued running : Frame → Bool} {k : ℕ} (hk : s.agents[k]? = some f)
    (m' : Memory) :
    poolEvents queued running s { agents := s.agents.set k f', memory := m' } (.run k) =
      (poolEvent? queued running f f').toList := by
  rw [poolEvents, hk, Option.bind_some, getElem?_set_self hk, Option.bind_some]

theorem poolEvent?_self {queued running : Frame → Bool} : poolEvent? queued running f f = none := by
  rw [poolEvent?]
  cases queued f <;> cases running f <;> rfl

theorem poolEvents_same {queued running : Frame → Bool} {k : ℕ} (m' : Memory) :
    poolEvents queued running s { s with memory := m' } (.run k) = [] := by
  rw [poolEvents]
  cases s.agents[k]? with
  | none => rfl
  | some f => rw [Option.bind_some, Option.bind_some, poolEvent?_self, Option.toList_none]

/-- **What a step of the server is to its pools**: a call starts, away from them; or an agent moves, and
its pool sees it; or the memory is undefined from here on. -/
theorem goesOn_cases {a : Action Frame} (lets : l.letsAct pool a = true)
    (h : (server cfg).step l.server a = some s') :
    (∃ f, (f.queuedMain = false ∧ f.onMainPool = false) ∧
      (f.queuedOrder = false ∧ f.onOrderPool = false) ∧ f.answered = false ∧ a = .spawn f ∧
      l.goesOn a s' = { l with server := { l.server with agents := l.server.agents ++ [f] } }) ∨
    (∃ k f f' m', l.server.agents[k]? = some f ∧ FrameStep cfg l.server f f' m' ∧ a = .run k ∧
      (f.queuedMain = true → pool.takes l.mainPool = true) ∧
      (f.queuedOrder = true → pool.takes l.orderPool = true) ∧
      l.goesOn a s' = { l with
        server := { agents := l.server.agents.set k f', memory := m' }
        orderPool := (poolEvent? Frame.queuedOrder Frame.onOrderPool f f').toList ++ l.orderPool
        mainPool := (poolEvent? Frame.queuedMain Frame.onMainPool f f').toList ++ l.mainPool }) ∨
    ∃ k m', a = .run k ∧ m'.store = l.server.memory.store ∧
      l.goesOn a s' = { l with server := { l.server with memory := m' } } := by
  cases a with
  | spawn f =>
    obtain ⟨main, orders, answered, rfl⟩ := offPools_of_spawn h
    exact .inl ⟨f, main, orders, answered, rfl, rfl⟩
  | run k =>
    rcases run_cases h with ⟨f, f', m', hk, hstep, rfl⟩ | rfl
    · obtain ⟨main, orders⟩ := lets_of_run lets hk
      refine .inr (.inl ⟨k, f, f', m', hk, hstep, rfl, main, orders, ?_⟩)
      rw [Lifecycle.goesOn, poolEvents_of_move hk, poolEvents_of_move hk]
    · refine .inr (.inr ⟨k, { l.server.memory with undefined := true }, rfl, rfl, ?_⟩)
      rw [Lifecycle.goesOn, poolEvents_same, poolEvents_same]
      rfl

theorem Tallied.step (inv : Tallied l) {a : LifeAction} (h : l.step pool cfg a = some l') :
    Tallied l' := by
  obtain ⟨orders, main⟩ := inv
  cases lifeStep_cases h with
  | @server a s' lets hserver =>
    rcases goesOn_cases lets hserver with ⟨f, ⟨hqm, hrm⟩, ⟨hqo, hro⟩, _, _, heq⟩ |
      ⟨k, f, f', m', hk, hstep, _, _, _, heq⟩ | ⟨_, _, _, _, heq⟩
    · rw [heq]
      refine ⟨?_, ?_⟩
      · simp only [Lifecycle.queuedOrders, countP_spawn, hqo, hro]
        exact orders
      · simp only [Lifecycle.queuedMain, countP_spawn, hqm, hrm]
        exact main
    · rw [heq]
      exact ⟨Tally.move (n := 0) orders hk hstep.orderMove, main.move hk hstep.mainMove⟩
    · rw [heq]
      exact ⟨orders, main⟩
  | getAllItemDescription => exact ⟨orders, main.post⟩
  | describe some _ =>
    refine ⟨orders, Tally.finish (Tally.start ?_)⟩
    have queue : l.queuedMain = l.server.agents.countP Frame.queuedMain + (l.descriptions - 1) + 1 := by
      rw [Lifecycle.queuedMain]
      omega
    rw [queue] at main
    exact main
  | wait _ => exact ⟨orders.wait, main⟩
  | orderPoolDone _ _ => exact ⟨orders, main.wait⟩
  | mainPoolDone _ _ => exact ⟨orders, main⟩
  | stop => exact ⟨orders.stop, main⟩
  | stopMain => exact ⟨orders, main.stop⟩

/-- **The histories of the pools are those of the agents**, in every state of every run. -/
theorem tallied {C : Lifecycle → LifeAction → Prop} (h : Reachable (lifeMachine cfg pool) C l) :
    Tallied l := by
  refine h.invariant ?_ fun l a l' _ inv _ hs => inv.step hs
  rintro l rfl
  exact ⟨⟨rfl, rfl⟩, ⟨rfl, rfl⟩⟩

/-! ## Pools that were waited for -/

/-- The threads of the pool have completed, with nothing on them. -/
structure Idle (pool : ThreadPool) (h : PoolHistory) (running : ℕ) : Prop where
  completed : pool.Completed h
  idle : running = 0

theorem Idle.of_returns (doc : pool.Documented) {h : PoolHistory} {queued running : ℕ}
    (t : Tally h queued running) (returns : pool.returns h = true) : Idle pool h running :=
  ⟨.of_returns returns, t.running_eq ▸ doc.returns_running h returns⟩

theorem Idle.append {h : PoolHistory} {running : ℕ} (later : PoolHistory)
    (inv : Idle pool h running) : Idle pool (later ++ h) running :=
  ⟨inv.completed.append later, inv.idle⟩

/-- Nobody gets on a thread that has completed. -/
theorem Idle.move (doc : pool.Documented) {h : PoolHistory} {agents : List Frame}
    {queued running : Frame → Bool} {k : ℕ} {e : Option PoolEvent}
    (inv : Idle pool h (agents.countP running)) (hk : agents[k]? = some f)
    (move : PoolMove (queued f) (running f) (queued f') (running f') e)
    (lets : queued f = true → pool.takes h = true) :
    Idle pool (e.toList ++ h) ((agents.set k f').countP running) := by
  obtain ⟨completed, nobody⟩ := inv
  refine ⟨completed.append _, countP_set_eq_zero nobody ?_⟩
  have off := countP_eq_zero_iff.mp nobody k f hk
  generalize queued f = q, running f = r, queued f' = q', running f' = r' at move lets off
  cases move with
  | outside => rfl
  | post => rfl
  | start => cases (completed.takes doc).symm.trans (lets rfl)
  | inside => exact off
  | finish => rfl

/-- Whatever happens, a pool that is idle stays so. -/
theorem idle_step (doc : pool.Documented) {a : LifeAction} (h : l.step pool cfg a = some l') :
    (Idle pool l.orderPool (l.server.agents.countP Frame.onOrderPool) →
      Idle pool l'.orderPool (l'.server.agents.countP Frame.onOrderPool)) ∧
    (Idle pool l.mainPool (l.server.agents.countP Frame.onMainPool) →
      Idle pool l'.mainPool (l'.server.agents.countP Frame.onMainPool)) := by
  cases lifeStep_cases h with
  | @server a s' lets hserver =>
    rcases goesOn_cases lets hserver with ⟨f, ⟨_, hrm⟩, ⟨_, hro⟩, _, _, heq⟩ |
      ⟨k, f, f', m', hk, hstep, _, letsMain, letsOrder, heq⟩ | ⟨_, _, _, _, heq⟩
    · rw [heq]
      simp only [countP_spawn, hrm, hro]
      exact ⟨id, id⟩
    · rw [heq]
      exact ⟨fun idle => idle.move doc hk hstep.orderMove letsOrder,
        fun idle => idle.move doc hk hstep.mainMove letsMain⟩
    · rw [heq]
      exact ⟨id, id⟩
  | getAllItemDescription => exact ⟨id, .append [.post]⟩
  | describe _ _ => exact ⟨id, .append [.finish, .start]⟩
  | wait _ => exact ⟨.append [.wait], id⟩
  | orderPoolDone _ _ => exact ⟨id, .append [.wait]⟩
  | mainPoolDone _ _ => exact ⟨id, id⟩
  | stop => exact ⟨.append [.stop], id⟩
  | stopMain => exact ⟨id, .append [.stop]⟩

/-- `Wait` has gone by the pools in their order. -/
structure Pooled (pool : ThreadPool) (l : Lifecycle) : Prop where
  /-- Nothing has been waited for yet. -/
  unwaited : l.waiter = .idle → .wait ∉ l.orderPool ∧ .wait ∉ l.mainPool
  waits : l.waiter = .orders → .wait ∈ l.orderPool
  orders : l.waiter = .main ∨ l.waiter = .returned →
    Idle pool l.orderPool (l.server.agents.countP Frame.onOrderPool)
  main : l.waiter = .returned → Idle pool l.mainPool (l.server.agents.countP Frame.onMainPool)

/-- No move of an agent waits for a pool or stops it. -/
theorem calm_of_poolEvent {queued running : Frame → Bool} {e : PoolEvent}
    (h : e ∈ (poolEvent? queued running f f').toList) : e ≠ .wait ∧ e ≠ .stop := by
  rw [Option.mem_toList, poolEvent?] at h
  split at h
  · obtain rfl := Option.some.inj h
    decide
  · split at h
    · obtain rfl := Option.some.inj h
      decide
    · split at h
      · obtain rfl := Option.some.inj h
        decide
      · cases h

theorem Pooled.step (doc : pool.Documented) (inv : Pooled pool l) (t : Tallied l) {a : LifeAction}
    (h : l.step pool cfg a = some l') : Pooled pool l' := by
  obtain ⟨keepOrders, keepMain⟩ := idle_step doc h
  cases lifeStep_cases h with
  | @server a s' lets hserver =>
    rcases goesOn_cases lets hserver with ⟨f, _, _, _, _, heq⟩ |
      ⟨k, f, f', m', _, _, _, _, _, heq⟩ | ⟨_, _, _, _, heq⟩
    · rw [heq] at keepOrders keepMain ⊢
      exact ⟨inv.unwaited, inv.waits, fun h => keepOrders (inv.orders h),
        fun h => keepMain (inv.main h)⟩
    · rw [heq] at keepOrders keepMain ⊢
      refine ⟨fun idle => ?_, fun orders => ?_, fun h => keepOrders (inv.orders h),
        fun h => keepMain (inv.main h)⟩
      · obtain ⟨orders, main⟩ := inv.unwaited idle
        exact ⟨fun h => (List.mem_append.mp h).elim (fun h => (calm_of_poolEvent h).1 rfl) orders,
          fun h => (List.mem_append.mp h).elim (fun h => (calm_of_poolEvent h).1 rfl) main⟩
      · exact List.mem_append_right _ (inv.waits orders)
    · rw [heq] at keepOrders keepMain ⊢
      exact ⟨inv.unwaited, inv.waits, fun h => keepOrders (inv.orders h),
        fun h => keepMain (inv.main h)⟩
  | getAllItemDescription =>
    refine ⟨fun idle => ?_, inv.waits, inv.orders, fun h => keepMain (inv.main h)⟩
    obtain ⟨orders, main⟩ := inv.unwaited idle
    exact ⟨orders, fun h => main (List.mem_of_ne_of_mem PoolEvent.noConfusion h)⟩
  | describe _ _ =>
    refine ⟨fun idle => ?_, inv.waits, inv.orders, fun h => keepMain (inv.main h)⟩
    obtain ⟨orders, main⟩ := inv.unwaited idle
    exact ⟨orders, fun h => main (List.mem_of_ne_of_mem PoolEvent.noConfusion
      (List.mem_of_ne_of_mem PoolEvent.noConfusion h))⟩
  | wait _ =>
    refine ⟨(fun h => by cases h), fun _ => List.mem_cons_self, (fun h => ?_), fun h => by cases h⟩
    rcases h with h | h <;> cases h
  | orderPoolDone _ returns =>
    refine ⟨(fun h => by cases h), (fun h => by cases h), fun _ => ?_, fun h => by cases h⟩
    exact .of_returns doc t.orders returns
  | mainPoolDone here returns =>
    exact ⟨(fun h => by cases h), (fun h => by cases h), fun _ => inv.orders (.inl here),
      fun _ => .of_returns doc t.main returns⟩
  | stop =>
    refine ⟨fun idle => ?_, fun orders => .tail _ (inv.waits orders),
      fun h => keepOrders (inv.orders h), inv.main⟩
    obtain ⟨orders, main⟩ := inv.unwaited idle
    exact ⟨fun h => orders (List.mem_of_ne_of_mem PoolEvent.noConfusion h), main⟩
  | stopMain =>
    refine ⟨fun idle => ?_, inv.waits, inv.orders, fun h => keepMain (inv.main h)⟩
    obtain ⟨orders, main⟩ := inv.unwaited idle
    exact ⟨orders, fun h => main (List.mem_of_ne_of_mem PoolEvent.noConfusion h)⟩

theorem pooled (doc : pool.Documented) {C : Lifecycle → LifeAction → Prop}
    (h : Reachable (lifeMachine cfg pool) C l) : Pooled pool l := by
  refine h.invariant ?_ fun l a l' hr inv _ hs => inv.step doc (tallied hr) hs
  rintro l rfl
  refine ⟨fun _ => ⟨List.not_mem_nil, List.not_mem_nil⟩, (fun h => by cases h), (fun h => ?_),
    fun h => by cases h⟩
  rcases h with h | h <;> cases h

end Steps

end TcpServer
