import TcpServer.Laws.Posting
import TcpServer.Laws.Wedge

/-!
# What `Wait` waits for

`Wait` says that what was posted before it is done when it returns (`wait_finishes`): every such call
has finished, with its callback run, and the maps are what the tasks of the finished calls made of them.
And it does return when the calls are assured of their answers (`wait_returns`). Two things about it are
less expected. It hangs when an order waits at a gate that will not open (`wait_hangs`). And it is not a
pause: the threads of a pool that was waited for have completed, so after `Wait` the maps never change
again and no callback runs any more, whatever is called (`wait_quiesces`).

The pools are Boost's, as documented. A `wait` does not say that nothing is outstanding when it returns,
only that the pool was out of work at some moment since it began; what was posted before is then carried
from that moment to the return.
-/

namespace TcpServer

open Interleaving Transition

/-- The discipline of a server whose calls keep a discipline. -/
def Serving (C : ServerState → Action Frame → Prop) (l : Lifecycle) : LifeAction → Prop
  | .server a => C l.server a
  | _ => True

instance (C : ServerState → Action Frame → Prop) [∀ s a, Decidable (C s a)] (l : Lifecycle) :
    DecidablePred (Serving C l)
  | .server a => inferInstanceAs (Decidable (C l.server a))
  | .getAllItemDescription | .describe | .wait | .orderPoolDone | .mainPoolDone | .stop
  | .stopMain => isTrue trivial

/-- What the server does with its pools, it does without them. -/
theorem server_of_lifecycle {cfg : Config} {pool : ThreadPool} {D : Lifecycle → LifeAction → Prop}
    {C : ServerState → Action Frame → Prop} (serves : ∀ l a, D l (.server a) → C l.server a)
    {l : Lifecycle} (h : Reachable (lifeMachine cfg pool) D l) :
    Reachable (serverMachine cfg) C l.server := by
  refine h.invariant (I := fun l => Reachable (serverMachine cfg) C l.server) ?_ ?_
  · rintro l rfl
    exact .init rfl
  · intro l a l' _ inv hC hs
    cases lifeStep_cases hs with
    | server _ hserver => exact .step inv (serves _ _ hC) hserver
    | _ => exact inv

/-- What a run of the server with its pools does, its server does. -/
theorem leads_of_lifecycle {cfg : Config} {pool : ThreadPool}
    {C : ServerState → Action Frame → Prop} {l l' : Lifecycle}
    (h : Leads (lifeMachine cfg pool) (Serving C) l l') :
    Leads (serverMachine cfg) C l.server l'.server := by
  induction h with
  | refl => exact .refl
  | step _ hC hs ih =>
    cases lifeStep_cases hs with
    | server _ hserver => exact .step ih hC hserver
    | _ => exact ih

/-! ## A pool for the examples -/

/-- A pool that takes what is queued as long as it is neither stopped nor spent, and is completed then as
soon as it runs nothing. -/
def ThreadPool.plain : ThreadPool where
  takes h := decide (.stop ∉ h) && !h.spent
  returns h := (decide (.stop ∈ h) || h.spent) && decide (h.running = 0)

theorem ThreadPool.documented_plain : ThreadPool.plain.Documented where
  takes_unspent h going unspent := by
    show (decide (.stop ∉ h) && !h.spent) = true
    rw [decide_eq_true going, unspent]
    rfl
  returns_running h returns := of_decide_eq_true (Bool.and_eq_true_iff.mp returns).2
  returns_takes h later returns := by
    have ended := (Bool.and_eq_true_iff.mp returns).1
    rw [Bool.or_eq_true, decide_eq_true_eq] at ended
    show (decide (.stop ∉ later ++ h) && !PoolHistory.spent (later ++ h)) = false
    rw [Bool.and_eq_false_iff]
    rcases ended with stopped | spends
    · exact .inl (decide_eq_false (not_not_intro (List.mem_append_right _ stopped)))
    · exact .inr (by rw [PoolHistory.spent_append later spends, Bool.not_true])
  returns_spent h returns going := by
    have ended := (Bool.and_eq_true_iff.mp returns).1
    rw [Bool.or_eq_true, decide_eq_true_eq] at ended
    exact ended.resolve_left going
  returns_of_spent h _ spends idle := by
    show ((decide (.stop ∈ h) || h.spent) && decide (h.running = 0)) = true
    rw [spends, Bool.or_true, Bool.true_and]
    exact decide_eq_true idle

/-! ## After `Wait` -/

section Quiescence

variable {cfg : Config} {pool : ThreadPool} {l l' : Lifecycle}

/-- Nothing happens to the maps and no callback runs in a step while both pools are idle for good. -/
theorem quiet_step (doc : pool.Documented)
    (orders : Idle pool l.orderPool (l.server.agents.countP Frame.onOrderPool))
    (main : Idle pool l.mainPool (l.server.agents.countP Frame.onMainPool))
    {a : LifeAction} (h : l.step pool cfg a = some l') :
    l'.server.memory.store = l.server.memory.store ∧ l.descriptions ≤ l'.descriptions ∧
      ∀ j : ℕ, l'.server.agents[j]?.any Frame.answered =
        l.server.agents[j]?.any Frame.answered := by
  cases lifeStep_cases h with
  | @server a s' lets hserver =>
    rcases goesOn_cases lets hserver with ⟨f, _, _, hf, _, heq⟩ |
      ⟨k, f, f', m', hk, hstep, _, letsMain, letsOrder, heq⟩ | ⟨_, _, _, hstore, heq⟩
    · rw [heq]
      refine ⟨rfl, Nat.le_refl _, fun j => ?_⟩
      show (l.server.agents ++ [f])[j]?.any _ = _
      rcases Nat.lt_trichotomy j l.server.agents.length with hlt | rfl | hgt
      · rw [List.getElem?_append_left hlt]
      · rw [List.getElem?_concat_length, Option.any_some, hf, List.getElem?_eq_none (Nat.le_refl _)]
        rfl
      · rw [List.getElem?_eq_none (by rw [List.length_append, List.length_singleton]; omega),
          List.getElem?_eq_none (Nat.le_of_lt hgt)]
    · rw [heq]
      -- whoever moves is neither queued on a pool that is done nor on one of its threads
      have off : f.offPools = true := by
        refine offPools_iff.mpr ⟨⟨?_, countP_eq_zero_iff.mp main.idle k f hk⟩, ?_,
          countP_eq_zero_iff.mp orders.idle k f hk⟩
        · by_contra queued
          rw [Bool.not_eq_false] at queued
          cases (letsMain queued).symm.trans (main.completed.takes doc)
        · by_contra queued
          rw [Bool.not_eq_false] at queued
          cases (letsOrder queued).symm.trans (orders.completed.takes doc)
      obtain ⟨hstore, hanswered⟩ := hstep.offPools off
      refine ⟨hstore, Nat.le_refl _, fun j => ?_⟩
      by_cases hjk : j = k
      · subst hjk
        rw [getElem?_set_self hk, hk, Option.any_some, Option.any_some, hanswered]
      · rw [getElem?_set_other hjk]
    · rw [heq]
      exact ⟨hstore, Nat.le_refl _, fun j => rfl⟩
  | describe _ takes => cases (main.completed.takes doc).symm.trans takes
  | getAllItemDescription => exact ⟨rfl, Nat.le_succ _, fun j => rfl⟩
  | wait _ => exact ⟨rfl, Nat.le_refl _, fun j => rfl⟩
  | orderPoolDone _ _ => exact ⟨rfl, Nat.le_refl _, fun j => rfl⟩
  | mainPoolDone _ _ => exact ⟨rfl, Nat.le_refl _, fun j => rfl⟩
  | stop => exact ⟨rfl, Nat.le_refl _, fun j => rfl⟩
  | stopMain => exact ⟨rfl, Nat.le_refl _, fun j => rfl⟩

/-- **After `Wait` nothing is served**: whatever is called once it has returned, the maps stay as they
are, and the calls whose callbacks have run stay those they were. -/
theorem wait_quiesces (doc : pool.Documented) (h : Reachable (lifeMachine cfg pool) Always l)
    (returned : l.waiter = .returned) (later : Leads (lifeMachine cfg pool) Always l l') :
    l'.server.memory.store = l.server.memory.store ∧ l.descriptions ≤ l'.descriptions ∧
      ∀ j : ℕ, l'.server.agents[j]?.any Frame.answered =
        l.server.agents[j]?.any Frame.answered := by
  have inv := pooled doc h
  have kept := later.invariant
    (I := fun l₁ => Idle pool l₁.orderPool (l₁.server.agents.countP Frame.onOrderPool) ∧
      Idle pool l₁.mainPool (l₁.server.agents.countP Frame.onMainPool) ∧
      l₁.server.memory.store = l.server.memory.store ∧ l.descriptions ≤ l₁.descriptions ∧
        ∀ j : ℕ, l₁.server.agents[j]?.any Frame.answered =
          l.server.agents[j]?.any Frame.answered) h
    ⟨inv.orders (.inr returned), inv.main returned, rfl, Nat.le_refl _, fun _ => rfl⟩
    fun l₁ a l₂ _ ⟨orders, main, store, descriptions, answered⟩ _ hs => by
      obtain ⟨keepOrders, keepMain⟩ := idle_step doc hs
      obtain ⟨store', descriptions', answered'⟩ := quiet_step doc orders main hs
      exact ⟨keepOrders orders, keepMain main, store'.trans store,
        Nat.le_trans descriptions descriptions', fun j => (answered' j).trans (answered j)⟩
  exact kept.2.2

end Quiescence

/-- A `Buy` and an order of its session are posted, and `Wait` is called. -/
def lastOrders : List LifeAction :=
  (.spawn (.cart (burgerFor 1) .called) :: moves 0 6 ++
    .spawn (.order (orderFor 1) .called) :: moves 1 5).map .server ++ [.wait]

/-- They run to their end, and `Wait` returns. -/
def closing : List LifeAction :=
  (moves 0 11 ++ moves 1 8).map .server ++ [.orderPoolDone, .mainPoolDone]

/-- A call after `Wait` is posted, and stays in its queue. -/
theorem wait_quiesces_diner :
    ∃ l l', (lifeMachine .diner .plain).run Config.diner.lifecycle (lastOrders ++ closing) = some l ∧
      (lifeMachine .diner .plain).run l
        ((.spawn (.cart (burgerFor 2) .called) :: moves 2 6).map .server) = some l' ∧
      l'.server.memory.store = l.server.memory.store ∧ l.descriptions ≤ l'.descriptions ∧
        ∀ j : ℕ, l'.server.agents[j]?.any Frame.answered =
          l.server.agents[j]?.any Frame.answered := by
  have run : (((lifeMachine .diner .plain).run Config.diner.lifecycle (lastOrders ++ closing)).bind
      fun l => ((lifeMachine .diner .plain).run l
        ((.spawn (.cart (burgerFor 2) .called) :: moves 2 6).map .server)).map fun _ =>
          decide (l.waiter = .returned)) = some true := by
    decide
  obtain ⟨l, hl, run⟩ := Option.bind_eq_some_iff.mp run
  obtain ⟨l', hl', run⟩ := Option.map_eq_some_iff.mp run
  exact ⟨l, l', hl, hl', wait_quiesces ThreadPool.documented_plain
    ((Reachable.init rfl).leads (Machine.run_leads _ hl)) (of_decide_eq_true run)
    (Machine.run_leads _ hl')⟩

/-! ## What was posted before `Wait` -/

section Finished

variable {cfg : Config} {pool : ThreadPool} {s s' : ServerState} {l l' : Lifecycle}

/-- Nobody stops the pools. -/
def NotStopped (_ : Lifecycle) : LifeAction → Prop
  | .stop | .stopMain => False
  | _ => True

instance (l : Lifecycle) : DecidablePred (NotStopped l)
  | .stop | .stopMain => isFalse id
  | .server _ | .getAllItemDescription | .describe | .wait | .orderPoolDone | .mainPoolDone =>
    isTrue trivial

/-- **All done**: what had been posted in the state `s` is done in the state `s'`. Each such call has
finished there, with its callback run; nobody is on a thread of a pool or has the mutex; and the maps are
what the tasks of the finished calls make of the initial ones, each once, in some order. -/
structure AllDone (cfg : Config) (s s' : ServerState) : Prop where
  finished : ∀ (j : ℕ) (f : Frame), s.agents[j]? = some f → f.posted = true →
    ∃ f', s'.agents[j]? = some f' ∧ f'.task = f.task ∧ f'.finished = true ∧ f'.answered = true
  idle : s'.agents.countP Frame.onMainPool = 0 ∧ s'.agents.countP Frame.onOrderPool = 0 ∧
    s'.mutexFree = true
  store : ∃ ts : List Task, ts.Perm ((s'.agents.filter Frame.finished).map Frame.task) ∧
    s'.memory.store = (Store.initial cfg.itemHolder).after ts

/-- The history of the pool of an agent. -/
def Lifecycle.historyOf (l : Lifecycle) : Frame → PoolHistory
  | .cart _ _ => l.mainPool
  | .order _ _ => l.orderPool

/-- The agent has posted the task, and has finished it if its pool is spent. -/
def Finishes (l : Lifecycle) (j : ℕ) (t : Task) : Prop :=
  ∃ f, l.server.agents[j]? = some f ∧ f.posted = true ∧ f.task = t ∧
    ((l.historyOf f).spent = true → f.finished = true)

/-- When a pool is out of work, all that was posted to it is finished. -/
theorem Tallied.finished (t : Tallied l) {j : ℕ} {f : Frame} (hj : l.server.agents[j]? = some f)
    (posted : f.posted = true) (out : (l.historyOf f).outstanding = 0) : f.finished = true := by
  refine finished_of_offPools (offPools_iff.mpr ?_) posted
  cases f with
  | cart c pc =>
    have none := t.main.outstanding_eq.symm.trans out
    rw [Lifecycle.queuedMain] at none
    refine ⟨⟨?_, ?_⟩, rfl, rfl⟩
    · exact countP_eq_zero_iff.mp (by omega) j _ hj
    · exact countP_eq_zero_iff.mp (by omega) j _ hj
  | order c pc =>
    have none := t.orders.outstanding_eq.symm.trans out
    rw [Lifecycle.queuedOrders] at none
    refine ⟨⟨rfl, rfl⟩, ?_, ?_⟩
    · exact countP_eq_zero_iff.mp (by omega) j _ hj
    · exact countP_eq_zero_iff.mp (by omega) j _ hj

/-- A pool gets spent by being out of work. -/
theorem spent_toList {e : Option PoolEvent} {h : PoolHistory}
    (spends : PoolHistory.spent (e.toList ++ h) = true) :
    h.spent = true ∨ PoolHistory.outstanding (e.toList ++ h) = 0 := by
  cases e with
  | none => exact .inl spends
  | some e => exact (PoolHistory.spent_cons.mp spends).symm.imp id And.right

theorem spent_step (t : Tallied l) {a : LifeAction} (h : l.step pool cfg a = some l') :
    (l'.orderPool.spent = true → l.orderPool.spent = true ∨ l'.orderPool.outstanding = 0) ∧
      (l'.mainPool.spent = true → l.mainPool.spent = true ∨ l'.mainPool.outstanding = 0) := by
  cases lifeStep_cases h with
  | @server a s' lets hserver =>
    rcases goesOn_cases lets hserver with ⟨_, _, _, _, _, heq⟩ |
      ⟨_, _, _, _, _, _, _, _, _, heq⟩ | ⟨_, _, _, _, heq⟩
    · rw [heq]
      exact ⟨.inl, .inl⟩
    · rw [heq]
      exact ⟨spent_toList, spent_toList⟩
    · rw [heq]
      exact ⟨.inl, .inl⟩
  | getAllItemDescription => exact ⟨.inl, spent_toList (e := some .post)⟩
  | describe some _ =>
    refine ⟨.inl, fun spends => ?_⟩
    rcases PoolHistory.spent_cons.mp spends with ⟨_, out⟩ | spends
    · exact .inr out
    · -- the task was outstanding when it was taken
      rcases PoolHistory.spent_cons.mp spends with ⟨_, out⟩ | spends
      · have queue : l.queuedMain = l.queuedMain - 1 + 1 := by
          rw [Lifecycle.queuedMain]
          omega
        have taken := (queue ▸ t.main).start.outstanding_eq
        omega
      · exact .inl spends
  | wait _ => exact ⟨spent_toList (e := some .wait), .inl⟩
  | orderPoolDone _ _ => exact ⟨.inl, spent_toList (e := some .wait)⟩
  | mainPoolDone _ _ => exact ⟨.inl, .inl⟩
  | stop => exact ⟨spent_toList (e := some .stop), .inl⟩
  | stopMain => exact ⟨.inl, spent_toList (e := some .stop)⟩

/-- Every agent stays where it is in a step, or is the one that moves. -/
theorem agent_step {a : LifeAction} (h : l.step pool cfg a = some l') {j : ℕ} {f : Frame}
    (hj : l.server.agents[j]? = some f) :
    ∃ f', l'.server.agents[j]? = some f' ∧ (f' = f ∨ ∃ m', FrameStep cfg l.server f f' m') := by
  cases lifeStep_cases h with
  | @server a s' lets hserver =>
    rcases goesOn_cases lets hserver with ⟨g, _, _, _, _, heq⟩ |
      ⟨k, g, g', m', hk, hstep, _, _, _, heq⟩ | ⟨_, _, _, _, heq⟩
    · rw [heq]
      exact ⟨f, getElem?_spawn hj, .inl rfl⟩
    · rw [heq]
      by_cases hjk : j = k
      · subst hjk
        obtain rfl := Option.some.inj (hk.symm.trans hj)
        exact ⟨g', getElem?_set_self hk, .inr ⟨m', hstep⟩⟩
      · exact ⟨f, (getElem?_set_other hjk).trans hj, .inl rfl⟩
    · rw [heq]
      exact ⟨f, hj, .inl rfl⟩
  | _ => exact ⟨f, hj, .inl rfl⟩

theorem Finishes.step {j : ℕ} {t : Task} (inv : Finishes l j t) (tallied : Tallied l) {a : LifeAction}
    (h : l.step pool cfg a = some l') : Finishes l' j t := by
  obtain ⟨f, hj, posted, task, finished⟩ := inv
  obtain ⟨f', hj', moved⟩ := agent_step h hj
  have posted' : f'.posted = true := by
    rcases moved with rfl | ⟨m', hstep⟩
    · exact posted
    · exact hstep.posted posted
  have task' : f'.task = t := by
    rcases moved with rfl | ⟨m', hstep⟩
    · exact task
    · exact hstep.task.trans task
  refine ⟨f', hj', posted', task', fun spends => ?_⟩
  obtain ⟨orders, main⟩ := spent_step tallied h
  have earlier : (l.historyOf f).spent = true ∨ (l'.historyOf f').outstanding = 0 := by
    cases f with
    | cart c pc =>
      rcases moved with rfl | ⟨m', ⟨hstep⟩⟩
      · exact main spends
      · exact main spends
    | order c pc =>
      rcases moved with rfl | ⟨m', ⟨hstep⟩⟩
      · exact orders spends
      · exact orders spends
  rcases earlier with spent | out
  · rcases moved with rfl | ⟨m', hstep⟩
    · exact finished spent
    · cases hstep.unfinished.symm.trans (finished spent)
  · exact (tallied.step h).finished hj' posted' out

/-- Nobody has stopped the pools, and what `Wait` has gone by is spent. -/
structure Passed (l : Lifecycle) : Prop where
  going : .stop ∉ l.orderPool ∧ .stop ∉ l.mainPool
  orders : l.waiter = .main ∨ l.waiter = .returned → l.orderPool.spent = true
  main : l.waiter = .returned → l.mainPool.spent = true

theorem going_step {a : LifeAction} (goes : NotStopped l a) (h : l.step pool cfg a = some l')
    (going : .stop ∉ l.orderPool ∧ .stop ∉ l.mainPool) :
    .stop ∉ l'.orderPool ∧ .stop ∉ l'.mainPool := by
  obtain ⟨orders, main⟩ := going
  have other : ∀ {e : PoolEvent} {h : PoolHistory}, e ≠ .stop → .stop ∉ h → .stop ∉ e :: h :=
    fun he hnot hmem => hnot (List.mem_of_ne_of_mem he.symm hmem)
  cases lifeStep_cases h with
  | @server a s' lets hserver =>
    rcases goesOn_cases lets hserver with ⟨_, _, _, _, _, heq⟩ |
      ⟨_, _, _, _, _, _, _, _, _, heq⟩ | ⟨_, _, _, _, heq⟩
    · rw [heq]
      exact ⟨orders, main⟩
    · rw [heq]
      exact ⟨fun h => (List.mem_append.mp h).elim (fun h => (calm_of_poolEvent h).2 rfl) orders,
        fun h => (List.mem_append.mp h).elim (fun h => (calm_of_poolEvent h).2 rfl) main⟩
    · rw [heq]
      exact ⟨orders, main⟩
  | getAllItemDescription => exact ⟨orders, other (by decide) main⟩
  | describe _ _ => exact ⟨orders, other (by decide) (other (by decide) main)⟩
  | wait _ => exact ⟨other (by decide) orders, main⟩
  | orderPoolDone _ _ => exact ⟨orders, other (by decide) main⟩
  | mainPoolDone _ _ => exact ⟨orders, main⟩
  | stop => exact goes.elim
  | stopMain => exact goes.elim

theorem Passed.step (doc : pool.Documented) (inv : Passed l) {a : LifeAction} (goes : NotStopped l a)
    (h : l.step pool cfg a = some l') : Passed l' := by
  have going := going_step goes h inv.going
  cases lifeStep_cases h with
  | @server a s' lets hserver =>
    exact ⟨going, fun h => PoolHistory.spent_append _ (inv.orders h),
      fun h => PoolHistory.spent_append _ (inv.main h)⟩
  | getAllItemDescription =>
    exact ⟨going, inv.orders, fun h => PoolHistory.spent_append [.post] (inv.main h)⟩
  | describe _ _ =>
    exact ⟨going, inv.orders, fun h => PoolHistory.spent_append [.finish, .start] (inv.main h)⟩
  | wait _ =>
    refine ⟨going, (fun h => ?_), fun h => by cases h⟩
    rcases h with h | h <;> cases h
  | orderPoolDone _ returns =>
    exact ⟨going, fun _ => doc.returns_spent _ returns inv.going.1, fun h => by cases h⟩
  | mainPoolDone here returns =>
    exact ⟨going, fun _ => inv.orders (.inl here),
      fun _ => doc.returns_spent _ returns inv.going.2⟩
  | stop => exact goes.elim
  | stopMain => exact goes.elim

/-- While nobody is on a thread, the maps are those of the finished tasks. -/
theorem store_of_idle (h : Reachable (serverMachine cfg) Always s)
    (main : s.agents.countP Frame.onMainPool = 0) (orders : s.agents.countP Frame.onOrderPool = 0) :
    s.mutexFree = true ∧
      ∃ ts : List Task, ts.Perm ((s.agents.filter Frame.finished).map Frame.task) ∧
        s.memory.store = (Store.initial cfg.itemHolder).after ts := by
  have nobody : s.agents.countP Frame.holdsMutex = 0 :=
    countP_eq_zero_iff.mpr fun j f hj => holdsMutex_of_idle (countP_eq_zero_iff.mp main j f hj)
      (countP_eq_zero_iff.mp orders j f hj)
  obtain ⟨ts, runs⟩ := server_runs_tasks h
  refine ⟨decide_eq_true nobody, ts, List.perm_iff_count.mpr fun t => ?_, runs.free nobody⟩
  rw [runs.done t, List.count_eq_countP, List.countP_map, List.countP_filter]
  refine List.countP_congr fun f hf => ?_
  obtain ⟨j, hj⟩ := List.mem_iff_getElem?.mp hf
  rw [Frame.hasDone, done?_of_idle (countP_eq_zero_iff.mp main j f hj)
    (countP_eq_zero_iff.mp orders j f hj)]
  cases f.finished <;> simp

/-- **What was posted before `Wait` is done when it returns**: `Wait` is first called after the state
`l`, and nobody stops the pools. -/
theorem wait_finishes (doc : pool.Documented) (h : Reachable (lifeMachine cfg pool) Always l)
    (idle : l.waiter = .idle) (going : .stop ∉ l.orderPool ∧ .stop ∉ l.mainPool)
    (later : Leads (lifeMachine cfg pool) NotStopped l l') (returned : l'.waiter = .returned) :
    AllDone cfg l.server l'.server := by
  obtain ⟨noOrders, noMain⟩ := (pooled doc h).unwaited idle
  have passed : Passed l' := by
    clear returned
    induction later with
    | refl =>
      refine ⟨going, (fun h => ?_), fun h => by cases idle.symm.trans h⟩
      rcases h with h | h <;> cases idle.symm.trans h
    | step _ goes hs ih => exact ih.step doc goes hs
  have kept : ∀ (j : ℕ) (f : Frame), l.server.agents[j]? = some f → f.posted = true →
      Finishes l' j f.task := by
    intro j f hj posted
    have start : Finishes l j f.task := by
      refine ⟨f, hj, posted, rfl, fun spends => ?_⟩
      cases f with
      | cart c pc => exact absurd (PoolHistory.wait_of_spent spends) noMain
      | order c pc => exact absurd (PoolHistory.wait_of_spent spends) noOrders
    exact (later.mono fun _ _ _ => trivial).invariant (I := fun l₁ => Finishes l₁ j f.task) h start
      fun l₁ a l₂ hr inv _ hs => inv.step (tallied hr) hs
  have reached := h.leads (later.mono fun _ _ _ => trivial)
  have inv := pooled doc reached
  have main := (inv.main returned).idle
  have orders := (inv.orders (.inr returned)).idle
  obtain ⟨free, store⟩ :=
    store_of_idle (server_of_lifecycle (fun _ _ _ => trivial) reached) main orders
  refine ⟨fun j f hj posted => ?_, ⟨main, orders, free⟩, store⟩
  obtain ⟨f', hj', _, task, finished⟩ := kept j f hj posted
  have done : f'.finished = true := by
    refine finished ?_
    cases f' with
    | cart c pc => exact passed.main returned
    | order c pc => exact passed.orders (.inr returned)
  exact ⟨f', hj', task, done, answered_of_finished done⟩

/-- The `Buy` and the order are posted when `Wait` is called, and are answered when it returns. -/
theorem wait_finishes_diner :
    ∃ l l', (lifeMachine .diner .plain).run Config.diner.lifecycle lastOrders.dropLast = some l ∧
      l.server.agents = [.cart (burgerFor 1) .queued, .order (orderFor 1) .gate] ∧
      (lifeMachine .diner .plain).runIf NotStopped l (.wait :: closing) = some l' ∧
        AllDone .diner l.server l'.server := by
  have run : (((lifeMachine .diner .plain).run Config.diner.lifecycle lastOrders.dropLast).bind
      fun l => ((lifeMachine .diner .plain).runIf NotStopped l (.wait :: closing)).map fun l' =>
        decide ((l.waiter = .idle ∧ .stop ∉ l.orderPool ∧ .stop ∉ l.mainPool) ∧
          l'.waiter = .returned ∧
          l.server.agents = [.cart (burgerFor 1) .queued, .order (orderFor 1) .gate])) =
            some true := by
    decide
  obtain ⟨l, hl, run⟩ := Option.bind_eq_some_iff.mp run
  obtain ⟨l', hl', run⟩ := Option.map_eq_some_iff.mp run
  obtain ⟨⟨idle, going⟩, returned, agents⟩ := of_decide_eq_true run
  exact ⟨l, l', hl, agents, hl', wait_finishes ThreadPool.documented_plain
    ((Reachable.init rfl).leads (Machine.run_leads _ hl)) idle going (Machine.runIf_leads _ hl')
    returned⟩

end Finished

/-! ## An order that waits for good -/

/-- **`Wait` hangs** when an order is at a gate that does not open, whoever moves, whatever is called,
and whether the pools are stopped or not. -/
theorem wait_hangs {cfg : Config} {pool : ThreadPool} (doc : pool.Documented) {l l' : Lifecycle}
    (h : Reachable (lifeMachine cfg pool) (Serving CountedRun) l) {k : ℕ} {c : OrderCall}
    (order : l.server.agents[k]? = some (.order c .gate)) (shut : ¬ Opens l.server c.sessionId)
    (later : Leads (lifeMachine cfg pool) (Serving CountedRun) l l') : l'.waiter ≠ .returned := by
  intro returned
  have inv := pooled doc (h.leads later)
  have stays := wedged_for_good (server_of_lifecycle (fun _ _ hC => hC) h) order shut
    (leads_of_lifecycle later)
  have nobody := (inv.orders (.inr returned)).idle
  cases countP_eq_zero_iff.mp nobody k _ stays

/-- One order of a session that has called nothing else. -/
theorem wait_hangs_diner :
    ∃ l, (lifeMachine .diner .plain).runIf (Serving CountedRun) Config.diner.lifecycle
        ((.spawn (.order (orderFor 1) .called) :: moves 0 5).map .server ++ [.wait]) = some l ∧
      ∀ l', Leads (lifeMachine .diner .plain) (Serving CountedRun) l l' →
        l'.waiter ≠ .returned := by
  have run : (((lifeMachine .diner .plain).runIf (Serving CountedRun) Config.diner.lifecycle
      ((.spawn (.order (orderFor 1) .called) :: moves 0 5).map .server ++ [.wait])).map fun l =>
        decide (l.server.agents[0]? = some (.order (orderFor 1) .gate) ∧ ¬ Opens l.server 1)) =
          some true := by
    decide
  obtain ⟨l, hl, run⟩ := Option.map_eq_some_iff.mp run
  obtain ⟨order, shut⟩ := of_decide_eq_true run
  exact ⟨l, hl, fun l' later => wait_hangs ThreadPool.documented_plain
    ((Reachable.init rfl).leads (Machine.runIf_leads _ hl)) order shut later⟩

/-! ## `Wait` returns -/

/-- A step that ends something: a move, a task of `GetAllItemDescription`, the end of a pool. -/
def LifeAction.Ends : LifeAction → Prop
  | .server a => a.IsRun
  | .describe | .orderPoolDone | .mainPoolDone => True
  | _ => False

/-- How far the thread that waits has to go. -/
def Waiter.left : Waiter → ℕ
  | .orders => 2
  | .main => 1
  | .idle | .returned => 0

/-- How many steps there are before `Wait` returns, at most. -/
def Lifecycle.left (l : Lifecycle) : ℕ := l.server.left + l.descriptions + l.waiter.left

/-- `Wait` has been called for the first time, and waits for the orders; nobody has stopped the pools;
and no order came too late for its pool. -/
structure WaitCalled (l : Lifecycle) : Prop where
  waiter : l.waiter = .orders
  first : .wait ∉ l.mainPool
  going : .stop ∉ l.orderPool ∧ .stop ∉ l.mainPool
  inTime : l.orderPool.spent = true → l.queuedOrders = 0

/-- `Wait` is under way, and nothing is queued in a pool that is spent. -/
structure Winding (cfg : Config) (pool : ThreadPool) (l : Lifecycle) : Prop where
  life : Reachable (lifeMachine cfg pool) Always l
  reached : Reachable (serverMachine cfg) (UnwedgedRun cfg) l.server
  assured : Assured l.server
  posted : ∀ (j : ℕ) (f : Frame), l.server.agents[j]? = some f → f.posted = true
  going : .stop ∉ l.orderPool ∧ .stop ∉ l.mainPool
  called : l.waiter ≠ .idle
  waits : l.waiter = .main → .wait ∈ l.mainPool
  orders : l.orderPool.spent = true → l.queuedOrders = 0
  main : l.mainPool.spent = true → l.queuedMain = 0

section Winding

variable {cfg : Config} {pool : ThreadPool} {l l' : Lifecycle}

/-- Nobody joins by a step that ends something. -/
theorem agents_length_of_ends {a : LifeAction} (ends : a.Ends) (h : l.step pool cfg a = some l') :
    l'.server.agents.length = l.server.agents.length := by
  cases lifeStep_cases h with
  | @server a s' _ hserver =>
    cases a with
    | spawn f => exact ends.elim
    | run k =>
      rcases run_cases hserver with ⟨_, _, _, _, _, rfl⟩ | rfl
      · exact List.length_set
      · rfl
  | _ => rfl

/-- What was posted is not posted again: the queues only get shorter. -/
theorem queued_of_ends {a : LifeAction} (ends : a.Ends) (h : l.step pool cfg a = some l')
    (posted : ∀ (j : ℕ) (f : Frame), l.server.agents[j]? = some f → f.posted = true) :
    l'.queuedOrders ≤ l.queuedOrders ∧ l'.queuedMain ≤ l.queuedMain := by
  cases lifeStep_cases h with
  | @server a s' lets hserver =>
    rcases goesOn_cases lets hserver with ⟨_, _, _, _, rfl, _⟩ |
      ⟨k, f, f', m', hk, hstep, _, _, _, heq⟩ | ⟨_, _, _, _, heq⟩
    · exact ends.elim
    · have unqueued : f'.queuedMain = false ∧ f'.queuedOrder = false := by
        have hf := posted k f hk
        cases hstep with
        | cart hstep => cases hstep <;> first | exact ⟨rfl, rfl⟩ | cases hf
        | order hstep => cases hstep <;> first | exact ⟨rfl, rfl⟩ | cases hf
      have orders := countP_set Frame.queuedOrder f' hk
      have main := countP_set Frame.queuedMain f' hk
      rw [unqueued.2, if_neg Bool.false_ne_true] at orders
      rw [unqueued.1, if_neg Bool.false_ne_true] at main
      rw [heq]
      simp only [Lifecycle.queuedOrders, Lifecycle.queuedMain]
      omega
    · rw [heq]
      exact ⟨Nat.le_refl _, Nat.le_refl _⟩
  | describe _ _ =>
    refine ⟨Nat.le_refl _, ?_⟩
    simp only [Lifecycle.queuedMain]
    omega
  | orderPoolDone _ _ => exact ⟨Nat.le_refl _, Nat.le_refl _⟩
  | mainPoolDone _ _ => exact ⟨Nat.le_refl _, Nat.le_refl _⟩
  | getAllItemDescription => exact ends.elim
  | wait _ => exact ends.elim
  | stop => exact ends.elim
  | stopMain => exact ends.elim

theorem Winding.step (inv : Winding cfg pool l) {a : LifeAction} (ends : a.Ends)
    (h : l.step pool cfg a = some l') : Winding cfg pool l' := by
  have life : Reachable (lifeMachine cfg pool) Always l' := .step inv.life trivial h
  have going : NotStopped l a := by
    cases a <;> first | exact trivial | exact ends
  have posted : ∀ (j : ℕ) (f : Frame), l'.server.agents[j]? = some f → f.posted = true := by
    intro j f hj
    have hlt : j < l.server.agents.length :=
      agents_length_of_ends ends h ▸ (List.getElem?_eq_some_iff.mp hj).1
    have there := List.getElem?_eq_getElem hlt
    obtain ⟨f', hj', moved⟩ := agent_step h there
    obtain rfl := Option.some.inj (hj'.symm.trans hj)
    rcases moved with rfl | ⟨m', hstep⟩
    · exact inv.posted j _ there
    · exact hstep.posted (inv.posted j _ there)
  -- a pool that is out of work has nothing queued, and a pool that was spent gets nothing
  have tally := (tallied inv.life).step h
  obtain ⟨fewerOrders, fewerMain⟩ := queued_of_ends ends h inv.posted
  obtain ⟨spentOrders, spentMain⟩ := spent_step (tallied inv.life) h
  have orders : l'.orderPool.spent = true → l'.queuedOrders = 0 := by
    intro spends
    rcases spentOrders spends with spent | out
    · have none := inv.orders spent
      omega
    · have none := tally.orders.outstanding_eq.symm.trans out
      omega
  have main : l'.mainPool.spent = true → l'.queuedMain = 0 := by
    intro spends
    rcases spentMain spends with spent | out
    · have none := inv.main spent
      omega
    · have none := tally.main.outstanding_eq.symm.trans out
      omega
  have kept := going_step going h inv.going
  cases lifeStep_cases h with
  | @server a s' lets hserver =>
    cases a with
    | spawn f => exact ends.elim
    | run k =>
      exact ⟨life, .step inv.reached (inv.assured.unwedged k) hserver,
        inv.assured.move (countExact inv.reached) hserver, posted, kept, inv.called,
        fun here => List.mem_append_right _ (inv.waits here), orders, main⟩
  | describe _ _ =>
    exact ⟨life, inv.reached, inv.assured, posted, kept, inv.called,
      fun here => .tail _ (.tail _ (inv.waits here)), orders, main⟩
  | orderPoolDone _ _ =>
    exact ⟨life, inv.reached, inv.assured, posted, kept, (fun h => by cases h),
      fun _ => List.mem_cons_self, orders, main⟩
  | mainPoolDone _ _ =>
    exact ⟨life, inv.reached, inv.assured, posted, kept, (fun h => by cases h),
      (fun h => by cases h), orders, main⟩
  | getAllItemDescription => exact ends.elim
  | wait _ => exact ends.elim
  | stop => exact ends.elim
  | stopMain => exact ends.elim

/-- Every step that ends something leaves less to wait for. -/
theorem lifeLeft_step {a : LifeAction} (ends : a.Ends) (h : l.step pool cfg a = some l') :
    l'.left < l.left := by
  cases lifeStep_cases h with
  | @server a s' _ hserver =>
    cases a with
    | spawn f => exact ends.elim
    | run k =>
      have lower := left_move hserver
      show s'.left + l.descriptions + l.waiter.left < l.server.left + l.descriptions + l.waiter.left
      omega
  | describe some _ =>
    show l.server.left + (l.descriptions - 1) + l.waiter.left <
      l.server.left + l.descriptions + l.waiter.left
    omega
  | orderPoolDone here _ =>
    simp only [Lifecycle.left, here, Waiter.left]
    omega
  | mainPoolDone here _ =>
    simp only [Lifecycle.left, here, Waiter.left]
    omega
  | getAllItemDescription => exact ends.elim
  | wait _ => exact ends.elim
  | stop => exact ends.elim
  | stopMain => exact ends.elim

theorem winding_descends (cfg : Config) (pool : ThreadPool) :
    (lifeMachine cfg pool).Descends (Winding cfg pool) LifeAction.Ends Lifecycle.left where
  keeps _ _ _ inv ends h := inv.step ends h
  lowers _ _ _ _ ends h := lifeLeft_step ends h

/-- The pools keep nobody from moving: what is queued is queued in a pool that takes it. -/
theorem Winding.lets (doc : pool.Documented) (inv : Winding cfg pool l) (k : ℕ) :
    l.letsAct pool (.run k) = true := by
  rw [Lifecycle.letsAct]
  cases hk : l.server.agents[k]? with
  | none => rfl
  | some f =>
    rw [Option.all_some, Lifecycle.lets, Bool.and_eq_true, Bool.or_eq_true, Bool.or_eq_true,
      Bool.not_eq_true', Bool.not_eq_true']
    refine ⟨?_, ?_⟩
    · refine or_iff_not_imp_left.mpr fun queued => doc.takes_unspent _ inv.going.2 ?_
      by_contra spends
      have none := inv.main (Bool.not_eq_false _ ▸ spends)
      rw [Lifecycle.queuedMain] at none
      exact queued (countP_eq_zero_iff.mp (by omega) k f hk)
    · refine or_iff_not_imp_left.mpr fun queued => doc.takes_unspent _ inv.going.1 ?_
      by_contra spends
      have none := inv.orders (Bool.not_eq_false _ ▸ spends)
      exact queued (countP_eq_zero_iff.mp none k f hk)

/-- Nothing of a drained server is queued. -/
theorem Drained.unqueued {s : ServerState} (drained : Drained cfg s) :
    s.agents.countP Frame.queuedOrder = 0 ∧ s.agents.countP Frame.queuedMain = 0 := by
  refine ⟨countP_eq_zero_iff.mpr fun j f hj => ?_, countP_eq_zero_iff.mpr fun j f hj => ?_⟩
  · have finished := drained.finished j f hj
    cases f with
    | cart c pc => rfl
    | order c pc =>
      obtain rfl := of_decide_eq_true finished
      rfl
  · have finished := drained.finished j f hj
    cases f with
    | cart c pc => cases pc <;> first | rfl | cases finished
    | order c pc => rfl

/-- When nothing can end any more, the server is drained and `Wait` has returned. -/
theorem Winding.returned_of_rest (doc : pool.Documented) (inv : Winding cfg pool l)
    (rest : (lifeMachine cfg pool).AtRest LifeAction.Ends l) :
    l.waiter = .returned ∧ Drained cfg l.server ∧ l.descriptions = 0 := by
  have stuck : (serverMachine cfg).AtRest Action.IsRun l.server := by
    intro a ha
    cases a with
    | spawn f => exact ha.elim
    | run k =>
      have none := rest (.server (.run k)) trivial
      have hstep : (lifeMachine cfg pool).step l (.server (.run k)) =
          ((server cfg).step l.server (.run k)).map (l.goesOn (.run k)) := if_pos (inv.lets doc k)
      exact Option.map_eq_none_iff.mp (hstep.symm.trans none)
  have drained := drained_of_rest inv.reached stuck
  obtain ⟨noOrders, noTasks⟩ := drained.unqueued
  obtain ⟨noMain, noOrder⟩ := drained.idle
  obtain ⟨tallyOrders, tallyMain⟩ := tallied inv.life
  have blocked : ∀ a : LifeAction, a.Ends → ∀ l', (lifeMachine cfg pool).step l a ≠ some l' :=
    fun a ends l' h => Option.some_ne_none l' (h.symm.trans (rest a ends))
  have described : l.descriptions = 0 := by
    by_contra waiting
    refine blocked .describe trivial _ (if_pos ⟨waiting, ?_, ?_⟩)
    · refine doc.takes_unspent _ inv.going.2 ?_
      by_contra spends
      have none := inv.main (Bool.not_eq_false _ ▸ spends)
      rw [Lifecycle.queuedMain] at none
      omega
    · rw [noMain]
      exact cfg.mainThreads_pos
  -- nothing is outstanding, so the pool that is waited for is spent
  cases hwaiter : l.waiter with
  | idle => exact absurd hwaiter inv.called
  | orders =>
    have waited := (pooled doc inv.life).waits hwaiter
    have out : l.orderPool.outstanding = 0 := by
      rw [tallyOrders.outstanding_eq, Lifecycle.queuedOrders, noOrders, noOrder]
    have returns := doc.returns_of_spent _ inv.going.1
      (PoolHistory.spent_of_outstanding waited out) (tallyOrders.running_eq.trans noOrder)
    exact absurd (if_pos ⟨hwaiter, returns⟩) (blocked .orderPoolDone trivial _)
  | main =>
    have out : l.mainPool.outstanding = 0 := by
      rw [tallyMain.outstanding_eq, Lifecycle.queuedMain, noTasks, noMain, described]
    have returns := doc.returns_of_spent _ inv.going.2
      (PoolHistory.spent_of_outstanding (inv.waits hwaiter) out) (tallyMain.running_eq.trans noMain)
    exact absurd (if_pos ⟨hwaiter, returns⟩) (blocked .mainPoolDone trivial _)
  | returned => exact ⟨rfl, drained, described⟩

end Winding

/-- **`Wait` returns**: called for the first time when the calls so far have returned and are assured of
their answers, and no pool has been stopped. If nothing is called meanwhile, only so many steps are left,
whoever is scheduled; where no step is left, `Wait` has returned and everything is done; and that
state is reached. -/
theorem wait_returns {cfg : Config} {pool : ThreadPool} (doc : pool.Documented) {l : Lifecycle}
    (h : Reachable (lifeMachine cfg pool) (Serving (UnwedgedRun cfg)) l) (assured : Assured l.server)
    (posted : ∀ (j : ℕ) (f : Frame), l.server.agents[j]? = some f → f.posted = true)
    (called : WaitCalled l) :
    (∀ as l', (∀ a ∈ as, a.Ends) → (lifeMachine cfg pool).run l as = some l' →
      as.length ≤ l.left ∧ ((lifeMachine cfg pool).AtRest LifeAction.Ends l' →
        l'.waiter = .returned ∧ Drained cfg l'.server ∧ l'.descriptions = 0)) ∧
    ∃ as l', (∀ a ∈ as, a.Ends) ∧ (lifeMachine cfg pool).run l as = some l' ∧
      l'.waiter = .returned ∧ Drained cfg l'.server ∧ l'.descriptions = 0 := by
  have start : Winding cfg pool l :=
    { life := h.always
      reached := server_of_lifecycle (fun _ _ hC => hC) h
      assured, posted
      going := called.going
      called := fun idle => by cases called.waiter.symm.trans idle
      waits := fun main => by cases called.waiter.symm.trans main
      orders := called.inTime
      main := fun spends => absurd (PoolHistory.wait_of_spent spends) called.first }
  have descends := winding_descends cfg pool
  refine ⟨fun as l' ends hrun => ?_, ?_⟩
  · obtain ⟨winding, hlength⟩ := descends.run as start ends hrun
    exact ⟨by omega, winding.returned_of_rest doc⟩
  · obtain ⟨as, l', ends, hrun, rest⟩ := descends.comes_to_rest start
    obtain ⟨winding, _⟩ := descends.run as start ends hrun
    exact ⟨as, l', ends, hrun, winding.returned_of_rest doc rest⟩

/-- `Wait` is called while a `Buy` waits for a thread and an order at its gate. -/
theorem wait_returns_diner :
    ∃ l, (lifeMachine .diner .plain).runIf (Serving (UnwedgedRun .diner)) Config.diner.lifecycle
        lastOrders = some l ∧
      (∀ as l', (∀ a ∈ as, a.Ends) → (lifeMachine .diner .plain).run l as = some l' →
        as.length ≤ l.left ∧ ((lifeMachine .diner .plain).AtRest LifeAction.Ends l' →
          l'.waiter = .returned ∧ Drained .diner l'.server ∧ l'.descriptions = 0)) ∧
      ∃ as l', (∀ a ∈ as, a.Ends) ∧ (lifeMachine .diner .plain).run l as = some l' ∧
        l'.waiter = .returned ∧ Drained .diner l'.server ∧ l'.descriptions = 0 := by
  have run : (((lifeMachine .diner .plain).runIf (Serving (UnwedgedRun .diner))
      Config.diner.lifecycle lastOrders).map fun l =>
        decide (l.server.agents = [.cart (burgerFor 1) .queued, .order (orderFor 1) .gate] ∧
          Opens l.server 1 ∧ l.waiter = .orders ∧ .wait ∉ l.mainPool ∧
          (.stop ∉ l.orderPool ∧ .stop ∉ l.mainPool) ∧ l.orderPool.spent = false)) =
            some true := by
    decide
  obtain ⟨l, hl, run⟩ := Option.map_eq_some_iff.mp run
  obtain ⟨agents, opens, waiter, first, going, unspent⟩ := of_decide_eq_true run
  exact ⟨l, hl, wait_returns ThreadPool.documented_plain
    ((Reachable.init rfl).leads (Machine.runIf_leads _ hl))
    (assured_of_agents agents opens) (fun j f hj => by
      rcases here_of_agents agents hj with rfl | rfl <;> rfl)
    ⟨waiter, first, going, fun spends => by cases unspent.symm.trans spends⟩⟩

end TcpServer
