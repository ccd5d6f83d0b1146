import TcpServer.Laws.Conservation
import TcpServer.Laws.Gate
import TcpServer.Laws.Locks
import TcpServer.Laws.Pricing

/-!
# The machine runs tasks

The laws of the store are about tasks that run whole, one after the other (`Store.after`). The server
runs them in pieces, with other agents between the pieces. This module connects the two: the store of
the machine is the store after the tasks whose critical section is over, in the order in which the
sections ended (`server_runs_tasks`), except for the pieces of the one section that is under way. The
argument is mutual exclusion: whoever has the mutex finds the store as its own pieces left it.

Every operation that has had its effect is one of the tasks, exactly once, and its verdict is the one
the task has when it is run whole (`Runs.verdicts`). So what is proved of the store after any tasks
holds of the server: its goods and its money balance (`Runs.balances`), and its orders are charged what
the history says (`Runs.priced`), which includes what they waited for (`Runs.earlier`).
-/

namespace TcpServer

open Bookkeeping Interleaving Transition

/-! ## Sections under way -/

/-- The task of a call. -/
def CartCall.task (c : CartCall) : Task :=
  match c.kind with
  | .buy => .buy c.itemId c.itemCount c.sessionId
  | .remove => .remove c.itemId c.itemCount c.sessionId

def OrderCall.task (c : OrderCall) : Task := .makeOrder c.orderSum c.sessionId

def Frame.task : Frame → Task
  | .cart c _ => c.task
  | .order c _ => c.task

/-- The task of an agent whose critical section is over. -/
def Frame.done? : Frame → Option Task
  | .cart c pc => match pc with
    | .applied _ | .settling | .decrementing | .testing | .opening | .leaving | .ended
    | .abandoned => some c.task
    | _ => none
  | .order c pc => match pc with
    | .refused | .erased _ | .cooking _ | .answering | .ended => some c.task
    | _ => none

/-- The newest of the tasks `ts` is `t`, and what it did meets `p`. -/
def Newest (st₀ : Store) (ts : List Task) (t : Task) (p : Outcome → Prop) : Prop :=
  ∃ o, (st₀.history ts).head? = some (t, o) ∧ p o

/-- The first half of a `Buy` or a `Remove`, on top of the store `st`. -/
def Moved (st : Store) (c : CartCall) (store : Store) : Prop :=
  match c.kind with
  | .buy => (st.guardBuy c.itemId c.itemCount).1 = true ∧
    store = (st.guardBuy c.itemId c.itemCount).2.takeStock c.itemId c.itemCount
  | .remove => store = st.returnStock c.itemId c.itemCount

/-- What the holder of the mutex finds, on top of the store after the tasks `ts`: the pieces of its own
section, or that its own task was the last. -/
def Found (st₀ : Store) (ts : List Task) (f : Frame) (store : Store) : Prop :=
  match f with
  | .cart c pc => match pc with
    | .admitted => c.kind = .buy ∧ ((st₀.after ts).guardBuy c.itemId c.itemCount).1 = true ∧
      store = ((st₀.after ts).guardBuy c.itemId c.itemCount).2
    | .moved => Moved (st₀.after ts) c store
    | .applied granted => store = st₀.after ts ∧ Newest st₀ ts c.task (·.ok = granted)
    | _ => store = st₀.after ts
  | .order c pc => match pc with
    | .accepted k => ((st₀.after ts).checkOrderCost c.orderSum c.sessionId).1 = true ∧
      ((st₀.after ts).checkOrderCost c.orderSum c.sessionId).2.1 = k ∧
      store = ((st₀.after ts).checkOrderCost c.orderSum c.sessionId).2.2
    | .refused => store = st₀.after ts ∧ Newest st₀ ts c.task (·.ok = false)
    | .erased k => store = st₀.after ts ∧ Newest st₀ ts c.task (·.makeProduct = some k)
    | _ => store = st₀.after ts

/-- A step of the holder continues its section, or ends it with the effect of its task. -/
def Continues (st₀ : Store) (ts : List Task) (f f' : Frame) (store' : Store) : Prop :=
  (f'.done? = f.done? ∧ Found st₀ ts f' store') ∨
    ∃ t, f.done? = none ∧ f'.done? = some t ∧ Found st₀ (t :: ts) f' store'

section Pieces

variable (st : Store) (i c o : SizeT) (σ : SessionId)

/-- A `Buy`, piece by piece. -/
theorem exec_buy_pieces :
    (st.exec (.buy i c σ)).1 =
        (if (st.guardBuy i c).1 then ((st.guardBuy i c).2.takeStock i c).addToCart i c σ
          else (st.guardBuy i c).2) ∧
      (st.exec (.buy i c σ)).2.ok = (st.guardBuy i c).1 := by
  rw [Store.exec, Store.buy]
  obtain ⟨granted, st'⟩ := st.guardBuy i c
  cases granted <;> exact ⟨rfl, rfl⟩

/-- A `MakeOrder`, piece by piece. -/
theorem exec_makeOrder_pieces :
    (st.exec (.makeOrder o σ)).1 =
        (if (st.checkOrderCost o σ).1 then (st.checkOrderCost o σ).2.2.eraseCart σ
          else (st.checkOrderCost o σ).2.2) ∧
      (st.exec (.makeOrder o σ)).2.ok = (st.checkOrderCost o σ).1 ∧
      (st.exec (.makeOrder o σ)).2.makeProduct =
        if (st.checkOrderCost o σ).1 then some (st.checkOrderCost o σ).2.1 else none := by
  rw [Store.exec, Store.makeOrder]
  obtain ⟨accepted, totalCookingTime, st'⟩ := st.checkOrderCost o σ
  cases accepted <;> exact ⟨rfl, rfl, rfl⟩

end Pieces

section Steps

variable {cfg : Config} {s : ServerState} {m' : Memory} {st₀ : Store} {ts : List Task}

/-- The steps of a `Buy` or a `Remove` without the mutex leave the store alone. -/
theorem CartStep.store {c : CartCall} {pc pc' : CartPc} (h : CartStep cfg s c pc pc' m')
    (hp : (Frame.cart c pc).holdsMutex = false) :
    m'.store = s.memory.store ∧ (Frame.cart c pc').done? = (Frame.cart c pc).done? := by
  cases h <;> first | exact ⟨rfl, rfl⟩ | cases hp

theorem OrderStep.store {c : OrderCall} {pc pc' : OrderPc} (h : OrderStep cfg s c pc pc' m')
    (hp : (Frame.order c pc).holdsMutex = false) :
    m'.store = s.memory.store ∧ (Frame.order c pc').done? = (Frame.order c pc).done? := by
  cases h <;> first | exact ⟨rfl, rfl⟩ | cases hp

/-- The steps of a `Buy` or a `Remove` with the mutex. -/
theorem CartStep.continues {c : CartCall} {pc pc' : CartPc} (h : CartStep cfg s c pc pc' m')
    (hfound : Found st₀ ts (.cart c pc) s.memory.store) :
    Continues st₀ ts (.cart c pc) (.cart c pc') m'.store := by
  obtain ⟨effect, verdict⟩ :=
    exec_buy_pieces (st₀.after ts) c.itemId c.itemCount c.sessionId
  cases h with
  | grant kind enough =>
    have hst : s.memory.store = st₀.after ts := hfound
    rw [hst] at enough
    exact .inl ⟨rfl, kind, enough, by rw [hst]⟩
  | refuse kind short =>
    have hst : s.memory.store = st₀.after ts := hfound
    have task : c.task = .buy c.itemId c.itemCount c.sessionId := by rw [CartCall.task, kind]
    rw [hst] at short
    rw [short, if_neg Bool.false_ne_true] at effect
    refine .inr ⟨c.task, rfl, rfl, ?_, _, rfl, ?_⟩
    · show (s.memory.store.guardBuy c.itemId c.itemCount).2 = ((st₀.after ts).exec c.task).1
      rw [task, hst, effect]
    · show ((st₀.after ts).exec c.task).2.ok = false
      rw [task]
      exact verdict.trans short
  | returnStock kind =>
    have hst : s.memory.store = st₀.after ts := hfound
    refine .inl ⟨rfl, ?_⟩
    show Moved (st₀.after ts) c (s.memory.store.returnStock c.itemId c.itemCount)
    rw [Moved, kind, hst]
  | takeStock =>
    obtain ⟨kind, enough, hstore⟩ := hfound
    refine .inl ⟨rfl, ?_⟩
    show Moved (st₀.after ts) c (s.memory.store.takeStock c.itemId c.itemCount)
    rw [Moved, kind, hstore]
    exact ⟨enough, rfl⟩
  | addToCart kind =>
    have moved : Moved (st₀.after ts) c s.memory.store := hfound
    rw [Moved, kind] at moved
    obtain ⟨enough, hstore⟩ := moved
    have task : c.task = .buy c.itemId c.itemCount c.sessionId := by rw [CartCall.task, kind]
    rw [enough, if_pos rfl] at effect
    refine .inr ⟨c.task, rfl, rfl, ?_, _, rfl, ?_⟩
    · show s.memory.store.addToCart c.itemId c.itemCount c.sessionId =
        ((st₀.after ts).exec c.task).1
      rw [task, hstore, effect]
    · show ((st₀.after ts).exec c.task).2.ok = true
      rw [task]
      exact verdict.trans enough
  | takeFromCart kind =>
    have moved : Moved (st₀.after ts) c s.memory.store := hfound
    rw [Moved, kind] at moved
    have task : c.task = .remove c.itemId c.itemCount c.sessionId := by rw [CartCall.task, kind]
    refine .inr ⟨c.task, rfl, rfl, ?_, _, rfl, ?_⟩
    · show s.memory.store.takeFromCart c.itemId c.itemCount c.sessionId =
        ((st₀.after ts).exec c.task).1
      rw [task, moved]
      rfl
    · show ((st₀.after ts).exec c.task).2.ok = true
      rw [task]
      rfl
  | settle _ => exact .inl ⟨rfl, hfound.1⟩
  | abandon _ _ => exact .inl ⟨rfl, hfound.1⟩
  | _ => exact .inl ⟨rfl, hfound⟩

theorem OrderStep.continues {c : OrderCall} {pc pc' : OrderPc} (h : OrderStep cfg s c pc pc' m')
    (hfound : Found st₀ ts (.order c pc) s.memory.store) :
    Continues st₀ ts (.order c pc) (.order c pc') m'.store := by
  obtain ⟨effect, verdict, cooked⟩ :=
    exec_makeOrder_pieces (st₀.after ts) c.orderSum c.sessionId
  cases h with
  | accept hprice =>
    have hst : s.memory.store = st₀.after ts := hfound
    rw [hst] at hprice
    exact .inl ⟨rfl, hprice, by rw [hst], by rw [hst]⟩
  | refuse hprice =>
    have hst : s.memory.store = st₀.after ts := hfound
    rw [hst] at hprice
    rw [hprice, if_neg Bool.false_ne_true] at effect
    refine .inr ⟨c.task, rfl, rfl, ?_, _, rfl, verdict.trans hprice⟩
    show (s.memory.store.checkOrderCost c.orderSum c.sessionId).2.2 =
      ((st₀.after ts).exec c.task).1
    rw [OrderCall.task, effect, hst]
  | erase =>
    obtain ⟨hprice, hcook, hstore⟩ := hfound
    rw [hprice, if_pos rfl] at effect cooked
    refine .inr ⟨c.task, rfl, rfl, ?_, _, rfl, cooked.trans (congrArg some hcook)⟩
    show s.memory.store.eraseCart c.sessionId = ((st₀.after ts).exec c.task).1
    rw [OrderCall.task, effect, hstore]
  | answerRefused => exact .inl ⟨rfl, hfound.1⟩
  | unlockAgain => exact .inl ⟨rfl, hfound.1⟩
  | _ => exact .inl ⟨rfl, hfound⟩

end Steps

/-! ## The simulation -/

/-- An agent whose task `t` is done. -/
def Frame.hasDone (t : Task) (f : Frame) : Bool := decide (f.done? = some t)

/-- The tasks `ts`, the newest first, are those whose sections are over, and the store is the store
after them, but for the pieces of the section under way. -/
structure Runs (cfg : Config) (s : ServerState) (ts : List Task) : Prop where
  free : s.agents.countP Frame.holdsMutex = 0 →
    s.memory.store = (Store.initial cfg.itemHolder).after ts
  held : ∀ (k : ℕ) (f : Frame), s.agents[k]? = some f → f.holdsMutex = true →
    Found (.initial cfg.itemHolder) ts f s.memory.store
  done : ∀ t, ts.count t = s.agents.countP (Frame.hasDone t)

section Simulation

variable {cfg : Config} {s : ServerState} {ts : List Task} {m' : Memory} {k : ℕ} {f f' : Frame}

/-- An agent without the mutex finds nothing in pieces. -/
theorem Found.of_free {st₀ store : Store} (hf : f.holdsMutex = false)
    (h : Found st₀ ts f store) : store = st₀.after ts := by
  cases f with
  | cart c pc => cases pc <;> first | exact h | cases hf
  | order c pc => cases pc <;> first | exact h | cases hf

/-- How a move changes who has done a task. -/
theorem hasDone_set (hk : s.agents[k]? = some f) (t : Task) (hsame : f'.done? = f.done?) :
    (s.agents.set k f').countP (Frame.hasDone t) = s.agents.countP (Frame.hasDone t) := by
  have hmove := countP_set (Frame.hasDone t) f' hk
  rw [Frame.hasDone, Frame.hasDone, hsame] at hmove
  omega

/-- A step of an agent that does not have the mutex, and does not get it. -/
theorem Runs.outside (inv : Runs cfg s ts) (hk : s.agents[k]? = some f)
    (hf : f.holdsMutex = false) (hf' : f'.holdsMutex = false) (hstore : m'.store = s.memory.store)
    (hdone : f'.done? = f.done?) :
    Runs cfg { agents := s.agents.set k f', memory := m' } ts where
  free hnone := by
    have hmove := countP_set Frame.holdsMutex f' hk
    rw [hf, hf', Nat.add_right_cancel_iff] at hmove
    exact hstore.trans (inv.free (hmove.symm.trans hnone))
  held j g hj hg := by
    show Found _ ts g m'.store
    rw [hstore]
    rcases getElem?_set_cases hj with ⟨_, rfl⟩ | ⟨_, hj⟩
    · rw [hf'] at hg
      cases hg
    · exact inv.held j g hj hg
  done t := (inv.done t).trans (hasDone_set hk t hdone).symm

/-- A step by which an agent gets the mutex: it finds the store in one piece. -/
theorem Runs.enter (inv : Runs cfg s ts) (hk : s.agents[k]? = some f)
    (hfree : s.agents.countP Frame.holdsMutex = 0) (hf' : f'.holdsMutex = true)
    (hfound : Found (.initial cfg.itemHolder) ts f' ((Store.initial cfg.itemHolder).after ts))
    (hstore : m'.store = s.memory.store) (hdone : f'.done? = f.done?) :
    Runs cfg { agents := s.agents.set k f', memory := m' } ts where
  free hnone := by
    have hself := countP_eq_zero_iff.mp hnone k f' (getElem?_set_self hk)
    cases hf'.symm.trans hself
  held j g hj hg := by
    show Found _ ts g m'.store
    rw [hstore, inv.free hfree]
    rcases getElem?_set_cases hj with ⟨_, rfl⟩ | ⟨_, hj⟩
    · exact hfound
    · cases (countP_eq_zero_iff.mp hfree j g hj).symm.trans hg
  done t := (inv.done t).trans (hasDone_set hk t hdone).symm

/-- What a move of an agent does to the tasks: nothing, or its own task is done now. -/
def Moves (cfg : Config) (ts : List Task) (f f' : Frame) (s' : ServerState) : Prop :=
  (f'.done? = f.done? ∧ Runs cfg s' ts) ∨
    ∃ t, f.done? = none ∧ f'.done? = some t ∧ Runs cfg s' (t :: ts)

/-- A step of the agent that has the mutex: its section goes on, or its task is done. -/
theorem Runs.inside (inv : Runs cfg s ts) (exclusive : Exclusive Frame.holdsMutex s.agents)
    (hk : s.agents[k]? = some f) (hf : f.holdsMutex = true)
    (h : Continues (.initial cfg.itemHolder) ts f f' m'.store) :
    Moves cfg ts f f' { agents := s.agents.set k f', memory := m' } := by
  -- nobody else has the mutex
  have settled : ∀ {ts' : List Task},
      Found (.initial cfg.itemHolder) ts' f' m'.store →
      (∀ t, ts'.count t = (s.agents.set k f').countP (Frame.hasDone t)) →
      Runs cfg { agents := s.agents.set k f', memory := m' } ts' := by
    intro ts' hfound hcount
    refine ⟨fun hnone => ?_, fun j g hj hg => ?_, hcount⟩
    · exact hfound.of_free (countP_eq_zero_iff.mp hnone k f' (getElem?_set_self hk))
    · rcases getElem?_set_cases hj with ⟨_, rfl⟩ | ⟨hjk, hj⟩
      · exact hfound
      · exact absurd (exclusive.eq hj hk hg hf) hjk
  rcases h with ⟨hdone, hfound⟩ | ⟨t, hnot, hdone, hfound⟩
  · exact .inl ⟨hdone, settled hfound fun t => (inv.done t).trans (hasDone_set hk t hdone).symm⟩
  · refine .inr ⟨t, hnot, hdone, settled hfound fun t' => ?_⟩
    have hmove := countP_set (Frame.hasDone t') f' hk
    rw [Frame.hasDone, Frame.hasDone, hnot, hdone] at hmove
    rw [List.count_cons, inv.done t']
    by_cases htt : t = t'
    · subst htt
      simp only [reduceCtorEq, decide_false, Bool.false_eq_true, if_false, decide_true, if_true,
        BEq.rfl] at hmove ⊢
      omega
    · simp only [reduceCtorEq, decide_false, Bool.false_eq_true, if_false, Option.some.injEq, htt,
        beq_iff_eq] at hmove ⊢
      omega

/-- A move of an agent. -/
theorem Runs.move (inv : Runs cfg s ts) (lock : Locked s) (hk : s.agents[k]? = some f)
    (h : (server cfg).move s f = some (f', m')) :
    Moves cfg ts f f' { agents := s.agents.set k f', memory := m' } := by
  have undefined : Runs cfg
      { agents := s.agents.set k f, memory := { s.memory with undefined := true } } ts := by
    rw [set_same hk]
    exact ⟨inv.free, inv.held, inv.done⟩
  cases f with
  | cart c pc =>
    obtain ⟨pc', rfl, hcart⟩ := move_cart h
    rcases cartMove_cases hcart with hstep | ⟨_, rfl, rfl⟩
    · cases hp : (Frame.cart c pc).holdsMutex with
      | true => exact inv.inside lock.mutex hk hp (hstep.continues (inv.held k _ hk hp))
      | false =>
        obtain ⟨hstore, hdone⟩ := hstep.store hp
        cases hp' : (Frame.cart c pc').holdsMutex with
        | false => exact .inl ⟨hdone, inv.outside hk hp hp' hstore hdone⟩
        | true =>
          cases hstep with
          | lock free => exact .inl ⟨rfl, inv.enter hk (nobody_mutex free) rfl rfl rfl rfl⟩
          | _ =>
            first
              | exact absurd hp.symm Bool.false_ne_true
              | exact absurd hp' Bool.false_ne_true
    · exact .inl ⟨rfl, undefined⟩
  | order c pc =>
    obtain ⟨pc', rfl, horder⟩ := move_order h
    rcases orderMove_cases horder with hstep | ⟨_, rfl, rfl⟩
    · cases hp : (Frame.order c pc).holdsMutex with
      | true => exact inv.inside lock.mutex hk hp (hstep.continues (inv.held k _ hk hp))
      | false =>
        obtain ⟨hstore, hdone⟩ := hstep.store hp
        cases hp' : (Frame.order c pc').holdsMutex with
        | false => exact .inl ⟨hdone, inv.outside hk hp hp' hstore hdone⟩
        | true =>
          cases hstep with
          | lock free => exact .inl ⟨rfl, inv.enter hk (nobody_mutex free) rfl rfl rfl rfl⟩
          | _ =>
            first
              | exact absurd hp.symm Bool.false_ne_true
              | exact absurd hp' Bool.false_ne_true
    · exact .inl ⟨rfl, undefined⟩

/-- An agent that has just been called. -/
theorem Runs.called (inv : Runs cfg s ts) (hf : f.holdsMutex = false) (hnot : f.done? = none) :
    Runs cfg { s with agents := s.agents ++ [f] } ts := by
  refine ⟨fun hnone => inv.free ?_, fun j g hj hg => ?_, fun t => ?_⟩
  · have hspawn := countP_spawn Frame.holdsMutex s.agents f
    rw [hf] at hspawn
    exact hspawn.symm.trans hnone
  · rcases getElem?_spawn_cases hj with hj | ⟨_, rfl⟩
    · exact inv.held j g hj hg
    · cases hf.symm.trans hg
  · rw [inv.done t, countP_spawn, Frame.hasDone, hnot]
    rfl

/-- **The step lemma** of the simulation. -/
theorem Runs.step {s' : ServerState} {a : Action Frame} (inv : Runs cfg s ts) (lock : Locked s)
    (h : (server cfg).step s a = some s') : ∃ ts', Runs cfg s' ts' := by
  cases a with
  | spawn f =>
    obtain ⟨hfresh, rfl⟩ := step_spawn h
    cases f with
    | cart c pc =>
      obtain rfl : pc = .called := of_decide_eq_true hfresh
      exact ⟨ts, inv.called rfl rfl⟩
    | order c pc =>
      obtain rfl : pc = .called := of_decide_eq_true hfresh
      exact ⟨ts, inv.called rfl rfl⟩
  | run k =>
    obtain ⟨f, f', m', hk, hmove, rfl⟩ := step_run h
    rcases inv.move lock hk hmove with ⟨_, inv'⟩ | ⟨t, _, _, inv'⟩
    · exact ⟨ts, inv'⟩
    · exact ⟨t :: ts, inv'⟩

end Simulation

/-- **The server runs tasks.** In every state of every run, the operations that have had their effect are
the tasks of a list, each as often as it was called, and while nobody has the mutex the store is the
store after that list. -/
theorem server_runs_tasks {cfg : Config} {C : ServerState → Action Frame → Prop} {s : ServerState}
    (h : Reachable (serverMachine cfg) C s) : ∃ ts, Runs cfg s ts := by
  apply h.simulate
  · rintro s₀ rfl
    exact ⟨[], fun _ => rfl, (fun k f hk => nomatch hk), fun _ => rfl⟩
  · intro s a s' ts hr inv _ hs
    exact inv.step (locked hr) hs

/-! ## The laws of the store, on the server -/

section Laws

variable {cfg : Config} {s : ServerState} {ts : List Task}

/-- **The verdicts of the server are those of its tasks**, run whole: of a `Buy` or a `Remove` whose
maps are done, of a refused order, and of an accepted one, whose cooking time they have as well. -/
theorem Runs.verdicts (inv : Runs cfg s ts) {k : ℕ} :
    (∀ c granted, s.agents[k]? = some (.cart c (.applied granted)) →
      Newest (.initial cfg.itemHolder) ts c.task (·.ok = granted)) ∧
    (∀ c, s.agents[k]? = some (.order c .refused) →
      Newest (.initial cfg.itemHolder) ts c.task (·.ok = false)) ∧
    ∀ c t, s.agents[k]? = some (.order c (.erased t)) →
      Newest (.initial cfg.itemHolder) ts c.task (·.makeProduct = some t) :=
  ⟨fun _ _ hk => (inv.held k _ hk rfl).2, fun _ hk => (inv.held k _ hk rfl).2,
    fun _ _ hk => (inv.held k _ hk rfl).2⟩

/-- While nobody has the mutex, the goods of the server balance, and so does its money: what its tasks
have received is the worth of what they have delivered, at the costs the server has. -/
theorem Runs.balances (inv : Runs cfg s ts) (free : s.mutexFree = true) :
    (∀ i : ItemId, s.memory.store.stock i + ∑ σ, s.memory.store.quantity σ i +
        (((Account.initial cfg.itemHolder).after ts).delivered i : SizeT) =
      (Store.initial cfg.itemHolder).stock i) ∧
    (((Account.initial cfg.itemHolder).after ts).revenue : SizeT) =
      ∑ i, s.memory.store.cost i *
        (((Account.initial cfg.itemHolder).after ts).delivered i : SizeT) := by
  rw [inv.free (nobody_mutex free)]
  refine ⟨fun i => ?_, ?_⟩
  · rw [← goods_after cfg.itemHolder ts i, Books.total, Account.books, Account.store_after]
    rfl
  · rw [money_after cfg.itemHolder ts, value]
    refine Finset.sum_congr rfl fun i _ => ?_
    rw [Store.cost_after]
    rfl

/-- What the server charges and has cooked for an order that has the mutex, before `CheckOrderCost`. -/
theorem Runs.priced (inv : Runs cfg s ts) {k : ℕ} {c : OrderCall}
    (order : s.agents[k]? = some (.order c .locked))
    (range : PricedInRange (.initial cfg.itemHolder) c.sessionId ts) :
    (s.memory.store.pricing c.sessionId).tempSum.toNat =
        exactSum (Store.initial cfg.itemHolder).cost c.sessionId
          ((Store.initial cfg.itemHolder).history ts) ∧
      (s.memory.store.pricing c.sessionId).totalCookingTime.toNat =
        exactSum (Store.initial cfg.itemHolder).cookingTime c.sessionId
          ((Store.initial cfg.itemHolder).history ts) := by
  have found : s.memory.store = (Store.initial cfg.itemHolder).after ts := inv.held k _ order rfl
  obtain ⟨hsum, hcook, hdebt, hdebtCook⟩ := range
  rw [found, tempSum_after, totalCookingTime_after]
  exact ⟨toNat_sub_debt.mpr ⟨hsum, hdebt⟩, toNat_sub_debt.mpr ⟨hcook, hdebtCook⟩⟩

theorem done_of_isApplied {b : CartCall} {pc : CartPc} (h : pc.isApplied = true) :
    (Frame.cart b pc).done? = some b.task := by
  cases pc <;> first | rfl | cases h

/-- The operations an order has waited for are among the tasks it is priced after. -/
theorem Runs.earlier (inv : Runs cfg s ts) {s₁ : ServerState} {σ : SessionId}
    (applied : EarlierApplied s₁ σ s) {j : ℕ} {b : CartCall} {pc : CartPc}
    (hj : s₁.agents[j]? = some (.cart b pc)) (hσ : b.sessionId = σ) (returned : pc.returned = true) :
    b.task ∈ ts := by
  obtain ⟨pc', hj', happlied⟩ := applied j b pc hj hσ returned
  have hdone : Frame.hasDone b.task (.cart b pc') = true :=
    decide_eq_true (done_of_isApplied happlied)
  rw [← List.count_pos_iff, inv.done, List.countP_pos_iff]
  exact ⟨_, List.mem_of_getElem? hj', hdone⟩

end Laws

end TcpServer
