import TcpServer.Laws.Counter
import TcpServer.Laws.Refinement

/-!
# Callbacks that throw

A task of `Buy` or `Remove` calls back from inside its critical section, and an exception of the
callback ends it: the locks are given back and the future has the exception. A `Remove` calls back
last. A `Buy` calls back BEFORE it decrements the count of its session, so an exception leaves the
operation pending for good.

`packagedTask` is a task run whole, and `packagedTask_leads` says that the server runs it when nobody
is in its way. `callback_failure_iff` compares it with the same task under a callback that returns: the
two leave the same memory exactly when the operation is a `Remove` or the callback returns. As long as
no callback of a `Buy` throws, a whole run is step for step the run in which every callback returns
(`Reachable.returning`), and no session is left with its gate shut and nothing in flight.
-/

namespace TcpServer

open Interleaving Transition

/-! ## Tasks run whole -/

/-- The end of a task: the decrement, the test, and the gate. -/
def Memory.settle (m : Memory) (sessionId : SessionId) : Except Abort Memory := do
  let table ← m.table.decrement sessionId
  let count ← table.loadCount sessionId
  if count = 0 then
    let table ← table.raiseFlag sessionId
    return { m with table }
  else return { m with table }

/-- The task of a `Buy` or a `Remove`. -/
def CartCall.packagedTask (c : CartCall) (m : Memory) : Except Abort Memory :=
  match c.kind with
  | .buy =>
    let (_, store) := m.store.buy c.itemId c.itemCount c.sessionId
    -- the callback; the rest is not run when it throws
    if c.throws then .ok { m with store } else { m with store : Memory }.settle c.sessionId
  | .remove =>
    -- nothing comes after the callback
    { m with store := m.store.remove c.itemId c.itemCount c.sessionId : Memory }.settle c.sessionId

/-- The same call, with a callback that returns. -/
def CartCall.returning (c : CartCall) : CartCall := { c with throws := false }

theorem count_updateCount {f : SizeT → SizeT} {t t' : Table} {s : SessionId}
    (h : Table.updateCount f t s = .ok t') : t'.count s = f (t.count s) := by
  obtain ⟨count, hload, h⟩ := bind_eq_ok.mp h
  obtain ⟨counts, hset, h⟩ := bind_eq_ok.mp h
  obtain rfl := Except.ok.inj h
  obtain ⟨hlt, rfl⟩ := Table.setEntry_isOk hset
  rw [Table.count, Table.getD_set hlt, if_pos rfl, Table.loadCount_ok hload]

theorem count_raiseFlag {t t' : Table} {s : SessionId} (h : t.raiseFlag s = .ok t') :
    t'.count s = t.count s := by
  obtain ⟨bools, _, h⟩ := bind_eq_ok.mp h
  obtain rfl := Except.ok.inj h
  rfl

/-- The end of a task takes one from the count of its session. -/
theorem count_settle {m m' : Memory} {s : SessionId} (h : m.settle s = .ok m') :
    m'.table.count s = m.table.count s - 1 := by
  obtain ⟨t, hdecrement, h⟩ := bind_eq_ok.mp h
  obtain ⟨count, _, h⟩ := bind_eq_ok.mp h
  split at h
  next =>
    obtain ⟨t', hraise, h⟩ := bind_eq_ok.mp h
    obtain rfl := Except.ok.inj h
    exact (count_raiseFlag hraise).trans (count_updateCount hdecrement)
  next =>
    obtain rfl := Except.ok.inj h
    exact count_updateCount hdecrement

/-- **When the callback does not matter** to the memory a task leaves: when the operation is a `Remove`,
or the callback returns. -/
theorem packagedTask_returning (c : CartCall) (m : Memory) :
    c.packagedTask m = c.returning.packagedTask m ↔ c.kind = .remove ∨ c.throws = false := by
  cases hkind : c.kind with
  | remove =>
    refine iff_of_true ?_ (.inl rfl)
    simp only [CartCall.packagedTask, CartCall.returning, hkind]
  | buy =>
    simp only [CartCall.packagedTask, CartCall.returning, hkind, reduceCtorEq, false_or]
    cases c.throws with
    | false => exact iff_of_true rfl rfl
    | true =>
      refine iff_of_false (fun h => ?_) Bool.noConfusion
      have hsettle := count_settle (Eq.symm h)
      have hone : (1 : SizeT) = 0 := sub_eq_self.mp hsettle.symm
      exact absurd hone (by decide)

/-! ## The server runs tasks whole -/

/-- The moves of one agent. -/
def Solo (k : ℕ) : ServerState → Action Frame → Prop := fun _ a => a = .run k

/-- The state with another frame for the `k`-th agent, and another memory. -/
def ServerState.put (s : ServerState) (k : ℕ) (f : Frame) (m : Memory) : ServerState :=
  { agents := s.agents.set k f, memory := m }

section Whole

variable {cfg : Config} {s : ServerState} {k : ℕ} {c : CartCall} {m m' : Memory}

/-- A move of an agent that runs alone. -/
theorem solo_move {pc pc' : CartPc}
    (h : cartMove cfg (s.put k (.cart c pc) m) c pc = some (pc', m')) (hk : k < s.agents.length)
    (hdef : m.undefined = false) :
    Leads (serverMachine cfg) (Solo k) (s.put k (.cart c pc) m) (s.put k (.cart c pc') m') := by
  have here : (s.put k (.cart c pc) m).agents[k]? = some (.cart c pc) :=
    List.getElem?_set_self hk
  have move : (server cfg).move (s.put k (.cart c pc) m) (.cart c pc) = some (.cart c pc', m') := by
    have hdef' : (s.put k (.cart c pc) m).memory.undefined = false := hdef
    simp only [server, hdef', Bool.false_eq_true, if_false, h, Option.map_some]
  refine .step .refl rfl ((step_of_move here move).trans ?_)
  rw [ServerState.put, ServerState.put, List.set_set]

/-- Nobody has a lock, whatever the `k`-th agent does that does not have it. -/
theorem tableShareable_put {f : Frame} (shareable : s.tableShareable = true)
    (hf : f.holdsTable = false) : (s.put k f m).tableShareable = true :=
  decide_eq_true (countP_set_eq_zero (of_decide_eq_true shareable) hf)

theorem mutexFree_put {f : Frame} (free : s.mutexFree = true) (hf : f.holdsMutex = false) :
    (s.put k f m).mutexFree = true :=
  decide_eq_true (countP_set_eq_zero (of_decide_eq_true free) hf)

/-- The end of a task, move by move. -/
theorem settle_leads (h : m.settle c.sessionId = .ok m') (hk : k < s.agents.length)
    (shareable : s.tableShareable = true) (hdef : m.undefined = false) :
    Leads (serverMachine cfg) (Solo k) (s.put k (.cart c .settling) m)
      (s.put k (.cart c .ended) m') := by
  obtain ⟨t, hdecrement, h⟩ := bind_eq_ok.mp h
  obtain ⟨count, hload, h⟩ := bind_eq_ok.mp h
  have share : cartMove cfg (s.put k (.cart c .settling) m) c .settling =
      some (.decrementing, m) := by
    show m.goIf _ _ = _
    rw [tableShareable_put shareable rfl]
    rfl
  have decrement : cartMove cfg (s.put k (.cart c .decrementing) m) c .decrementing =
      some (.testing, { m with table := t }) := by
    show some (m.onTable _ (m.table.decrement c.sessionId) _) = _
    rw [hdecrement]
    rfl
  have test : cartMove cfg (s.put k (.cart c .testing) { m with table := t }) c .testing =
      some (if count = 0 then .opening else .leaving, { m with table := t }) := by
    have loaded : (s.put k (.cart c .testing) { m with table := t }).memory.table.loadCount
        c.sessionId = .ok count := hload
    simp only [cartMove, loaded]
    rfl
  refine (solo_move share hk hdef).trans ((solo_move decrement hk hdef).trans
    ((solo_move test hk hdef).trans ?_))
  split at h
  next hzero =>
    obtain ⟨t', hraise, h⟩ := bind_eq_ok.mp h
    obtain rfl := Except.ok.inj h
    have raise : cartMove cfg (s.put k (.cart c .opening) { m with table := t }) c .opening =
        some (.leaving, { m with table := t' }) := by
      show some (Memory.onTable _ _ (t.raiseFlag c.sessionId) _) = _
      rw [hraise]
      rfl
    rw [if_pos hzero]
    exact (solo_move raise hk hdef).trans (solo_move rfl hk hdef)
  next hzero =>
    obtain rfl := Except.ok.inj h
    rw [if_neg hzero]
    exact solo_move rfl hk hdef

/-- The critical section of a `Buy`, move by move. -/
theorem buy_leads (hk : k < s.agents.length) (hdef : m.undefined = false) (kind : c.kind = .buy) :
    ∃ granted, Leads (serverMachine cfg) (Solo k) (s.put k (.cart c .locked) m)
      (s.put k (.cart c (.applied granted))
        { m with store := (m.store.buy c.itemId c.itemCount c.sessionId).2 }) := by
  have guard : cartMove cfg (s.put k (.cart c .locked) m) c .locked =
      some (if (m.store.guardBuy c.itemId c.itemCount).1 then .admitted else .applied false,
        { m with store := (m.store.guardBuy c.itemId c.itemCount).2 }) := by
    simp only [cartMove, kind]
    rfl
  have guarded := solo_move guard hk hdef
  rw [Store.buy]
  generalize m.store.guardBuy c.itemId c.itemCount = r at guarded ⊢
  obtain ⟨granted, store⟩ := r
  cases granted with
  | false => exact ⟨false, guarded⟩
  | true =>
    have added : cartMove cfg (s.put k (.cart c .moved)
        { m with store := store.takeStock c.itemId c.itemCount }) c .moved =
        some (.applied true, { m with store :=
          (store.takeStock c.itemId c.itemCount).addToCart c.itemId c.itemCount c.sessionId }) := by
      simp only [cartMove, kind]
      rfl
    refine ⟨true, guarded.trans (Leads.trans ?_ (solo_move added hk hdef))⟩
    exact solo_move rfl hk hdef

/-- The critical section of a `Remove`, move by move. -/
theorem remove_leads (hk : k < s.agents.length) (hdef : m.undefined = false)
    (kind : c.kind = .remove) :
    Leads (serverMachine cfg) (Solo k) (s.put k (.cart c .locked) m)
      (s.put k (.cart c (.applied true))
        { m with store := m.store.remove c.itemId c.itemCount c.sessionId }) := by
  have returned : cartMove cfg (s.put k (.cart c .locked) m) c .locked =
      some (.moved, { m with store := m.store.returnStock c.itemId c.itemCount }) := by
    simp only [cartMove, kind]
    rfl
  have taken : cartMove cfg (s.put k (.cart c .moved)
      { m with store := m.store.returnStock c.itemId c.itemCount }) c .moved =
      some (.applied true,
        { m with store := m.store.remove c.itemId c.itemCount c.sessionId }) := by
    simp only [cartMove, kind]
    rfl
  exact (solo_move returned hk hdef).trans (solo_move taken hk hdef)

/-- **The server runs a task whole** when its agent is the only one to move, from a state in which
nobody has the mutex or the table's lock alone. -/
theorem packagedTask_leads (task : s.agents[k]? = some (.cart c .started))
    (free : s.mutexFree = true) (shareable : s.tableShareable = true)
    (hdef : s.memory.undefined = false) (h : c.packagedTask s.memory = .ok m') :
    Leads (serverMachine cfg) (Solo k) s
      (s.put k (.cart c (if c.kind = .buy ∧ c.throws = true then .abandoned else .ended)) m') := by
  obtain ⟨hk, _⟩ := List.getElem?_eq_some_iff.mp task
  have start : s.put k (.cart c .started) s.memory = s := by
    rw [ServerState.put, set_same task]
  have lock : cartMove cfg (s.put k (.cart c .started) s.memory) c .started =
      some (.locked, s.memory) := by
    show s.memory.goIf _ _ = _
    rw [mutexFree_put free rfl]
    rfl
  have locked := solo_move lock hk hdef
  rw [start] at locked
  refine locked.trans ?_
  cases hkind : c.kind with
  | remove =>
    simp only [CartCall.packagedTask, hkind] at h
    have settling : cartMove cfg (s.put k (.cart c (.applied true)) { s.memory with
        store := s.memory.store.remove c.itemId c.itemCount c.sessionId }) c (.applied true) =
        some (.settling, { s.memory with
          store := s.memory.store.remove c.itemId c.itemCount c.sessionId }) := by
      simp only [cartMove, hkind]
      rfl
    have hnot : ¬(CartKind.remove = .buy ∧ c.throws = true) := by
      rintro ⟨e, _⟩
      cases e
    rw [if_neg hnot]
    exact (remove_leads hk hdef hkind).trans
      ((solo_move settling hk hdef).trans (settle_leads h hk shareable hdef))
  | buy =>
    simp only [CartCall.packagedTask, hkind] at h
    obtain ⟨granted, bought⟩ : ∃ granted, Leads (serverMachine cfg) (Solo k) _ _ :=
      buy_leads hk hdef hkind
    refine bought.trans ?_
    have answer : cartMove cfg (s.put k (.cart c (.applied granted)) { s.memory with
        store := (s.memory.store.buy c.itemId c.itemCount c.sessionId).2 }) c (.applied granted) =
        some (if c.throws then .abandoned else .settling, { s.memory with
          store := (s.memory.store.buy c.itemId c.itemCount c.sessionId).2 }) := by
      simp only [cartMove, hkind]
      rfl
    refine (solo_move answer hk hdef).trans ?_
    cases hthrows : c.throws with
    | true =>
      rw [hthrows, if_pos rfl] at h
      obtain rfl := Except.ok.inj h
      rw [if_pos rfl, if_pos ⟨rfl, rfl⟩]
      exact .refl
    | false =>
      rw [hthrows, if_neg Bool.false_ne_true] at h
      rw [if_neg Bool.false_ne_true, if_neg fun e => absurd e.2 Bool.false_ne_true]
      exact settle_leads h hk shareable hdef

end Whole

/-! ## Runs whose `Buy`s are not thrown out of -/

/-- The same agent, with a callback that returns. -/
def Frame.returning : Frame → Frame
  | .cart c pc => .cart c.returning pc
  | .order c pc => .order c pc

/-- The same state, where every callback returns. -/
def ServerState.returning (s : ServerState) : ServerState :=
  { s with agents := s.agents.map Frame.returning }

/-- The agent is not a `Buy` whose callback is about to throw. -/
def BuyReturns : Frame → Prop
  | .cart c (.applied _) => c.kind = .buy → c.throws = false
  | _ => True

instance : DecidablePred BuyReturns
  | .cart c pc => match pc with
    | .applied _ => inferInstanceAs (Decidable (c.kind = .buy → c.throws = false))
    | .called | .resizing | .sized | .counting | .counted | .posting | .queued | .started | .locked
    | .admitted | .moved | .settling | .decrementing | .testing | .opening | .leaving | .ended
    | .abandoned | .threw => isTrue trivial
  | .order _ _ => isTrue trivial

/-- The discipline of runs in which no callback of a `Buy` throws. -/
abbrev BuysReturn : ServerState → Action Frame → Prop := Rule (fun _ _ => True) fun _ => BuyReturns

section Runs

variable {cfg : Config} {s s' : ServerState} {a : Action Frame}

/-- Where the agents are does not depend on their callbacks. -/
theorem countP_returning (s : ServerState) {p : Frame → Bool} (h : ∀ f : Frame, p f.returning = p f) :
    s.returning.agents.countP p = s.agents.countP p := by
  rw [ServerState.returning, List.countP_map]
  exact List.countP_congr fun f _ => by rw [Function.comp_apply, h]

theorem mutexFree_returning (s : ServerState) : s.returning.mutexFree = s.mutexFree := by
  rw [ServerState.mutexFree, countP_returning s fun f => by cases f <;> rfl]
  rfl

theorem tableShareable_returning (s : ServerState) :
    s.returning.tableShareable = s.tableShareable := by
  rw [ServerState.tableShareable, countP_returning s fun f => by cases f <;> rfl]
  rfl

theorem tableFree_returning (s : ServerState) : s.returning.tableFree = s.tableFree := by
  rw [ServerState.tableFree, tableShareable_returning,
    countP_returning s fun f => by cases f <;> rfl]
  rfl

/-- A `Buy` or a `Remove` moves the same way, but for a callback that throws. -/
theorem cartMove_returning (s : ServerState) {c : CartCall} {pc : CartPc}
    (h : BuyReturns (.cart c pc)) :
    cartMove cfg s.returning c.returning pc = cartMove cfg s c pc := by
  cases pc with
  | called =>
    show s.memory.goIf s.returning.tableFree _ = _
    rw [tableFree_returning]
    rfl
  | sized =>
    show s.memory.goIf s.returning.tableShareable _ = _
    rw [tableShareable_returning]
    rfl
  | queued =>
    show s.memory.goIf (decide (s.returning.agents.countP Frame.onMainPool < cfg.mainThreads)) _ = _
    rw [countP_returning s fun f => by cases f <;> rfl]
    rfl
  | started =>
    show s.memory.goIf s.returning.mutexFree _ = _
    rw [mutexFree_returning]
    rfl
  | settling =>
    show s.memory.goIf s.returning.tableShareable _ = _
    rw [tableShareable_returning]
    rfl
  | applied granted =>
    have hreturns : c.kind = .buy → c.throws = false := h
    cases hkind : c.kind with
    | buy =>
      simp only [cartMove, CartCall.returning, hkind, hreturns hkind]
      rfl
    | remove =>
      simp only [cartMove, CartCall.returning, hkind]
      rfl
  | _ => rfl

theorem orderMove_returning (s : ServerState) (c : OrderCall) (pc : OrderPc) :
    orderMove cfg s.returning c pc = orderMove cfg s c pc := by
  cases pc with
  | called =>
    show s.memory.goIf s.returning.tableFree _ = _
    rw [tableFree_returning]
    rfl
  | queued =>
    show s.memory.goIf (decide (s.returning.agents.countP Frame.onOrderPool < cfg.orderThreads)) _ = _
    rw [countP_returning s fun f => by cases f <;> rfl]
    rfl
  | started =>
    show s.memory.goIf s.returning.tableShareable _ = _
    rw [tableShareable_returning]
    rfl
  | ordering =>
    show s.memory.goIf s.returning.mutexFree _ = _
    rw [mutexFree_returning]
    rfl
  | _ => rfl

/-- A move of the server, where every callback returns. -/
theorem move_returning {f f' : Frame} {m' : Memory} (hf : BuyReturns f)
    (h : (server cfg).move s f = some (f', m')) :
    (server cfg).move s.returning f.returning = some (f'.returning, m') := by
  have hmemory : s.returning.memory = s.memory := rfl
  simp only [server, hmemory] at h ⊢
  split at h
  next => cases h
  next hdef =>
    rw [if_neg hdef]
    cases f with
    | cart c pc =>
      obtain ⟨⟨pc', m'⟩, hmove, heq⟩ := Option.map_eq_some_iff.mp h
      obtain ⟨rfl, rfl⟩ := Prod.mk.inj heq
      simp only [Frame.returning, cartMove_returning s hf, hmove, Option.map_some]
    | order c pc =>
      obtain ⟨⟨pc', m'⟩, hmove, heq⟩ := Option.map_eq_some_iff.mp h
      obtain ⟨rfl, rfl⟩ := Prod.mk.inj heq
      simp only [Frame.returning, orderMove_returning s c pc, hmove, Option.map_some]

/-- The same action, with a callback that returns. -/
def returningAction : Action Frame → Action Frame
  | .spawn f => .spawn f.returning
  | .run k => .run k

/-- **The step lemma**: a step in which no callback of a `Buy` throws is a step where every callback
returns. -/
theorem step_returning (hC : BuysReturn s a) (h : (server cfg).step s a = some s') :
    (server cfg).step s.returning (returningAction a) = some s'.returning := by
  cases a with
  | spawn f =>
    obtain ⟨hfresh, rfl⟩ := step_spawn h
    have hfresh' : (server cfg).fresh f.returning = true := by
      cases f <;> exact hfresh
    simp only [returningAction, Program.step, hfresh', if_true, ServerState.returning, List.map_append,
      List.map_cons, List.map_nil]
  | run k =>
    obtain ⟨f, f', m', hk, hmove, rfl⟩ := step_run h
    have hk' : s.returning.agents[k]? = some f.returning := by
      rw [ServerState.returning, List.getElem?_map, hk, Option.map_some]
    rw [returningAction, step_of_move hk' (move_returning (hC f hk) hmove), ServerState.returning,
      ServerState.returning, List.map_set]

/-- **The run lemma**: the same memory and the same points of the program are reached where every
callback returns. -/
theorem reachable_returning (h : Reachable (serverMachine cfg) BuysReturn s) :
    Reachable (serverMachine cfg) Always s.returning := by
  apply reachable_invariant
    (I := fun s : ServerState => Reachable (serverMachine cfg) Always s.returning) _ _ h
  · exact .init rfl
  · intro s a s' _ inv hC hs
    exact .step inv trivial (step_returning hC hs)

/-- Nothing is abandoned in such a run. -/
theorem isAbandoned_of_buysReturn (h : Reachable (serverMachine cfg) BuysReturn s) (σ : SessionId) :
    s.carts CartPc.isAbandoned σ = 0 := by
  have none : ∀ (j : ℕ) (c : CartCall), s.agents[j]? ≠ some (.cart c .abandoned) := by
    apply reachable_invariant _ _ h
    · intro j c hj
      cases hj
    · intro s a s' _ inv hC hs j c hj
      rcases cart_came hs hj with hj | ⟨pc₀, m', rfl, hk, hstep⟩ | heq
      · exact inv j c hj
      · cases hstep with
        | abandon kind throws =>
          have returns : c.kind = .buy → c.throws = false := hC _ hk
          cases (returns kind).symm.trans throws
      · cases heq
  exact carts_isAbandoned_eq_zero none σ

/-- The bookkeeping of a state is intact: it is one that callbacks that return lead to; and a session
with nothing in flight has no count left, and its gate is open if it has run anything. -/
structure BookkeepingIntact (cfg : Config) (s : ServerState) : Prop where
  returning : Reachable (serverMachine cfg) Always s.returning
  count : ∀ σ, s.carts CartPc.inFlight σ = 0 → s.memory.table.count σ = 0
  gate : ∀ σ, s.carts CartPc.inFlight σ = 0 → s.carts CartPc.pastIncrement σ ≠ 0 →
    s.memory.table.flag σ = true

theorem bookkeepingIntact (h : Reachable (serverMachine cfg) BuysReturn s) :
    BookkeepingIntact cfg s where
  returning := reachable_returning h
  count σ hnone := by
    have hle := carts_pending_le s σ
    rw [hnone, isAbandoned_of_buysReturn h σ, Nat.add_zero, Nat.le_zero] at hle
    rw [(countExact h).count σ, hle]
    rfl
  gate σ hnone hpast := by
    by_contra hshut
    exact awake h σ (Bool.eq_false_iff.mpr hshut) (isAbandoned_of_buysReturn h σ) hpast hnone

end Runs

/-- **Callback failure**: a task leaves the memory it would leave under a callback that returns exactly
when it is a `Remove` or its callback returns; and the bookkeeping is intact in every state of every
run in which no callback of a `Buy` throws. -/
theorem callback_failure_iff (cfg : Config) :
    (∀ (c : CartCall) (m : Memory),
      c.packagedTask m = c.returning.packagedTask m ↔ c.kind = .remove ∨ c.throws = false) ∧
      ∀ s, Reachable (serverMachine cfg) BuysReturn s → BookkeepingIntact cfg s :=
  ⟨packagedTask_returning, fun _ h => bookkeepingIntact h⟩

/-- A call for one burger whose callback throws. -/
def throwing (kind : CartKind) : CartCall := { burgerFor 1 with kind, throws := true }

/-- The callback of a `Remove` has thrown. -/
theorem callback_failure_diner :
    ∃ s, (serverMachine .diner).runIf BuysReturn Config.diner.start
        (.spawn (.cart (throwing .remove) .called) :: moves 0 16) = some s ∧
      s.agents = [.cart (throwing .remove) .ended] ∧ BookkeepingIntact .diner s := by
  have run : (((serverMachine .diner).runIf BuysReturn Config.diner.start
      (.spawn (.cart (throwing .remove) .called) :: moves 0 16)).map fun s =>
      decide (s.agents = [.cart (throwing .remove) .ended])) = some true := by
    decide
  obtain ⟨s, hs, run⟩ := Option.map_eq_some_iff.mp run
  have reached := (Reachable.init rfl).leads (Machine.runIf_leads _ hs)
  exact ⟨s, hs, of_decide_eq_true run, (callback_failure_iff .diner).2 s reached⟩

/-- A `Buy` whose callback throws: its count stays. -/
theorem throwing_callback_leaves_count :
    ¬ ∀ (cfg : Config) (s : ServerState) (k : ℕ) (c : CartCall),
      Reachable (serverMachine cfg) Always s → s.agents[k]? = some (.cart c .started) →
        c.packagedTask s.memory = c.returning.packagedTask s.memory := by
  intro h
  have run : (((serverMachine .diner).run Config.diner.start
      (.spawn (.cart (throwing .buy) .called) :: moves 0 7)).map fun s =>
      decide (s.agents = [.cart (throwing .buy) .started])) = some true := by
    decide
  obtain ⟨s, hs, run⟩ := Option.map_eq_some_iff.mp run
  have reached := (Reachable.init rfl).leads (Machine.run_leads _ hs)
  have same := h .diner s 0 (throwing .buy) reached (by rw [of_decide_eq_true run]; rfl)
  rcases (packagedTask_returning _ _).mp same with hkind | hthrows
  · cases hkind
  · cases hthrows

end TcpServer
