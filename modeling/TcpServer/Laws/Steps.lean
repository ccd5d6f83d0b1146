import TcpServer.ServiceLayer.Server

/-!
# What a step of the server can do

`CartStep` and `OrderStep` are the moves of the two kinds of agents read backwards: one constructor a
step, with its guard and with what it makes of the memory. `step_cases` is the inversion every
invariant of the machine starts from: a step starts a call, or moves one agent along one of these, or
leaves the memory undefined with everybody where they were.
-/

namespace TcpServer

open Interleaving Transition

section Moves

variable (cfg : Config) (s : ServerState)

/-- The steps of a `Buy` or a `Remove` that have a meaning. -/
inductive CartStep (c : CartCall) : CartPc → CartPc → Memory → Prop
  | enter (free : s.tableFree = true) : CartStep c .called .resizing s.memory
  | resize {t : Table} (h : s.memory.table.checkSessionIdSize cfg.alloc c.sessionId = .ok t) :
    CartStep c .resizing .sized { s.memory with table := t }
  | throw (h : s.memory.table.checkSessionIdSize cfg.alloc c.sessionId = .error .badAlloc) :
    CartStep c .resizing .threw s.memory
  | share (free : s.tableShareable = true) : CartStep c .sized .counting s.memory
  | increment {t : Table} (h : s.memory.table.increment c.sessionId = .ok t) :
    CartStep c .counting .counted { s.memory with table := t }
  | unlock : CartStep c .counted .posting s.memory
  | post : CartStep c .posting .queued s.memory
  | start (idle : s.agents.countP Frame.onMainPool < cfg.mainThreads) :
    CartStep c .queued .started s.memory
  | lock (free : s.mutexFree = true) : CartStep c .started .locked s.memory
  | grant (kind : c.kind = .buy)
    (enough : (s.memory.store.guardBuy c.itemId c.itemCount).1 = true) :
    CartStep c .locked .admitted
      { s.memory with store := (s.memory.store.guardBuy c.itemId c.itemCount).2 }
  | refuse (kind : c.kind = .buy)
    (short : (s.memory.store.guardBuy c.itemId c.itemCount).1 = false) :
    CartStep c .locked (.applied false)
      { s.memory with store := (s.memory.store.guardBuy c.itemId c.itemCount).2 }
  | returnStock (kind : c.kind = .remove) :
    CartStep c .locked .moved
      { s.memory with store := s.memory.store.returnStock c.itemId c.itemCount }
  | takeStock :
    CartStep c .admitted .moved
      { s.memory with store := s.memory.store.takeStock c.itemId c.itemCount }
  | addToCart (kind : c.kind = .buy) :
    CartStep c .moved (.applied true)
      { s.memory with store := s.memory.store.addToCart c.itemId c.itemCount c.sessionId }
  | takeFromCart (kind : c.kind = .remove) :
    CartStep c .moved (.applied true)
      { s.memory with store := s.memory.store.takeFromCart c.itemId c.itemCount c.sessionId }
  | settle {granted : Bool} (returns : c.kind = .buy → c.throws = false) :
    CartStep c (.applied granted) .settling s.memory
  | abandon {granted : Bool} (kind : c.kind = .buy) (throws : c.throws = true) :
    CartStep c (.applied granted) .abandoned s.memory
  | shareAgain (free : s.tableShareable = true) : CartStep c .settling .decrementing s.memory
  | decrement {t : Table} (h : s.memory.table.decrement c.sessionId = .ok t) :
    CartStep c .decrementing .testing { s.memory with table := t }
  | last (h : s.memory.table.loadCount c.sessionId = .ok 0) : CartStep c .testing .opening s.memory
  | notLast {n : SizeT} (h : s.memory.table.loadCount c.sessionId = .ok n) (hn : n ≠ 0) :
    CartStep c .testing .leaving s.memory
  | raise {t : Table} (h : s.memory.table.raiseFlag c.sessionId = .ok t) :
    CartStep c .opening .leaving { s.memory with table := t }
  | leave : CartStep c .leaving .ended s.memory

/-- The steps of a `MakeOrder` that have a meaning. -/
inductive OrderStep (c : OrderCall) : OrderPc → OrderPc → Memory → Prop
  | enter (free : s.tableFree = true) : OrderStep c .called .resizing s.memory
  | resize {t : Table} (h : s.memory.table.checkSessionIdSize cfg.alloc c.sessionId = .ok t) :
    OrderStep c .resizing .posting { s.memory with table := t }
  | throw (h : s.memory.table.checkSessionIdSize cfg.alloc c.sessionId = .error .badAlloc) :
    OrderStep c .resizing .threw s.memory
  | post : OrderStep c .posting .queued s.memory
  | start (idle : s.agents.countP Frame.onOrderPool < cfg.orderThreads) :
    OrderStep c .queued .started s.memory
  | share (free : s.tableShareable = true) : OrderStep c .started .gate s.memory
  | pass (h : s.memory.table.loadFlag c.sessionId = .ok true) : OrderStep c .gate .passed s.memory
  | unlock : OrderStep c .passed .ordering s.memory
  | lock (free : s.mutexFree = true) : OrderStep c .ordering .locked s.memory
  | accept (h : (s.memory.store.checkOrderCost c.orderSum c.sessionId).1 = true) :
    OrderStep c .locked (.accepted (s.memory.store.checkOrderCost c.orderSum c.sessionId).2.1)
      { s.memory with store := (s.memory.store.checkOrderCost c.orderSum c.sessionId).2.2 }
  | refuse (h : (s.memory.store.checkOrderCost c.orderSum c.sessionId).1 = false) :
    OrderStep c .locked .refused
      { s.memory with store := (s.memory.store.checkOrderCost c.orderSum c.sessionId).2.2 }
  | answerRefused : OrderStep c .refused .ended s.memory
  | erase {k : SizeT} :
    OrderStep c (.accepted k) (.erased k)
      { s.memory with store := s.memory.store.eraseCart c.sessionId }
  | unlockAgain {k : SizeT} : OrderStep c (.erased k) (.cooking k) s.memory
  | cook {k : SizeT} : OrderStep c (.cooking k) .answering s.memory
  | answer : OrderStep c .answering .ended s.memory

end Moves

/-- What makes a step undefined: the copy loop of `CheckSessionIdSize`, or an entry out of range. -/
inductive Fault (cfg : Config) (s : ServerState) (f : Frame) : Prop
  | resize (hf : f.holdsTable = true)
    (h : ∀ t, s.memory.table.checkSessionIdSize cfg.alloc f.sessionId ≠ .ok t)
    (hbad : s.memory.table.checkSessionIdSize cfg.alloc f.sessionId ≠ .error .badAlloc)
  | access (hf : f.sharesTable = true) (h : ¬ s.memory.table.Has f.sessionId)

section Inversion

variable {cfg : Config} {s : ServerState}

theorem goIf_eq_some {P : Type} {m m' : Memory} {free : Bool} {next pc' : P}
    (h : m.goIf free next = some (pc', m')) : free = true ∧ pc' = next ∧ m' = m := by
  unfold Memory.goIf at h
  split at h
  next hfree =>
    obtain ⟨rfl, rfl⟩ := Prod.mk.inj (Option.some.inj h)
    exact ⟨hfree, rfl, rfl⟩
  next => cases h

theorem onTable_eq {P : Type} {m m' : Memory} {here next pc' : P} {r : Except Abort Table}
    (h : m.onTable here r next = (pc', m')) :
    (∃ t, r = .ok t ∧ pc' = next ∧ m' = { m with table := t }) ∨
      (∀ t, r ≠ .ok t) ∧ pc' = here ∧ m' = { m with undefined := true } := by
  unfold Memory.onTable at h
  split at h
  next t =>
    obtain ⟨rfl, rfl⟩ := Prod.mk.inj h
    exact .inl ⟨t, rfl, rfl, rfl⟩
  next =>
    obtain ⟨rfl, rfl⟩ := Prod.mk.inj h
    exact .inr ⟨fun _ => nofun, rfl, rfl⟩

theorem resize_eq {P : Type} {m m' : Memory} {alloc : ℕ → Bool} {σ : SessionId}
    {here next threw pc' : P} (h : m.resize alloc σ here next threw = (pc', m')) :
    (∃ t, m.table.checkSessionIdSize alloc σ = .ok t ∧ pc' = next ∧ m' = { m with table := t }) ∨
      (m.table.checkSessionIdSize alloc σ = .error .badAlloc ∧ pc' = threw ∧ m' = m) ∨
      ((∀ t, m.table.checkSessionIdSize alloc σ ≠ .ok t) ∧
          m.table.checkSessionIdSize alloc σ ≠ .error .badAlloc) ∧
        pc' = here ∧ m' = { m with undefined := true } := by
  unfold Memory.resize at h
  split at h
  next hbad =>
    obtain ⟨rfl, rfl⟩ := Prod.mk.inj h
    exact .inr (.inl ⟨hbad, rfl, rfl⟩)
  next hbad =>
    rcases onTable_eq h with hok | ⟨herr, hpc, hm⟩
    · exact .inl hok
    · exact .inr (.inr ⟨⟨herr, hbad⟩, hpc, hm⟩)

/-- What a move of a `Buy` or a `Remove` is. -/
theorem cartMove_cases {c : CartCall} {pc pc' : CartPc} {m' : Memory}
    (h : cartMove cfg s c pc = some (pc', m')) :
    CartStep cfg s c pc pc' m' ∨
      Fault cfg s (.cart c pc) ∧ pc' = pc ∧ m' = { s.memory with undefined := true } := by
  cases pc with
  | called =>
    obtain ⟨hfree, rfl, rfl⟩ := goIf_eq_some h
    exact .inl (.enter hfree)
  | resizing =>
    rcases resize_eq (Option.some.inj h) with ⟨t, ht, rfl, rfl⟩ | ⟨hbad, rfl, rfl⟩ | ⟨herr, rfl, rfl⟩
    · exact .inl (.resize ht)
    · exact .inl (.throw hbad)
    · exact .inr ⟨.resize rfl herr.1 herr.2, rfl, rfl⟩
  | sized =>
    obtain ⟨hfree, rfl, rfl⟩ := goIf_eq_some h
    exact .inl (.share hfree)
  | counting =>
    rcases onTable_eq (Option.some.inj h) with ⟨t, ht, rfl, rfl⟩ | ⟨herr, rfl, rfl⟩
    · exact .inl (.increment ht)
    · refine .inr ⟨.access rfl fun has => ?_, rfl, rfl⟩
      obtain ⟨t, ht⟩ := Table.updateCount_isOk _ has
      exact herr t ht
  | counted =>
    cases h
    exact .inl .unlock
  | posting =>
    cases h
    exact .inl .post
  | queued =>
    obtain ⟨hidle, rfl, rfl⟩ := goIf_eq_some h
    exact .inl (.start (of_decide_eq_true hidle))
  | started =>
    obtain ⟨hfree, rfl, rfl⟩ := goIf_eq_some h
    exact .inl (.lock hfree)
  | locked =>
    cases hkind : c.kind with
    | buy =>
      simp only [cartMove, hkind, Option.some.injEq, Prod.mk.injEq] at h
      obtain ⟨rfl, rfl⟩ := h
      cases henough : (s.memory.store.guardBuy c.itemId c.itemCount).1 with
      | true => exact .inl (.grant hkind henough)
      | false => exact .inl (.refuse hkind henough)
    | remove =>
      simp only [cartMove, hkind, Option.some.injEq, Prod.mk.injEq] at h
      obtain ⟨rfl, rfl⟩ := h
      exact .inl (.returnStock hkind)
  | admitted =>
    cases h
    exact .inl .takeStock
  | moved =>
    cases hkind : c.kind with
    | buy =>
      simp only [cartMove, hkind, Option.some.injEq, Prod.mk.injEq] at h
      obtain ⟨rfl, rfl⟩ := h
      exact .inl (.addToCart hkind)
    | remove =>
      simp only [cartMove, hkind, Option.some.injEq, Prod.mk.injEq] at h
      obtain ⟨rfl, rfl⟩ := h
      exact .inl (.takeFromCart hkind)
  | applied granted =>
    cases hkind : c.kind with
    | buy =>
      simp only [cartMove, hkind, Option.some.injEq, Prod.mk.injEq] at h
      obtain ⟨rfl, rfl⟩ := h
      cases hthrows : c.throws with
      | true => exact .inl (.abandon hkind hthrows)
      | false => exact .inl (.settle fun _ => hthrows)
    | remove =>
      simp only [cartMove, hkind, Option.some.injEq, Prod.mk.injEq] at h
      obtain ⟨rfl, rfl⟩ := h
      exact .inl (.settle fun hbuy => nomatch hkind.symm.trans hbuy)
  | settling =>
    obtain ⟨hfree, rfl, rfl⟩ := goIf_eq_some h
    exact .inl (.shareAgain hfree)
  | decrementing =>
    rcases onTable_eq (Option.some.inj h) with ⟨t, ht, rfl, rfl⟩ | ⟨herr, rfl, rfl⟩
    · exact .inl (.decrement ht)
    · refine .inr ⟨.access rfl fun has => ?_, rfl, rfl⟩
      obtain ⟨t, ht⟩ := Table.updateCount_isOk _ has
      exact herr t ht
  | testing =>
    simp only [cartMove] at h
    split at h
    next n hn =>
      cases h
      by_cases h0 : n = 0
      · subst h0
        exact .inl (.last hn)
      · rw [if_neg h0]
        exact .inl (.notLast hn h0)
    next e herr =>
      cases h
      refine .inr ⟨.access rfl fun has => ?_, rfl, rfl⟩
      cases herr.symm.trans (Table.loadCount_isOk has)
  | opening =>
    rcases onTable_eq (Option.some.inj h) with ⟨t, ht, rfl, rfl⟩ | ⟨herr, rfl, rfl⟩
    · exact .inl (.raise ht)
    · refine .inr ⟨.access rfl fun has => ?_, rfl, rfl⟩
      obtain ⟨t, ht⟩ := Table.raiseFlag_isOk has
      exact herr t ht
  | leaving =>
    cases h
    exact .inl .leave
  | ended => cases h
  | abandoned => cases h
  | threw => cases h

/-- What a move of a `MakeOrder` is. -/
theorem orderMove_cases {c : OrderCall} {pc pc' : OrderPc} {m' : Memory}
    (h : orderMove cfg s c pc = some (pc', m')) :
    OrderStep cfg s c pc pc' m' ∨
      Fault cfg s (.order c pc) ∧ pc' = pc ∧ m' = { s.memory with undefined := true } := by
  cases pc with
  | called =>
    obtain ⟨hfree, rfl, rfl⟩ := goIf_eq_some h
    exact .inl (.enter hfree)
  | resizing =>
    rcases resize_eq (Option.some.inj h) with ⟨t, ht, rfl, rfl⟩ | ⟨hbad, rfl, rfl⟩ | ⟨herr, rfl, rfl⟩
    · exact .inl (.resize ht)
    · exact .inl (.throw hbad)
    · exact .inr ⟨.resize rfl herr.1 herr.2, rfl, rfl⟩
  | posting =>
    cases h
    exact .inl .post
  | queued =>
    obtain ⟨hidle, rfl, rfl⟩ := goIf_eq_some h
    exact .inl (.start (of_decide_eq_true hidle))
  | started =>
    obtain ⟨hfree, rfl, rfl⟩ := goIf_eq_some h
    exact .inl (.share hfree)
  | gate =>
    simp only [orderMove] at h
    split at h
    next open_ hopen =>
      obtain ⟨rfl, rfl, rfl⟩ := goIf_eq_some h
      exact .inl (.pass hopen)
    next e herr =>
      cases h
      refine .inr ⟨.access rfl fun has => ?_, rfl, rfl⟩
      cases herr.symm.trans (Table.loadFlag_isOk has)
  | passed =>
    cases h
    exact .inl .unlock
  | ordering =>
    obtain ⟨hfree, rfl, rfl⟩ := goIf_eq_some h
    exact .inl (.lock hfree)
  | locked =>
    simp only [orderMove, Option.some.injEq, Prod.mk.injEq] at h
    obtain ⟨rfl, rfl⟩ := h
    cases hprice : (s.memory.store.checkOrderCost c.orderSum c.sessionId).1 with
    | true => exact .inl (.accept hprice)
    | false => exact .inl (.refuse hprice)
  | refused =>
    cases h
    exact .inl .answerRefused
  | accepted k =>
    cases h
    exact .inl .erase
  | erased k =>
    cases h
    exact .inl .unlockAgain
  | cooking k =>
    cases h
    exact .inl .cook
  | answering =>
    cases h
    exact .inl .answer
  | ended => cases h
  | threw => cases h

end Inversion

/-! ## Steps of the machine -/

/-- A step of the machine: a call starts, an agent moves, or the memory is undefined from here on. -/
inductive ServerStep (cfg : Config) (s : ServerState) : Action Frame → ServerState → Prop
  | callCart (c : CartCall) :
    ServerStep cfg s (.spawn (.cart c .called)) { s with agents := s.agents ++ [.cart c .called] }
  | callOrder (c : OrderCall) :
    ServerStep cfg s (.spawn (.order c .called)) { s with agents := s.agents ++ [.order c .called] }
  | cart {k : ℕ} {c : CartCall} {pc pc' : CartPc} {m' : Memory}
    (hk : s.agents[k]? = some (.cart c pc)) (h : CartStep cfg s c pc pc' m') :
    ServerStep cfg s (.run k) { agents := s.agents.set k (.cart c pc'), memory := m' }
  | order {k : ℕ} {c : OrderCall} {pc pc' : OrderPc} {m' : Memory}
    (hk : s.agents[k]? = some (.order c pc)) (h : OrderStep cfg s c pc pc' m') :
    ServerStep cfg s (.run k) { agents := s.agents.set k (.order c pc'), memory := m' }
  | undefined {k : ℕ} {f : Frame} (hk : s.agents[k]? = some f) (h : Fault cfg s f) :
    ServerStep cfg s (.run k) { s with memory := { s.memory with undefined := true } }

/-- A move of the server is a move of its agent. -/
theorem move_cart {cfg : Config} {s : ServerState} {c : CartCall} {pc : CartPc} {f' : Frame}
    {m' : Memory} (h : (server cfg).move s (.cart c pc) = some (f', m')) :
    ∃ pc', f' = .cart c pc' ∧ cartMove cfg s c pc = some (pc', m') := by
  simp only [server] at h
  split at h
  next => cases h
  next =>
    obtain ⟨⟨pc', m'⟩, hmove, heq⟩ := Option.map_eq_some_iff.mp h
    obtain ⟨rfl, rfl⟩ := Prod.mk.inj heq
    exact ⟨pc', rfl, hmove⟩

theorem move_order {cfg : Config} {s : ServerState} {c : OrderCall} {pc : OrderPc} {f' : Frame}
    {m' : Memory} (h : (server cfg).move s (.order c pc) = some (f', m')) :
    ∃ pc', f' = .order c pc' ∧ orderMove cfg s c pc = some (pc', m') := by
  simp only [server] at h
  split at h
  next => cases h
  next =>
    obtain ⟨⟨pc', m'⟩, hmove, heq⟩ := Option.map_eq_some_iff.mp h
    obtain ⟨rfl, rfl⟩ := Prod.mk.inj heq
    exact ⟨pc', rfl, hmove⟩

theorem set_same {F : Type} {l : List F} {k : ℕ} {f : F} (h : l[k]? = some f) : l.set k f = l := by
  obtain ⟨hk, rfl⟩ := List.getElem?_eq_some_iff.mp h
  exact List.set_getElem_self hk

/-- **Inversion** of a step of the machine. -/
theorem step_cases {cfg : Config} {s s' : ServerState} {a : Action Frame}
    (h : (server cfg).step s a = some s') : ServerStep cfg s a s' := by
  cases a with
  | spawn f =>
    obtain ⟨hfresh, rfl⟩ := step_spawn h
    cases f with
    | cart c pc =>
      obtain rfl : pc = .called := of_decide_eq_true hfresh
      exact .callCart c
    | order c pc =>
      obtain rfl : pc = .called := of_decide_eq_true hfresh
      exact .callOrder c
  | run k =>
    obtain ⟨f, f', m', hk, hmove, rfl⟩ := step_run h
    cases f with
    | cart c pc =>
      obtain ⟨pc', rfl, hcart⟩ := move_cart hmove
      rcases cartMove_cases hcart with hstep | ⟨hfault, rfl, rfl⟩
      · exact .cart hk hstep
      · rw [set_same hk]
        exact .undefined hk hfault
    | order c pc =>
      obtain ⟨pc', rfl, horder⟩ := move_order hmove
      rcases orderMove_cases horder with hstep | ⟨hfault, rfl, rfl⟩
      · exact .order hk hstep
      · rw [set_same hk]
        exact .undefined hk hfault

/-- A `Buy` or a `Remove` after a step: where it was, or one step on. -/
theorem cart_follows {cfg : Config} {s s' : ServerState} {a : Action Frame}
    (h : (server cfg).step s a = some s') {j : ℕ} {b : CartCall} {pc : CartPc}
    (hj : s.agents[j]? = some (.cart b pc)) :
    ∃ pc', s'.agents[j]? = some (.cart b pc') ∧ (pc' = pc ∨ ∃ m', CartStep cfg s b pc pc' m') := by
  cases step_cases h with
  | callCart c => exact ⟨pc, getElem?_spawn hj, .inl rfl⟩
  | callOrder c => exact ⟨pc, getElem?_spawn hj, .inl rfl⟩
  | undefined _ _ => exact ⟨pc, hj, .inl rfl⟩
  | @cart k c pc₁ pc₁' m' hk hstep =>
    by_cases hkj : j = k
    · subst hkj
      cases hk.symm.trans hj
      exact ⟨pc₁', getElem?_set_self hj, .inr ⟨m', hstep⟩⟩
    · exact ⟨pc, (getElem?_set_other hkj).trans hj, .inl rfl⟩
  | @order k c pc₁ pc₁' m' hk hstep =>
    by_cases hkj : j = k
    · subst hkj
      cases hk.symm.trans hj
    · exact ⟨pc, (getElem?_set_other hkj).trans hj, .inl rfl⟩

/-- A `Buy` or a `Remove` after a step, read backwards: it was where it is now, or one step behind, or
is called only now. -/
theorem cart_came {cfg : Config} {s s' : ServerState} {a : Action Frame}
    (h : (server cfg).step s a = some s') {j : ℕ} {c : CartCall} {pc : CartPc}
    (hj : s'.agents[j]? = some (.cart c pc)) :
    s.agents[j]? = some (.cart c pc) ∨
      (∃ pc₀ m', a = .run j ∧ s.agents[j]? = some (.cart c pc₀) ∧ CartStep cfg s c pc₀ pc m') ∨
      pc = .called := by
  cases step_cases h with
  | callCart c =>
    rcases getElem?_spawn_cases hj with hj | ⟨_, heq⟩
    · exact .inl hj
    · cases heq
      exact .inr (.inr rfl)
  | callOrder c =>
    rcases getElem?_spawn_cases hj with hj | ⟨_, heq⟩
    · exact .inl hj
    · cases heq
  | undefined _ _ => exact .inl hj
  | @cart k c₁ pc₁ pc₁' m' hk hstep =>
    rcases getElem?_set_cases hj with ⟨rfl, heq⟩ | ⟨_, hj⟩
    · cases heq
      exact .inr (.inl ⟨pc₁, m', rfl, hk, hstep⟩)
    · exact .inl hj
  | order hk hstep =>
    rcases getElem?_set_cases hj with ⟨_, heq⟩ | ⟨_, hj⟩
    · cases heq
    · exact .inl hj

/-- A `MakeOrder` after a step, read backwards. -/
theorem order_came {cfg : Config} {s s' : ServerState} {a : Action Frame}
    (h : (server cfg).step s a = some s') {j : ℕ} {c : OrderCall} {pc : OrderPc}
    (hj : s'.agents[j]? = some (.order c pc)) :
    s.agents[j]? = some (.order c pc) ∨
      (∃ pc₀ m', a = .run j ∧ s.agents[j]? = some (.order c pc₀) ∧ OrderStep cfg s c pc₀ pc m') ∨
      pc = .called := by
  cases step_cases h with
  | callCart c =>
    rcases getElem?_spawn_cases hj with hj | ⟨_, heq⟩
    · exact .inl hj
    · cases heq
  | callOrder c =>
    rcases getElem?_spawn_cases hj with hj | ⟨_, heq⟩
    · exact .inl hj
    · cases heq
      exact .inr (.inr rfl)
  | undefined _ _ => exact .inl hj
  | cart hk hstep =>
    rcases getElem?_set_cases hj with ⟨_, heq⟩ | ⟨_, hj⟩
    · cases heq
    · exact .inl hj
  | @order k c₁ pc₁ pc₁' m' hk hstep =>
    rcases getElem?_set_cases hj with ⟨rfl, heq⟩ | ⟨_, hj⟩
    · cases heq
      exact .inr (.inl ⟨pc₁, m', rfl, hk, hstep⟩)
    · exact .inl hj

end TcpServer
