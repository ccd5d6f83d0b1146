import TcpServer.Laws.Counter
import TcpServer.Laws.Room

/-!
# Progress

A `MakeOrder` waits at its gate with the table's lock shared. Nobody can have that lock alone
meanwhile, so no further call gets through `CheckSessionIdSize`: whoever is to open the gate must
already be past it. An order of a session that has called nothing waits for good
(`wedged_for_good`), and the server with it (`order_wedges_server`). A callback of a `Buy` that throws
does the same to the orders of its session: it leaves the count above zero.

`no_deadlock` says that these are the ways to wedge the server. As long as orders go to gates that are
open or will be opened, every session id finds room in the table, and no callback of a `Buy` throws
while an order of its session waits, some agent can move in every state in which some callback has
not run.
-/

namespace TcpServer

open Interleaving Transition

/-! ## Agents that cannot move -/

section Blocked

variable (cfg : Config) (s : ServerState)

/-- Where a `Buy` or a `Remove` can be kept from moving; at its start, by whoever has the table's lock. -/
inductive CartBlocked : CartPc → Prop
  | called : CartBlocked .called
  | sized (h : s.tableShareable = false) : CartBlocked .sized
  | queued (h : cfg.mainThreads ≤ s.agents.countP Frame.onMainPool) : CartBlocked .queued
  | started (h : s.mutexFree = false) : CartBlocked .started
  | settling (h : s.tableShareable = false) : CartBlocked .settling
  | ended : CartBlocked .ended
  | abandoned : CartBlocked .abandoned
  | threw : CartBlocked .threw

/-- Where a `MakeOrder` can be kept from moving. -/
inductive OrderBlocked (c : OrderCall) : OrderPc → Prop
  | called : OrderBlocked c .called
  | queued (h : cfg.orderThreads ≤ s.agents.countP Frame.onOrderPool) : OrderBlocked c .queued
  | started (h : s.tableShareable = false) : OrderBlocked c .started
  | gate (h : s.memory.table.flag c.sessionId = false) : OrderBlocked c .gate
  | ordering (h : s.mutexFree = false) : OrderBlocked c .ordering
  | ended : OrderBlocked c .ended
  | threw : OrderBlocked c .threw

end Blocked

section Blocked

variable {cfg : Config} {s : ServerState}

theorem goIf_eq_none {P : Type} {m : Memory} {free : Bool} {next : P}
    (h : m.goIf free next = none) : free = false := by
  unfold Memory.goIf at h
  split at h
  next => cases h
  next hfree => exact Bool.eq_false_iff.mpr hfree

theorem cartMove_none {c : CartCall} {pc : CartPc} (h : cartMove cfg s c pc = none) :
    CartBlocked cfg s pc := by
  cases pc with
  | called => exact .called
  | sized => exact .sized (goIf_eq_none h)
  | queued => exact .queued (Nat.not_lt.mp (of_decide_eq_false (goIf_eq_none h)))
  | started => exact .started (goIf_eq_none h)
  | settling => exact .settling (goIf_eq_none h)
  | ended => exact .ended
  | abandoned => exact .abandoned
  | threw => exact .threw
  | locked => simp only [cartMove] at h; split at h <;> cases h
  | moved => simp only [cartMove] at h; split at h <;> cases h
  | applied granted => simp only [cartMove] at h; split at h <;> cases h
  | testing => simp only [cartMove] at h; split at h <;> cases h
  | _ => cases h

theorem orderMove_none {c : OrderCall} {pc : OrderPc} (h : orderMove cfg s c pc = none) :
    OrderBlocked cfg s c pc := by
  cases pc with
  | called => exact .called
  | queued => exact .queued (Nat.not_lt.mp (of_decide_eq_false (goIf_eq_none h)))
  | started => exact .started (goIf_eq_none h)
  | gate =>
    simp only [orderMove] at h
    split at h
    next open_ hopen =>
      obtain rfl := goIf_eq_none h
      exact .gate (Table.loadFlag_ok hopen)
    next => cases h
  | ordering => exact .ordering (goIf_eq_none h)
  | ended => exact .ended
  | threw => exact .threw
  | _ => cases h

/-- Nobody can move, except perhaps into `CheckSessionIdSize`. -/
structure Stalled (cfg : Config) (s : ServerState) : Prop where
  cart : ∀ (j : ℕ) (c : CartCall) (pc : CartPc), s.agents[j]? = some (.cart c pc) →
    CartBlocked cfg s pc
  order : ∀ (j : ℕ) (c : OrderCall) (pc : OrderPc), s.agents[j]? = some (.order c pc) →
    OrderBlocked cfg s c pc

/-- At its start, before it has got the table's lock in `CheckSessionIdSize`. -/
def Frame.isCalled : Frame → Bool
  | .cart _ pc => decide (pc = .called)
  | .order _ pc => decide (pc = .called)

theorem stalled (hdef : s.memory.undefined = false)
    (h : ∀ (j : ℕ) (f : Frame), s.agents[j]? = some f → f.isCalled = false →
      (server cfg).step s (.run j) = none) : Stalled cfg s := by
  have stays : ∀ (j : ℕ) (f : Frame), s.agents[j]? = some f → f.isCalled = false →
      (server cfg).move s f = none := by
    intro j f hj hf
    by_contra hmove
    have := step_run_isSome hj (Option.isSome_iff_ne_none.mpr hmove)
    rw [h j f hj hf] at this
    cases this
  constructor
  · intro j c pc hj
    by_cases hpc : pc = .called
    · subst hpc
      exact .called
    · have hmove := stays j _ hj (decide_eq_false hpc)
      simp only [server, hdef, Bool.false_eq_true, if_false, Option.map_eq_none_iff] at hmove
      exact cartMove_none hmove
  · intro j c pc hj
    by_cases hpc : pc = .called
    · subst hpc
      exact .called
    · have hmove := stays j _ hj (decide_eq_false hpc)
      simp only [server, hdef, Bool.false_eq_true, if_false, Option.map_eq_none_iff] at hmove
      exact orderMove_none hmove

/-- Who is kept from entering `CheckSessionIdSize` finds the table's lock taken. -/
theorem tableFree_of_blocked (hdef : s.memory.undefined = false) {j : ℕ} {f : Frame}
    (hj : s.agents[j]? = some f) (hf : f.isCalled = true)
    (h : (server cfg).step s (.run j) = none) : s.tableFree = false := by
  by_contra hfree
  rw [Bool.not_eq_false] at hfree
  have hmove : ((server cfg).move s f).isSome = true := by
    cases f with
    | cart c pc =>
      obtain rfl := of_decide_eq_true hf
      simp only [server, hdef, cartMove, Memory.goIf, hfree, Bool.false_eq_true, if_false, if_true]
      rfl
    | order c pc =>
      obtain rfl := of_decide_eq_true hf
      simp only [server, hdef, orderMove, Memory.goIf, hfree, Bool.false_eq_true, if_false, if_true]
      rfl
  have moves := step_run_isSome hj hmove
  rw [h] at moves
  cases moves

end Blocked

/-! ## Who is left when nobody can move -/

section Stuck

variable {cfg : Config} {s : ServerState} (stuck : Stalled cfg s)

include stuck

/-- A holder of the table's lock alone can move. -/
theorem stuck_tableShareable : s.tableShareable = true := by
  refine decide_eq_true (countP_eq_zero_iff.mpr fun j f hj => ?_)
  cases f with
  | cart c pc => cases stuck.cart j c pc hj <;> rfl
  | order c pc => cases stuck.order j c pc hj <;> rfl

/-- A holder of the mutex can move, or waits for the table's lock. -/
theorem stuck_mutexFree : s.mutexFree = true := by
  refine decide_eq_true (countP_eq_zero_iff.mpr fun j f hj => ?_)
  cases f with
  | cart c pc =>
    cases stuck.cart j c pc hj with
    | settling h => cases h.symm.trans (stuck_tableShareable stuck)
    | _ => rfl
  | order c pc => cases stuck.order j c pc hj <;> rfl

/-- No operation waits for a lock or a thread, so none is on its way. -/
theorem stuck_cart {j : ℕ} {c : CartCall} {pc : CartPc} (hj : s.agents[j]? = some (.cart c pc)) :
    pc = .called ∨ pc = .ended ∨ pc = .abandoned ∨ pc = .threw := by
  have shareable := stuck_tableShareable stuck
  have free := stuck_mutexFree stuck
  cases stuck.cart j c pc hj with
  | called => exact .inl rfl
  | sized h => cases h.symm.trans shareable
  | started h => cases h.symm.trans free
  | settling h => cases h.symm.trans shareable
  | ended => exact .inr (.inl rfl)
  | abandoned => exact .inr (.inr (.inl rfl))
  | threw => exact .inr (.inr (.inr rfl))
  | queued h =>
    -- a pool without an idle thread has one that can go on
    have busy : s.agents.countP Frame.onMainPool ≠ 0 := by
      have := cfg.mainThreads_pos
      omega
    obtain ⟨i, f, hi, hf⟩ := countP_ne_zero busy
    cases f with
    | order c pc => cases hf
    | cart c pc =>
      cases stuck.cart i c pc hi with
      | started h => cases h.symm.trans free
      | settling h => cases h.symm.trans shareable
      | _ => cases hf

/-- No operation of any session is in flight. -/
theorem stuck_inFlight (σ : SessionId) : s.carts CartPc.inFlight σ = 0 := by
  refine carts_eq_zero fun j c pc hj _ => ?_
  rcases stuck_cart stuck hj with rfl | rfl | rfl | rfl <;> rfl

/-- Where a gate is shut and nothing is abandoned behind it, no operation of the session has got past
`CheckSessionIdSize`: the last of them would have opened it. -/
theorem stuck_pastResize (awake : Awake s) {σ : SessionId} (hshut : s.memory.table.flag σ = false)
    (hnone : s.carts CartPc.isAbandoned σ = 0) : s.carts CartPc.pastResize σ = 0 := by
  by_contra hpastResize
  obtain ⟨i, c, pc, hi, hσ, hresized⟩ := exists_of_carts hpastResize
  have hpast : pc.pastIncrement = true := by
    rcases stuck_cart stuck hi with rfl | rfl | rfl | rfl
    · cases hresized
    · rfl
    · rfl
    · cases hresized
  exact awake σ hshut hnone (hσ ▸ carts_ne_zero hi hpast) (stuck_inFlight stuck σ)

/-- If no order waits at a gate, no order is on its way either. -/
theorem stuck_order (hgate : ∀ (j : ℕ) (c : OrderCall), s.agents[j]? ≠ some (.order c .gate)) {j : ℕ}
    {c : OrderCall} {pc : OrderPc} (hj : s.agents[j]? = some (.order c pc)) :
    pc = .called ∨ pc = .ended ∨ pc = .threw := by
  have shareable := stuck_tableShareable stuck
  have free := stuck_mutexFree stuck
  cases stuck.order j c pc hj with
  | called => exact .inl rfl
  | started h => cases h.symm.trans shareable
  | gate _ => exact absurd hj (hgate j c)
  | ordering h => cases h.symm.trans free
  | ended => exact .inr (.inl rfl)
  | threw => exact .inr (.inr rfl)
  | queued h =>
    have busy : s.agents.countP Frame.onOrderPool ≠ 0 := by
      have := cfg.orderThreads_pos
      omega
    obtain ⟨i, f, hi, hf⟩ := countP_ne_zero busy
    cases f with
    | cart c pc => cases hf
    | order c pc =>
      cases stuck.order i c pc hi with
      | started h => cases h.symm.trans shareable
      | gate _ => exact absurd hi (hgate i c)
      | ordering h => cases h.symm.trans free
      | _ => cases hf

/-- If no order waits at a gate, nobody has the table's lock. -/
theorem stuck_tableFree (hgate : ∀ (j : ℕ) (c : OrderCall), s.agents[j]? ≠ some (.order c .gate)) :
    s.tableFree = true := by
  have nobody : s.agents.countP Frame.sharesTable = 0 := by
    refine countP_eq_zero_iff.mpr fun j f hj => ?_
    cases f with
    | cart c pc => rcases stuck_cart stuck hj with rfl | rfl | rfl | rfl <;> rfl
    | order c pc => rcases stuck_order stuck hgate hj with rfl | rfl | rfl <;> rfl
  rw [ServerState.tableFree, stuck_tableShareable stuck, nobody]
  rfl

end Stuck

/-! ## Runs that do not wedge -/

/-- Waits at the gate of the session. -/
def Frame.waitsAt (σ : SessionId) : Frame → Bool
  | .cart _ _ => false
  | .order c pc => decide (c.sessionId = σ ∧ pc = .gate)

/-- The gate of the session is open, or some operation of it is past `CheckSessionIdSize` and none has
been abandoned. -/
def Opens (s : ServerState) (σ : SessionId) : Prop :=
  s.memory.table.flag σ = true ∨
    s.carts CartPc.pastResize σ ≠ 0 ∧ s.carts CartPc.isAbandoned σ = 0

instance (s : ServerState) (σ : SessionId) : Decidable (Opens s σ) :=
  inferInstanceAs (Decidable (_ ∨ _ ∧ _))

/-- The session finds room when the table is resized for it; the callback of a `Buy` throws when the
gate is open or nobody waits at it; an order goes to a gate that is open or will be. -/
def Unwedged (cfg : Config) (s : ServerState) : Frame → Prop
  | .cart c pc => (pc = .resizing → s.memory.table.Admits cfg.alloc c.sessionId) ∧
    (pc.answering = true → c.kind = .buy → c.throws = true →
      s.memory.table.flag c.sessionId = true ∨ s.agents.countP (Frame.waitsAt c.sessionId) = 0)
  | .order c pc => (pc = .resizing → s.memory.table.Admits cfg.alloc c.sessionId) ∧
    (pc = .started → Opens s c.sessionId)

instance (cfg : Config) (s : ServerState) : DecidablePred (Unwedged cfg s)
  | .cart c pc => inferInstanceAs (Decidable ((pc = .resizing →
      s.memory.table.Admits cfg.alloc c.sessionId) ∧
        (pc.answering = true → c.kind = .buy → c.throws = true →
          s.memory.table.flag c.sessionId = true ∨ s.agents.countP _ = 0)))
  | .order c pc => inferInstanceAs (Decidable ((pc = .resizing →
      s.memory.table.Admits cfg.alloc c.sessionId) ∧ (pc = .started → Opens s c.sessionId)))

/-- The discipline of runs that do not wedge. -/
abbrev UnwedgedRun (cfg : Config) : ServerState → Action Frame → Prop :=
  Rule (fun _ _ => True) (Unwedged cfg)

/-- What these runs keep. -/
structure UnwedgedState (s : ServerState) : Prop where
  placed : Placed s
  defined : s.memory.undefined = false
  cartReturns : ∀ (j : ℕ) (c : CartCall), s.agents[j]? ≠ some (.cart c .threw)
  orderReturns : ∀ (j : ℕ) (c : OrderCall), s.agents[j]? ≠ some (.order c .threw)
  awaited : ∀ (j : ℕ) (c : OrderCall), s.agents[j]? = some (.order c .gate) → Opens s c.sessionId

/-- Whether the callback of a call has run. -/
def Frame.answered : Frame → Bool
  | .cart c pc => match pc with
    | .settling | .decrementing | .testing | .opening | .leaving => decide (c.kind = .buy)
    | .ended | .abandoned => true
    | _ => false
  | .order _ pc => decide (pc = .ended)

/-- Somebody can move. -/
def Live (cfg : Config) (s : ServerState) : Prop :=
  ∃ k, ((serverMachine cfg).step s (.run k)).isSome = true

theorem UnwedgedState.live {cfg : Config} {s : ServerState} (inv : UnwedgedState s)
    (awake : Awake s) {j : ℕ} {f : Frame} (hj : s.agents[j]? = some f) (hf : f.answered = false) :
    Live cfg s := by
  by_contra hlive
  have blocked : ∀ k, (server cfg).step s (.run k) = none := fun k => by
    by_contra hstep
    exact hlive ⟨k, Option.isSome_iff_ne_none.mpr hstep⟩
  have stuck : Stalled cfg s := stalled inv.defined fun k _ _ _ => blocked k
  -- a shut gate with an order before it leaves an operation in flight, and none is
  have hgate : ∀ (i : ℕ) (c : OrderCall), s.agents[i]? ≠ some (.order c .gate) := by
    intro i c hi
    have hshut : s.memory.table.flag c.sessionId = false := by
      cases stuck.order i c .gate hi with
      | gate h => exact h
    obtain ⟨hpastResize, hnone⟩ := (inv.awaited i c hi).resolve_left (Bool.eq_false_iff.mp hshut)
    exact hpastResize (stuck_pastResize stuck awake hshut hnone)
  have free := stuck_tableFree stuck hgate
  have entered : f.isCalled = false := by
    rw [← Bool.not_eq_true]
    intro hcalled
    cases (tableFree_of_blocked inv.defined hj hcalled (blocked j)).symm.trans free
  cases f with
  | cart c pc =>
    rcases stuck_cart stuck hj with rfl | rfl | rfl | rfl
    · cases entered
    · cases hf
    · cases hf
    · exact inv.cartReturns j c hj
  | order c pc =>
    rcases stuck_order stuck hgate hj with rfl | rfl | rfl
    · cases entered
    · cases hf
    · exact inv.orderReturns j c hj

/-! ## The steps of a run that does not wedge -/

section Step

variable {cfg : Config} {s s' : ServerState} {a : Action Frame}

/-- Operations do not come back to before a point they have passed. -/
theorem carts_le_step {p : CartPc → Bool} (hcalled : p .called = false)
    (hp : ∀ c pc pc' m', CartStep cfg s c pc pc' m' → p pc = true → p pc' = true)
    (h : (server cfg).step s a = some s') (σ : SessionId) : s.carts p σ ≤ s'.carts p σ := by
  cases step_cases h with
  | callCart c => rw [carts_callCart c hcalled]
  | callOrder c => rw [carts_callOrder c]
  | undefined _ _ => exact Nat.le_refl _
  | order hk _ => rw [carts_order _ _ hk]
  | @cart k c pc pc' m' hk hstep => exact carts_le_cart hk (hp c pc pc' m' hstep)

theorem CartStep.pastResize {c : CartCall} {pc pc' : CartPc} {m' : Memory}
    (h : CartStep cfg s c pc pc' m') (hp : pc.pastResize = true) : pc'.pastResize = true := by
  cases h <;> first | rfl | cases hp

/-- A session that the table admits gets through `CheckSessionIdSize`, and has an entry then. -/
theorem admitted_resize (placed : Placed s) {σ : SessionId}
    (h : s.memory.table.Admits cfg.alloc σ) :
    ∃ t m, s.memory.table.checkSessionIdSize cfg.alloc σ = .ok t ∧ t.Sized m ∧ σ.toNat < m := by
  obtain ⟨n, hn, _⟩ := placed
  exact (Table.admits_iff hn).mp h

/-- A gate that is open or will be opened stays so, unless a callback throws behind it. -/
theorem Opens.step {σ : SessionId} (opens : Opens s σ) (count : CountExact s)
    (h : (server cfg).step s a = some s')
    (hthrow : ∀ k c granted, a = .run k → s.agents[k]? = some (.cart c (.applied granted)) →
      c.sessionId = σ → c.kind = .buy → c.throws = true → s.memory.table.flag σ = true) :
    Opens s' σ := by
  rcases opens with hopen | ⟨hpast, hnone⟩
  · exact .inl (flag_step count h hopen)
  by_cases hopen : s.memory.table.flag σ = true
  · exact .inl (flag_step count h hopen)
  have grows := carts_le_step (p := CartPc.pastResize) rfl
    (fun c pc pc' m' hstep hp => hstep.pastResize hp) h σ
  refine .inr ⟨by omega, ?_⟩
  by_contra hsome
  obtain ⟨j, c, pc, hj, rfl, habandoned⟩ := exists_of_carts hsome
  rcases cart_came h hj with hj | ⟨pc₀, m', ha, hk, hstep⟩ | rfl
  · exact carts_ne_zero hj habandoned hnone
  · cases hstep with
    | abandon kind throws => exact hopen (hthrow j c _ ha hk rfl kind throws)
    | _ => cases habandoned
  · cases habandoned

/-- **The step lemma** of runs that do not wedge. -/
theorem UnwedgedState.step (inv : UnwedgedState s) (count : CountExact s) (hC : UnwedgedRun cfg s a)
    (h : (server cfg).step s a = some s') : UnwedgedState s' := by
  have admits : ∀ k f, a = .run k → s.agents[k]? = some f → f.holdsTable = true →
      s.memory.table.Admits cfg.alloc f.sessionId := by
    rintro k f rfl hk hf
    have hmoves := hC f hk
    cases f with
    | cart c pc => exact hmoves.1 (of_decide_eq_true hf)
    | order c pc => exact hmoves.1 (of_decide_eq_true hf)
  obtain ⟨placed, defined⟩ := room_step inv.placed inv.defined
    (fun k f ha hk hf => .inl (admitted_resize inv.placed (admits k f ha hk hf))) h
  refine ⟨placed, defined, fun j c hj => ?_, fun j c hj => ?_, fun j c hj => ?_⟩
  · rcases cart_came h hj with hj | ⟨pc₀, m', ha, hk, hstep⟩ | heq
    · exact inv.cartReturns j c hj
    · cases hstep with
      | throw hbad =>
        obtain ⟨_, _, hok, _⟩ := admitted_resize inv.placed (admits j _ ha hk rfl)
        cases hok.symm.trans hbad
    · cases heq
  · rcases order_came h hj with hj | ⟨pc₀, m', ha, hk, hstep⟩ | heq
    · exact inv.orderReturns j c hj
    · cases hstep with
      | throw hbad =>
        obtain ⟨_, _, hok, _⟩ := admitted_resize inv.placed (admits j _ ha hk rfl)
        cases hok.symm.trans hbad
    · cases heq
  · rcases order_came h hj with hj | ⟨pc₀, m', ha, hk, hstep⟩ | heq
    · refine (inv.awaited j c hj).step count h fun k b granted ha hk hσ kind throws => ?_
      subst ha
      have waits : s.agents.countP (Frame.waitsAt b.sessionId) ≠ 0 := fun hzero =>
        absurd (decide_eq_true ⟨hσ.symm, rfl⟩)
          (Bool.eq_false_iff.mp (countP_eq_zero_iff.mp hzero j _ hj))
      exact hσ ▸ ((hC _ hk).2 rfl kind throws).resolve_right waits
    · subst ha
      cases hstep with
      | share _ =>
        refine ((hC _ hk).2 rfl).step count h fun k b granted ha hk' _ _ _ => ?_
        obtain rfl := Action.run.inj ha
        cases hk.symm.trans hk'
    · cases heq

end Step

/-- **No deadlock** in runs whose orders go to gates that are open or will be opened, whose sessions find
room, and whose `Buy` callbacks do not throw while an order of their session waits: while some callback
has not run, somebody can move. -/
theorem no_deadlock (cfg : Config) {s : ServerState}
    (h : Reachable (serverMachine cfg) (UnwedgedRun cfg) s)
    (unanswered : ∃ (j : ℕ) (f : Frame), s.agents[j]? = some f ∧ f.answered = false) :
    Live cfg s := by
  have inv : UnwedgedState s := by
    refine reachable_invariant ?_ (fun s a s' hr inv hC hs => inv.step (countExact hr) hC hs) h
    exact ⟨Placed.start cfg, rfl, (fun j c => nofun), (fun j c => nofun), fun j c hj => nomatch hj⟩
  obtain ⟨j, f, hj, hf⟩ := unanswered
  exact inv.live (awake h) hj hf

/-- An order waits at its gate, and the `Buy` called before it waits for a thread. -/
theorem no_deadlock_diner :
    ∃ s, (serverMachine .diner).runIf (UnwedgedRun .diner) Config.diner.start
        (.spawn (.cart (burgerFor 1) .called) :: moves 0 6 ++
          .spawn (.order (orderFor 1) .called) :: moves 1 5) = some s ∧
      s.agents = [.cart (burgerFor 1) .queued, .order (orderFor 1) .gate] ∧ Live .diner s := by
  have run : (((serverMachine .diner).runIf (UnwedgedRun .diner) Config.diner.start
      (.spawn (.cart (burgerFor 1) .called) :: moves 0 6 ++
        .spawn (.order (orderFor 1) .called) :: moves 1 5)).map fun s =>
      decide (s.agents = [.cart (burgerFor 1) .queued, .order (orderFor 1) .gate])) = some true := by
    decide
  obtain ⟨s, hs, run⟩ := Option.map_eq_some_iff.mp run
  have agents := of_decide_eq_true run
  have reached := (Reachable.init rfl).leads (Machine.runIf_leads _ hs)
  refine ⟨s, hs, agents, no_deadlock .diner reached ⟨1, .order (orderFor 1) .gate, ?_, rfl⟩⟩
  rw [agents]
  rfl

/-- One order of a session that has called nothing else: it waits, and nobody can move. -/
theorem order_wedges_server :
    ¬ ∀ (cfg : Config) (s : ServerState), Reachable (serverMachine cfg) Always s →
      (∃ (j : ℕ) (f : Frame), s.agents[j]? = some f ∧ f.answered = false) → Live cfg s := by
  intro h
  have run : (((serverMachine .diner).run Config.diner.start
      (.spawn (.order (orderFor 1) .called) :: moves 0 5)).map fun s =>
      decide (s.agents = [.order (orderFor 1) .gate] ∧
        ((serverMachine .diner).step s (.run 0)).isNone = true)) = some true := by
    decide
  obtain ⟨s, hs, run⟩ := Option.map_eq_some_iff.mp run
  obtain ⟨agents, blocked⟩ := of_decide_eq_true run
  have reached := (Reachable.init rfl).leads (Machine.run_leads _ hs)
  obtain ⟨k, hk⟩ := h .diner s reached ⟨0, .order (orderFor 1) .gate, by rw [agents]; rfl, rfl⟩
  cases k with
  | zero =>
    rw [Option.isNone_iff_eq_none.mp blocked] at hk
    cases hk
  | succ k =>
    have nobody : (serverMachine .diner).step s (.run (k + 1)) = none := by
      apply step_run_none
      rw [agents]
      exact Nat.le_add_left 1 k
    rw [nobody] at hk
    cases hk

end TcpServer
