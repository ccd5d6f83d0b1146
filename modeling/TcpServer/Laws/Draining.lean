import TcpServer.Laws.Progress
import TcpServer.Laws.Refinement

/-!
# Coming to rest

What happens when no further call comes. Every move brings its agent nearer to the end of its program
(`left_move`), so the agents make only so many moves, in whatever order they are scheduled: there is
no loop among them to go round in, and a lock that is not free is not polled.

That they stop is not yet that they finish. By `UnwedgedState.live` they cannot stop early, as long as
the calls are assured of their answers (`Assured`): all are through `CheckSessionIdSize`, no callback of
a `Buy` is going to throw, and the gates that orders still have before them are open or will be opened.
Then the server comes to rest with every callback run, nobody in a lock or on a thread, no count left
over, and the store that the tasks of all calls make, each once (`drains`).
-/

namespace TcpServer

open Interleaving Transition

/-! ## What is left to do -/

/-- How many steps a `Buy` or a `Remove` has before it, at most. -/
def CartPc.left : CartPc → ℕ
  | .called => 17
  | .resizing => 16
  | .sized => 15
  | .counting => 14
  | .counted => 13
  | .posting => 12
  | .queued => 11
  | .started => 10
  | .locked => 9
  | .admitted => 8
  | .moved => 7
  | .applied _ => 6
  | .settling => 5
  | .decrementing => 4
  | .testing => 3
  | .opening => 2
  | .leaving => 1
  | .ended | .abandoned | .threw => 0

/-- How many steps a `MakeOrder` has before it, at most. -/
def OrderPc.left : OrderPc → ℕ
  | .called => 13
  | .resizing => 12
  | .posting => 11
  | .queued => 10
  | .started => 9
  | .gate => 8
  | .passed => 7
  | .ordering => 6
  | .locked => 5
  | .accepted _ => 4
  | .erased _ => 3
  | .cooking _ => 2
  | .refused | .answering => 1
  | .ended | .threw => 0

def Frame.left : Frame → ℕ
  | .cart _ pc => pc.left
  | .order _ pc => pc.left

/-- How many moves the agents have before them, at most; the last may leave the memory undefined. -/
def ServerState.left (s : ServerState) : ℕ :=
  (s.agents.map Frame.left).sum + if s.memory.undefined then 0 else 1

section Left

variable {cfg : Config} {s s' : ServerState} {m' : Memory} {k : ℕ}

theorem CartStep.left {c : CartCall} {pc pc' : CartPc} (h : CartStep cfg s c pc pc' m') :
    pc'.left < pc.left := by
  cases h <;> simp [CartPc.left]

theorem OrderStep.left {c : OrderCall} {pc pc' : OrderPc} (h : OrderStep cfg s c pc pc' m') :
    pc'.left < pc.left := by
  cases h <;> simp [OrderPc.left]

/-- Nobody moves once the memory is undefined. -/
theorem defined_of_move (h : (server cfg).step s (.run k) = some s') :
    s.memory.undefined = false := by
  obtain ⟨f, f', m', _, hmove, _⟩ := step_run h
  by_contra hdef
  simp only [server, Bool.not_eq_false] at hmove hdef
  rw [if_pos hdef] at hmove
  cases hmove

/-- **Every move leaves less to do.** -/
theorem left_move (h : (server cfg).step s (.run k) = some s') : s'.left < s.left := by
  have defined := defined_of_move h
  cases step_cases h with
  | @cart k c pc pc' m' hk hstep =>
    have moved := sum_set Frame.left (.cart c pc') hk
    have lower := hstep.left
    simp only [Frame.left] at moved
    simp only [ServerState.left, hstep.undefined]
    omega
  | @order k c pc pc' m' hk hstep =>
    have moved := sum_set Frame.left (.order c pc') hk
    have lower := hstep.left
    simp only [Frame.left] at moved
    simp only [ServerState.left, hstep.undefined]
    omega
  | undefined hk _ =>
    rw [ServerState.left, ServerState.left, defined]
    exact Nat.lt_succ_self _

end Left

/-! ## Assured calls -/

/-- Has not passed its gate. -/
def OrderPc.beforeGate : OrderPc → Bool
  | .called | .resizing | .posting | .queued | .started | .gate => true
  | _ => false

/-- Every call is through `CheckSessionIdSize`; no callback of a `Buy` is going to throw; and the gates
that orders have before them are open or will be. -/
structure Assured (s : ServerState) : Prop where
  through : ∀ (j : ℕ) (f : Frame), s.agents[j]? = some f → f.pastResize = true
  returns : ∀ (j : ℕ) (c : CartCall) (pc : CartPc), s.agents[j]? = some (.cart c pc) →
    (Frame.cart c pc).answered = false → c.kind = .buy → c.throws = false
  opens : ∀ (j : ℕ) (c : OrderCall) (pc : OrderPc), s.agents[j]? = some (.order c pc) →
    pc.beforeGate = true → Opens s c.sessionId

section Assured

variable {cfg : Config} {s s' : ServerState} {m' : Memory} {k : ℕ}

/-- Assured calls keep the discipline of runs that do not wedge. -/
theorem Assured.unwedged (assured : Assured s) (k : ℕ) : UnwedgedRun cfg s (.run k) := by
  intro f hk
  have through := assured.through k f hk
  cases f with
  | cart c pc =>
    refine ⟨fun hpc => ?_, fun hpc kind throws => ?_⟩
    · subst hpc
      cases through
    · have returns := assured.returns k c pc hk
      cases pc with
      | applied granted => cases (returns rfl kind).symm.trans throws
      | _ => cases hpc
  | order c pc =>
    refine ⟨fun hpc => ?_, fun hpc => ?_⟩
    · subst hpc
      cases through
    · subst hpc
      exact assured.opens k c _ hk rfl

theorem CartStep.answered {c : CartCall} {pc pc' : CartPc} (h : CartStep cfg s c pc pc' m')
    (hp : (Frame.cart c pc).answered = true) : (Frame.cart c pc').answered = true := by
  cases h <;> first | exact hp | rfl | cases hp

theorem OrderStep.beforeGate {c : OrderCall} {pc pc' : OrderPc} (h : OrderStep cfg s c pc pc' m')
    (hp : pc'.beforeGate = true) : pc.beforeGate = true := by
  cases h <;> first | rfl | cases hp

theorem OrderStep.pastResize {c : OrderCall} {pc pc' : OrderPc} (h : OrderStep cfg s c pc pc' m')
    (hp : (Frame.order c pc).pastResize = true) : (Frame.order c pc').pastResize = true := by
  cases h <;> first | rfl | cases hp

/-- A `Buy` or a `Remove` after a move, read backwards. -/
theorem cart_moved (h : (server cfg).step s (.run k) = some s') {j : ℕ} {c : CartCall} {pc : CartPc}
    (hj : s'.agents[j]? = some (.cart c pc)) :
    s.agents[j]? = some (.cart c pc) ∨
      ∃ pc₀ m', s.agents[j]? = some (.cart c pc₀) ∧ CartStep cfg s c pc₀ pc m' := by
  cases step_cases h with
  | cart hk hstep =>
    rcases getElem?_set_cases hj with ⟨rfl, heq⟩ | ⟨_, hj⟩
    · cases heq
      exact .inr ⟨_, _, hk, hstep⟩
    · exact .inl hj
  | order hk _ =>
    rcases getElem?_set_cases hj with ⟨_, heq⟩ | ⟨_, hj⟩
    · cases heq
    · exact .inl hj
  | undefined _ _ => exact .inl hj

/-- A `MakeOrder` after a move, read backwards. -/
theorem order_moved (h : (server cfg).step s (.run k) = some s') {j : ℕ} {c : OrderCall}
    {pc : OrderPc} (hj : s'.agents[j]? = some (.order c pc)) :
    s.agents[j]? = some (.order c pc) ∨
      ∃ pc₀ m', s.agents[j]? = some (.order c pc₀) ∧ OrderStep cfg s c pc₀ pc m' := by
  cases step_cases h with
  | cart hk _ =>
    rcases getElem?_set_cases hj with ⟨_, heq⟩ | ⟨_, hj⟩
    · cases heq
    · exact .inl hj
  | order hk hstep =>
    rcases getElem?_set_cases hj with ⟨rfl, heq⟩ | ⟨_, hj⟩
    · cases heq
      exact .inr ⟨_, _, hk, hstep⟩
    · exact .inl hj
  | undefined _ _ => exact .inl hj

/-- A move keeps the calls assured. -/
theorem Assured.move (assured : Assured s) (count : CountExact s)
    (h : (server cfg).step s (.run k) = some s') : Assured s' where
  through j f hj := by
    cases f with
    | cart c pc =>
      rcases cart_moved h hj with hj | ⟨_, _, hj, hstep⟩
      · exact assured.through j _ hj
      · exact hstep.pastResize (assured.through j _ hj)
    | order c pc =>
      rcases order_moved h hj with hj | ⟨_, _, hj, hstep⟩
      · exact assured.through j _ hj
      · exact hstep.pastResize (assured.through j _ hj)
  returns j c pc hj hanswered := by
    rcases cart_moved h hj with hj | ⟨pc₀, _, hj, hstep⟩
    · exact assured.returns j c pc hj hanswered
    · refine assured.returns j c pc₀ hj ?_
      by_contra hdone
      rw [Bool.not_eq_false] at hdone
      cases hanswered.symm.trans (hstep.answered hdone)
  opens j c pc hj hgate := by
    -- where the order was before the move
    obtain ⟨pc₀, hj₀, hgate₀⟩ : ∃ pc₀, s.agents[j]? = some (.order c pc₀) ∧
        pc₀.beforeGate = true := by
      rcases order_moved h hj with hj | ⟨pc₀, _, hj, hstep⟩
      · exact ⟨pc, hj, hgate⟩
      · exact ⟨pc₀, hj, hstep.beforeGate hgate⟩
    refine (assured.opens j c pc₀ hj₀ hgate₀).step count h fun i b granted _ hi _ kind throws => ?_
    cases (assured.returns i b _ hi rfl kind).symm.trans throws

end Assured

/-! ## At rest -/

/-- The task of the call has ended, or was cut short by the exception of its callback. -/
def Frame.finished : Frame → Bool
  | .cart _ pc => match pc with
    | .ended | .abandoned => true
    | _ => false
  | .order _ pc => decide (pc = .ended)

/-- **Drained**: every task has finished; the locks and the threads are free; what is left of the counts
are the operations that were cut short; and the store is what the tasks of all calls make of the
initial one, each once, in some order. -/
structure Drained (cfg : Config) (s : ServerState) : Prop where
  finished : ∀ (j : ℕ) (f : Frame), s.agents[j]? = some f → f.finished = true
  locks : s.mutexFree = true ∧ s.tableFree = true
  idle : s.agents.countP Frame.onMainPool = 0 ∧ s.agents.countP Frame.onOrderPool = 0
  count : ∀ σ, s.memory.table.count σ = (s.carts CartPc.isAbandoned σ : SizeT)
  store : ∃ ts : List Task, ts.Perm (s.agents.map Frame.task) ∧
    s.memory.store = (Store.initial cfg.itemHolder).after ts

section Rest

variable {cfg : Config} {s s' : ServerState}

theorem unwedgedState (h : Reachable (serverMachine cfg) (UnwedgedRun cfg) s) :
    UnwedgedState s := by
  refine reachable_invariant ?_ (fun s a s' hr inv hC hs => inv.step (countExact hr) hC hs) h
  exact
    { placed := Placed.start cfg
      defined := rfl
      cartReturns := fun j c hj => Option.some_ne_none _ hj.symm
      orderReturns := fun j c hj => Option.some_ne_none _ hj.symm
      awaited := fun j c hj => absurd hj.symm (Option.some_ne_none _) }

theorem hasDone_of_finished {f : Frame} (h : f.finished = true) : f.done? = some f.task := by
  cases f with
  | cart c pc => cases pc <;> first | rfl | cases h
  | order c pc =>
    obtain rfl := of_decide_eq_true h
    rfl

/-- The task of a finished call has run, and so has its callback. -/
theorem answered_of_finished {f : Frame} (h : f.finished = true) : f.answered = true := by
  cases f with
  | cart c pc => cases pc <;> first | rfl | cases h
  | order c pc => exact h

/-- In a state of a run that does not wedge, nobody can move only when everything is done. -/
theorem drained_of_rest (h : Reachable (serverMachine cfg) (UnwedgedRun cfg) s)
    (rest : (serverMachine cfg).AtRest Action.IsRun s) : Drained cfg s := by
  have inv := unwedgedState h
  have stuck : Stalled cfg s := stalled inv.defined fun k _ _ _ => rest (.run k) trivial
  have answered : ∀ (j : ℕ) (f : Frame), s.agents[j]? = some f → f.answered = true := by
    intro j f hj
    by_contra hf
    obtain ⟨k, hk⟩ := inv.live (awake h) hj (Bool.eq_false_iff.mpr hf)
    rw [rest (.run k) trivial] at hk
    cases hk
  have hgate : ∀ (j : ℕ) (c : OrderCall), s.agents[j]? ≠ some (.order c .gate) :=
    fun j c hj => Bool.false_ne_true (answered j _ hj)
  have finished : ∀ (j : ℕ) (f : Frame), s.agents[j]? = some f → f.finished = true := by
    intro j f hj
    have hanswered := answered j f hj
    cases f with
    | cart c pc =>
      rcases stuck_cart stuck hj with rfl | rfl | rfl | rfl
      · cases hanswered
      · rfl
      · rfl
      · cases hanswered
    | order c pc => exact hanswered
  have free := stuck_mutexFree stuck
  refine ⟨finished, ⟨free, stuck_tableFree stuck hgate⟩, ⟨?_, ?_⟩, fun σ => ?_, ?_⟩
  · refine countP_eq_zero_iff.mpr fun j f hj => ?_
    have hfinished := finished j f hj
    cases f with
    | cart c pc => cases pc <;> first | rfl | cases hfinished
    | order c pc => rfl
  · refine countP_eq_zero_iff.mpr fun j f hj => ?_
    have hfinished := finished j f hj
    cases f with
    | cart c pc => rfl
    | order c pc =>
      obtain rfl := of_decide_eq_true hfinished
      rfl
  · rw [(countExact h).count σ]
    congr 1
    refine List.countP_congr fun f hf => ?_
    obtain ⟨j, hj⟩ := List.mem_iff_getElem?.mp hf
    have hfinished := finished j f hj
    cases f with
    | cart c pc => cases pc <;> first | exact Iff.rfl | cases hfinished
    | order c pc => exact Iff.rfl
  · obtain ⟨ts, runs⟩ := server_runs_tasks h
    refine ⟨ts, List.perm_iff_count.mpr fun t => ?_, runs.free (nobody_mutex free)⟩
    rw [runs.done t, List.count_eq_countP, List.countP_map]
    refine List.countP_congr fun f hf => ?_
    obtain ⟨j, hj⟩ := List.mem_iff_getElem?.mp hf
    rw [Frame.hasDone, hasDone_of_finished (finished j f hj)]
    simp

/-- From assured states of runs that do not wedge, moves lead to such states, with less left to do. -/
theorem assured_descends (cfg : Config) :
    (serverMachine cfg).Descends
      (fun s => Reachable (serverMachine cfg) (UnwedgedRun cfg) s ∧ Assured s) Action.IsRun
      ServerState.left where
  keeps s a s' hI ha hs := by
    obtain ⟨h, assured⟩ := hI
    cases a with
    | spawn f => exact ha.elim
    | run k => exact ⟨.step h (assured.unwedged k) hs, assured.move (countExact h) hs⟩
  lowers s a s' _ ha hs := by
    cases a with
    | spawn f => exact ha.elim
    | run k => exact left_move hs

/-- **The server comes to rest.** From a state with assured calls, if no further call comes, the agents
make at most as many moves as they have left, whoever is scheduled; when nobody can move any more,
everything is done; and that state is reached. -/
theorem drains (h : Reachable (serverMachine cfg) (UnwedgedRun cfg) s) (assured : Assured s) :
    (∀ as s', (∀ a ∈ as, a.IsRun) → (serverMachine cfg).run s as = some s' →
      as.length ≤ s.left ∧
        ((serverMachine cfg).AtRest Action.IsRun s' → Drained cfg s')) ∧
    ∃ as s', (∀ a ∈ as, a.IsRun) ∧ (serverMachine cfg).run s as = some s' ∧ Drained cfg s' := by
  have descends := assured_descends cfg
  refine ⟨fun as s' hmoves hrun => ?_, ?_⟩
  · obtain ⟨⟨reached, _⟩, hlength⟩ := descends.run as ⟨h, assured⟩ hmoves hrun
    exact ⟨by omega, drained_of_rest reached⟩
  · obtain ⟨as, s', hmoves, hrun, rest⟩ := descends.comes_to_rest ⟨h, assured⟩
    obtain ⟨⟨reached, _⟩, _⟩ := descends.run as ⟨h, assured⟩ hmoves hrun
    exact ⟨as, s', hmoves, hrun, drained_of_rest reached rest⟩

/-- A `Buy` waits for a thread and an order of its session at the gate. -/
theorem here_of_agents (agents : s.agents = [.cart (burgerFor 1) .queued, .order (orderFor 1) .gate])
    {j : ℕ} {f : Frame} (hj : s.agents[j]? = some f) :
    f = .cart (burgerFor 1) .queued ∨ f = .order (orderFor 1) .gate := by
  have member := List.mem_of_getElem? hj
  rw [agents] at member
  exact (List.mem_cons.mp member).imp_right List.mem_singleton.mp

theorem assured_of_agents
    (agents : s.agents = [.cart (burgerFor 1) .queued, .order (orderFor 1) .gate])
    (opens : Opens s 1) : Assured s := by
  refine ⟨fun j f hj => ?_, fun j c pc hj _ _ => ?_, fun j c pc hj _ => ?_⟩
  · rcases here_of_agents agents hj with rfl | rfl <;> rfl
  · rcases here_of_agents agents hj with heq | heq <;> cases heq
    rfl
  · rcases here_of_agents agents hj with heq | heq <;> cases heq
    exact opens

/-- The tasks run to their end. -/
theorem drains_diner :
    ∃ s, (serverMachine .diner).runIf (UnwedgedRun .diner) Config.diner.start
        (.spawn (.cart (burgerFor 1) .called) :: moves 0 6 ++
          .spawn (.order (orderFor 1) .called) :: moves 1 5) = some s ∧ s.left = 20 ∧
      (∀ as s', (∀ a ∈ as, a.IsRun) → (serverMachine .diner).run s as = some s' →
        as.length ≤ s.left ∧
          ((serverMachine .diner).AtRest Action.IsRun s' → Drained .diner s')) ∧
      ∃ as s', (∀ a ∈ as, a.IsRun) ∧ (serverMachine .diner).run s as = some s' ∧
        Drained .diner s' := by
  have run : (((serverMachine .diner).runIf (UnwedgedRun .diner) Config.diner.start
      (.spawn (.cart (burgerFor 1) .called) :: moves 0 6 ++
        .spawn (.order (orderFor 1) .called) :: moves 1 5)).map fun s =>
      decide (s.agents = [.cart (burgerFor 1) .queued, .order (orderFor 1) .gate] ∧
        s.left = 20 ∧ Opens s 1)) = some true := by
    decide
  obtain ⟨s, hs, run⟩ := Option.map_eq_some_iff.mp run
  obtain ⟨agents, left, opens⟩ := of_decide_eq_true run
  exact ⟨s, hs, left, drains ((Reachable.init rfl).leads (Machine.runIf_leads _ hs))
    (assured_of_agents agents opens)⟩

end Rest

end TcpServer
