import TcpServer.Laws.Custody
import TcpServer.Laws.Draining
import TcpServer.Laws.Pending

/-!
# Every request is answered

What the clients have to do with it. A request can be served (`Servable`) if the handler returns on its
body, its session id is below 2^30, and, if it is an order, the gate of its session is open or will be
opened: some operation of the session has got through `CheckSessionIdSize`. Nothing is asked of the
order in which anything is scheduled.

If all requests can be served when they are read, then whenever the clients leave it at that, the
handlers, the tasks and the agents make only so many steps (`left_internal`), and when there is none
left every request on every connection has its one response (`requests_answered`).

The agents do their part because the disciplines of `Draining` hold of themselves here: the ids are
small, no callback throws, and a gate that will be opened stays so (`Sound.move`).
-/

namespace TcpServer

open Interleaving RequestHandler Transition

/-! ## What is left to do -/

/-- Steps that need no client. -/
def Occurrence.Internal : Occurrence → Prop
  | .handle _ | .describe _ | .run _ => True
  | .accept | .onRead _ _ | .onWrite _ _ _ => False

/-- How many such steps an operation leads to, at most. -/
def Op.left : Op → ℕ
  | .handleRequest _ => 18
  | .describe _ => 1
  | .asyncRead _ | .asyncWrite _ _ => 0

/-- How many such steps there are, at most. -/
def Network.left (n : Network) : ℕ := (n.ops.map Op.left).sum + n.server.left

section Left

variable {cfg : Config} {parse : String → Option Json} {undef : ℚ → SizeT} {n n' : Network}

theorem left_complete {op : Op} (hop : op ∈ n.ops) : (n.complete op).left + op.left = n.left := by
  have perm := ((List.perm_cons_erase hop).map Op.left).sum_eq
  rw [List.map_cons, List.sum_cons] at perm
  show ((n.ops.erase op).map Op.left).sum + n.server.left + _ = _ + n.server.left
  omega

/-- An operation more, and no agent. -/
theorem left_append (op : Op) (ops : n'.ops = n.ops ++ [op]) (same : n'.server = n.server) :
    n'.left = n.left + op.left := by
  rw [Network.left, ops, same, List.map_append, List.sum_append, List.map_singleton,
    List.sum_singleton, Network.left]
  omega

/-- An agent more. -/
theorem left_spawn (f : Frame) (t : Ticket) :
    Network.left { n with tasks := n.tasks ++ [(f, t)] } = n.left + f.left := by
  unfold Network.left ServerState.left Network.server
  rw [List.map_append, List.map_append, List.sum_append]
  simp
  omega

theorem left_sendResponse (t : Ticket) (r : Response) : (n.sendResponse t r).left = n.left :=
  left_append (.asyncWrite t.connection r) rfl rfl

theorem left_enter (t : Ticket) (c : Call) : (n.enter t c).left ≤ n.left + 17 := by
  cases c with
  | getAllItemDescription =>
    have after : (n.enter t .getAllItemDescription).left = n.left + 1 :=
      left_append (.describe t) rfl rfl
    omega
  | buy i c s => exact Nat.le_of_eq (left_spawn _ t)
  | remove i c s => exact Nat.le_of_eq (left_spawn _ t)
  | makeOrder o s =>
    rw [Network.enter, left_spawn]
    exact Nat.add_le_add_left (Nat.le_add_left 13 4) _

/-- **Every step without a client leaves less to do.** -/
theorem left_internal {a : Occurrence} (ha : a.Internal) (hs : n.step cfg parse undef a = some n') :
    n'.left < n.left := by
  cases networkStep_cases hs with
  | accept => exact ha.elim
  | onRead _ _ => exact ha.elim
  | onWrite _ _ => exact ha.elim
  | @handle t front e pending _ _ _ =>
    have before : _ + 18 = n.left := left_complete pending
    cases e with
    | respond r =>
      rw [Network.perform, left_sendResponse]
      omega
    | handOver c =>
      have after := left_enter (n := n.complete (.handleRequest t)) t c
      rw [Network.perform]
      omega
  | describe pending _ =>
    have before : _ + 1 = n.left := left_complete pending
    rw [left_sendResponse]
    omega
  | move hj hmove _ => exact Nat.add_lt_add_left (left_move (server_move hj hmove)) _
  | answer hj hmove _ =>
    rw [left_sendResponse]
    exact Nat.add_lt_add_left (left_move (server_move hj hmove)) _

end Left

/-! ## Requests that can be served -/

/-- The session of a call. -/
def Call.sessionId? : Call → Option SessionId
  | .getAllItemDescription => none
  | .buy _ _ s | .remove _ _ s | .makeOrder _ s => some s

/-- The handler returns; the session id is small; and an order comes to a gate that is open or will
be. -/
structure Servable (parse : String → Option Json) (undef : ℚ → SizeT) (s : ServerState)
    (req : Request) : Prop where
  returns : ∀ t, ∃ front, handleRequestOn parse undef emit req (Front.of t) = .ok () front
  small : ∀ c σ, Routes parse req c → c.sessionId? = some σ → σ.toNat < 2 ^ 30
  opens : ∀ o σ, Routes parse req (.makeOrder o σ) → Opens s σ

/-- The discipline of runs whose clients ask for what can be served. -/
def ServableRun (parse : String → Option Json) (undef : ℚ → SizeT) (n : Network) :
    Occurrence → Prop
  | .onRead _ (some req) => Servable parse undef n.server req
  | _ => True

/-! ## The server of such a run -/

/-- What the server keeps: it has not wedged, its calls are small, and the gates that orders have before
them are open or will be. -/
structure Sound (cfg : Config) (s : ServerState) : Prop where
  reached : Reachable (serverMachine cfg) (UnwedgedRun cfg) s
  small : SmallState s
  opens : ∀ (j : ℕ) (c : OrderCall) (pc : OrderPc), s.agents[j]? = some (.order c pc) →
    pc.beforeGate = true → Opens s c.sessionId

section Server

variable {cfg : Config} {s s' : ServerState} {a : Action Frame} {σ : SessionId}

/-- Small calls do not shut a gate that will be opened. -/
theorem SmallState.opens_step (small : SmallState s) (count : CountExact s)
    (h : (server cfg).step s a = some s') (opens : Opens s σ) : Opens s' σ := by
  apply opens.step count h
  intro k c granted _ hk _ _ throws
  cases (small.calls k _ hk).2.symm.trans throws

/-- A small id finds room. -/
theorem SmallState.admits (small : SmallState s) (memory : ∀ m < 2 ^ 31, cfg.alloc m = true)
    (hσ : σ.toNat < 2 ^ 30) : s.memory.table.Admits cfg.alloc σ := by
  obtain ⟨n, hn, hpos, h31⟩ := small.table
  by_cases hfits : σ.toNat < n
  · exact .inl (hn.bools.symm ▸ hfits)
  · refine .inr ⟨by omega, by omega, hn.bools.symm ▸ h31, memory _ ?_⟩
    omega

/-- No move of a sound server wedges it. -/
theorem Sound.unwedged (inv : Sound cfg s) (memory : ∀ m < 2 ^ 31, cfg.alloc m = true) (k : ℕ) :
    UnwedgedRun cfg s (.run k) := by
  intro f hk
  have small := inv.small.calls k f hk
  cases f with
  | cart c pc =>
    constructor
    · intro _
      exact inv.small.admits memory small.1
    · intro _ _ throws
      cases small.2.symm.trans throws
  | order c pc =>
    constructor
    · intro _
      exact inv.small.admits memory small
    · intro hpc
      subst hpc
      exact inv.opens k c _ hk rfl

theorem Sound.move (inv : Sound cfg s) (memory : ∀ m < 2 ^ 31, cfg.alloc m = true) {k : ℕ}
    (h : (server cfg).step s (.run k) = some s') : Sound cfg s' where
  reached := .step inv.reached (inv.unwedged memory k) h
  small := inv.small.step_of (fun _ hf => by cases hf) h
  opens j c pc hj hgate := by
    apply inv.small.opens_step (countExact inv.reached) h
    rcases order_moved h hj with hj | ⟨pc₀, _, hj, hstep⟩
    · exact inv.opens j c pc hj hgate
    · exact inv.opens j c pc₀ hj (hstep.beforeGate hgate)

theorem Sound.call (inv : Sound cfg s) {f : Frame} (small : SmallCall f)
    (opens : ∀ c pc, f = .order c pc → Opens s c.sessionId)
    (h : (server cfg).step s (.spawn f) = some s') : Sound cfg s' where
  reached := inv.reached.step (show UnwedgedRun cfg s (.spawn f) from trivial) h
  small := inv.small.step_of (fun g hg => Action.spawn.inj hg ▸ small) h
  opens j c pc hj hgate := by
    apply inv.small.opens_step (countExact inv.reached) h
    obtain ⟨_, rfl⟩ := step_spawn h
    rcases getElem?_spawn_cases hj with hj | ⟨_, heq⟩
    · exact inv.opens j c pc hj hgate
    · exact opens c pc heq.symm

theorem Sound.start (hpos : 1 ≤ cfg.maxUsers.toNat) (h31 : cfg.maxUsers.toNat < 2 ^ 31) :
    Sound cfg cfg.start where
  reached := .init rfl
  small := ⟨fun _ _ hj => (nomatch hj), ⟨_, Table.ofLength_sized _, hpos, h31⟩, Placed.start cfg, rfl⟩
  opens _ _ _ hj _ := nomatch hj

end Server

/-! ## The steps of such a run -/

/-- The agent that a call starts. -/
def Call.agent? : Call → Option Frame
  | .getAllItemDescription => none
  | .buy itemId itemCount sessionId =>
    some (.cart { kind := .buy, itemId, itemCount, sessionId, throws := false } .called)
  | .remove itemId itemCount sessionId =>
    some (.cart { kind := .remove, itemId, itemCount, sessionId, throws := false } .called)
  | .makeOrder orderSum sessionId => some (.order { orderSum, sessionId } .called)

theorem fresh_of_agent {cfg : Config} {c : Call} {f : Frame} (h : c.agent? = some f) :
    (server cfg).fresh f = true := by
  cases c <;> cases h <;> rfl

theorem server_of_enter (n : Network) (t : Ticket) (c : Call) :
    (n.enter t c).server = n.server ∨ ∃ f, c.agent? = some f ∧
      (n.enter t c).server = { n.server with agents := n.server.agents ++ [f] } := by
  have started (f : Frame) : { n with tasks := n.tasks ++ [(f, t)] : Network }.server =
      { n.server with agents := n.server.agents ++ [f] } := by
    simp [Network.server]
  cases c with
  | getAllItemDescription => exact .inl rfl
  | buy i c s => exact .inr ⟨_, rfl, started _⟩
  | remove i c s => exact .inr ⟨_, rfl, started _⟩
  | makeOrder o s => exact .inr ⟨_, rfl, started _⟩

/-- A request becomes one call. -/
theorem Routes.unique {parse : String → Option Json} {req : Request} {c c' : Call}
    (h : Routes parse req c) (h' : Routes parse req c') : c = c' := by
  have other := (@mem_effectsOn parse (fun _ => 0) req (Table.ofLength 0) c').mpr h'
  rw [effectsOn, handler_of_routes h] at other
  exact (Effect.handOver.inj (List.mem_singleton.mp other)).symm

/-- What the network keeps. -/
structure Delivering (cfg : Config) (parse : String → Option Json) (undef : ℚ → SizeT) (n : Network) :
    Prop where
  server : Sound cfg n.server
  handlers : ∀ t, .handleRequest t ∈ n.ops → Servable parse undef n.server t.request

section Step

variable {cfg : Config} {parse : String → Option Json} {undef : ℚ → SizeT} {n n' : Network}
  {a : Occurrence}

/-- A handler is pending since its request was read. -/
theorem pending_handler (hs : n.step cfg parse undef a = some n') {t : Ticket}
    (h : .handleRequest t ∈ n'.ops) :
    .handleRequest t ∈ n.ops ∨ ∃ k, a = .onRead k (some t.request) := by
  have old {m : Network} {op op' : Op} (hm : m.ops = n.ops.erase op')
      (h : .handleRequest t ∈ m.ops ++ [op]) (hop : .handleRequest t ≠ op) :
      .handleRequest t ∈ n.ops := by
    rcases List.mem_append.mp h with h | h
    · exact List.mem_of_mem_erase (hm ▸ h)
    · exact absurd (List.mem_singleton.mp h) hop
  cases networkStep_cases hs with
  | accept =>
    rcases List.mem_append.mp h with h | h
    · exact .inl h
    · cases List.mem_singleton.mp h
  | @onRead k req pending =>
    cases req with
    | none => exact .inl (List.mem_of_mem_erase h)
    | some req =>
      rcases List.mem_append.mp h with h | h
      · exact .inl (List.mem_of_mem_erase h)
      · cases List.mem_singleton.mp h
        exact .inr ⟨k, rfl⟩
  | @handle t' front e pending _ _ _ =>
    cases e with
    | respond r => exact .inl (old rfl h nofun)
    | handOver c =>
      cases c with
      | getAllItemDescription => exact .inl (old rfl h nofun)
      | buy i c s => exact .inl (List.mem_of_mem_erase h)
      | remove i c s => exact .inl (List.mem_of_mem_erase h)
      | makeOrder o s => exact .inl (List.mem_of_mem_erase h)
  | describe _ _ => exact .inl (old rfl h nofun)
  | onWrite keepAlive _ =>
    rcases keepAlive with _ | _ | _
    · exact .inl (List.mem_of_mem_erase h)
    · exact .inl (List.mem_of_mem_erase h)
    · exact .inl (old rfl h nofun)
  | move _ _ _ => exact .inl h
  | answer _ _ _ =>
    rcases List.mem_append.mp h with h | h
    · exact .inl h
    · cases List.mem_singleton.mp h

/-- What a step of the network is for its server: nothing, a move of an agent, or the start of the one
that a pending request calls for. -/
theorem server_cases (hs : n.step cfg parse undef a = some n') :
    n'.server = n.server ∨ (∃ j, (server cfg).step n.server (.run j) = some n'.server) ∨
      ∃ t c f, .handleRequest t ∈ n.ops ∧ Routes parse t.request c ∧ c.agent? = some f ∧
        (server cfg).step n.server (.spawn f) = some n'.server := by
  cases networkStep_cases hs with
  | accept => exact .inl rfl
  | onRead req _ => cases req <;> exact .inl rfl
  | @handle t front e pending _ handled effect =>
    cases e with
    | respond r => exact .inl rfl
    | handOver c =>
      have routes : Routes parse t.request c := by
        apply (@mem_effectsOn parse undef t.request n.memory.table c).mp
        rw [effectsOn, handled, effectsOf, effect]
        exact List.mem_singleton.mpr rfl
      rcases server_of_enter (n.complete (.handleRequest t)) t c with same | ⟨f, hagent, enters⟩
      · exact .inl same
      · refine .inr (.inr ⟨t, c, f, pending, routes, hagent, ?_⟩)
        have fresh : (server cfg).fresh f = true := fresh_of_agent hagent
        simp only [Program.step, fresh, if_true]
        exact congrArg some enters.symm
  | describe _ _ => exact .inl rfl
  | onWrite keepAlive _ => rcases keepAlive with _ | _ | _ <;> exact .inl rfl
  | move hj hmove _ => exact .inr (.inl ⟨_, server_move hj hmove⟩)
  | answer hj hmove _ => exact .inr (.inl ⟨_, server_move hj hmove⟩)

/-- What is asked for stays servable. -/
theorem Servable.step {s s' : ServerState} {req : Request} {b : Action Frame}
    (h : Servable parse undef s req) (small : SmallState s) (count : CountExact s)
    (hs : (server cfg).step s b = some s') : Servable parse undef s' req where
  returns := h.returns
  small := h.small
  opens o σ routes := small.opens_step count hs (h.opens o σ routes)

/-- The call that a servable request becomes is small, and its gate is open or will be. -/
theorem Servable.agent {s : ServerState} {req : Request} (h : Servable parse undef s req) {c : Call}
    {f : Frame} (routes : Routes parse req c) (hf : c.agent? = some f) :
    SmallCall f ∧ ∀ o pc, f = .order o pc → Opens s o.sessionId := by
  cases c with
  | getAllItemDescription => cases hf
  | buy i c σ =>
    cases hf
    exact ⟨⟨h.small _ σ routes rfl, rfl⟩, nofun⟩
  | remove i c σ =>
    cases hf
    exact ⟨⟨h.small _ σ routes rfl, rfl⟩, nofun⟩
  | makeOrder o σ =>
    cases hf
    refine ⟨h.small _ σ routes rfl, fun o' pc heq => ?_⟩
    cases heq
    exact h.opens o σ routes

/-- **The step lemma** of runs whose clients ask for what can be served. -/
theorem Delivering.step (inv : Delivering cfg parse undef n) (memory : ∀ m < 2 ^ 31, cfg.alloc m = true)
    (hC : ServableRun parse undef n a) (hs : n.step cfg parse undef a = some n') :
    Delivering cfg parse undef n' := by
  have asked : ∀ t, .handleRequest t ∈ n'.ops → Servable parse undef n.server t.request := by
    intro t ht
    rcases pending_handler hs ht with ht | ⟨k, rfl⟩
    · exact inv.handlers t ht
    · exact hC
  have count := countExact inv.server.reached
  rcases server_cases hs with same | ⟨j, hmove⟩ | ⟨t, c, f, ht, routes, hagent, hstart⟩
  · constructor
    · exact same ▸ inv.server
    · exact same ▸ asked
  · constructor
    · exact inv.server.move memory hmove
    · intro t ht
      exact (asked t ht).step inv.server.small count hmove
  · obtain ⟨small, opens⟩ := (inv.handlers t ht).agent routes hagent
    constructor
    · exact inv.server.call small opens hstart
    · intro t ht
      exact (asked t ht).step inv.server.small count hstart

theorem delivering (hpos : 1 ≤ cfg.maxUsers.toNat) (h31 : cfg.maxUsers.toNat < 2 ^ 31)
    (memory : ∀ m < 2 ^ 31, cfg.alloc m = true)
    (h : Reachable (networkMachine cfg parse undef) (ServableRun parse undef) n) :
    Delivering cfg parse undef n := by
  refine h.invariant ?_ fun _ _ _ _ inv hC hs => inv.step memory hC hs
  rintro n rfl
  exact ⟨Sound.start hpos h31, fun t ht => nomatch ht⟩

end Step

/-! ## At rest -/

/-- **Delivered**: on every connection the responses are those to the requests, each once and in their
order, and the server is drained. -/
structure Delivered (cfg : Config) (n : Network) : Prop where
  answers : ∀ k, (n.history k).filterMap Event.number? =
    (List.range' 1 (requests (n.history k))).reverse
  server : Drained cfg n.server

section Rest

variable {cfg : Config} {parse : String → Option Json} {undef : ℚ → SizeT}
  {C : Network → Occurrence → Prop} {n : Network}

theorem not_submitting_of_finished {f : Frame} (h : f.finished = true) : f.submitting = false := by
  cases f with
  | cart c pc => cases pc <;> first | rfl | cases h
  | order c pc =>
    obtain rfl := of_decide_eq_true h
    rfl

/-- An agent that cannot move in the network cannot in its server. -/
theorem server_blocked {j : ℕ} (h : n.step cfg parse undef (.run j) = none) :
    (server cfg).step n.server (.run j) = none := by
  by_contra hmove
  obtain ⟨s', hs⟩ := Option.ne_none_iff_exists'.mp hmove
  obtain ⟨f, f', m', hj, hmove, _⟩ := step_run hs
  rw [Network.server, List.getElem?_map] at hj
  obtain ⟨⟨f, t⟩, own, rfl⟩ := Option.map_eq_some_iff.mp hj
  have stuck : n.run cfg j = none := h
  simp only [Network.run, own, hmove, bind, Option.bind_some] at stuck
  split at stuck <;> cases stuck

/-- The agents of a network at rest are at rest. -/
theorem server_rest (rest : (networkMachine cfg parse undef).AtRest Occurrence.Internal n) :
    (serverMachine cfg).AtRest Action.IsRun n.server := by
  intro b hb
  cases b with
  | spawn f => exact hb.elim
  | run j => exact @server_blocked cfg parse undef n j (rest (.run j) trivial)

/-- When no step is left, everything is answered. -/
theorem delivered_of_rest (h : Reachable (networkMachine cfg parse undef) C n)
    (inv : Delivering cfg parse undef n)
    (rest : (networkMachine cfg parse undef).AtRest Occurrence.Internal n) : Delivered cfg n := by
  have drained := drained_of_rest inv.server.reached (server_rest rest)
  have finished : ∀ p ∈ n.tasks, p.1.finished = true := by
    intro p hp
    obtain ⟨j, hj⟩ := List.mem_iff_getElem?.mp hp
    apply drained.finished j
    rw [Network.server, List.getElem?_map, hj, Option.map_some]
  have mutex : n.server.agents.countP Frame.submitting = 0 := by
    apply countP_eq_zero_iff.mpr
    intro j f hj
    exact not_submitting_of_finished (drained.finished j f hj)
  have noHandler : ∀ t, .handleRequest t ∉ n.ops := by
    intro t ht
    obtain ⟨front, returns⟩ := (inv.handlers t ht).returns n.memory.table
    have stuck : n.step cfg parse undef (.handle t) = none := rest (.handle t) trivial
    rw [Network.step, if_pos ⟨ht, mutex⟩, Network.handle] at stuck
    have here : handleRequestOn parse undef emit t.request
        { table := (n.complete (.handleRequest t)).memory.table, effects := [] } = .ok () front :=
      returns
    rw [here] at stuck
    cases stuck
  have noDescription : ∀ t, .describe t ∉ n.ops := by
    intro t ht
    have idle : n.server.agents.countP Frame.onMainPool < cfg.mainThreads := by
      rw [drained.idle.1]
      exact cfg.mainThreads_pos
    have stuck : n.step cfg parse undef (.describe t) = none := rest (.describe t) trivial
    rw [Network.step, if_pos ⟨ht, idle⟩] at stuck
    cases stuck
  have nobody : ∀ k, n.handling k = 0 := by
    intro k
    have noOp : n.ops.countP (Op.isRequest k) = 0 := by
      apply List.countP_eq_zero.mpr
      intro op hop hrequest
      cases op with
      | handleRequest t => exact noHandler t hop
      | describe t => exact noDescription t hop
      | asyncRead _ => cases hrequest
      | asyncWrite _ _ => cases hrequest
    have noTask : n.tasks.countP (holds k) = 0 := by
      apply List.countP_eq_zero.mpr
      intro p hp hholds
      rw [holds, answered_of_finished (finished p hp)] at hholds
      cases hholds
    rw [Network.handling, noOp, noTask]
  exact ⟨fun k => (takeTurns h k).numbers.1 (carried h k (nobody k)), drained⟩

/-- Steps without a client keep the discipline, and leave less to do. -/
theorem delivering_descends (memory : ∀ m < 2 ^ 31, cfg.alloc m = true) :
    (networkMachine cfg parse undef).Descends
      (fun n => Reachable (networkMachine cfg parse undef) (ServableRun parse undef) n ∧
        Delivering cfg parse undef n) Occurrence.Internal Network.left where
  keeps n a n' hI ha hs := by
    have hC : ServableRun parse undef n a := by
      cases a with
      | onRead k req => exact ha.elim
      | _ => trivial
    exact ⟨hI.1.step hC hs, hI.2.step memory hC hs⟩
  lowers n a n' _ ha hs := left_internal ha hs

/-- **Every request is answered.** If the clients have asked for what can be served, then from there on,
however the handlers, the tasks and the agents are scheduled, they make only so many steps without the
clients, and when none is left everything is delivered; and that state is reached. -/
theorem requests_answered (hpos : 1 ≤ cfg.maxUsers.toNat) (h31 : cfg.maxUsers.toNat < 2 ^ 31)
    (memory : ∀ m < 2 ^ 31, cfg.alloc m = true)
    (h : Reachable (networkMachine cfg parse undef) (ServableRun parse undef) n) :
    (∀ as n', (∀ a ∈ as, a.Internal) → (networkMachine cfg parse undef).run n as = some n' →
      as.length ≤ n.left ∧
        ((networkMachine cfg parse undef).AtRest Occurrence.Internal n' → Delivered cfg n')) ∧
    ∃ as n', (∀ a ∈ as, a.Internal) ∧ (networkMachine cfg parse undef).run n as = some n' ∧
      Delivered cfg n' := by
  have descends := @delivering_descends cfg parse undef memory
  have start := And.intro h (delivering hpos h31 memory h)
  constructor
  · intro as n' internal hrun
    obtain ⟨⟨reached, inv⟩, hlength⟩ := descends.run as start internal hrun
    exact ⟨by omega, delivered_of_rest reached inv⟩
  · obtain ⟨as, n', internal, hrun, rest⟩ := descends.comes_to_rest start
    obtain ⟨⟨reached, inv⟩, _⟩ := descends.run as start internal hrun
    exact ⟨as, n', internal, hrun, delivered_of_rest reached inv rest⟩

/-- A request that becomes a small `Buy`. -/
theorem servable_of_buy {s : ServerState} {req : Request} {i c : SizeT} {σ : SessionId}
    (h : Routes parse req (.buy i c σ)) (small : σ.toNat < 2 ^ 30) :
    Servable parse undef s req where
  returns t := by
    rw [handler_of_routes h]
    exact ⟨_, rfl⟩
  small call σ' routes hσ := by
    obtain rfl := routes.unique h
    obtain rfl := Option.some.inj hσ
    exact small
  opens o σ' routes := by cases routes.unique h

/-- A burger is asked for. -/
theorem requests_answered_diner :
    let machine := networkMachine .diner parseIntegers fun _ => 0
    ∃ n, machine.run Config.diner.network [.accept, .onRead 0 (some burgerRequest)] = some n ∧
      n.left = 19 ∧
      (∀ as n', (∀ a ∈ as, a.Internal) → machine.run n as = some n' → as.length ≤ n.left ∧
        (machine.AtRest Occurrence.Internal n' → Delivered .diner n')) ∧
      ∃ as n', (∀ a ∈ as, a.Internal) ∧ machine.run n as = some n' ∧ Delivered .diner n' := by
  intro machine
  have accepted : Reachable machine (ServableRun parseIntegers fun _ => 0) _ :=
    .step (a := .accept) (.init rfl) trivial rfl
  have asked := Reachable.step (a := Occurrence.onRead 0 (some burgerRequest)) accepted
    (servable_of_buy burger_routes (by decide)) rfl
  exact ⟨_, rfl, rfl, requests_answered (by decide) (by decide) (fun _ _ => rfl) asked⟩

end Rest

end TcpServer
