import TcpServer.Laws.Delivery
import TcpServer.Laws.Settling

/-!
# A request, its handler and the locks

What becomes of one request that was read, in whatever state the server is, when nothing else is asked
of it: its handler gets `server_mutex` when the call that has it is through, comes back from the body or
not, and goes on into the operation it calls, as far as to the posting of the task. The threads of the
server move meanwhile.

`AnsweredOnce` says that this ends well, however it is scheduled: the handler returns, no exception leaves
it, and the callback was used once, for a response or by one operation. `answered_once_iff` says when. The
body has to be readable, the table has to take the session, and the call and the one that has the mutex
must not get behind an order that waits for good: it shares the table's lock, which both want for
themselves (`Passable`).

This is about states in which the table has taken the session of every call so far (`TakenRun`). A call
whose session it does not take ends the process by the exception of `CheckSessionIdSize`, or accesses the
vectors out of range.
-/

namespace TcpServer

open Interleaving RequestHandler Transition

/-! ## Answered once -/

/-- The steps of the handler of a request, and of the threads of the server. -/
def Occurrence.Serving (t : Ticket) : Occurrence → Prop
  | .handle t' => t' = t
  | .run _ => True
  | .accept | .onRead _ _ | .describe _ | .onWrite _ _ _ => False

/-- The response was given with the callback of the request. -/
def Event.isAnswer (t : Ticket) : Event → Bool
  | .received _ => false
  | .responded t' _ => decide (t' = t)

/-- The agent was handed the callback of the request, and has not run it yet. -/
def isHanded (t : Ticket) (p : Frame × Ticket) : Bool := !p.1.answered && decide (p.2 = t)

namespace Network

variable (n : Network) (t : Ticket)

/-- The handler has returned: it does not wait for `server_mutex`, it is in no call, and no exception is
leaving it. -/
def Returned : Prop :=
  .handleRequest t ∉ n.ops ∧ ∀ p ∈ n.tasks, p.2 = t → p.1.inHandler = false

/-- How often the callback was used: the responses given with it, and the operations that were handed it
and have not run it yet. -/
def uses : ℕ :=
  (n.history t.connection).countP (Event.isAnswer t) +
    n.ops.countP (fun op => decide (op = .describe t)) + n.tasks.countP (isHanded t)

/-- Whether the handler is still to use it. -/
def waiting : ℕ := n.ops.countP fun op => decide (op = .handleRequest t)

end Network

/-- **Answered once**: however the handler and the threads of the server are scheduled, they make only so
many steps, and when none is left the handler has returned and the callback was used once. -/
def AnsweredOnce (cfg : Config) (parse : String → Option Json) (undef : ℚ → SizeT) (n : Network)
    (t : Ticket) : Prop :=
  ∀ as n', (∀ a ∈ as, a.Serving t) → (networkMachine cfg parse undef).run n as = some n' →
    as.length ≤ n.left ∧
      ((networkMachine cfg parse undef).AtRest (Occurrence.Serving t) n' →
        n'.Returned t ∧ n'.uses t = 1)

/-! ## When -/

/-- The handler comes back from the body; whoever has `server_mutex` gets through; and if the request
becomes a call that needs the table's lock, no order is waiting for good or will be, and the table takes the
session. -/
structure Answerable (cfg : Config) (parse : String → Option Json) (s : ServerState) (req : Request) :
    Prop where
  readable : Readable parse req
  passable : Passable s
  opens : ∀ c, Routes parse req c → c ≠ .getAllItemDescription → OrdersOpen OrderPc.beforeGate s
  takes : ∀ c, Routes parse req c → c.Takes cfg.alloc s.settled

/-- The discipline of runs in which the table takes the session of every call. -/
def TakenRun (cfg : Config) (parse : String → Option Json) (n : Network) : Occurrence → Prop
  | .handle t => ∀ c σ, Routes parse t.request c → c.sessionId? = some σ →
    n.memory.table.Admits cfg.alloc σ
  | _ => True

/-! ## The steps -/

section Step

variable {cfg : Config} {parse : String → Option Json} {undef : ℚ → SizeT} {n n' : Network}
  {t : Ticket} {j : ℕ}

/-- A move of an agent is one of the server. -/
theorem server_run (hs : n.step cfg parse undef (.run j) = some n') :
    (server cfg).step n.server (.run j) = some n'.server := by
  cases networkStep_cases hs with
  | move hj hmove _ => exact server_move hj hmove
  | answer hj hmove _ => exact server_move hj hmove

/-- It leaves the handlers where they are. -/
theorem pending_run (hs : n.step cfg parse undef (.run j) = some n') :
    .handleRequest t ∈ n'.ops ↔ .handleRequest t ∈ n.ops := by
  constructor
  · intro h
    rcases pending_handler hs h with h | ⟨_, heq⟩
    · exact h
    · cases heq
  · intro h
    cases networkStep_cases hs with
    | move _ _ _ => exact h
    | answer _ _ _ => exact List.mem_append_left _ h

/-- The tasks after a move are those of its agents. -/
theorem task_run (hs : n.step cfg parse undef (.run j) = some n') {i : ℕ} {f' : Frame}
    (hi : n'.server.agents[i]? = some f') {f : Frame} (own : n.tasks[i]? = some (f, t)) :
    n'.tasks[i]? = some (f', t) := by
  have moved : ∀ {g g' : Frame} {t' : Ticket}, n.tasks[j]? = some (g, t') →
      n'.tasks = n.tasks.set j (g', t') → n'.tasks[i]? = some (f', t) := by
    intro g g' t' hj htasks
    rw [Network.server, List.getElem?_map, htasks] at hi
    obtain ⟨p, hp, rfl⟩ := Option.map_eq_some_iff.mp hi
    rw [htasks, hp]
    by_cases hij : i = j
    · subst hij
      obtain rfl := Option.some.inj ((getElem?_set_self hj).symm.trans hp)
      cases own.symm.trans hj
      rfl
    · cases ((getElem?_set_other hij).symm.trans hp).symm.trans own
      rfl
  cases networkStep_cases hs with
  | move hj _ _ => exact moved hj rfl
  | answer hj _ _ => exact moved hj rfl

/-- What the handler's step is: it has the mutex, comes back, and has left the list; and it has not
called an operation that starts an agent, or the agent is there with the callback. -/
theorem handle_step (inv : InPairs n) (hs : n.step cfg parse undef (.handle t) = some n') :
    n.server.agents.countP Frame.submitting = 0 ∧ Readable parse t.request ∧
      .handleRequest t ∉ n'.ops ∧
      (n'.server = n.server ∧ n'.tasks = n.tasks ∧
          (∀ c, Routes parse t.request c → c = .getAllItemDescription) ∨
        ∃ c f, Routes parse t.request c ∧ c.agent? = some f ∧ n'.tasks = n.tasks ++ [(f, t)] ∧
          n'.server = { n.server with agents := n.server.agents ++ [f] }) := by
  cases networkStep_cases hs with
  | @handle t front e pending mutex handled effect =>
    refine ⟨mutex, (returned_iff parse t.request).mp ⟨front, handled⟩, ?_⟩
    obtain ⟨_, free⟩ := inv.complete pending
    have gone : .handleRequest t ∉ (n.complete (.handleRequest t)).ops :=
      fun h => free_ops free h rfl
    have calls : ∀ c, Routes parse t.request c → e = .handOver c := by
      intro c routes
      have hmem := (@mem_effectsOn parse undef t.request n.memory.table c).mpr routes
      rw [effectsOn, handled, effectsOf, effect] at hmem
      exact (List.mem_singleton.mp hmem).symm
    have appended : ∀ op : Op, op ≠ .handleRequest t →
        .handleRequest t ∉ (n.complete (.handleRequest t)).ops ++ [op] := by
      intro op hop h
      rcases List.mem_append.mp h with h | h
      · exact gone h
      · exact hop (List.mem_singleton.mp h).symm
    cases e with
    | respond r =>
      refine ⟨appended _ Op.noConfusion, .inl ⟨rfl, rfl, fun c routes => ?_⟩⟩
      cases calls c routes
    | handOver c =>
      have routes : Routes parse t.request c := by
        apply (@mem_effectsOn parse undef t.request n.memory.table c).mp
        rw [effectsOn, handled, effectsOf, effect]
        exact List.mem_singleton.mpr rfl
      have started : ∀ f : Frame, c.agent? = some f →
          ((n.complete (.handleRequest t)).enter t c).tasks = n.tasks ++ [(f, t)] →
          ((n.complete (.handleRequest t)).enter t c).server =
            { n.server with agents := n.server.agents ++ [f] } := by
        intro f hagent htasks
        rcases server_of_enter (n.complete (.handleRequest t)) t c with same | ⟨g, hg, enters⟩
        · have lengths := congrArg (fun s : ServerState => s.agents.length) same
          rw [Network.server, Network.server, htasks, List.map_append, List.length_append] at lengths
          exact absurd lengths (Nat.succ_ne_self _)
        · obtain rfl := Option.some.inj (hg.symm.trans hagent)
          exact enters
      cases c with
      | getAllItemDescription =>
        exact ⟨appended _ Op.noConfusion, .inl ⟨rfl, rfl, fun c h => h.unique routes⟩⟩
      | buy i c s => exact ⟨gone, .inr ⟨_, _, routes, rfl, rfl, started _ rfl rfl⟩⟩
      | remove i c s => exact ⟨gone, .inr ⟨_, _, routes, rfl, rfl, started _ rfl rfl⟩⟩
      | makeOrder o s => exact ⟨gone, .inr ⟨_, _, routes, rfl, rfl, started _ rfl rfl⟩⟩

/-- The handler of a readable request is kept back only by `server_mutex`. -/
theorem handle_enabled (readable : Readable parse t.request) (pending : .handleRequest t ∈ n.ops)
    (mutex : n.server.agents.countP Frame.submitting = 0) :
    n.step cfg parse undef (.handle t) ≠ none := by
  obtain ⟨front, returns⟩ :=
    (@returned_iff n.memory.table undef parse t.request).mpr readable
  have here : handleRequestOn parse undef emit t.request
      { table := (n.complete (.handleRequest t)).memory.table, effects := [] } = .ok () front :=
    returns
  rw [Network.step, if_pos ⟨pending, mutex⟩, Network.handle, here]
  exact Option.some_ne_none _

end Step

/-! ## The callback -/

section Callback

variable {cfg : Config} {parse : String → Option Json} {undef : ℚ → SizeT} {n n' : Network}
  {t : Ticket} {a : Occurrence}

/-- A response given with a callback, on a connection that there is. -/
theorem answers_sendResponse {hs : List (List Event)} {t' : Ticket} {h : List Event}
    (own : hs[t'.connection]? = some h) (r : Response) :
    ((hs.modify t'.connection (.responded t' r :: ·)).getD t.connection []).countP (Event.isAnswer t) =
      (hs.getD t.connection []).countP (Event.isAnswer t) + (if t' = t then 1 else 0) := by
  by_cases hconn : t.connection = t'.connection
  · rw [hconn, List.getD_eq_getElem?_getD, List.getD_eq_getElem?_getD, List.getElem?_modify_eq, own]
    simp only [Option.map_eq_map, Option.map_some, Option.getD_some, List.countP_cons, Event.isAnswer,
      decide_eq_true_eq]
  · have hne : t' ≠ t := fun e => hconn (e ▸ rfl)
    rw [getD_modify_ne _ hconn, if_neg hne, Nat.add_zero]

/-- **The step lemma**: the callback is with the handler, or was used, and is passed on. -/
theorem uses_step (inv : InPairs n) (ha : a.Serving t) (hs : n.step cfg parse undef a = some n') :
    n'.uses t + n'.waiting t = n.uses t + n.waiting t := by
  unfold Network.uses Network.waiting
  cases networkStep_cases hs with
  | accept => exact ha.elim
  | onRead _ _ => exact ha.elim
  | describe _ _ => exact ha.elim
  | onWrite _ _ => exact ha.elim
  | @handle t' front e pending _ _ _ =>
    obtain rfl : t' = t := ha
    obtain ⟨h, own, _⟩ := inv.ops _ pending
    have described := countP_complete (fun op => decide (op = .describe t')) pending
    have waited := countP_complete (fun op => decide (op = .handleRequest t')) pending
    simp only [reduceCtorEq, decide_false, Bool.false_eq_true, if_false, Nat.add_zero] at described
    simp only [decide_true, if_true] at waited
    cases e with
    | respond r =>
      have answered : (((n.complete (.handleRequest t')).sendResponse t' r).history
          t'.connection).countP (Event.isAnswer t') =
          (n.history t'.connection).countP (Event.isAnswer t') + (if t' = t' then 1 else 0) :=
        answers_sendResponse own r
      rw [if_pos rfl] at answered
      simp only [Network.perform, answered]
      simp only [Network.sendResponse, List.countP_append, List.countP_singleton, reduceCtorEq,
        decide_false, Bool.false_eq_true, if_false]
      have same : (n.complete (.handleRequest t')).tasks = n.tasks := rfl
      rw [same]
      omega
    | handOver c =>
      have spawned : ∀ f : Frame, f.answered = false →
          (n.tasks ++ [(f, t')]).countP (isHanded t') = n.tasks.countP (isHanded t') + 1 := by
        intro f hf
        rw [countP_spawn, isHanded, hf]
        simp
      have same : (n.complete (.handleRequest t')).tasks = n.tasks := rfl
      have events : (n.complete (.handleRequest t')).histories = n.histories := rfl
      cases c with
      | getAllItemDescription =>
        simp only [Network.perform, Network.enter, Network.history, List.countP_append,
          List.countP_singleton, decide_true, if_true, reduceCtorEq, decide_false,
          Bool.false_eq_true, if_false, same, events]
        omega
      | buy i c s =>
        simp only [Network.perform, Network.enter, Network.history, same, events]
        rw [spawned _ rfl]
        omega
      | remove i c s =>
        simp only [Network.perform, Network.enter, Network.history, same, events]
        rw [spawned _ rfl]
        omega
      | makeOrder o s =>
        simp only [Network.perform, Network.enter, Network.history, same, events]
        rw [spawned _ rfl]
        omega
  | @move j f f' t' m' hj hmove silent =>
    have count := countP_set (isHanded t) (f', t') hj
    have same : f'.answered = f.answered := by
      cases hf : f.answered with
      | true => exact answered_keeps hmove hf
      | false =>
        rw [← Bool.not_eq_true]
        intro hf'
        obtain ⟨a, ha⟩ := answer_of_answered hmove hf hf'
        cases silent.symm.trans ha
    have here : isHanded t (f', t') = isHanded t (f, t') := by rw [isHanded, isHanded, same]
    rw [here] at count
    show (n.history t.connection).countP _ + n.ops.countP _ + (n.tasks.set j (f', t')).countP _ +
      n.ops.countP _ = _
    omega
  | @answer j f f' t' m' a hj hmove answers =>
    obtain ⟨hopen, hanswered⟩ := answered_of_answer hmove answers
    obtain ⟨h, own, _⟩ := inv.tasks _ (List.mem_of_getElem? hj) hopen
    have count := countP_set (isHanded t) (f', t') hj
    rw [isHanded, isHanded, hopen, hanswered] at count
    simp only [Bool.not_true, Bool.false_and, Bool.false_eq_true, if_false, Bool.not_false,
      Bool.true_and, decide_eq_true_eq] at count
    have answered := @answers_sendResponse t _ _ _ own (callback a)
    simp only [Network.sendResponse, Network.history, List.countP_append, List.countP_singleton,
      reduceCtorEq, decide_false, Bool.false_eq_true, if_false, answered]
    omega

/-- A request that waits for its handler was not answered, and nobody else has its callback. -/
theorem uses_of_pending (inv : InPairs n) (pending : .handleRequest t ∈ n.ops) :
    n.uses t + n.waiting t = 1 := by
  obtain ⟨h, own, earlier, rfl, number⟩ := inv.ops _ pending
  obtain ⟨_, free⟩ := inv.complete pending
  have described := countP_complete (fun op => decide (op = .describe t)) pending
  have waited := countP_complete (fun op => decide (op = .handleRequest t)) pending
  simp only [reduceCtorEq, decide_false, Bool.false_eq_true, if_false, Nat.add_zero] at described
  simp only [decide_true, if_true] at waited
  have noDescription : (n.complete (.handleRequest t)).ops.countP
      (fun op => decide (op = .describe t)) = 0 := by
    refine List.countP_eq_zero.mpr fun op hop heq => free_ops free hop ?_
    rw [of_decide_eq_true heq]
    rfl
  have noHandler : (n.complete (.handleRequest t)).ops.countP
      (fun op => decide (op = .handleRequest t)) = 0 := by
    refine List.countP_eq_zero.mpr fun op hop heq => free_ops free hop ?_
    rw [of_decide_eq_true heq]
  have noTask : n.tasks.countP (isHanded t) = 0 := by
    refine List.countP_eq_zero.mpr fun p hp hhanded => ?_
    simp only [isHanded, Bool.and_eq_true, Bool.not_eq_true', decide_eq_true_eq] at hhanded
    exact free_tasks free hp hhanded.1 (congrArg Ticket.connection hhanded.2)
  have noAnswer : (n.history t.connection).countP (Event.isAnswer t) = 0 := by
    have history : n.history t.connection = _ := history_of_getElem? own
    rw [history]
    refine List.countP_eq_zero.mpr fun e he hanswer => ?_
    cases e with
    | received req => cases hanswer
    | responded t' r =>
      obtain rfl := of_decide_eq_true hanswer
      have turns := (inv.turns _ _ own).tail
      have member : t'.number ∈ earlier.filterMap Event.number? :=
        List.mem_filterMap.mpr ⟨_, (List.mem_cons.mp he).resolve_left nofun, rfl⟩
      have le := turns.number_le _ member
      rw [number, requests_received] at le
      exact Nat.not_succ_le_self _ le
  unfold Network.uses Network.waiting
  omega

end Callback

/-! ## Runs in which the sessions are taken -/

section Runs

variable {cfg : Config} {parse : String → Option Json} {undef : ℚ → SizeT} {n n' : Network}
  {t : Ticket} {a : Occurrence} {C : Network → Occurrence → Prop}

/-- What a step of the network is for its server, but for the handlers'. -/
theorem server_other (hs : n.step cfg parse undef a = some n') (ha : ∀ t, a ≠ .handle t) :
    n'.server = n.server ∨ ∃ j, (server cfg).step n.server (.run j) = some n'.server := by
  cases networkStep_cases hs with
  | accept => exact .inl rfl
  | onRead req _ => cases req <;> exact .inl rfl
  | handle _ _ _ _ => exact absurd rfl (ha _)
  | describe _ _ => exact .inl rfl
  | onWrite keepAlive _ => rcases keepAlive with _ | _ | _ <;> exact .inl rfl
  | move hj hmove _ => exact .inr ⟨_, server_move hj hmove⟩
  | answer hj hmove _ => exact .inr ⟨_, server_move hj hmove⟩

/-- The agent of a call is about to enter `CheckSessionIdSize`, and its callback returns. -/
theorem agent_called {c : Call} {f : Frame} (h : c.agent? = some f) :
    f.isCalled = true ∧ ∀ b pc, f = .cart b pc → b.throws = false := by
  cases c with
  | getAllItemDescription => cases h
  | buy i c σ =>
    cases h
    exact ⟨rfl, fun b pc heq => by cases heq; rfl⟩
  | remove i c σ =>
    cases h
    exact ⟨rfl, fun b pc heq => by cases heq; rfl⟩
  | makeOrder o σ =>
    cases h
    exact ⟨rfl, nofun⟩

theorem sessionId_agent {c : Call} {f : Frame} (h : c.agent? = some f) :
    c.sessionId? = some f.sessionId := by
  cases c <;> cases h <;> rfl

/-- **The run lemma** of runs in which the table takes the session of every call. -/
theorem taken (h : Reachable (networkMachine cfg parse undef) (TakenRun cfg parse) n) :
    Taken cfg none n.server := by
  refine h.invariant (I := fun n => Taken cfg none n.server) ?_ ?_
  · rintro n rfl
    exact Taken.start cfg
  · intro n a n' hr T hC hs
    by_cases ha : ∃ t, a = .handle t
    · obtain ⟨t, rfl⟩ := ha
      obtain ⟨mutex, _, _, ⟨same, _⟩ | ⟨c, f, routes, hagent, _, enters⟩⟩ :=
        @handle_step cfg parse undef n n' t (inPairs hr) hs
      · exact same ▸ T
      · obtain ⟨fresh, returns⟩ := agent_called hagent
        rw [enters]
        exact T.call mutex fresh returns (hC c f.sessionId routes (sessionId_agent hagent))
    · rcases @server_other cfg parse undef n n' a hs fun t e => ha ⟨t, e⟩ with same | ⟨j, hmove⟩
      · exact same ▸ T
      · rcases T.move hmove with T | ⟨hlate, _⟩
        · exact T
        · cases hlate

theorem internal_of_serving (ha : a.Serving t) : a.Internal := by
  cases a <;> trivial

/-- Such steps leave less to do, whatever else they keep. -/
theorem serving_descends {I : Network → Prop} (t : Ticket)
    (keeps : ∀ n a n', Reachable (networkMachine cfg parse undef) Always n → I n → a.Serving t →
      n.step cfg parse undef a = some n' → I n') :
    (networkMachine cfg parse undef).Descends
      (fun n => Reachable (networkMachine cfg parse undef) Always n ∧ I n) (Occurrence.Serving t)
      Network.left where
  keeps _ _ _ hI ha hs := ⟨hI.1.step trivial hs, keeps _ _ _ hI.1 hI.2 ha hs⟩
  lowers _ _ _ _ ha hs := left_internal (internal_of_serving ha) hs

/-! ## When it ends well -/

/-- A handler that has come back does not submit any more. -/
theorem returned_of_none (gone : .handleRequest t ∉ n.ops) (none : NoneInHandler n.server) :
    n.Returned t := by
  refine ⟨gone, fun p hp _ => ?_⟩
  obtain ⟨j, hj⟩ := List.mem_iff_getElem?.mp hp
  apply none j
  rw [Network.server, List.getElem?_map, hj, Option.map_some]

/-- Nobody comes into a handler by a move. -/
theorem NoneInHandler.move {s s' : ServerState} {k : ℕ} (none : NoneInHandler s)
    (h : (server cfg).step s (.run k) = some s') : NoneInHandler s' := by
  intro j f hj
  cases step_cases h with
  | undefined _ _ => exact none j f hj
  | cart hk hstep =>
    have own := none k _ hk
    rcases getElem?_set_cases hj with ⟨_, rfl⟩ | ⟨_, hj⟩
    · cases hstep <;> first | rfl | cases own
    · exact none j f hj
  | order hk hstep =>
    have own := none k _ hk
    rcases getElem?_set_cases hj with ⟨_, rfl⟩ | ⟨_, hj⟩
    · cases hstep <;> first | rfl | cases own
    · exact none j f hj

/-- How far the request is: its handler is still to come, and can be answered; or it has come back, and
who is in a call gets through; or nobody is in one. -/
def Served (cfg : Config) (parse : String → Option Json) (t : Ticket) (n : Network) : Prop :=
  (.handleRequest t ∈ n.ops ∧ Taken cfg none n.server ∧ Answerable cfg parse n.server t.request) ∨
    (.handleRequest t ∉ n.ops ∧ ∃ late, Taken cfg late n.server ∧ Passable n.server) ∨
      (.handleRequest t ∉ n.ops ∧ NoneInHandler n.server)

theorem willOpen_spawn {s : ServerState} {σ : SessionId} (f : Frame) (will : WillOpen s σ) :
    WillOpen { s with agents := s.agents ++ [f] } σ := by
  refine will.imp id fun hne => ?_
  rw [ServerState.carts, countP_spawn]
  unfold ServerState.carts at hne
  omega

/-- Where all gates before the orders will open, the next call gets through. -/
theorem passable_spawn {s : ServerState} (opens : OrdersOpen OrderPc.beforeGate s) {f : Frame}
    (hf : f.isCalled = true) : Passable { s with agents := s.agents ++ [f] } := by
  rintro - j c pc hj hpc
  rcases getElem?_spawn_cases hj with hj | ⟨_, rfl⟩
  · exact willOpen_spawn f (opens j c pc hj (beforeGate_of_underWay hpc))
  · obtain rfl := of_decide_eq_true hf
    cases hpc

/-- **The step lemma** of a request that is answerable. -/
theorem Served.step (reached : Reachable (networkMachine cfg parse undef) Always n)
    (inv : Served cfg parse t n) (ha : a.Serving t) (hs : n.step cfg parse undef a = some n') :
    Served cfg parse t n' := by
  have count := countExact (network_server reached)
  cases a with
  | accept => exact ha.elim
  | onRead _ _ => exact ha.elim
  | describe _ => exact ha.elim
  | onWrite _ _ _ => exact ha.elim
  | run j =>
    have hmove := server_run hs
    rcases inv with ⟨pending, T, ans⟩ | ⟨gone, late, T, passable⟩ | ⟨gone, none⟩
    · rcases T.move hmove with T' | ⟨hlate, _⟩
      · refine .inl ⟨(pending_run hs).mpr pending, T', ?_⟩
        exact
          { readable := ans.readable
            passable := ans.passable.move T count hmove
            opens := fun c routes hc => (ans.opens c routes hc).move count hmove
            takes := fun c routes => (takes_move T T' hmove c).mpr (ans.takes c routes) }
      · cases hlate
    · refine .inr ?_
      rcases T.move hmove with T' | ⟨_, none⟩
      · exact .inl ⟨mt (pending_run hs).mp gone, late, T', passable.move T count hmove⟩
      · exact .inr ⟨mt (pending_run hs).mp gone, none⟩
    · exact .inr (.inr ⟨mt (pending_run hs).mp gone, none.move hmove⟩)
  | handle t' =>
    obtain rfl : t' = t := ha
    obtain ⟨mutex, _, left, called⟩ := handle_step (inPairs reached) hs
    rcases inv with ⟨_, T, ans⟩ | ⟨gone, _⟩ | ⟨gone, _⟩
    · refine .inr (.inl ⟨left, ?_⟩)
      rcases called with ⟨same, _, _⟩ | ⟨c, f, routes, hagent, _, enters⟩
      · exact ⟨none, same ▸ T, same ▸ ans.passable⟩
      · have hc : c ≠ .getAllItemDescription := by
          rintro rfl
          cases hagent
        obtain ⟨fresh, returns⟩ := agent_called hagent
        have passable := passable_spawn (ans.opens c routes hc) fresh
        have takes := ans.takes c routes
        rw [settled_of_mutex T mutex] at takes
        rw [enters]
        cases c with
        | getAllItemDescription => cases hagent
        | buy i c σ =>
          cases hagent
          exact ⟨none, T.call mutex fresh returns takes, passable⟩
        | remove i c σ =>
          cases hagent
          exact ⟨none, T.call mutex fresh returns takes, passable⟩
        | makeOrder o σ =>
          cases hagent
          exact ⟨_, T.order mutex _ takes, passable⟩
    · cases networkStep_cases hs with
      | handle pending _ _ _ => exact absurd pending gone
    · cases networkStep_cases hs with
      | handle pending _ _ _ => exact absurd pending gone

/-- When no step is left the handler has returned. -/
theorem Served.returned (reached : Reachable (networkMachine cfg parse undef) Always n)
    (inv : Served cfg parse t n)
    (rest : (networkMachine cfg parse undef).AtRest (Occurrence.Serving t) n) : n.Returned t := by
  have blocked : ∀ j, (server cfg).step n.server (.run j) = none :=
    fun j => @server_blocked cfg parse undef n j (rest (.run j) trivial)
  rcases inv with ⟨pending, T, ans⟩ | ⟨gone, late, T, passable⟩ | ⟨gone, none⟩
  · have none := none_in_handler T (network_server reached) ans.passable blocked
    have mutex : n.server.agents.countP Frame.submitting = 0 :=
      countP_eq_zero_iff.mpr fun j f hj => (Bool.or_eq_false_iff.mp (none j f hj)).1
    have enabled := @handle_enabled cfg parse undef n t ans.readable pending mutex
    exact absurd (rest (.handle t) rfl) enabled
  · exact returned_of_none gone (none_in_handler T (network_server reached) passable blocked)
  · exact returned_of_none gone none

/-- An answerable request is answered once. -/
theorem answered_of_answerable
    (h : Reachable (networkMachine cfg parse undef) (TakenRun cfg parse) n)
    (pending : .handleRequest t ∈ n.ops) (ans : Answerable cfg parse n.server t.request) :
    AnsweredOnce cfg parse undef n t := by
  intro as n' serving hrun
  have descends := @serving_descends cfg parse undef
    (fun m => Served cfg parse t m ∧ m.uses t + m.waiting t = 1) t ?_
  · have start : Served cfg parse t n ∧ n.uses t + n.waiting t = 1 :=
      ⟨.inl ⟨pending, taken h, ans⟩, uses_of_pending (inPairs h) pending⟩
    obtain ⟨⟨reached, served, custody⟩, hlength⟩ := descends.run as ⟨h.always, start⟩ serving hrun
    refine ⟨by omega, fun rest => ?_⟩
    have returned := served.returned reached rest
    refine ⟨returned, ?_⟩
    have none : n'.waiting t = 0 := by
      refine List.countP_eq_zero.mpr fun op hop heq => returned.1 ?_
      exact of_decide_eq_true heq ▸ hop
    omega
  · intro n a n' reached inv ha hs
    exact ⟨inv.1.step reached ha hs, (uses_step (inPairs reached) ha hs).trans inv.2⟩

/-! ## When it does not -/

/-- Something that such steps keep keeps the handler from returning. -/
theorem not_answered {I : Network → Prop}
    (keeps : ∀ n a n', Reachable (networkMachine cfg parse undef) Always n → I n → a.Serving t →
      n.step cfg parse undef a = some n' → I n')
    (prevents : ∀ n, I n → ¬ n.Returned t) (h : Reachable (networkMachine cfg parse undef) C n)
    (start : I n) : ¬ AnsweredOnce cfg parse undef n t := by
  intro answered
  have descends := @serving_descends cfg parse undef I t keeps
  obtain ⟨as, n', serving, hrun, rest⟩ := descends.comes_to_rest ⟨h.always, start⟩
  obtain ⟨⟨_, inv⟩, _⟩ := descends.run as ⟨h.always, start⟩ serving hrun
  exact prevents n' inv ((answered as n' serving hrun).2 rest).1

/-- What is claimed of a state is claimed of the later ones. -/
theorem AnsweredOnce.later (answered : AnsweredOnce cfg parse undef n t) {as : List Occurrence}
    (serving : ∀ a ∈ as, a.Serving t)
    (hrun : (networkMachine cfg parse undef).run n as = some n')
    (h : Reachable (networkMachine cfg parse undef) Always n) : AnsweredOnce cfg parse undef n' t := by
  intro bs n'' serving' hrun'
  have descends := @serving_descends cfg parse undef (fun _ => True) t fun _ _ _ _ _ _ _ => trivial
  obtain ⟨reached, _⟩ := descends.run as ⟨h, trivial⟩ serving hrun
  obtain ⟨_, hlength⟩ := descends.run bs reached serving' hrun'
  refine ⟨by omega, (answered (as ++ bs) n'' ?_ ?_).2⟩
  · intro a ha
    rcases List.mem_append.mp ha with ha | ha
    · exact serving a ha
    · exact serving' a ha
  · rw [Machine.run_append as bs hrun]
    exact hrun'

/-- The handler of a request that cannot be read does not come back. -/
theorem not_answered_of_unreadable (h : Reachable (networkMachine cfg parse undef) C n)
    (pending : .handleRequest t ∈ n.ops) (unreadable : ¬ Readable parse t.request) :
    ¬ AnsweredOnce cfg parse undef n t := by
  refine not_answered (I := fun n => .handleRequest t ∈ n.ops) ?_ (fun n hn returned => returned.1 hn)
    h pending
  intro n a n' reached pending ha hs
  cases a with
  | run j => exact (pending_run hs).mpr pending
  | handle t' =>
    obtain rfl : t' = t := ha
    exact absurd (handle_step (inPairs reached) hs).2.1 unreadable
  | _ => exact ha.elim

/-- Nor does the one that waits for a call behind an order that waits for good, or that makes such a call
itself. -/
theorem not_answered_behind (h : Reachable (networkMachine cfg parse undef) C n)
    (waits : ∃ i, AtShutGate n.server i) (pending : .handleRequest t ∈ n.ops)
    (behind : SomeCalled n.server ∨ ∃ c, Routes parse t.request c ∧ c ≠ .getAllItemDescription) :
    ¬ AnsweredOnce cfg parse undef n t := by
  refine not_answered (I := fun n => (∃ i, AtShutGate n.server i) ∧
    ((.handleRequest t ∈ n.ops ∧ (SomeCalled n.server ∨
        ∃ c, Routes parse t.request c ∧ c ≠ .getAllItemDescription)) ∨
      ∃ (j : ℕ) (f : Frame), n.tasks[j]? = some (f, t) ∧ f.isCalled = true)) ?_ ?_ h
    ⟨waits, .inl ⟨pending, behind⟩⟩
  · rintro n a n' reached ⟨⟨i, waits⟩, inv⟩ ha hs
    have count := countExact (network_server reached)
    cases a with
    | run k =>
      have hmove := server_run hs
      refine ⟨⟨i, waits.step count hmove⟩, ?_⟩
      rcases inv with ⟨pending, behind⟩ | ⟨j, f, own, hf⟩
      · refine .inl ⟨(pending_run hs).mpr pending, behind.imp ?_ id⟩
        rintro ⟨j, f, hj, hf⟩
        exact ⟨j, f, waits.called hj hf hmove, hf⟩
      · have hj : n.server.agents[j]? = some f := by
          rw [Network.server, List.getElem?_map, own, Option.map_some]
        exact .inr ⟨j, f, task_run hs (waits.called hj hf hmove) own, hf⟩
    | handle t' =>
      obtain rfl : t' = t := ha
      obtain ⟨mutex, _, gone, called⟩ := handle_step (inPairs reached) hs
      have pending : .handleRequest t' ∈ n.ops := by
        cases networkStep_cases hs with
        | handle pending _ _ _ => exact pending
      rcases inv with ⟨_, behind⟩ | ⟨j, f, own, hf⟩
      · rcases behind with ⟨j, f, hj, hf⟩ | ⟨c, routes, hc⟩
        · -- nobody was in a call
          cases (countP_eq_zero_iff.mp mutex j f hj).symm.trans (submitting_of_isCalled hf)
        · rcases called with ⟨_, _, describes⟩ | ⟨c', f, _, hagent, tasks, enters⟩
          · exact absurd (describes c routes) hc
          · obtain ⟨fresh, _⟩ := agent_called hagent
            have spawned : (server cfg).step n.server (.spawn f) = some n'.server := by
              rw [enters]
              have hfresh : (server cfg).fresh f = true := fresh_of_agent hagent
              simp only [Program.step, hfresh, if_true]
            refine ⟨⟨i, waits.step count spawned⟩, .inr ⟨n.tasks.length, f, ?_, fresh⟩⟩
            rw [tasks, List.getElem?_concat_length]
      · have hj : n.server.agents[j]? = some f := by
          rw [Network.server, List.getElem?_map, own, Option.map_some]
        cases (countP_eq_zero_iff.mp mutex j f hj).symm.trans (submitting_of_isCalled hf)
    | _ => exact ha.elim
  · rintro n ⟨_, ⟨pending, _⟩ | ⟨j, f, own, hf⟩⟩ returned
    · exact returned.1 pending
    · have inCall := returned.2 _ (List.mem_of_getElem? own) rfl
      cases (Bool.or_eq_false_iff.mp inCall).1.symm.trans (submitting_of_isCalled hf)

/-- An order after a move. -/
theorem order_follows {s s' : ServerState} {k j : ℕ} {c : OrderCall} {pc : OrderPc}
    (h : (server cfg).step s (.run k) = some s') (hj : s.agents[j]? = some (.order c pc)) :
    ∃ pc', s'.agents[j]? = some (.order c pc') ∧ (pc' = pc ∨ ∃ m', OrderStep cfg s c pc pc' m') := by
  cases step_cases h with
  | undefined _ _ => exact ⟨pc, hj, .inl rfl⟩
  | cart hk _ =>
    have hjk : j ≠ k := fun e => nomatch (e ▸ hj).symm.trans hk
    exact ⟨pc, (getElem?_set_other hjk).trans hj, .inl rfl⟩
  | order hk hstep =>
    by_cases hjk : j = k
    · subst hjk
      cases hj.symm.trans hk
      exact ⟨_, getElem?_set_self hj, .inr ⟨_, hstep⟩⟩
    · exact ⟨pc, (getElem?_set_other hjk).trans hj, .inl rfl⟩

/-- An order whose gate will not open comes to wait for good, or another does before it: the agents move
as far as they can, but for some that are about to enter. -/
theorem comes_to_wait (h : Reachable (networkMachine cfg parse undef) Always n)
    (T : Taken cfg none n.server) (held : ℕ → Prop)
    (called : ∀ j, held j → ∃ f : Frame, n.server.agents[j]? = some f ∧ f.isCalled = true) {i : ℕ}
    {c : OrderCall} {pc : OrderPc} (hi : n.server.agents[i]? = some (.order c pc))
    (hpc : pc.beforeGate = true) (free : ¬ held i) (shut : ¬ WillOpen n.server c.sessionId)
    (others : ∀ j b, ¬ held j → n.server.agents[j]? = some (.cart b .called) →
      b.sessionId ≠ c.sessionId) :
    ∃ as n', (∀ a ∈ as, ∃ j, a = .run j) ∧ (networkMachine cfg parse undef).run n as = some n' ∧
      (∃ i, AtShutGate n'.server i) ∧ (.handleRequest t ∈ n.ops → .handleRequest t ∈ n'.ops) ∧
        ∀ j f, held j → n.server.agents[j]? = some f → n'.server.agents[j]? = some f := by
  have descends : (networkMachine cfg parse undef).Descends
      (fun m => Reachable (networkMachine cfg parse undef) Always m ∧ Taken cfg none m.server ∧
        (∃ pc, m.server.agents[i]? = some (.order c pc) ∧ pc.beforeGate = true) ∧
        ¬ WillOpen m.server c.sessionId ∧
        (∀ j b, ¬ held j → m.server.agents[j]? = some (.cart b .called) →
          b.sessionId ≠ c.sessionId) ∧
        (.handleRequest t ∈ n.ops → .handleRequest t ∈ m.ops) ∧
        ∀ j f, held j → n.server.agents[j]? = some f → m.server.agents[j]? = some f)
      (fun a => ∃ j, a = .run j ∧ ¬ held j) Network.left := by
    constructor
    · rintro m a m' ⟨reached, T, ⟨pc, hi, hpc⟩, shut, others, ops, stay⟩ ⟨k, rfl, hk⟩ hs
      have hmove := @server_run cfg parse undef m m' k hs
      have count := countExact (network_server reached)
      have T' : Taken cfg none m'.server := (T.move hmove).resolve_right fun h => nomatch h.1
      refine ⟨reached.step trivial hs, T', ?_, ?_, ?_, ?_, ?_⟩
      · obtain ⟨pc', hi', hpc'⟩ := order_follows hmove hi
        refine ⟨pc', hi', ?_⟩
        rcases hpc' with rfl | ⟨_, hstep⟩
        · exact hpc
        · cases hstep with
          | pass hload => exact absurd (.inl (Table.loadFlag_ok hload)) shut
          | throw _ => cases T'.escapes i _ hi'
          | _ => first | rfl | cases hpc
      · refine not_willOpen_step shut count (fun j b ha hj _ => ?_) hmove
        obtain rfl := Action.run.inj ha
        exact others _ b hk hj
      · intro j b hj hb
        rcases cart_moved hmove hb with hb | ⟨_, _, _, hstep⟩
        · exact others j b hj hb
        · cases hstep
      · intro pending
        exact (@pending_run cfg parse undef m m' t k hs).mpr (ops pending)
      · intro j f hj hf
        obtain ⟨_, _, _, _, _, hset⟩ := step_run hmove
        have hjk : j ≠ k := fun e => hk (e ▸ hj)
        rw [hset]
        exact (getElem?_set_other hjk).trans (stay j f hj hf)
    · rintro m a m' _ ⟨k, rfl, _⟩ hs
      exact @left_internal cfg parse undef m m' (.run k) trivial hs
  obtain ⟨as, n', kind, hrun, rest⟩ :=
    descends.comes_to_rest ⟨h, T, ⟨pc, hi, hpc⟩, shut, others, id, fun _ _ _ hf => hf⟩
  obtain ⟨⟨reached, T', ⟨pc', hi', hpc'⟩, _, _, ops, stay⟩, _⟩ :=
    descends.run as ⟨h, T, ⟨pc, hi, hpc⟩, shut, others, id, fun _ _ _ hf => hf⟩ kind hrun
  have blocked : ∀ j, ¬ held j → (server cfg).step n'.server (.run j) = none := fun j hj =>
    @server_blocked cfg parse undef n' j (rest (.run j) ⟨j, rfl, hj⟩)
  have stuck : Stalled cfg n'.server := by
    refine stalled T'.defined fun j f hj hf => blocked j fun hheld => ?_
    obtain ⟨g, hg, hcalled⟩ := called j hheld
    obtain rfl := Option.some.inj ((stay j g hheld hg).symm.trans hj)
    cases hf.symm.trans hcalled
  have waits := exists_atShutGate T' (network_server reached) stuck hi' hpc' fun hcalled => by
    subst hcalled
    exact tableFree_of_blocked T'.defined hi' rfl (blocked i free)
  exact ⟨as, n', fun a ha => (kind a ha).imp fun _ h => h.1, hrun, waits, ops, stay⟩

end Runs

/-! ## Exactly when -/

section Exact

variable {cfg : Config} {parse : String → Option Json} {undef : ℚ → SizeT} {n : Network} {t : Ticket}
  {C : Network → Occurrence → Prop}

/-- Nobody comes back into its caller's thread. -/
theorem submits_move {s s' : ServerState} {k : ℕ} (one : Exclusive Frame.submitting s.agents)
    (h : (server cfg).step s (.run k) = some s') : Exclusive Frame.submitting s'.agents := by
  cases step_cases h with
  | undefined _ _ => exact one
  | cart hk hstep => exact one.set hk fun hp => .inl (by cases hstep <;> first | rfl | cases hp)
  | order hk hstep => exact one.set hk fun hp => .inl (by cases hstep <;> first | rfl | cases hp)

/-- One call at a time is in its caller's thread, which has `server_mutex`. -/
theorem one_submits (h : Reachable (networkMachine cfg parse undef) C n) :
    Exclusive Frame.submitting n.server.agents := by
  refine h.invariant (I := fun n => Exclusive Frame.submitting n.server.agents) ?_ ?_
  · rintro n rfl
    exact Nat.zero_le 1
  · intro n a n' hr one _ hs
    by_cases ha : ∃ t, a = .handle t
    · obtain ⟨t, rfl⟩ := ha
      obtain ⟨mutex, _, _, ⟨same, _⟩ | ⟨c, f, _, _, _, enters⟩⟩ :=
        @handle_step cfg parse undef n n' t (inPairs hr) hs
      · exact same ▸ one
      · rw [enters]
        show (n.server.agents ++ [f]).countP Frame.submitting ≤ 1
        rw [countP_spawn, mutex]
        split <;> omega
    · rcases @server_other cfg parse undef n n' a hs fun t e => ha ⟨t, e⟩ with same | ⟨j, hmove⟩
      · exact same ▸ one
      · exact submits_move one hmove

/-- A request that becomes a call whose session the table does not take is not answered. -/
theorem not_answered_of_refused
    (h : Reachable (networkMachine cfg parse undef) (TakenRun cfg parse) n)
    (pending : .handleRequest t ∈ n.ops) {c : Call} (routes : Routes parse t.request c)
    (refused : ¬ c.Takes cfg.alloc n.server.settled) : ¬ AnsweredOnce cfg parse undef n t := by
  refine not_answered (I := fun n =>
    (.handleRequest t ∈ n.ops ∧ Taken cfg none n.server ∧ ¬ c.Takes cfg.alloc n.server.settled) ∨
      ∃ (j : ℕ) (f : Frame), n.tasks[j]? = some (f, t) ∧ Doomed cfg n.server f) ?_ ?_ h
    (.inl ⟨pending, taken h, refused⟩)
  · intro n a n' reached inv ha hs
    cases a with
    | run k =>
      have hmove := server_run hs
      rcases inv with ⟨pending, T, refused⟩ | ⟨j, f, own, doomed⟩
      · rcases T.move hmove with T' | ⟨hlate, _⟩
        · exact .inl ⟨(pending_run hs).mpr pending, T', mt (takes_move T T' hmove c).mp refused⟩
        · cases hlate
      · have hj : n.server.agents[j]? = some f := by
          rw [Network.server, List.getElem?_map, own, Option.map_some]
        obtain ⟨f', hj', doomed'⟩ :=
          doomed.move (one_submits reached) (countExact (network_server reached)) hj hmove
        exact .inr ⟨j, f', task_run hs hj' own, doomed'⟩
    | handle t' =>
      obtain rfl : t' = t := ha
      obtain ⟨mutex, _, _, called⟩ := handle_step (inPairs reached) hs
      refine .inr ?_
      rcases inv with ⟨_, T, refused⟩ | ⟨j, f, own, doomed⟩
      · rw [settled_of_mutex T mutex] at refused
        rcases called with ⟨_, _, describes⟩ | ⟨c', f, routes', hagent, tasks, enters⟩
        · obtain rfl := describes c routes
          exact absurd trivial refused
        · obtain rfl := routes.unique routes'
          refine ⟨n.tasks.length, f, by rw [tasks, List.getElem?_concat_length], ?_⟩
          rw [enters]
          cases c with
          | getAllItemDescription => cases hagent
          | buy i c σ =>
            cases hagent
            exact .cart rfl refused
          | remove i c σ =>
            cases hagent
            exact .cart rfl refused
          | makeOrder o σ =>
            cases hagent
            exact .order rfl refused
      · have hj : n.server.agents[j]? = some f := by
          rw [Network.server, List.getElem?_map, own, Option.map_some]
        have hescapes : f.escaping = true := by
          refine (Bool.or_eq_true_iff.mp doomed.inHandler).resolve_left fun hf => ?_
          cases (countP_eq_zero_iff.mp mutex j f hj).symm.trans hf
        refine ⟨j, f, ?_, .escaping hescapes⟩
        rcases called with ⟨_, tasks, _⟩ | ⟨_, _, _, _, tasks, _⟩
        · rw [tasks]
          exact own
        · rw [tasks]
          exact getElem?_spawn own
    | _ => exact ha.elim
  · rintro n (⟨pending, _⟩ | ⟨j, f, own, doomed⟩) returned
    · exact returned.1 pending
    · cases (returned.2 _ (List.mem_of_getElem? own) rfl).symm.trans doomed.inHandler

/-- An order that waits for good before the request is answered. -/
theorem not_answered_of_shut
    (h : Reachable (networkMachine cfg parse undef) (TakenRun cfg parse) n)
    (pending : .handleRequest t ∈ n.ops) (held : ℕ → Prop)
    (called : ∀ j, held j → ∃ f : Frame, n.server.agents[j]? = some f ∧ f.isCalled = true) {i : ℕ}
    {c : OrderCall} {pc : OrderPc} (hi : n.server.agents[i]? = some (.order c pc))
    (hpc : pc.beforeGate = true) (free : ¬ held i) (shut : ¬ WillOpen n.server c.sessionId)
    (others : ∀ j b, ¬ held j → n.server.agents[j]? = some (.cart b .called) →
      b.sessionId ≠ c.sessionId)
    (behind : (∃ j, held j) ∨ ∃ c, Routes parse t.request c ∧ c ≠ .getAllItemDescription) :
    ¬ AnsweredOnce cfg parse undef n t := by
  intro answered
  obtain ⟨as, n', runs, hrun, waits, ops, stay⟩ :=
    @comes_to_wait cfg parse undef n t h.always (taken h) held called i c pc hi hpc free shut others
  have serving : ∀ a ∈ as, a.Serving t := by
    intro a ha
    obtain ⟨j, rfl⟩ := runs a ha
    trivial
  have reached := h.always.leads (Machine.run_leads as hrun)
  refine not_answered_behind reached waits (ops pending) (behind.imp ?_ id)
    (answered.later serving hrun h.always)
  rintro ⟨j, hj⟩
  obtain ⟨f, hf, hcalled⟩ := called j hj
  exact ⟨j, f, stay j f hj hf, hcalled⟩

theorem readable_of_routes {c : Call} (routes : Routes parse t.request c) :
    Readable parse t.request := by
  apply (@returned_iff (.ofLength 0) (fun _ => 0) parse t.request).mp
  rw [handler_of_routes routes]
  exact returned_emit c

/-- Everybody asks for a burger. -/
def BurgerRun (n : Network) : Occurrence → Prop
  | .handle t => t.request = burgerRequest ∧ n.memory.table.Admits Config.diner.alloc 1
  | _ => True

instance (n : Network) : DecidablePred (BurgerRun n)
  | .handle t => inferInstanceAs (Decidable (t.request = burgerRequest ∧ _))
  | .accept | .onRead _ _ | .describe _ | .onWrite _ _ _ | .run _ => inferInstanceAs (Decidable True)

theorem takenRun_of_burgerRun (n : Network) (a : Occurrence) (h : BurgerRun n a) :
    TakenRun .diner parseIntegers n a := by
  cases a with
  | handle t =>
    obtain ⟨burger, admits⟩ := h
    intro c σ routes hσ
    rw [burger] at routes
    obtain rfl := routes.unique burger_routes
    obtain rfl := Option.some.inj hσ
    exact admits
  | _ => trivial

end Exact

end TcpServer
