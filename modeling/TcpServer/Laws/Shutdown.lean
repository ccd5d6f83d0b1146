import TcpServer.ControllerLayer.Listener
import TcpServer.Laws.Delivery

/-!
# How the process ends

The process ends when an exception leaves a handler, or when the context runs out of work, and it runs
out of work only after an accept has failed. The tasks in the pools are not its work, so requests that
are still with them then are not answered any more; these are all that is lost (`lost_at_exit`). After a
failed accept there is no connection any more but those there were (`failed_accept_is_final`).

If no accept fails and all requests can be served, the process goes on for good, and answers every
request (`serves_on`).

A step of the process is a step of its network or leaves the network as it is, so what is proved of the
runs of the network holds here (`network_of_process`).
-/

namespace TcpServer

open Interleaving RequestHandler Transition

/-! ## The steps of the process -/

/-- A step of the process, with what it needs and what it leaves. -/
inductive ProcessStep (cfg : Config) (parse : String → Option Json) (undef : ℚ → SizeT)
    (p : Process) : Turn → Process → Prop
  | accepted {network : Network} (pending : p.accepting = true)
    (hs : p.network.step cfg parse undef .accept = some network) :
    ProcessStep cfg parse undef p (.onAccept false) { p with network }
  | acceptFailed (pending : p.accepting = true) :
    ProcessStep cfg parse undef p (.onAccept true) { p with accepting := false }
  | session {a : Occurrence} {network : Network} (ha : a ≠ .accept)
    (hs : p.network.step cfg parse undef a = some network) :
    ProcessStep cfg parse undef p (.session a) { p with network }
  | escape {t : Ticket} {e : Abort} {front : Front} (pending : .handleRequest t ∈ p.network.ops)
    (throws : handleRequestOn parse undef emit t.request (Front.of p.network.memory.table) =
      .error e front) :
    ProcessStep cfg parse undef p (.escape t) { p with phase := .terminated }
  | escapeCall {j : ℕ} {f : Frame} (hj : p.network.server.agents[j]? = some f)
    (escaping : f.escaping = true) :
    ProcessStep cfg parse undef p (.escapeCall j) { p with phase := .terminated }
  | outOfWork (idle : p.work = 0) :
    ProcessStep cfg parse undef p .outOfWork { p with phase := .outOfWork }

section Steps

variable {cfg : Config} {parse : String → Option Json} {undef : ℚ → SizeT} {p p' : Process} {a : Turn}

/-- **Inversion** of a step of the process. -/
theorem processStep_cases (hs : p.step cfg parse undef a = some p') :
    p.phase = .serving ∧ ProcessStep cfg parse undef p a p' := by
  unfold Process.step at hs
  obtain ⟨phase, hs⟩ := Option.ite_none_right_eq_some.mp hs
  refine ⟨phase, ?_⟩
  cases a with
  | onAccept failed =>
    obtain ⟨pending, hs⟩ := Option.ite_none_right_eq_some.mp hs
    cases failed with
    | true =>
      obtain rfl := Option.some.inj hs
      exact .acceptFailed pending
    | false =>
      rw [Process.onAccept, if_neg Bool.false_ne_true] at hs
      obtain ⟨network, hn, rfl⟩ := Option.map_eq_some_iff.mp hs
      exact .accepted pending hn
  | session a =>
    cases a with
    | accept => cases hs
    | _ =>
      obtain ⟨network, hn, rfl⟩ := Option.map_eq_some_iff.mp hs
      exact .session Occurrence.noConfusion hn
  | escape t =>
    obtain ⟨⟨pending, _⟩, hs⟩ := Option.ite_none_right_eq_some.mp hs
    unfold Process.escape at hs
    split at hs
    next => cases hs
    next e front throws =>
      obtain rfl := Option.some.inj hs
      exact .escape pending throws
  | escapeCall j =>
    obtain ⟨escaping, hs⟩ := Option.ite_none_right_eq_some.mp hs
    obtain ⟨f, hj, hf⟩ := Option.map_eq_some_iff.mp escaping
    obtain rfl := Option.some.inj hs
    exact .escapeCall hj hf
  | outOfWork =>
    obtain ⟨idle, hs⟩ := Option.ite_none_right_eq_some.mp hs
    obtain rfl := Option.some.inj hs
    exact .outOfWork idle

end Steps

section Runs

variable {cfg : Config} {parse : String → Option Json} {undef : ℚ → SizeT} {p p' : Process}
  {C : Process → Turn → Prop} {D : Network → Occurrence → Prop}

/-- **The network of a process** is in a state of the network's machine. -/
theorem network_of_process (accepts : ∀ n, D n .accept)
    (sessions : ∀ p a, C p (.session a) → D p.network a)
    (h : Reachable (processMachine cfg parse undef) C p) :
    Reachable (networkMachine cfg parse undef) D p.network := by
  refine h.invariant
    (I := fun p => Reachable (networkMachine cfg parse undef) D p.network) ?_ ?_
  · intro p hp
    subst hp
    exact .init rfl
  · intro p a p' _ inv hC hs
    obtain ⟨_, hstep⟩ := processStep_cases hs
    cases hstep with
    | accepted _ hn => exact inv.step (accepts _) hn
    | session _ hn => exact inv.step (sessions p _ hC) hn
    | acceptFailed _ => exact inv
    | escape _ _ => exact inv
    | escapeCall _ _ => exact inv
    | outOfWork _ => exact inv

/-! ## After a failed accept -/

/-- A step of the sessions or the server is no new connection. -/
theorem connections_step {n n' : Network} {a : Occurrence} (ha : a ≠ .accept)
    (hs : n.step cfg parse undef a = some n') : n'.histories.length = n.histories.length := by
  cases networkStep_cases hs with
  | accept => exact absurd rfl ha
  | onRead req _ =>
    cases req with
    | none => rfl
    | some req => exact List.length_modify _ _ _
  | @handle t front e _ _ _ _ =>
    cases e with
    | respond r => exact List.length_modify _ _ _
    | handOver c => cases c <;> rfl
  | describe _ _ => exact List.length_modify _ _ _
  | onWrite keepAlive _ => rcases keepAlive with _ | _ | _ <;> rfl
  | move _ _ _ => rfl
  | answer _ _ _ => exact List.length_modify _ _ _

/-- **A failed accept is final**: there are no new connections after it. -/
theorem failed_accept_is_final (h : Leads (processMachine cfg parse undef) C p p')
    (failed : p.accepting = false) :
    p'.accepting = false ∧ p'.network.histories.length = p.network.histories.length := by
  induction h with
  | refl => exact ⟨failed, rfl⟩
  | step _ _ hs ih =>
    obtain ⟨noAccept, same⟩ := ih
    obtain ⟨_, hstep⟩ := processStep_cases hs
    cases hstep with
    | accepted pending _ => cases noAccept.symm.trans pending
    | acceptFailed pending => cases noAccept.symm.trans pending
    | session ha hn => exact ⟨noAccept, (connections_step ha hn).trans same⟩
    | escape _ _ => exact ⟨noAccept, same⟩
    | escapeCall _ _ => exact ⟨noAccept, same⟩
    | outOfWork _ => exact ⟨noAccept, same⟩

/-! ## Out of work -/

/-- The tasks in the pools that have the callback of a request of a connection. -/
def Network.inPools (n : Network) (k : ℕ) : ℕ :=
  (n.ops.filter fun op => !op.onContext).countP (Op.isRequest k) +
    (n.tasks.filter fun q => !q.1.inHandler).countP (holds k)

theorem work_zero (h : p.work = 0) : p.accepting = false ∧
    (∀ op ∈ p.network.ops, op.onContext = false) ∧ ∀ q ∈ p.network.tasks, q.1.inHandler = false := by
  unfold Process.work at h
  refine ⟨?_, ?_, ?_⟩
  · by_contra hpending
    rw [Bool.not_eq_false] at hpending
    rw [if_pos hpending] at h
    omega
  · intro op hop
    have none : p.network.ops.countP Op.onContext = 0 := by omega
    exact Bool.eq_false_iff.mpr (List.countP_eq_zero.mp none op hop)
  · intro q hq
    have none : p.network.server.agents.countP Frame.inHandler = 0 := by omega
    exact Bool.eq_false_iff.mpr
      (List.countP_eq_zero.mp none q.1 (List.mem_map_of_mem hq))

/-- Where the context has no work, all callbacks are in the pools, and nothing is read or written. -/
theorem idle_network (h : p.work = 0) (k : ℕ) : p.network.reading k = 0 ∧ p.network.writing k = 0 ∧
    p.network.inPools k = p.network.handling k := by
  obtain ⟨_, ops, tasks⟩ := work_zero h
  refine ⟨?_, ?_, ?_⟩
  · apply List.countP_eq_zero.mpr
    intro op hop hread
    cases op with
    | describe t => cases hread
    | _ => cases ops _ hop
  · apply List.countP_eq_zero.mpr
    intro op hop hwrite
    cases op with
    | describe t => cases hwrite
    | _ => cases ops _ hop
  · rw [Network.inPools, Network.handling, List.filter_eq_self.mpr, List.filter_eq_self.mpr]
    · intro q hq
      rw [tasks q hq]
      rfl
    · intro op hop
      rw [ops op hop]
      rfl

/-- The context has run out of work. -/
def OutOfWork (p : Process) : Prop := p.phase = .outOfWork → p.work = 0

theorem outOfWork_of_reachable (h : Reachable (processMachine cfg parse undef) C p) :
    OutOfWork p := by
  refine h.invariant ?_ ?_
  · intro p hp
    subst hp
    intro hphase
    cases hphase
  · intro p a p' _ _ _ hs hphase
    obtain ⟨serving, hstep⟩ := processStep_cases hs
    cases hstep with
    | outOfWork idle => exact idle
    | accepted _ _ => cases serving.symm.trans hphase
    | acceptFailed _ => cases serving.symm.trans hphase
    | session _ _ => cases serving.symm.trans hphase
    | escape _ _ => cases hphase
    | escapeCall _ _ => cases hphase

/-- **What is lost when the process ends**: the context runs out of work only after an accept has failed,
and then no connection has a read or a write pending, and of the requests on it all have been answered
but the last if its callback is with a task in the pools. -/
theorem lost_at_exit (h : Reachable (processMachine cfg parse undef) C p)
    (ended : p.phase = .outOfWork) :
    p.accepting = false ∧ ∀ k, p.network.reading k = 0 ∧ p.network.writing k = 0 ∧
      (p.network.history k).filterMap Event.number? =
        (List.range' 1 (requests (p.network.history k) - p.network.inPools k)).reverse ∧
      (p.network.inPools k = 1 ↔ ¬ Settled (p.network.history k)) := by
  have idle := outOfWork_of_reachable h ended
  have reached : Reachable (networkMachine cfg parse undef) Always p.network :=
    network_of_process (fun _ => trivial) (fun _ _ _ => trivial) h
  refine ⟨(work_zero idle).1, ?_⟩
  intro k
  obtain ⟨noRead, noWrite, pools⟩ := idle_network idle k
  rw [pools]
  exact ⟨noRead, noWrite, numbers_of_reachable reached k, handling_one_iff reached k⟩

/-- A burger is asked for, its task is in the pool, and then an accept fails: the request is lost. -/
theorem lost_at_exit_diner :
    ∃ p, (processMachine .diner parseIntegers fun _ => 0).run Config.diner.process
        ([.onAccept false, .session (.onRead 0 (some burgerRequest)),
          .session (.handle ⟨0, 1, burgerRequest⟩)] ++ List.replicate 6 (.session (.run 0)) ++
            [.onAccept true, .outOfWork]) = some p ∧
      p.network.inPools 0 = 1 ∧
      p.accepting = false ∧ ∀ k, p.network.reading k = 0 ∧ p.network.writing k = 0 ∧
        (p.network.history k).filterMap Event.number? =
          (List.range' 1 (requests (p.network.history k) - p.network.inPools k)).reverse ∧
        (p.network.inPools k = 1 ↔ ¬ Settled (p.network.history k)) := by
  have run : ((processMachine .diner parseIntegers fun _ => 0).run Config.diner.process
      ([.onAccept false, .session (.onRead 0 (some burgerRequest)),
        .session (.handle ⟨0, 1, burgerRequest⟩)] ++ List.replicate 6 (.session (.run 0)) ++
          [.onAccept true, .outOfWork])).map
      (fun p => (p.phase, p.network.inPools 0)) = some (.outOfWork, 1) := by
    decide +kernel
  obtain ⟨p, hp, run⟩ := Option.map_eq_some_iff.mp run
  obtain ⟨ended, pools⟩ := Prod.mk.inj run
  exact ⟨p, hp, pools, lost_at_exit ((Reachable.init rfl).leads (Machine.run_leads _ hp)) ended⟩

end Runs

/-! ## A process that goes on -/

/-- The discipline of runs in which no accept fails and the clients ask for what can be served. -/
def UntroubledRun (parse : String → Option Json) (undef : ℚ → SizeT) (p : Process) : Turn → Prop
  | .onAccept failed => failed = false
  | .session a => ServableRun parse undef p.network a
  | _ => True

/-- What these runs keep. -/
structure Untroubled (cfg : Config) (parse : String → Option Json) (undef : ℚ → SizeT)
    (p : Process) : Prop where
  phase : p.phase = .serving
  accepting : p.accepting = true
  network : Delivering cfg parse undef p.network

/-- Steps that need no client. -/
def Turn.Internal : Turn → Prop
  | .session a => a.Internal
  | _ => False

section Untroubled

variable {cfg : Config} {parse : String → Option Json} {undef : ℚ → SizeT} {p p' : Process} {a : Turn}

/-- No call has thrown. -/
theorem Sound.not_escaping {s : ServerState} (inv : Sound cfg s) {j : ℕ} {f : Frame}
    (hj : s.agents[j]? = some f) : f.escaping = false := by
  have unwedged := unwedgedState inv.reached
  cases f with
  | cart c pc =>
    apply decide_eq_false
    intro hpc
    subst hpc
    exact unwedged.cartReturns j c hj
  | order c pc =>
    apply decide_eq_false
    intro hpc
    subst hpc
    exact unwedged.orderReturns j c hj

/-- **The step lemma**: no exception leaves a handler, and the pending accept is work enough. -/
theorem Untroubled.step (inv : Untroubled cfg parse undef p)
    (memory : ∀ m < 2 ^ 31, cfg.alloc m = true) (hC : UntroubledRun parse undef p a)
    (hs : p.step cfg parse undef a = some p') : Untroubled cfg parse undef p' := by
  obtain ⟨_, hstep⟩ := processStep_cases hs
  cases hstep with
  | accepted _ hn =>
    have admitted : ServableRun parse undef p.network .accept := trivial
    exact ⟨inv.phase, inv.accepting, inv.network.step memory admitted hn⟩
  | acceptFailed _ => cases hC
  | session _ hn => exact ⟨inv.phase, inv.accepting, inv.network.step memory hC hn⟩
  | @escape t e front pending throws =>
    obtain ⟨front', returns⟩ := (inv.network.handlers t pending).returns p.network.memory.table
    cases returns.symm.trans throws
  | escapeCall hj escaping => cases (inv.network.server.not_escaping hj).symm.trans escaping
  | outOfWork idle => cases (work_zero idle).1.symm.trans inv.accepting

theorem untroubled (hpos : 1 ≤ cfg.maxUsers.toNat) (h31 : cfg.maxUsers.toNat < 2 ^ 31)
    (memory : ∀ m < 2 ^ 31, cfg.alloc m = true)
    (h : Reachable (processMachine cfg parse undef) (UntroubledRun parse undef) p) :
    Untroubled cfg parse undef p := by
  refine h.invariant ?_ fun _ _ _ _ inv hC hs => inv.step memory hC hs
  intro p hp
  subst hp
  exact ⟨rfl, rfl, delivering hpos h31 memory (.init rfl)⟩

/-- Steps without a client keep the discipline, and leave less to do. -/
theorem untroubled_descends (memory : ∀ m < 2 ^ 31, cfg.alloc m = true) :
    (processMachine cfg parse undef).Descends
      (fun p => Reachable (processMachine cfg parse undef) (UntroubledRun parse undef) p ∧
        Untroubled cfg parse undef p) Turn.Internal (fun p => p.network.left) where
  keeps p a p' hI ha hs := by
    have hC : UntroubledRun parse undef p a := by
      cases a with
      | session a =>
        cases a with
        | onRead k req => exact ha.elim
        | _ => trivial
      | onAccept failed => exact ha.elim
      | _ => trivial
    exact ⟨hI.1.step hC hs, hI.2.step memory hC hs⟩
  lowers p a p' _ ha hs := by
    cases a with
    | session a =>
      obtain ⟨_, hstep⟩ := processStep_cases hs
      cases hstep with
      | session _ hn => exact left_internal ha hn
    | _ => exact ha.elim

/-- Where the process has no such step, its network has none. -/
theorem network_rest (phase : p.phase = .serving)
    (rest : (processMachine cfg parse undef).AtRest Turn.Internal p) :
    (networkMachine cfg parse undef).AtRest Occurrence.Internal p.network := by
  intro a ha
  have stuck : p.step cfg parse undef (.session a) = none := rest (.session a) ha
  unfold Process.step at stuck
  rw [if_pos phase] at stuck
  cases a with
  | accept => exact ha.elim
  | _ => exact Option.map_eq_none_iff.mp stuck

/-- **The process goes on, and every request is answered.** If no accept fails and the clients ask for
what can be served, then no exception leaves a handler and the context does not run out of work; and
however the handlers, the tasks and the agents are scheduled, they make only so many steps without the
clients, and when none is left everything is delivered; and that state is reached. -/
theorem serves_on (hpos : 1 ≤ cfg.maxUsers.toNat) (h31 : cfg.maxUsers.toNat < 2 ^ 31)
    (memory : ∀ m < 2 ^ 31, cfg.alloc m = true)
    (h : Reachable (processMachine cfg parse undef) (UntroubledRun parse undef) p) :
    (p.phase = .serving ∧ p.accepting = true) ∧
    (∀ as p', (∀ a ∈ as, a.Internal) → (processMachine cfg parse undef).run p as = some p' →
      as.length ≤ p.network.left ∧ ((processMachine cfg parse undef).AtRest Turn.Internal p' →
        Delivered cfg p'.network)) ∧
    ∃ as p', (∀ a ∈ as, a.Internal) ∧ (processMachine cfg parse undef).run p as = some p' ∧
      Delivered cfg p'.network := by
  have descends := @untroubled_descends cfg parse undef memory
  have inv := untroubled hpos h31 memory h
  have delivered {p' : Process} (h' : Reachable (processMachine cfg parse undef)
      (UntroubledRun parse undef) p') (inv' : Untroubled cfg parse undef p')
      (rest : (processMachine cfg parse undef).AtRest Turn.Internal p') :
      Delivered cfg p'.network :=
    delivered_of_rest
      (network_of_process (D := ServableRun parse undef) (fun _ => trivial) (fun _ _ hC => hC) h')
      inv'.network (network_rest inv'.phase rest)
  refine ⟨⟨inv.phase, inv.accepting⟩, ?_, ?_⟩
  · intro as p' internal hrun
    obtain ⟨⟨reached, inv'⟩, hlength⟩ := descends.run as ⟨h, inv⟩ internal hrun
    exact ⟨by omega, delivered reached inv'⟩
  · obtain ⟨as, p', internal, hrun, rest⟩ := descends.comes_to_rest ⟨h, inv⟩
    obtain ⟨⟨reached, inv'⟩, _⟩ := descends.run as ⟨h, inv⟩ internal hrun
    exact ⟨as, p', internal, hrun, delivered reached inv' rest⟩

/-- A connection asks for a burger. -/
theorem serves_on_diner :
    let machine := processMachine .diner parseIntegers fun _ => 0
    ∃ p, machine.run Config.diner.process
        [.onAccept false, .session (.onRead 0 (some burgerRequest))] = some p ∧
      (p.phase = .serving ∧ p.accepting = true) ∧
      (∀ as p', (∀ a ∈ as, a.Internal) → machine.run p as = some p' →
        as.length ≤ p.network.left ∧
          (machine.AtRest Turn.Internal p' → Delivered .diner p'.network)) ∧
      ∃ as p', (∀ a ∈ as, a.Internal) ∧ machine.run p as = some p' ∧
        Delivered .diner p'.network := by
  intro machine
  have accepted : Reachable machine (UntroubledRun parseIntegers fun _ => 0) _ :=
    .step (a := Turn.onAccept false) (.init rfl) rfl rfl
  have asked := Reachable.step (a := Turn.session (.onRead 0 (some burgerRequest))) accepted
    (servable_of_buy burger_routes (by decide)) rfl
  exact ⟨_, rfl, serves_on (by decide) (by decide) (fun _ _ => rfl) asked⟩

end Untroubled

end TcpServer
