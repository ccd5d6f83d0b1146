import TcpServer.Base.Linearizability
import TcpServer.Laws.Pairing
import TcpServer.Laws.Refinement

/-!
# The service is linearizable

What the clients of all connections see is what they could see of a shop that handles one request at a
time (`shop`): the code's own handler, whose calls run their tasks whole. Requests on different
connections overlap, the tasks of two pools run in any order and in pieces; but each request takes
effect at one point between its reading and its response, and its response is the one the shop gives
at that point (`service_linearizable`).

The point is the end of the critical section of a task; a response the handler gives itself, and the
description, can be taken to happen when they are given. From that point to the call of its callback
an agent carries the answer it will give (`Frame.promise?`), which is the answer its task gives when it
is run whole on the store of that moment (`promise_of_found`).
-/

namespace TcpServer

open Interleaving RequestHandler Transition
open Linearizability (Advance Linearizable Linearizes Ledger Object historyOf)
open Relation (ReflTransGen)

/-! ## One request at a time -/

/-- A task run whole, and the response its answer becomes. -/
def Store.serve (st : Store) (t : Task) : Store × Response :=
  ((st.exec t).1, callback (st.exec t).2.answer)

/-- What the handler has decided to do, done at once. -/
def Effect.serve (itemHolder : ItemHolder) (st : Store) : Effect → Store × Response
  | .respond r => (st, r)
  | .handOver .getAllItemDescription => (st, callback (getAllItemDescription itemHolder))
  | .handOver (.buy i c s) => st.serve (.buy i c s)
  | .handOver (.remove i c s) => st.serve (.remove i c s)
  | .handOver (.makeOrder o s) => st.serve (.makeOrder o s)

/-- **The shop.** A request whose handler throws has no response. -/
def shop (cfg : Config) (parse : String → Option Json) (undef : ℚ → SizeT) :
    Object Store Request Response where
  init := .initial cfg.itemHolder
  apply st req :=
    (effectsOn parse undef (.ofLength 0) req).head?.map (Effect.serve cfg.itemHolder st)

section Shop

variable {cfg : Config} {parse : String → Option Json} {undef : ℚ → SizeT} {req : Request}

/-- What the handler decides does not depend on the session table. -/
theorem effectsOn_table (t t' : Table) :
    effectsOn parse undef t req = effectsOn parse undef t' req := by
  rcases handler_cases parse undef req with ⟨c, hroutes⟩ | ⟨r, hrefuses⟩ | ⟨e, hrefuses⟩
  · rw [effectsOn, effectsOn, handler_of_routes hroutes]
    rfl
  · rw [effectsOn, effectsOn, hrefuses emit]
    rfl
  · rw [effectsOn, effectsOn, hrefuses emit]
    rfl

variable (cfg) in
theorem shop_apply {t : Table} {front : Front} {e : Effect}
    (handled : handleRequestOn parse undef emit req (Front.of t) = .ok () front)
    (effect : front.effects = [e]) (st : Store) :
    (shop cfg parse undef).apply st req = some (e.serve cfg.itemHolder st) := by
  have heffects : effectsOn parse undef t req = [e] := by
    rw [effectsOn, handled]
    exact effect
  show (effectsOn parse undef (.ofLength 0) req).head?.map _ = _
  rw [effectsOn_table _ t, heffects]
  rfl

end Shop

/-! ## What is seen of a run -/

namespace Network

variable (cfg : Config) (parse : String → Option Json) (undef : ℚ → SizeT)

/-- What is seen of a step: a request that is read, or a response whose write is started. -/
def seen (n : Network) : Occurrence → List (Linearizability.Event Ticket Request Response)
  | .onRead connection (some request) =>
    let t : Ticket := { connection, number := requests (n.history connection) + 1, request }
    [.invoke t request]
  | .handle t => (effectsOn parse undef n.memory.table t.request).filterMap fun
      | .respond r => some (.respond t r)
      | .handOver _ => none
  | .describe t => [.respond t (callback (getAllItemDescription cfg.itemHolder))]
  | .run j => n.tasks[j]?.elim [] fun p =>
      p.1.answer?.elim [] fun a => [.respond p.2 (callback a)]
  | _ => []

end Network

/-- The part of what is seen that happens on a connection. -/
def seenOn (k : ℕ) : Linearizability.Event Ticket Request Response → Option Event
  | .invoke t request => if t.connection = k then some (.received request) else none
  | .respond t r => if t.connection = k then some (.responded t r) else none

/-! ## The answer an agent will give -/

/-- The answer of a `Buy` or a `Remove` with a verdict. -/
def CartCall.answer (c : CartCall) (granted : Bool) : Answer :=
  match c.kind with
  | .buy => if granted then .bought else .tooMany c.itemId
  | .remove => .removed

/-- The answer of an agent whose section is over and whose callback has not run. -/
def Frame.promise? : Frame → Option Answer
  | .cart c pc => match pc with
    | .applied granted => some (c.answer granted)
    | .settling | .decrementing | .testing | .opening | .leaving =>
      if c.kind = .remove then some .removed else none
    | _ => none
  | .order c pc => match pc with
    | .refused => some (.notSufficient c.orderSum c.sessionId)
    | .erased _ | .cooking _ | .answering => some (.ready c.sessionId)
    | _ => none

section Promises

variable {cfg : Config} {s : ServerState} {f f' : Frame} {m' : Memory} {a : Answer} {t : Task}

theorem task_of_done (h : f.done? = some t) : t = f.task := by
  cases f with
  | cart c pc => cases pc <;> first | exact (Option.some.inj h).symm | cases h
  | order c pc => cases pc <;> first | exact (Option.some.inj h).symm | cases h

/-- An answer is promised only after the section. -/
theorem promise_of_not_done (h : f.done? = none) : f.promise? = none := by
  cases f with
  | cart c pc => cases pc <;> first | rfl | cases h
  | order c pc => cases pc <;> first | rfl | cases h

theorem answered_of_not_done (h : f.done? = none) : f.answered = false := by
  cases f with
  | cart c pc => cases pc <;> first | rfl | cases h
  | order c pc => cases pc <;> first | rfl | cases h

/-- The answer that is given is the one promised. -/
theorem promise_of_answer (h : f.answer? = some a) : f.promise? = some a := by
  cases f with
  | cart c pc =>
    cases pc with
    | applied granted =>
      show some (c.answer granted) = some a
      rw [CartCall.answer]
      cases hkind : c.kind with
      | buy =>
        simp only [Frame.answer?, hkind] at h
        exact h
      | remove =>
        simp only [Frame.answer?, hkind] at h
        cases h
    | leaving =>
      show (if c.kind = .remove then some Answer.removed else none) = some a
      cases hkind : c.kind with
      | buy =>
        simp only [Frame.answer?, hkind] at h
        cases h
      | remove =>
        simp only [Frame.answer?, hkind] at h
        exact h
    | _ => cases h
  | order c pc =>
    cases pc with
    | refused => exact h
    | answering => exact h
    | _ => cases h

/-- A promise is kept by the moves after the section. -/
theorem promise_keeps (h : (server cfg).move s f = some (f', m')) (done : f.done? ≠ none)
    (promised : f'.promise? = some a) : f.promise? = some a := by
  cases f with
  | cart c pc =>
    obtain ⟨pc', rfl, hmove⟩ := move_cart h
    rcases cartMove_cases hmove with hstep | ⟨_, rfl, _⟩
    · cases hstep with
      | @settle granted _ =>
        have promised' : (if c.kind = .remove then some Answer.removed else none) = some a := promised
        show some (c.answer granted) = some a
        rw [CartCall.answer]
        cases hkind : c.kind with
        | buy =>
          rw [if_neg (by rw [hkind]; nofun)] at promised'
          cases promised'
        | remove =>
          rw [if_pos hkind] at promised'
          exact promised'
      | _ => first | exact absurd rfl done | exact promised | cases promised
    · exact promised
  | order c pc =>
    obtain ⟨pc', rfl, hmove⟩ := move_order h
    rcases orderMove_cases hmove with hstep | ⟨_, rfl, _⟩
    · cases hstep <;> first | exact absurd rfl done | exact promised | cases promised
    · exact promised

/-- The answer of a task in terms of its verdict. -/
theorem answer_of_exec (st : Store) (i c o : SizeT) (σ : SessionId) :
    (st.exec (.buy i c σ)).2.answer =
        (if (st.exec (.buy i c σ)).2.ok then .bought else .tooMany i) ∧
      (st.exec (.makeOrder o σ)).2.answer =
        if (st.exec (.makeOrder o σ)).2.ok then .ready σ else .notSufficient o σ := by
  constructor
  · rw [Store.exec]
    obtain ⟨granted, st'⟩ := st.buy i c σ
    cases granted <;> rfl
  · rw [Store.exec]
    obtain ⟨cooked, st'⟩ := st.makeOrder o σ
    cases cooked <;> rfl

theorem ok_of_makeProduct {st : Store} {o k : SizeT} {σ : SessionId}
    (h : (st.exec (.makeOrder o σ)).2.makeProduct = some k) :
    (st.exec (.makeOrder o σ)).2.ok = true := by
  obtain ⟨_, verdict, cooked⟩ := exec_makeOrder_pieces st o σ
  rw [verdict]
  rw [cooked] at h
  by_contra hrefused
  rw [if_neg hrefused] at h
  cases h

/-- **The promise** of an agent whose section has just ended is the answer of its task run whole. -/
theorem promise_of_found {st₀ store : Store} {ts : List Task}
    (h : (server cfg).move s f = some (f', m')) (start : f.done? = none)
    (found : Found st₀ (f.task :: ts) f' store) (promised : f'.promise? = some a) :
    a = ((st₀.after ts).exec f.task).2.answer := by
  have newest : ∀ p : Outcome → Prop, Newest st₀ (f.task :: ts) f.task p →
      p ((st₀.after ts).exec f.task).2 := by
    rintro p ⟨o, ho, hp⟩
    obtain ⟨_, rfl⟩ := Prod.mk.inj (Option.some.inj ho)
    exact hp
  cases f with
  | cart c pc =>
    have verdictOf : ∀ granted, Newest st₀ (c.task :: ts) c.task (·.ok = granted) →
        c.answer granted = ((st₀.after ts).exec c.task).2.answer := by
      intro granted hnewest
      have verdict := newest _ hnewest
      have task : (Frame.cart c pc).task = c.task := rfl
      rw [task] at verdict
      obtain ⟨answer, _⟩ := answer_of_exec (st₀.after ts) c.itemId c.itemCount 0 c.sessionId
      cases hkind : c.kind with
      | buy =>
        have htask : c.task = .buy c.itemId c.itemCount c.sessionId := by rw [CartCall.task, hkind]
        rw [htask] at verdict ⊢
        rw [CartCall.answer, hkind, answer, verdict]
      | remove =>
        have htask : c.task = .remove c.itemId c.itemCount c.sessionId := by
          rw [CartCall.task, hkind]
        rw [htask, CartCall.answer, hkind]
        rfl
    obtain ⟨pc', rfl, hmove⟩ := move_cart h
    rcases cartMove_cases hmove with hstep | ⟨_, rfl, _⟩
    · cases hstep with
      | refuse _ _ => exact (Option.some.inj promised).symm.trans (verdictOf _ found.2)
      | addToCart _ => exact (Option.some.inj promised).symm.trans (verdictOf _ found.2)
      | takeFromCart _ => exact (Option.some.inj promised).symm.trans (verdictOf _ found.2)
      | _ => first | cases promised | cases start
    · rw [promise_of_not_done start] at promised
      cases promised
  | order c pc =>
    obtain ⟨_, answer⟩ := answer_of_exec (st₀.after ts) 0 0 c.orderSum c.sessionId
    obtain ⟨pc', rfl, hmove⟩ := move_order h
    rcases orderMove_cases hmove with hstep | ⟨_, rfl, _⟩
    · cases hstep with
      | refuse _ =>
        have verdict : ((st₀.after ts).exec (.makeOrder c.orderSum c.sessionId)).2.ok = false :=
          newest _ found.2
        show a = ((st₀.after ts).exec (.makeOrder c.orderSum c.sessionId)).2.answer
        rw [answer, verdict, if_neg Bool.false_ne_true]
        exact (Option.some.inj promised).symm
      | erase =>
        have verdict := ok_of_makeProduct (newest _ found.2)
        show a = ((st₀.after ts).exec (.makeOrder c.orderSum c.sessionId)).2.answer
        rw [answer, verdict, if_pos rfl]
        exact (Option.some.inj promised).symm
      | _ => first | (cases promised; done) | cases start
    · rw [promise_of_not_done start] at promised
      cases promised

end Promises

/-! ## The simulation -/

/-- The ticket of a request that has not got beyond the handler, or waits for its description. -/
def Op.ticket? : Op → Option Ticket
  | .handleRequest t | .describe t => some t
  | _ => none

abbrev Journal := Ledger Store Request Response Ticket

/-- The request has been read, and has not taken effect. -/
structure Waits (l : Journal) (t : Ticket) : Prop where
  invoked : .invoke t t.request ∈ l.history
  fresh : l.Open t

/-- **The simulation relation**: the shop is in the state after the tasks whose sections are over,
requests are in the order they were read in on their connections, and whoever has a request has it
waiting, or its response settled. -/
structure Serves (cfg : Config) (parse : String → Option Json) (undef : ℚ → SizeT) (n : Network)
    (l : Journal) : Prop where
  runs : ∃ ts, Runs cfg n.server ts ∧ l.state = (Store.initial cfg.itemHolder).after ts
  numbers : ∀ t req, .invoke t req ∈ l.history → t.number ≤ requests (n.history t.connection)
  waiting : ∀ op ∈ n.ops, ∀ t, op.ticket? = some t → Waits l t
  describes : ∀ t, .describe t ∈ n.ops → ∀ st, (shop cfg parse undef).apply st t.request =
    some (st, callback (getAllItemDescription cfg.itemHolder))
  calls : ∀ p ∈ n.tasks, ∀ st, (shop cfg parse undef).apply st p.2.request =
    some (st.serve p.1.task)
  pending : ∀ p ∈ n.tasks, p.1.done? = none → Waits l p.2
  promises : ∀ p ∈ n.tasks, ∀ a, p.1.promise? = some a →
    { id := p.2, op := p.2.request, ret := callback a } ∈ l.commits

section Simulation

variable {cfg : Config} {parse : String → Option Json} {undef : ℚ → SizeT} {n n' : Network}
  {l l' : Journal} {k : ℕ} {t : Ticket}

/-- Steps that neither the server nor a request takes part in. -/
theorem Serves.quiet (inv : Serves cfg parse undef n l) (htasks : n'.tasks = n.tasks)
    (hmemory : n'.memory = n.memory)
    (hhistory : ∀ k, requests (n.history k) ≤ requests (n'.history k))
    (hops : ∀ op ∈ n'.ops, ∀ t, op.ticket? = some t → op ∈ n.ops) : Serves cfg parse undef n' l where
  runs := by
    have hserver : n'.server = n.server := by rw [Network.server, Network.server, htasks, hmemory]
    rw [hserver]
    exact inv.runs
  numbers t req h := Nat.le_trans (inv.numbers t req h) (hhistory _)
  waiting op hop t ht := inv.waiting op (hops op hop t ht) t ht
  describes t hop := inv.describes t (hops _ hop t rfl)
  calls := htasks.symm ▸ inv.calls
  pending := htasks.symm ▸ inv.pending
  promises := htasks.symm ▸ inv.promises

/-- Something else is seen, or commits. -/
theorem Serves.advance (inv : Serves cfg parse undef n l)
    (hstate : l'.state = l.state)
    (hseen : ∀ t req, .invoke t req ∈ l'.history → .invoke t req ∈ l.history)
    (hhistory : l.history ⊆ l'.history) (hcommits : l.commits ⊆ l'.commits)
    (hops : ∀ op ∈ n.ops, ∀ t, op.ticket? = some t → l'.Open t)
    (htasks : ∀ p ∈ n.tasks, p.1.done? = none → l'.Open p.2) : Serves cfg parse undef n l' where
  runs := hstate.symm ▸ inv.runs
  numbers t req h := inv.numbers t req (hseen t req h)
  waiting op hop t ht := ⟨hhistory (inv.waiting op hop t ht).invoked, hops op hop t ht⟩
  describes := inv.describes
  calls := inv.calls
  pending p hp hopen := ⟨hhistory (inv.pending p hp hopen).invoked, htasks p hp hopen⟩
  promises p hp a ha := hcommits (inv.promises p hp a ha)

theorem requests_modify (e : Event) (k j : ℕ) (histories : List (List Event)) :
    requests (histories.getD j []) ≤ requests ((histories.modify k (e :: ·)).getD j []) := by
  rw [List.getD_eq_getElem?_getD, List.getD_eq_getElem?_getD, List.getElem?_modify]
  cases histories[j]? with
  | none => exact Nat.le_refl _
  | some h =>
    by_cases hkj : k = j
    · simp only [hkj, if_true, Option.getD_some]
      exact List.Sublist.countP_le (List.sublist_cons_self e h)
    · simp only [hkj, if_false, Option.getD_some]
      exact Nat.le_refl _

theorem Serves.complete (inv : Serves cfg parse undef n l) (op : Op) :
    Serves cfg parse undef (n.complete op) l :=
  inv.quiet rfl rfl (fun _ => Nat.le_refl _) fun _ hop _ _ => List.mem_of_mem_erase hop

theorem Serves.doRead (inv : Serves cfg parse undef n l) (k : ℕ) :
    Serves cfg parse undef (n.doRead k) l := by
  refine inv.quiet rfl rfl (fun _ => Nat.le_refl _) fun op hop t ht => ?_
  rcases List.mem_append.mp hop with hop | hop
  · exact hop
  · obtain rfl := List.mem_singleton.mp hop
    cases ht

/-- A response that is settled is given. -/
theorem Serves.sendResponse (inv : Serves cfg parse undef n l) (r : Response) :
    Serves cfg parse undef (n.sendResponse t r)
      { l with history := .respond t r :: l.history } := by
  have given : Serves cfg parse undef n { l with history := .respond t r :: l.history } := by
    refine inv.advance rfl (fun u req h => ?_) (List.subset_cons_self _ _) (List.Subset.refl _)
      (fun op hop u hu => (inv.waiting op hop u hu).fresh) fun p hp hopen => (inv.pending p hp hopen).fresh
    rcases List.mem_cons.mp h with h | h
    · cases h
    · exact h
  refine given.quiet rfl rfl (fun j => requests_modify _ _ j _) fun op hop u hu => ?_
  rcases List.mem_append.mp hop with hop | hop
  · exact hop
  · obtain rfl := List.mem_singleton.mp hop
    cases hu

/-- Whatever leaves the store alone takes effect when its response is given. -/
theorem Serves.settle (inv : Serves cfg parse undef n l) (free : n.outstanding t.connection = 0)
    (waits : Waits l t) {r : Response}
    (happens : (shop cfg parse undef).apply l.state t.request = some (l.state, r)) :
    ∃ l', ReflTransGen (Advance (shop cfg parse undef)) l l' ∧
      l'.history = .respond t r :: l.history ∧ Serves cfg parse undef (n.sendResponse t r) l' := by
  let c : Linearizability.Commit Ticket Request Response := { id := t, op := t.request, ret := r }
  have others : ∀ u : Ticket, u.connection ≠ t.connection → l.Open u →
      ({ l with commits := c :: l.commits } : Journal).Open u := by
    intro u hu fresh c' hc'
    rcases List.mem_cons.mp hc' with rfl | hc'
    · exact fun e => hu (e ▸ rfl)
    · exact fresh c' hc'
  have committed : Serves cfg parse undef n { l with commits := c :: l.commits } := by
    refine inv.advance rfl (fun _ _ h => h) (List.Subset.refl _) (List.subset_cons_self _ _) ?_ ?_
    · intro op hop u hu
      have hconn : op.connection = u.connection := by
        cases op <;> cases hu <;> rfl
      exact others u (hconn ▸ free_ops free hop) (inv.waiting op hop u hu).fresh
    · intro p hp hopen
      exact others p.2 (free_tasks free hp (answered_of_not_done hopen)) (inv.pending p hp hopen).fresh
  have hcommit : Advance (shop cfg parse undef) l { l with commits := c :: l.commits } :=
    .commit waits.invoked waits.fresh happens
  have hrespond : Advance (shop cfg parse undef) { l with commits := c :: l.commits }
      { l with commits := c :: l.commits, history := .respond t r :: l.history } :=
    .respond (c := c) List.mem_cons_self
  exact ⟨_, .tail (.single hcommit) hrespond, rfl, committed.sendResponse r⟩

/-- A request is read: its number is the next of its connection. -/
theorem Serves.read (inv : Serves cfg parse undef n l) (lin : Linearizes (shop cfg parse undef) l)
    {h : List Event} (own : n.histories[k]? = some h) (request : Request) :
    ∃ l', ReflTransGen (Advance (shop cfg parse undef)) l l' ∧
      l'.history = .invoke ⟨k, requests (n.history k) + 1, request⟩ request :: l.history ∧
      Serves cfg parse undef (n.onRead k (some request)) l' := by
  let t : Ticket := ⟨k, requests (n.history k) + 1, request⟩
  have fresh : l.Open t := by
    intro c hc heq
    have hnumber := inv.numbers c.id _ (lin.invoked c hc)
    rw [heq] at hnumber
    exact absurd hnumber (Nat.not_succ_le_self _)
  refine ⟨_, .single (.invoke t request fresh), rfl, ?_⟩
  have hread : (n.onRead k (some request)).history k = .received request :: n.history k := by
    show (n.histories.modify k (Event.received request :: ·)).getD k [] = _
    rw [List.getD_eq_getElem?_getD, histories_own _ own, Network.history,
      List.getD_eq_getElem?_getD, own]
    rfl
  exact
    { runs := inv.runs
      numbers := by
        intro u req hu
        rcases List.mem_cons.mp hu with hu | hu
        · obtain ⟨rfl, _⟩ := Linearizability.Event.invoke.inj hu
          rw [hread, requests_received]
        · exact Nat.le_trans (inv.numbers u req hu) (requests_modify _ _ u.connection _)
      waiting := by
        intro op hop u hu
        rcases List.mem_append.mp hop with hop | hop
        · exact ⟨.tail _ (inv.waiting op hop u hu).invoked, (inv.waiting op hop u hu).fresh⟩
        · obtain rfl := List.mem_singleton.mp hop
          obtain rfl := Option.some.inj hu
          exact ⟨.head _, fresh⟩
      describes := by
        intro u hu
        rcases List.mem_append.mp hu with hu | hu
        · exact inv.describes u hu
        · cases List.mem_singleton.mp hu
      calls := inv.calls
      pending := fun p hp hopen =>
        ⟨.tail _ (inv.pending p hp hopen).invoked, (inv.pending p hp hopen).fresh⟩
      promises := inv.promises }

/-- A request whose call goes to the server. -/
theorem Serves.handOver (inv : Serves cfg parse undef n l) (waits : Waits l t) {f : Frame}
    (hf : f.holdsMutex = false) (hnot : f.done? = none)
    (call : ∀ st, (shop cfg parse undef).apply st t.request = some (st.serve f.task)) :
    Serves cfg parse undef { n with tasks := n.tasks ++ [(f, t)] } l where
  runs := by
    obtain ⟨ts, runs, hstate⟩ := inv.runs
    refine ⟨ts, ?_, hstate⟩
    rw [Network.server, List.map_append]
    exact runs.called hf hnot
  numbers := inv.numbers
  waiting := inv.waiting
  describes := inv.describes
  calls p hp := by
    rcases List.mem_append.mp hp with hp | hp
    · exact inv.calls p hp
    · obtain rfl := List.mem_singleton.mp hp
      exact call
  pending p hp hopen := by
    rcases List.mem_append.mp hp with hp | hp
    · exact inv.pending p hp hopen
    · obtain rfl := List.mem_singleton.mp hp
      exact waits
  promises p hp a ha := by
    rcases List.mem_append.mp hp with hp | hp
    · exact inv.promises p hp a ha
    · obtain rfl := List.mem_singleton.mp hp
      rw [promise_of_not_done hnot] at ha
      cases ha

theorem Serves.enter (inv : Serves cfg parse undef n l) (waits : Waits l t) {c : Call}
    (call : ∀ st, (shop cfg parse undef).apply st t.request =
      some ((Effect.handOver c).serve cfg.itemHolder st)) :
    Serves cfg parse undef (n.enter t c) l := by
  cases c with
  | getAllItemDescription =>
    exact
      { runs := inv.runs
        numbers := inv.numbers
        waiting := by
          intro op hop u hu
          rcases List.mem_append.mp hop with hop | hop
          · exact inv.waiting op hop u hu
          · obtain rfl := List.mem_singleton.mp hop
            obtain rfl := Option.some.inj hu
            exact waits
        describes := by
          intro u hu
          rcases List.mem_append.mp hu with hu | hu
          · exact inv.describes u hu
          · obtain rfl := Op.describe.inj (List.mem_singleton.mp hu)
            exact call
        calls := inv.calls
        pending := inv.pending
        promises := inv.promises }
  | buy i c s => exact inv.handOver waits rfl rfl call
  | remove i c s => exact inv.handOver waits rfl rfl call
  | makeOrder o s => exact inv.handOver waits rfl rfl call

/-- Two agents with callbacks of one connection, or an agent and an operation: one of them has answered. -/
theorem InPairs.apart_tasks (inv : InPairs n) {i j : ℕ} {p q : Frame × Ticket} (hij : i ≠ j)
    (hi : n.tasks[i]? = some p) (hj : n.tasks[j]? = some q) (hp : p.1.answered = false)
    (hq : q.1.answered = false) : p.2.connection ≠ q.2.connection := by
  intro heq
  have held : ∀ r : Frame × Ticket, r.1.answered = false → r.2.connection = q.2.connection →
      holds q.2.connection r = true := by
    intro r hr hconn
    rw [holds, hr, decide_eq_true hconn]
    rfl
  have two := two_le_countP hij hi hj (held p hp heq) (held q hq rfl)
  have one := inv.one q.2.connection
  unfold Network.outstanding at one
  omega

theorem InPairs.apart_ops (inv : InPairs n) {op : Op} {q : Frame × Ticket} (hop : op ∈ n.ops)
    (hq : q ∈ n.tasks) (hopen : q.1.answered = false) : op.connection ≠ q.2.connection := by
  intro heq
  have here : 0 < n.ops.countP fun op => decide (op.connection = q.2.connection) :=
    List.countP_pos_iff.mpr ⟨op, hop, decide_eq_true heq⟩
  have there : 0 < n.tasks.countP (holds q.2.connection) := by
    refine List.countP_pos_iff.mpr ⟨q, hq, ?_⟩
    rw [holds, hopen, decide_eq_true rfl]
    rfl
  have one := inv.one q.2.connection
  unfold Network.outstanding at one
  omega

theorem task_of_move {s : ServerState} {f f' : Frame} {m' : Memory}
    (h : (server cfg).move s f = some (f', m')) : f'.task = f.task := by
  cases f with
  | cart c pc =>
    obtain ⟨pc', rfl, _⟩ := move_cart h
    rfl
  | order c pc =>
    obtain ⟨pc', rfl, _⟩ := move_order h
    rfl

/-- A section ends with the mutex. -/
theorem holdsMutex_of_commit {s : ServerState} {f f' : Frame} {m' : Memory}
    (h : (server cfg).move s f = some (f', m')) (start : f.done? = none) (done : f'.done? ≠ none) :
    f'.holdsMutex = true := by
  cases f with
  | cart c pc =>
    obtain ⟨pc', rfl, hmove⟩ := move_cart h
    rcases cartMove_cases hmove with hstep | ⟨_, rfl, _⟩
    · cases hstep <;> first | rfl | exact absurd rfl done | cases start
    · exact absurd start done
  | order c pc =>
    obtain ⟨pc', rfl, hmove⟩ := move_order h
    rcases orderMove_cases hmove with hstep | ⟨_, rfl, _⟩
    · cases hstep <;> first | rfl | exact absurd rfl done | cases start
    · exact absurd start done

/-- **A move of an agent**: it leaves the shop alone, or its request takes effect. -/
theorem Serves.move (inv : Serves cfg parse undef n l) (pairs : InPairs n) (lock : Locked n.server)
    {j : ℕ} {f f' : Frame} {m' : Memory} (hj : n.tasks[j]? = some (f, t))
    (hmove : (server cfg).move n.server f = some (f', m')) :
    ∃ l', ReflTransGen (Advance (shop cfg parse undef)) l l' ∧ l'.history = l.history ∧
      l.commits ⊆ l'.commits ∧
        Serves cfg parse undef { n with tasks := n.tasks.set j (f', t), memory := m' } l' := by
  obtain ⟨ts, runs, hstate⟩ := inv.runs
  have hk : n.server.agents[j]? = some f := by
    rw [Network.server, List.getElem?_map, hj, Option.map_some]
  have hserver : { n with tasks := n.tasks.set j (f', t), memory := m' : Network }.server =
      { agents := n.server.agents.set j f', memory := m' } := by
    rw [Network.server, Network.server, List.map_set]
  have here := List.mem_of_getElem? hj
  have cases_set : ∀ p ∈ n.tasks.set j (f', t), p = (f', t) ∨
      ∃ i, i ≠ j ∧ n.tasks[i]? = some p := by
    intro p hp
    obtain ⟨i, hi⟩ := List.mem_iff_getElem?.mp hp
    rcases getElem?_set_cases hi with ⟨_, rfl⟩ | ⟨hij, hi⟩
    · exact .inl rfl
    · exact .inr ⟨i, hij, hi⟩
  have calls : ∀ p ∈ n.tasks.set j (f', t), ∀ st, (shop cfg parse undef).apply st p.2.request =
      some (st.serve p.1.task) := by
    intro p hp
    rcases cases_set p hp with rfl | ⟨i, _, hi⟩
    · rw [task_of_move hmove]
      exact inv.calls _ here
    · exact inv.calls p (List.mem_of_getElem? hi)
  rcases runs.move lock hk hmove with ⟨hdone, runs'⟩ | ⟨u, hstart, hdone, runs'⟩
  · refine ⟨l, .refl, rfl, List.Subset.refl _, ?_⟩
    exact
      { runs := ⟨ts, hserver ▸ runs', hstate⟩
        numbers := inv.numbers
        waiting := inv.waiting
        describes := inv.describes
        calls := calls
        pending := by
          intro p hp hopen
          rcases cases_set p hp with rfl | ⟨i, _, hi⟩
          · exact inv.pending (f, t) here (hdone.symm.trans hopen)
          · exact inv.pending p (List.mem_of_getElem? hi) hopen
        promises := by
          intro p hp a ha
          rcases cases_set p hp with rfl | ⟨i, _, hi⟩
          · have done : f.done? ≠ none := by
              intro hnot
              rw [promise_of_not_done (hdone.trans hnot)] at ha
              cases ha
            exact inv.promises _ here a (promise_keeps hmove done ha)
          · exact inv.promises p (List.mem_of_getElem? hi) a ha }
  · obtain rfl := (task_of_done hdone).trans (task_of_move hmove)
    obtain ⟨invoked, fresh⟩ := inv.pending _ here hstart
    have found := runs'.held j f' (getElem?_set_self hk)
      (holdsMutex_of_commit hmove hstart (hdone ▸ Option.some_ne_none _))
    let c : Linearizability.Commit Ticket Request Response :=
      { id := t, op := t.request, ret := callback (l.state.exec f.task).2.answer }
    have others : ∀ u : Ticket, u.connection ≠ t.connection → l.Open u → ∀ st,
        ({ l with commits := c :: l.commits, state := st } : Journal).Open u := by
      intro u hu hopen st c' hc'
      rcases List.mem_cons.mp hc' with rfl | hc'
      · exact fun e => hu (e ▸ rfl)
      · exact hopen c' hc'
    have happens := inv.calls _ here l.state
    refine ⟨_, .single (.commit invoked fresh happens), rfl, List.subset_cons_self _ _, ?_⟩
    exact
      { runs := by
          refine ⟨f.task :: ts, hserver ▸ runs', ?_⟩
          show (l.state.exec f.task).1 = _
          rw [hstate]
          rfl
        numbers := inv.numbers
        waiting := by
          intro op hop u hu
          have hconn : op.connection = u.connection := by
            cases op <;> cases hu <;> rfl
          have apart := pairs.apart_ops hop here (answered_of_not_done hstart)
          obtain ⟨hinvoked, hfresh⟩ := inv.waiting op hop u hu
          exact ⟨hinvoked, others u (hconn ▸ apart) hfresh _⟩
        describes := inv.describes
        calls := calls
        pending := by
          intro p hp hopen
          rcases cases_set p hp with rfl | ⟨i, hij, hi⟩
          · cases hdone.symm.trans hopen
          · have apart := pairs.apart_tasks hij hi hj (answered_of_not_done hopen)
              (answered_of_not_done hstart)
            obtain ⟨hinvoked, hfresh⟩ := inv.pending p (List.mem_of_getElem? hi) hopen
            exact ⟨hinvoked, others p.2 apart hfresh _⟩
        promises := by
          intro p hp a ha
          rcases cases_set p hp with rfl | ⟨i, _, hi⟩
          · have hanswer := promise_of_found hmove hstart found ha
            rw [hanswer, ← hstate]
            exact List.mem_cons_self
          · exact .tail _ (inv.promises p (List.mem_of_getElem? hi) a ha) }

/-- **The step lemma.** -/
theorem Serves.step (inv : Serves cfg parse undef n l) (lin : Linearizes (shop cfg parse undef) l)
    (pairs : InPairs n) (lock : Locked n.server) {a : Occurrence}
    (hs : n.step cfg parse undef a = some n') :
    ∃ l', ReflTransGen (Advance (shop cfg parse undef)) l l' ∧
      l'.history = n.seen cfg parse undef a ++ l.history ∧ Serves cfg parse undef n' l' := by
  cases networkStep_cases hs with
  | accept =>
    refine ⟨l, .refl, rfl, Serves.doRead ?_ _⟩
    refine inv.quiet rfl rfl (fun k => ?_) fun _ hop _ _ => hop
    show requests (n.histories.getD k []) ≤ requests ((n.histories ++ [[]]).getD k [])
    rw [List.getD_eq_getElem?_getD, List.getD_eq_getElem?_getD]
    rcases Nat.lt_or_ge k n.histories.length with hlt | hge
    · rw [List.getElem?_append_left hlt]
    · rw [List.getElem?_eq_none hge]
      exact Nat.zero_le _
  | @onRead k req pending =>
    cases req with
    | none => exact ⟨l, .refl, rfl, inv.complete _⟩
    | some request =>
      obtain ⟨h, own, _⟩ := pairs.ops _ pending
      exact (inv.complete _).read lin own request
  | @handle t front e pending mutex handled effect =>
    have happens := fun st => shop_apply cfg handled effect st
    have heffects : effectsOn parse undef n.memory.table t.request = [e] := by
      rw [effectsOn, handled]
      exact effect
    have waits := inv.waiting _ pending t rfl
    rw [Network.seen, heffects]
    cases e with
    | respond r => exact (inv.complete _).settle (pairs.complete pending).2 waits (happens l.state)
    | handOver c => exact ⟨l, .refl, rfl, (inv.complete _).enter waits happens⟩
  | @describe t pending _ =>
    exact (inv.complete _).settle (pairs.complete pending).2 (inv.waiting _ pending t rfl)
      (inv.describes t pending l.state)
  | onWrite keepAlive pending =>
    rcases keepAlive with _ | _ | _
    · exact ⟨l, .refl, rfl, inv.complete _⟩
    · exact ⟨l, .refl, rfl, inv.complete _⟩
    · exact ⟨l, .refl, rfl, (inv.complete _).doRead _⟩
  | move hj hmove silent =>
    obtain ⟨l', adv, hseen, _, inv'⟩ := inv.move pairs lock hj hmove
    refine ⟨l', adv, ?_, inv'⟩
    rw [hseen, Network.seen, hj, Option.elim_some, silent]
    rfl
  | @answer j f f' t m' a hj hmove answers =>
    obtain ⟨l', adv, hseen, hcommits, inv'⟩ := inv.move pairs lock hj hmove
    have settled := inv.promises _ (List.mem_of_getElem? hj) a (promise_of_answer answers)
    refine ⟨_, adv.tail (.respond (hcommits settled)), ?_, inv'.sendResponse _⟩
    rw [hseen, Network.seen, hj, Option.elim_some, answers]
    rfl

end Simulation

/-! ## Every run -/

section Runs

variable {cfg : Config} {parse : String → Option Json} {undef : ℚ → SizeT} {n n' : Network}

/-- What is seen of a run of the network. -/
def Config.seen (cfg : Config) (parse : String → Option Json) (undef : ℚ → SizeT)
    (as : List Occurrence) : List (Linearizability.Event Ticket Request Response) :=
  historyOf (networkMachine cfg parse undef) (Network.seen cfg parse undef) cfg.network as

theorem history_modify {histories : List (List Event)} {j : ℕ} {h : List Event}
    (own : histories[j]? = some h) (e : Event) (k : ℕ) :
    (histories.modify j (e :: ·)).getD k [] =
      (if j = k then some e else none).toList ++ histories.getD k [] := by
  rw [List.getD_eq_getElem?_getD, List.getD_eq_getElem?_getD]
  by_cases hjk : j = k
  · subst hjk
    rw [List.getElem?_modify_eq, own, if_pos rfl]
    rfl
  · rw [List.getElem?_modify_ne _ _ hjk, if_neg hjk]
    rfl

theorem filterMap_one {X Y : Type} (f : X → Option Y) (x : X) :
    [x].filterMap f = (f x).toList := by
  rw [List.filterMap_cons]
  cases f x <;> rfl

/-- What is seen of a step on a connection is added to its history. -/
theorem seen_step (pairs : InPairs n) {a : Occurrence} (hs : n.step cfg parse undef a = some n')
    (k : ℕ) : n'.history k = (n.seen cfg parse undef a).filterMap (seenOn k) ++ n.history k := by
  cases networkStep_cases hs with
  | accept =>
    show (n.histories ++ [[]]).getD k [] = n.histories.getD k []
    rw [List.getD_eq_getElem?_getD, List.getD_eq_getElem?_getD]
    rcases Nat.lt_trichotomy k n.histories.length with hlt | heq | hgt
    · rw [List.getElem?_append_left hlt]
    · rw [heq, List.getElem?_concat_length, List.getElem?_eq_none (Nat.le_refl _)]
      rfl
    · rw [List.getElem?_eq_none (Nat.le_of_lt hgt), List.getElem?_eq_none]
      rw [List.length_append, List.length_singleton]
      exact hgt
  | @onRead j req pending =>
    cases req with
    | none => rfl
    | some request =>
      obtain ⟨h, own, _⟩ := pairs.ops _ pending
      rw [Network.seen, filterMap_one]
      exact history_modify own (.received request) k
  | @handle t front e pending mutex handled effect =>
    have heffects : effectsOn parse undef n.memory.table t.request = [e] := by
      rw [effectsOn, handled]
      exact effect
    obtain ⟨h, own, _⟩ := pairs.ops _ pending
    rw [Network.seen, heffects, filterMap_one]
    cases e with
    | respond r =>
      show _ = [Linearizability.Event.respond t r].filterMap (seenOn k) ++ _
      rw [filterMap_one]
      exact history_modify own (.responded t r) k
    | handOver c => cases c <;> rfl
  | @describe t pending _ =>
    obtain ⟨h, own, _⟩ := pairs.ops _ pending
    rw [Network.seen, filterMap_one]
    exact history_modify own (.responded t _) k
  | onWrite keepAlive _ => rcases keepAlive with _ | _ | _ <;> rfl
  | move hj _ silent =>
    rw [Network.seen, hj, Option.elim_some, silent]
    rfl
  | @answer j f f' t m' a hj hmove answers =>
    obtain ⟨hopen, _⟩ := answered_of_answer hmove answers
    obtain ⟨h, own, _⟩ := pairs.tasks _ (List.mem_of_getElem? hj) hopen
    rw [Network.seen, hj, Option.elim_some, answers, Option.elim_some, filterMap_one]
    exact history_modify own (.responded t (callback a)) k

/-- **The service is linearizable.** Whatever the connections, the requests and the order of reads,
handlers, moves of tasks and writes: what is seen of a run is linearizable with respect to the shop
that handles one request at a time; and it is what has happened on the connections. -/
theorem service_linearizable (as : List Occurrence)
    (h : (networkMachine cfg parse undef).run cfg.network as = some n) :
    Linearizable (shop cfg parse undef) (cfg.seen parse undef as) ∧
      ∀ k, (cfg.seen parse undef as).filterMap (seenOn k) = n.history k := by
  constructor
  · refine Linearizability.linearizable_of_simulation (R := Serves cfg parse undef) ?_ ?_ rfl as h
    · rintro s rfl
      exact
        { runs := ⟨[], ⟨fun _ => rfl, (fun k f hk => nomatch hk), fun _ => rfl⟩, rfl⟩
          numbers := fun t req ht => nomatch ht
          waiting := fun op hop => nomatch hop
          describes := fun t ht => nomatch ht
          calls := fun p hp => nomatch hp
          pending := fun p hp => nomatch hp
          promises := fun p hp => nomatch hp }
    · intro n a n' l reached lin inv hs
      exact inv.step lin (inPairs reached) (locked (network_server reached)) hs
  · intro k
    have view : n.history k = (cfg.seen parse undef as).filterMap (seenOn k) ++ cfg.network.history k :=
      Linearizability.view_of_run (fun n a n' reached hs => seen_step (inPairs reached) hs k) as
        (.init rfl) h
    exact (view.trans (List.append_nil _)).symm

/-- While a burger is bought on one connection, another one asks what there is. -/
theorem service_linearizable_diner :
    let get : Request := { method := .get, target := "/get_description", body := "" }
    let as := [.accept, .accept, .onRead 0 (some burgerRequest), .onRead 1 (some get),
      .handle ⟨0, 1, burgerRequest⟩] ++ List.replicate 6 (.run 0) ++
        [.handle ⟨1, 1, get⟩, .describe ⟨1, 1, get⟩] ++ List.replicate 11 (.run 0)
    ∃ n, (networkMachine .diner parseIntegers fun _ => 0).run Config.diner.network as = some n ∧
      Linearizable (shop .diner parseIntegers fun _ => 0)
        (Config.diner.seen parseIntegers (fun _ => 0) as) ∧
      ∀ k, (Config.diner.seen parseIntegers (fun _ => 0) as).filterMap (seenOn k) = n.history k := by
  intro get as
  obtain ⟨n, hn⟩ := Option.isSome_iff_exists.mp (show ((networkMachine .diner parseIntegers fun _ =>
    0).run Config.diner.network as).isSome = true by decide +kernel)
  exact ⟨n, hn, service_linearizable as hn⟩

end Runs

end TcpServer
