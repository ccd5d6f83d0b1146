import TcpServer.ControllerLayer.Session
import TcpServer.Laws.Progress
import TcpServer.Laws.Routing

/-!
# Requests and responses

On every connection requests and responses take turns: a request is read, one response to it is
written, and only then is the next one read (`response_pairing`).

The argument follows the callback of a request. At any time at most one thing is outstanding on a
connection: a read, a write, or the callback of a request that is being handled or that the server has.
Whoever completes gives up the connection before it goes on (`InPairs.complete`, `InPairs.move`), and
whoever goes on finds the connection free and occupies it with one thing (`InPairs.occupy`,
`InPairs.handOver`): the handler because it does one thing, an agent because its callback is run by
one of its moves and never again.

The server of the network is the machine of `Server.lean`, so that what is proved of its runs holds
here (`network_server`).
-/

namespace TcpServer

open Interleaving RequestHandler Transition

/-! ## Histories -/

/-- The request read last. -/
def lastRequest : List Event → Option Request
  | [] => none
  | .received req :: _ => some req
  | .responded _ _ :: h => lastRequest h

/-- The number of the request a response answers. -/
def Event.number? : Event → Option ℕ
  | .received _ => none
  | .responded t _ => some t.number

/-- No request is unanswered. -/
def Settled : List Event → Prop
  | .received _ :: _ => False
  | _ => True

/-- The last event is the reading of the ticket's request. -/
def Awaits (t : Ticket) (h : List Event) : Prop :=
  ∃ earlier, h = .received t.request :: earlier ∧ t.number = requests h

/-- Requests and responses take turns, and each response answers the request before it. -/
def TakeTurns (k : ℕ) : List Event → Prop
  | [] => True
  | .received _ :: h => Settled h ∧ TakeTurns k h
  | .responded t _ :: h => t.connection = k ∧ Awaits t h ∧ TakeTurns k h

section History

variable {k : ℕ} {h : List Event}

theorem TakeTurns.tail {e : Event} (turns : TakeTurns k (e :: h)) : TakeTurns k h := by
  cases e with
  | received req => exact turns.2
  | responded t r => exact turns.2.2

/-- What a response answers. -/
theorem TakeTurns.answers {t : Ticket} {r : Response} {earlier : List Event}
    (turns : TakeTurns k h) (hs : (.responded t r :: earlier) <:+ h) :
    t.connection = k ∧ lastRequest earlier = some t.request ∧ t.number = requests earlier := by
  induction h with
  | nil => cases List.suffix_nil.mp hs
  | cons e h ih =>
    rcases List.suffix_cons_iff.mp hs with heq | hs
    · obtain ⟨rfl, rfl⟩ := List.cons.inj heq
      obtain ⟨hconn, ⟨_, rfl, hnumber⟩, _⟩ := turns
      exact ⟨hconn, rfl, hnumber⟩
    · exact ih turns.tail hs

theorem requests_received (req : Request) (h : List Event) :
    requests (.received req :: h) = requests h + 1 :=
  List.countP_cons_of_pos rfl

theorem requests_responded (t : Ticket) (r : Response) (h : List Event) :
    requests (.responded t r :: h) = requests h :=
  List.countP_cons_of_neg Bool.false_ne_true

/-- Only requests that were read are answered. -/
theorem TakeTurns.number_le (turns : TakeTurns k h) :
    ∀ m ∈ h.filterMap Event.number?, m ≤ requests h := by
  induction h with
  | nil => exact fun m hm => nomatch hm
  | cons e h ih =>
    have before := ih turns.tail
    intro m hm
    cases e with
    | received req =>
      rw [requests_received]
      exact Nat.le_succ_of_le (before m hm)
    | responded t r =>
      obtain ⟨_, ⟨_, _, hnumber⟩, _⟩ := turns
      rw [requests_responded]
      rcases List.mem_cons.mp hm with rfl | hm
      · exact Nat.le_of_eq hnumber
      · exact before m hm

/-- No request is answered twice: the request before a response has a greater number than all that were
answered until then. -/
theorem TakeTurns.nodup (turns : TakeTurns k h) : (h.filterMap Event.number?).Nodup := by
  induction h with
  | nil => exact List.nodup_nil
  | cons e h ih =>
    cases e with
    | received req => exact ih turns.tail
    | responded t r =>
      refine List.nodup_cons.mpr ⟨fun hm => ?_, ih turns.tail⟩
      obtain ⟨_, ⟨earlier, rfl, hnumber⟩, before⟩ := turns
      have hle := before.tail.number_le t.number hm
      rw [hnumber, requests_received] at hle
      omega

end History

/-! ## What is outstanding on a connection -/

def Op.isRead (k : ℕ) : Op → Bool
  | .asyncRead k' => decide (k' = k)
  | _ => false

/-- A request of the connection on its way through the handler, or to the answer of
`GetAllItemDescription`. -/
def Op.isRequest (k : ℕ) : Op → Bool
  | .handleRequest t | .describe t => decide (t.connection = k)
  | _ => false

def Op.isWrite (k : ℕ) : Op → Bool
  | .asyncWrite k' _ => decide (k' = k)
  | _ => false

/-- An agent of the server has the callback of a request of the connection, and has not run it. -/
def holds (k : ℕ) (p : Frame × Ticket) : Bool := !p.1.answered && decide (p.2.connection = k)

namespace Network

variable (n : Network) (k : ℕ)

/-- The reads that are pending. -/
def reading : ℕ := n.ops.countP (Op.isRead k)

/-- The requests that are being handled or held by the server. -/
def handling : ℕ := n.ops.countP (Op.isRequest k) + n.tasks.countP (holds k)

/-- The writes that are pending. -/
def writing : ℕ := n.ops.countP (Op.isWrite k)

/-- All of these. -/
def outstanding : ℕ := n.ops.countP (fun op => decide (op.connection = k)) + n.tasks.countP (holds k)

theorem outstanding_eq : n.outstanding k = n.reading k + n.handling k + n.writing k := by
  have kind : ∀ op : Op, (if decide (op.connection = k) = true then 1 else 0) =
      (if op.isRead k = true then 1 else 0) + (if op.isRequest k = true then 1 else 0) +
        (if op.isWrite k = true then 1 else 0) := by
    intro op
    cases op with
    | asyncRead k' => rfl
    | handleRequest t => exact (Nat.zero_add _).symm
    | describe t => exact (Nat.zero_add _).symm
    | asyncWrite k' r => exact (Nat.zero_add _).symm
  have kinds : ∀ ops : List Op, ops.countP (fun op => decide (op.connection = k)) =
      ops.countP (Op.isRead k) + ops.countP (Op.isRequest k) + ops.countP (Op.isWrite k) := by
    intro ops
    induction ops with
    | nil => rfl
    | cons op ops ih =>
      rw [List.countP_cons, List.countP_cons, List.countP_cons, List.countP_cons, ih, kind op]
      omega
  rw [outstanding, reading, handling, writing, kinds]
  omega

end Network

/-- What a pending operation may rely on. -/
def Op.Fits (h : List Event) : Op → Prop
  | .asyncRead _ | .asyncWrite _ _ => Settled h
  | .handleRequest t | .describe t => Awaits t h

/-- **The invariant** of the network: one thing is outstanding on a connection, events take turns, and
whatever is outstanding finds the history as it expects it. -/
structure InPairs (n : Network) : Prop where
  one : ∀ k, n.outstanding k ≤ 1
  turns : ∀ k h, n.histories[k]? = some h → TakeTurns k h
  ops : ∀ op ∈ n.ops, ∃ h, n.histories[op.connection]? = some h ∧ op.Fits h
  tasks : ∀ p ∈ n.tasks, p.1.answered = false →
    ∃ h, n.histories[p.2.connection]? = some h ∧ Awaits p.2 h

/-! ## Giving up a connection, and occupying it -/

section Ownership

variable {n : Network} {k : ℕ} {h : List Event}

/-- Nothing that is outstanding is of a free connection. -/
theorem free_ops (free : n.outstanding k = 0) {op : Op} (hop : op ∈ n.ops) : op.connection ≠ k := by
  intro heq
  have hzero : n.ops.countP (fun op => decide (op.connection = k)) = 0 := by
    unfold Network.outstanding at free
    omega
  exact List.countP_eq_zero.mp hzero op hop (decide_eq_true heq)

theorem free_tasks (free : n.outstanding k = 0) {p : Frame × Ticket} (hp : p ∈ n.tasks)
    (hopen : p.1.answered = false) : p.2.connection ≠ k := by
  intro heq
  have hzero : n.tasks.countP (holds k) = 0 := by
    unfold Network.outstanding at free
    omega
  refine List.countP_eq_zero.mp hzero p hp ?_
  rw [holds, hopen, decide_eq_true heq]
  rfl

/-- An operation that completes gives up its connection. -/
theorem InPairs.complete (inv : InPairs n) {op : Op} (hop : op ∈ n.ops) :
    InPairs (n.complete op) ∧ (n.complete op).outstanding op.connection = 0 := by
  have hcount : ∀ k, (n.complete op).outstanding k + (if op.connection = k then 1 else 0) =
      n.outstanding k := by
    intro k
    have hperm := (List.perm_cons_erase hop).countP_eq (fun op => decide (op.connection = k))
    rw [List.countP_cons] at hperm
    simp only [decide_eq_true_eq] at hperm
    show (n.ops.erase op).countP _ + n.tasks.countP (holds k) + _ =
      n.ops.countP _ + n.tasks.countP (holds k)
    omega
  constructor
  · refine ⟨fun k => ?_, inv.turns, fun op' hop' => inv.ops op' (List.mem_of_mem_erase hop'), inv.tasks⟩
    exact Nat.le_trans (Nat.le_of_add_right_le (Nat.le_of_eq (hcount k))) (inv.one k)
  · have := hcount op.connection
    have := inv.one op.connection
    rw [if_pos rfl] at *
    omega

/-- Whoever finds a connection free may occupy it with an operation that fits the history it leaves. -/
theorem InPairs.occupy (inv : InPairs n) (free : n.outstanding k = 0)
    {histories : List (List Event)} (own : histories[k]? = some h)
    (others : ∀ j, j ≠ k → histories[j]? = n.histories[j]?) (turns : TakeTurns k h) {op : Op}
    (hop : op.connection = k) (fits : op.Fits h) :
    InPairs { n with histories, ops := n.ops ++ [op] } where
  one j := by
    have hj := inv.one j
    unfold Network.outstanding at *
    simp only [List.countP_append, List.countP_singleton, decide_eq_true_eq]
    by_cases hjk : op.connection = j
    · obtain rfl := hop.symm.trans hjk
      rw [if_pos hjk]
      omega
    · rw [if_neg hjk]
      omega
  turns j h' hj := by
    by_cases hjk : j = k
    · subst hjk
      obtain rfl := Option.some.inj (own.symm.trans hj)
      exact turns
    · exact inv.turns j h' ((others j hjk).symm.trans hj)
  ops op' hop' := by
    rcases List.mem_append.mp hop' with hop' | hop'
    · obtain ⟨h', hh', hfits⟩ := inv.ops op' hop'
      exact ⟨h', (others _ (free_ops free hop')).trans hh', hfits⟩
    · obtain rfl := List.mem_singleton.mp hop'
      exact ⟨h, hop ▸ own, fits⟩
  tasks p hp hopen := by
    obtain ⟨h', hh', hawaits⟩ := inv.tasks p hp hopen
    exact ⟨h', (others _ (free_tasks free hp hopen)).trans hh', hawaits⟩

/-- Or hand the callback of its last request to an agent of the server. -/
theorem InPairs.handOver (inv : InPairs n) {t : Ticket} (free : n.outstanding t.connection = 0)
    (own : n.histories[t.connection]? = some h) (awaits : Awaits t h) (f : Frame) :
    InPairs { n with tasks := n.tasks ++ [(f, t)] } where
  one j := by
    show n.ops.countP _ + (n.tasks ++ [(f, t)]).countP (holds j) ≤ 1
    have hj := inv.one j
    unfold Network.outstanding at free hj
    rw [countP_spawn]
    by_cases hjt : t.connection = j
    · subst hjt
      split <;> omega
    · have hnot : holds j (f, t) = false := Bool.and_eq_false_iff.mpr (.inr (decide_eq_false hjt))
      rw [hnot]
      exact hj
  turns := inv.turns
  ops := inv.ops
  tasks p hp hopen := by
    rcases List.mem_append.mp hp with hp | hp
    · exact inv.tasks p hp hopen
    · obtain rfl := List.mem_singleton.mp hp
      exact ⟨h, own, awaits⟩

/-- A move of an agent that does not take back its answer keeps what is outstanding, and gives up the
connection if it is the one to answer. -/
theorem InPairs.move (inv : InPairs n) {j : ℕ} {f f' : Frame} {t : Ticket} (m' : Memory)
    (hj : n.tasks[j]? = some (f, t)) (keeps : f.answered = true → f'.answered = true) :
    InPairs { n with tasks := n.tasks.set j (f', t), memory := m' } ∧
      (f.answered = false → f'.answered = true →
        Network.outstanding { n with tasks := n.tasks.set j (f', t), memory := m' } t.connection =
          0) := by
  have hcount := fun k => countP_set (holds k) (f', t) hj
  constructor
  · refine ⟨fun k => ?_, inv.turns, inv.ops, fun p hp hopen => ?_⟩
    · show n.ops.countP _ + (n.tasks.set j (f', t)).countP (holds k) ≤ 1
      have hk := inv.one k
      have hle : holds k (f', t) = true → holds k (f, t) = true := by
        simp only [holds, Bool.and_eq_true, Bool.not_eq_true', decide_eq_true_eq]
        rintro ⟨hopen, hconn⟩
        exact ⟨Bool.eq_false_iff.mpr fun e => Bool.eq_false_iff.mp hopen (keeps e), hconn⟩
      have := hcount k
      unfold Network.outstanding at hk
      by_cases hnew : holds k (f', t) = true
      · rw [if_pos hnew, if_pos (hle hnew)] at this
        omega
      · rw [if_neg hnew] at this
        omega
    · rcases List.mem_or_eq_of_mem_set hp with hp | rfl
      · exact inv.tasks p hp hopen
      · exact inv.tasks (f, t) (List.mem_of_getElem? hj)
          (Bool.eq_false_iff.mpr fun e => Bool.eq_false_iff.mp hopen (keeps e))
  · intro hopen hanswered
    show n.ops.countP _ + (n.tasks.set j (f', t)).countP (holds t.connection) = 0
    have hk := inv.one t.connection
    have := hcount t.connection
    unfold Network.outstanding at hk
    rw [holds, holds, hopen, hanswered, decide_eq_true rfl] at this
    simp only [Bool.not_true, Bool.not_false, Bool.and_true, Bool.false_eq_true, if_false,
      if_true] at this
    omega

end Ownership

/-! ## The answers of an agent -/

section Answers

variable {cfg : Config} {s : ServerState} {f f' : Frame} {m' : Memory} {a : Answer}

/-- The move that calls the callback is the one after which it has run. -/
theorem answered_of_answer (h : (server cfg).move s f = some (f', m')) (ha : f.answer? = some a) :
    f.answered = false ∧ f'.answered = true := by
  cases f with
  | cart c pc =>
    obtain ⟨pc', rfl, hmove⟩ := move_cart h
    cases pc with
    | applied granted =>
      cases hkind : c.kind with
      | buy =>
        simp only [cartMove, hkind, Option.some.injEq, Prod.mk.injEq] at hmove
        obtain ⟨rfl, _⟩ := hmove
        refine ⟨rfl, ?_⟩
        cases c.throws with
        | true => rfl
        | false => exact decide_eq_true hkind
      | remove =>
        simp only [Frame.answer?, hkind] at ha
        cases ha
    | leaving =>
      cases hmove
      cases hkind : c.kind with
      | buy =>
        simp only [Frame.answer?, hkind] at ha
        cases ha
      | remove =>
        refine ⟨decide_eq_false fun e => ?_, rfl⟩
        cases hkind.symm.trans e
    | _ => cases ha
  | order c pc =>
    obtain ⟨pc', rfl, hmove⟩ := move_order h
    cases pc with
    | refused =>
      cases hmove
      exact ⟨rfl, rfl⟩
    | answering =>
      cases hmove
      exact ⟨rfl, rfl⟩
    | _ => cases ha

/-- A callback that has run has run. -/
theorem answered_keeps (h : (server cfg).move s f = some (f', m')) (hf : f.answered = true) :
    f'.answered = true := by
  cases f with
  | cart c pc =>
    obtain ⟨pc', rfl, hmove⟩ := move_cart h
    rcases cartMove_cases hmove with hstep | ⟨_, rfl, _⟩
    · cases hstep <;> first | exact hf | rfl | cases hf
    · exact hf
  | order c pc =>
    obtain ⟨pc', rfl, hmove⟩ := move_order h
    rcases orderMove_cases hmove with hstep | ⟨_, rfl, _⟩
    · cases hstep <;> first | exact hf | rfl
    · exact hf

end Answers

/-! ## The steps of the network -/

/-- A step of the network, with what it needs and what it leaves. -/
inductive NetworkStep (cfg : Config) (parse : String → Option Json) (undef : ℚ → SizeT)
    (n : Network) : Occurrence → Network → Prop
  | accept :
    NetworkStep cfg parse undef n .accept
      ({ n with histories := n.histories ++ [[]] }.doRead n.histories.length)
  | onRead {k : ℕ} (req : Option Request) (pending : .asyncRead k ∈ n.ops) :
    NetworkStep cfg parse undef n (.onRead k req) ((n.complete (.asyncRead k)).onRead k req)
  | handle {t : Ticket} {front : Front} {e : Effect} (pending : .handleRequest t ∈ n.ops)
    (mutex : n.server.agents.countP Frame.submitting = 0)
    (handled : handleRequestOn parse undef emit t.request (Front.of n.memory.table) = .ok () front)
    (effect : front.effects = [e]) :
    NetworkStep cfg parse undef n (.handle t) ((n.complete (.handleRequest t)).perform t e)
  | describe {t : Ticket} (pending : .describe t ∈ n.ops)
    (thread : n.server.agents.countP Frame.onMainPool < cfg.mainThreads) :
    NetworkStep cfg parse undef n (.describe t)
      ((n.complete (.describe t)).sendResponse t (callback (getAllItemDescription cfg.itemHolder)))
  | onWrite {k : ℕ} {r : Response} (keepAlive : Option Bool) (pending : .asyncWrite k r ∈ n.ops) :
    NetworkStep cfg parse undef n (.onWrite k r keepAlive)
      ((n.complete (.asyncWrite k r)).onWrite k keepAlive)
  | move {j : ℕ} {f f' : Frame} {t : Ticket} {m' : Memory} (hj : n.tasks[j]? = some (f, t))
    (hmove : (server cfg).move n.server f = some (f', m')) (silent : f.answer? = none) :
    NetworkStep cfg parse undef n (.run j) { n with tasks := n.tasks.set j (f', t), memory := m' }
  | answer {j : ℕ} {f f' : Frame} {t : Ticket} {m' : Memory} {a : Answer}
    (hj : n.tasks[j]? = some (f, t)) (hmove : (server cfg).move n.server f = some (f', m'))
    (answers : f.answer? = some a) :
    NetworkStep cfg parse undef n (.run j)
      ({ n with tasks := n.tasks.set j (f', t), memory := m' : Network }.sendResponse t (callback a))

section Steps

variable {cfg : Config} {parse : String → Option Json} {undef : ℚ → SizeT} {n n' : Network} {k : ℕ}
  {h : List Event} {t : Ticket}

/-- **Inversion** of a step of the network. -/
theorem networkStep_cases {a : Occurrence} (hs : n.step cfg parse undef a = some n') :
    NetworkStep cfg parse undef n a n' := by
  cases a with
  | accept =>
    obtain rfl := Option.some.inj hs
    exact .accept
  | onRead k req =>
    obtain ⟨pending, hs⟩ := Option.ite_none_right_eq_some.mp hs
    obtain rfl := Option.some.inj hs
    exact .onRead req pending
  | handle t =>
    obtain ⟨⟨pending, mutex⟩, hs⟩ := Option.ite_none_right_eq_some.mp hs
    unfold Network.handle at hs
    split at hs
    next front hfront =>
      obtain rfl := Option.some.inj hs
      obtain ⟨e, heffects⟩ := effects_emit hfront
      rw [heffects]
      exact .handle pending mutex hfront heffects
    next => cases hs
  | describe t =>
    obtain ⟨⟨pending, thread⟩, hs⟩ := Option.ite_none_right_eq_some.mp hs
    obtain rfl := Option.some.inj hs
    exact .describe pending thread
  | onWrite k r keepAlive =>
    obtain ⟨pending, hs⟩ := Option.ite_none_right_eq_some.mp hs
    obtain rfl := Option.some.inj hs
    exact .onWrite keepAlive pending
  | run j =>
    obtain ⟨⟨f, t⟩, hj, hs⟩ := Option.bind_eq_some_iff.mp hs
    obtain ⟨⟨f', m'⟩, hmove, hs⟩ := Option.bind_eq_some_iff.mp hs
    cases ha : f.answer? with
    | none =>
      simp only [ha] at hs
      obtain rfl := Option.some.inj hs
      exact .move hj hmove ha
    | some a =>
      simp only [ha] at hs
      obtain rfl := Option.some.inj hs
      exact .answer hj hmove ha

theorem InPairs.doRead (inv : InPairs n) (free : n.outstanding k = 0)
    (own : n.histories[k]? = some h) (settled : Settled h) : InPairs (n.doRead k) :=
  inv.occupy free own (fun _ _ => rfl) (inv.turns k h own) rfl settled

/-- The histories after an event of a connection. -/
theorem histories_own (e : Event) (own : n.histories[k]? = some h) :
    (n.histories.modify k (e :: ·))[k]? = some (e :: h) := by
  rw [List.getElem?_modify_eq, own]
  rfl

theorem histories_others (e : Event) (j : ℕ) (hj : j ≠ k) :
    (n.histories.modify k (e :: ·))[j]? = n.histories[j]? :=
  List.getElem?_modify_ne _ _ (Ne.symm hj)

theorem InPairs.onRead (inv : InPairs n) (free : n.outstanding k = 0)
    (own : n.histories[k]? = some h) (settled : Settled h) (req : Option Request) :
    InPairs (n.onRead k req) := by
  cases req with
  | none => exact inv
  | some req =>
    have awaits : Awaits ⟨k, requests (n.history k) + 1, req⟩ (.received req :: h) := by
      refine ⟨h, rfl, ?_⟩
      rw [requests_received, Network.history, List.getD_eq_getElem?_getD, own, Option.getD_some]
    have turns : TakeTurns k (.received req :: h) := ⟨settled, inv.turns k h own⟩
    exact inv.occupy free (histories_own _ own) (histories_others _) turns rfl awaits

/-- The callback that answers the last request of a free connection. -/
theorem InPairs.sendResponse (inv : InPairs n) (free : n.outstanding t.connection = 0)
    (own : n.histories[t.connection]? = some h) (awaits : Awaits t h) (r : Response) :
    InPairs (n.sendResponse t r) := by
  have turns : TakeTurns t.connection (.responded t r :: h) := ⟨rfl, awaits, inv.turns _ h own⟩
  exact inv.occupy free (histories_own _ own) (histories_others _) turns rfl trivial

theorem InPairs.onWrite (inv : InPairs n) (free : n.outstanding k = 0)
    (own : n.histories[k]? = some h) (settled : Settled h) (keepAlive : Option Bool) :
    InPairs (n.onWrite k keepAlive) := by
  cases keepAlive with
  | none => exact inv
  | some keepAlive =>
    cases keepAlive with
    | false => exact inv
    | true => exact inv.doRead free own settled

/-- Each operation takes the callback once. -/
theorem InPairs.enter (inv : InPairs n) (free : n.outstanding t.connection = 0)
    (own : n.histories[t.connection]? = some h) (awaits : Awaits t h) (c : Call) :
    InPairs (n.enter t c) := by
  cases c with
  | getAllItemDescription =>
    exact inv.occupy free own (fun _ _ => rfl) (inv.turns _ h own) rfl awaits
  | buy i c s => exact inv.handOver free own awaits _
  | remove i c s => exact inv.handOver free own awaits _
  | makeOrder o s => exact inv.handOver free own awaits _

/-- The handler uses the callback once, on each of its paths. -/
theorem InPairs.perform (inv : InPairs n) (free : n.outstanding t.connection = 0)
    (own : n.histories[t.connection]? = some h) (awaits : Awaits t h) (e : Effect) :
    InPairs (n.perform t e) := by
  cases e with
  | respond r => exact inv.sendResponse free own awaits r
  | handOver c => exact inv.enter free own awaits c

/-- A new connection: nothing can be outstanding on it. -/
theorem InPairs.accept (inv : InPairs n) :
    InPairs ({ n with histories := n.histories ++ [[]] }.doRead n.histories.length) := by
  have new : ∀ h, n.histories[n.histories.length]? ≠ some h := by
    intro h hh
    rw [List.getElem?_eq_none (Nat.le_refl _)] at hh
    cases hh
  have free : n.outstanding n.histories.length = 0 := by
    have noOps : n.ops.countP (fun op => decide (op.connection = n.histories.length)) = 0 := by
      refine List.countP_eq_zero.mpr fun op hop heq => ?_
      obtain ⟨h, own, _⟩ := inv.ops op hop
      exact new h (of_decide_eq_true heq ▸ own)
    have noTasks : n.tasks.countP (holds n.histories.length) = 0 := by
      refine List.countP_eq_zero.mpr fun p hp hholds => ?_
      simp only [holds, Bool.and_eq_true, Bool.not_eq_true', decide_eq_true_eq] at hholds
      obtain ⟨h, own, _⟩ := inv.tasks p hp hholds.1
      exact new h (hholds.2 ▸ own)
    rw [Network.outstanding, noOps, noTasks]
  have turns : TakeTurns n.histories.length [] := trivial
  refine inv.occupy free List.getElem?_concat_length (fun j hj => ?_) turns rfl trivial
  rcases Nat.lt_or_ge j n.histories.length with hlt | hge
  · exact List.getElem?_append_left hlt
  · rw [List.getElem?_eq_none hge, List.getElem?_eq_none]
    rw [List.length_append, List.length_singleton]
    omega

/-- **The step lemma**: whoever completes gives up the connection, and whoever goes on occupies it. An
agent's callback is run by the move that answers, and by no other. -/
theorem InPairs.step (inv : InPairs n) {a : Occurrence} (hs : n.step cfg parse undef a = some n') :
    InPairs n' := by
  cases networkStep_cases hs with
  | accept => exact inv.accept
  | onRead req pending =>
    obtain ⟨given, free⟩ := inv.complete pending
    obtain ⟨h, own, settled⟩ := inv.ops _ pending
    exact given.onRead free own settled req
  | handle pending _ _ _ =>
    obtain ⟨given, free⟩ := inv.complete pending
    obtain ⟨h, own, awaits⟩ := inv.ops _ pending
    exact given.perform free own awaits _
  | describe pending _ =>
    obtain ⟨given, free⟩ := inv.complete pending
    obtain ⟨h, own, awaits⟩ := inv.ops _ pending
    exact given.sendResponse free own awaits _
  | onWrite keepAlive pending =>
    obtain ⟨given, free⟩ := inv.complete pending
    obtain ⟨h, own, settled⟩ := inv.ops _ pending
    exact given.onWrite free own settled keepAlive
  | move hj hmove _ =>
    obtain ⟨moved, _⟩ := inv.move _ hj (answered_keeps hmove)
    exact moved
  | answer hj hmove answers =>
    obtain ⟨moved, free⟩ := inv.move _ hj (answered_keeps hmove)
    obtain ⟨hopen, hanswered⟩ := answered_of_answer hmove answers
    obtain ⟨h, own, awaits⟩ := inv.tasks _ (List.mem_of_getElem? hj) hopen
    exact moved.sendResponse (free hopen hanswered) own awaits _

/-- What a call of an operation is for the server: the start of an agent, or nothing. -/
theorem server_enter (n : Network) (t : Ticket) (c : Call) :
    (n.enter t c).server = n.server ∨
      ∃ b, (server cfg).step n.server b = some (n.enter t c).server := by
  have spawned : ∀ f : Frame, (server cfg).fresh f = true → (server cfg).step n.server (.spawn f) =
      some { n with tasks := n.tasks ++ [(f, t)] : Network }.server := by
    intro f hfresh
    simp only [Program.step, hfresh, if_true, Network.server, List.map_append, List.map_cons,
      List.map_nil]
  cases c with
  | getAllItemDescription => exact .inl rfl
  | buy i c s => exact .inr ⟨_, spawned _ rfl⟩
  | remove i c s => exact .inr ⟨_, spawned _ rfl⟩
  | makeOrder o s => exact .inr ⟨_, spawned _ rfl⟩

/-- A move of an agent is a step of the server. -/
theorem server_move {j : ℕ} {f f' : Frame} {m' : Memory} (hj : n.tasks[j]? = some (f, t))
    (hmove : (server cfg).move n.server f = some (f', m')) :
    (server cfg).step n.server (.run j) =
      some { n with tasks := n.tasks.set j (f', t), memory := m' : Network }.server := by
  have hk : n.server.agents[j]? = some f := by
    rw [Network.server, List.getElem?_map, hj, Option.map_some]
  rw [step_of_move hk hmove, Network.server, Network.server, List.map_set]

/-- A step of the network is a step of its server, or none. -/
theorem server_step {a : Occurrence} (hs : n.step cfg parse undef a = some n') :
    n'.server = n.server ∨ ∃ b, (server cfg).step n.server b = some n'.server := by
  cases networkStep_cases hs with
  | accept => exact .inl rfl
  | onRead req _ => cases req <;> exact .inl rfl
  | @handle t _ e _ _ _ _ =>
    cases e with
    | respond r => exact .inl rfl
    | handOver c => exact server_enter (n.complete (.handleRequest t)) t c
  | describe _ _ => exact .inl rfl
  | onWrite keepAlive _ => rcases keepAlive with _ | _ | _ <;> exact .inl rfl
  | move hj hmove _ => exact .inr ⟨_, server_move hj hmove⟩
  | answer hj hmove _ => exact .inr ⟨_, server_move hj hmove⟩

end Steps

/-! ## Every run -/

section Runs

variable {cfg : Config} {parse : String → Option Json} {undef : ℚ → SizeT}
  {C : Network → Occurrence → Prop} {n : Network}

/-- **The run lemma**. -/
theorem inPairs (h : Reachable (networkMachine cfg parse undef) C n) : InPairs n := by
  refine h.invariant ?_ fun _ _ _ _ inv _ hs => inv.step hs
  rintro n rfl
  exact ⟨fun _ => Nat.zero_le 1, (fun k h hk => nomatch hk), (fun op hop => nomatch hop),
    fun p hp => nomatch hp⟩

/-- On each connection at most one thing is outstanding, each response answers the request read last,
and no request is answered twice. -/
structure Paired (n : Network) : Prop where
  one : ∀ k, n.reading k + n.handling k + n.writing k ≤ 1
  answers : ∀ k t r earlier, (.responded t r :: earlier) <:+ n.history k →
    t.connection = k ∧ lastRequest earlier = some t.request ∧ t.number = requests earlier
  once : ∀ k, ((n.history k).filterMap Event.number?).Nodup

/-- **Request/response pairing** in every state of every run of the network: any number of connections,
any requests on them, and any order of reads, handlers, tasks and writes. -/
theorem response_pairing (h : Reachable (networkMachine cfg parse undef) C n) : Paired n := by
  have inv := inPairs h
  have turns : ∀ k, TakeTurns k (n.history k) := by
    intro k
    rw [Network.history, List.getD_eq_getElem?_getD]
    cases hk : n.histories[k]? with
    | none => trivial
    | some h => exact inv.turns k h hk
  exact
    { one := fun k => n.outstanding_eq k ▸ inv.one k
      answers := fun k t r earlier hs => (turns k).answers hs
      once := fun k => (turns k).nodup }

/-- A connection buys a burger, and then asks what there is. -/
theorem response_pairing_diner :
    let get : Request := { method := .get, target := "/get_description", body := "" }
    ∃ n, (networkMachine .diner parseIntegers fun _ => 0).run Config.diner.network
        ([.accept, .onRead 0 (some burgerRequest), .handle ⟨0, 1, burgerRequest⟩] ++
          List.replicate 17 (.run 0) ++ [.onWrite 0 (callback .bought) (some true),
            .onRead 0 (some get), .handle ⟨0, 2, get⟩, .describe ⟨0, 2, get⟩]) = some n ∧
      Paired n := by
  intro get
  obtain ⟨n, hn⟩ := Option.isSome_iff_exists.mp (show ((networkMachine .diner parseIntegers fun _ =>
      0).run Config.diner.network
      ([.accept, .onRead 0 (some burgerRequest), .handle ⟨0, 1, burgerRequest⟩] ++
        List.replicate 17 (.run 0) ++ [.onWrite 0 (callback .bought) (some true),
          .onRead 0 (some get), .handle ⟨0, 2, get⟩, .describe ⟨0, 2, get⟩])).isSome = true by
    decide +kernel)
  exact ⟨n, hn, response_pairing ((Reachable.init rfl).leads (Machine.run_leads _ hn))⟩

/-- **The server of the network** is in a state of the server's machine. -/
theorem network_server (h : Reachable (networkMachine cfg parse undef) C n) :
    Reachable (serverMachine cfg) Always n.server := by
  refine h.invariant (I := fun n => Reachable (serverMachine cfg) Always n.server) ?_ ?_
  · rintro n rfl
    exact .init rfl
  · intro n a n' _ inv _ hs
    rcases server_step hs with heq | ⟨b, hb⟩
    · rwa [heq]
    · exact .step inv trivial hb

end Runs

end TcpServer
