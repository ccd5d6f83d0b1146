import TcpServer.Laws.Pairing

/-!
# No request is lost

A request that was read and is not answered is somewhere: its callback is with the handler, with a task
of `GetAllItemDescription` or with one agent of the server, and with one of them only (`custody`). That
there is no second one is the pairing of requests and responses (`InPairs`). That there is one is what
every step keeps (`Carried.step`): nobody gives up a callback without running it. An agent's callback
has run only if one of its moves has run it (`answer_of_answered`).
-/

namespace TcpServer

open Interleaving RequestHandler Transition

/-! ## The callback of an agent -/

section Answers

variable {cfg : Config} {s : ServerState} {f f' : Frame} {m' : Memory}

/-- A callback has run only if a move has run it. -/
theorem answer_of_answered (h : (server cfg).move s f = some (f', m')) (hf : f.answered = false)
    (hf' : f'.answered = true) : ∃ a, f.answer? = some a := by
  cases f with
  | cart c pc =>
    obtain ⟨pc', rfl, hmove⟩ := move_cart h
    rcases cartMove_cases hmove with hstep | ⟨_, rfl, _⟩
    · cases hstep with
      | settle _ =>
        have kind : c.kind = .buy := of_decide_eq_true hf'
        simp [Frame.answer?, kind]
      | abandon kind _ => simp [Frame.answer?, kind]
      | leave =>
        have kind : c.kind ≠ .buy := of_decide_eq_false hf
        cases hkind : c.kind with
        | buy => exact absurd hkind kind
        | remove => simp [Frame.answer?, hkind]
      | _ => first | cases hf' | cases hf.symm.trans hf'
    · cases hf.symm.trans hf'
  | order c pc =>
    obtain ⟨pc', rfl, hmove⟩ := move_order h
    rcases orderMove_cases hmove with hstep | ⟨_, rfl, _⟩
    · cases hstep with
      | answerRefused => exact ⟨_, rfl⟩
      | answer => exact ⟨_, rfl⟩
      | _ => cases hf'
    · cases hf.symm.trans hf'

end Answers

/-! ## What a step does to a connection -/

section Connections

variable {n : Network} {k : ℕ} {t : Ticket}

theorem history_of_getElem? {h : List Event} (own : n.histories[k]? = some h) : n.history k = h := by
  rw [Network.history, List.getD_eq_getElem?_getD, own, Option.getD_some]

/-- An event of a connection is none of another. -/
theorem getD_modify_ne {hs : List (List Event)} {j : ℕ} (e : Event) (h : j ≠ k) :
    (hs.modify k (e :: ·)).getD j [] = hs.getD j [] := by
  rw [List.getD_eq_getElem?_getD, List.getD_eq_getElem?_getD,
    List.getElem?_modify_ne _ _ (Ne.symm h)]

/-- Nothing has happened on a new connection, nor on one that there is not. -/
theorem history_accept (n : Network) (k : ℕ) : (n.histories ++ [[]]).getD k [] = n.history k := by
  rw [Network.history, List.getD_eq_getElem?_getD, List.getD_eq_getElem?_getD]
  rcases Nat.lt_trichotomy k n.histories.length with hlt | rfl | hgt
  · rw [List.getElem?_append_left hlt]
  · rw [List.getElem?_concat_length, List.getElem?_eq_none (le_refl _)]
    rfl
  · rw [List.getElem?_eq_none (le_of_lt hgt), List.getElem?_eq_none]
    simp only [List.length_append, List.length_singleton]
    omega

/-- A response leaves no request of its connection unanswered. -/
theorem settled_responded {hs : List (List Event)} (r : Response) :
    Settled ((hs.modify k (.responded t r :: ·)).getD k []) := by
  rw [List.getD_eq_getElem?_getD, List.getElem?_modify_eq]
  cases hs[k]? <;> trivial

/-- An operation that completes is one less of its kind. -/
theorem countP_complete (kind : Op → Bool) {op : Op} (hop : op ∈ n.ops) :
    (n.complete op).ops.countP kind + (if kind op then 1 else 0) = n.ops.countP kind := by
  rw [(List.perm_cons_erase hop).countP_eq kind, List.countP_cons]
  rfl

theorem handling_complete {op : Op} (hop : op ∈ n.ops) :
    (n.complete op).handling k + (if op.isRequest k then 1 else 0) = n.handling k := by
  have count := countP_complete (Op.isRequest k) hop
  show (n.complete op).ops.countP _ + n.tasks.countP _ + _ = n.ops.countP _ + n.tasks.countP _
  omega

theorem handling_append (op : Op) :
    Network.handling { n with ops := n.ops ++ [op] } k =
      n.handling k + (if op.isRequest k then 1 else 0) := by
  show (n.ops ++ [op]).countP _ + n.tasks.countP _ = n.ops.countP _ + n.tasks.countP _ + _
  rw [List.countP_append, List.countP_singleton]
  omega

theorem handling_doRead (c : ℕ) : (n.doRead c).handling k = n.handling k :=
  handling_append (.asyncRead c)

theorem handling_sendResponse (r : Response) : (n.sendResponse t r).handling k = n.handling k :=
  handling_append (.asyncWrite t.connection r)

theorem handling_onWrite (c : ℕ) (keepAlive : Option Bool) :
    (n.onWrite c keepAlive).handling k = n.handling k := by
  rcases keepAlive with _ | _ | _
  · rfl
  · rfl
  · exact handling_doRead c

/-- A call takes the callback. -/
theorem handling_enter (c : Call) :
    (n.enter t c).handling k = n.handling k + (if t.connection = k then 1 else 0) := by
  have spawned : ∀ f : Frame, f.answered = false →
      Network.handling { n with tasks := n.tasks ++ [(f, t)] } k =
        n.handling k + (if t.connection = k then 1 else 0) := by
    intro f hf
    show n.ops.countP _ + (n.tasks ++ [(f, t)]).countP _ = n.ops.countP _ + n.tasks.countP _ + _
    rw [countP_spawn]
    simp only [holds, hf, Bool.not_false, Bool.true_and, decide_eq_true_eq]
    omega
  cases c with
  | getAllItemDescription =>
    rw [Network.enter, handling_append]
    simp only [Op.isRequest, decide_eq_true_eq]
  | buy i c s => exact spawned _ rfl
  | remove i c s => exact spawned _ rfl
  | makeOrder o s => exact spawned _ rfl

/-- A move of an agent with which its callback does not run. -/
theorem handling_move {j : ℕ} {f f' : Frame} (m' : Memory) (hj : n.tasks[j]? = some (f, t))
    (same : t.connection = k → f'.answered = f.answered) :
    Network.handling { n with tasks := n.tasks.set j (f', t), memory := m' } k = n.handling k := by
  have count := countP_set (holds k) (f', t) hj
  have here : holds k (f', t) = holds k (f, t) := by
    by_cases hk : t.connection = k
    · rw [holds, holds, same hk]
    · simp only [holds, decide_eq_false hk, Bool.and_false]
  rw [here] at count
  show n.ops.countP _ + (n.tasks.set j (f', t)).countP _ = n.ops.countP _ + n.tasks.countP _
  omega

end Connections

/-! ## Unanswered requests are carried -/

/-- **The invariant**: where nobody has the callback of a request of a connection, the connection has no
unanswered request. -/
def Carried (n : Network) : Prop := ∀ k, n.handling k = 0 → Settled (n.history k)

section Step

variable {cfg : Config} {parse : String → Option Json} {undef : ℚ → SizeT} {n n' : Network} {t : Ticket}

/-- The connection of a response has no unanswered request, and the others are as they were. -/
theorem Carried.sendResponse (inv : ∀ k, k ≠ t.connection → n.handling k = 0 → Settled (n.history k))
    (r : Response) : Carried (n.sendResponse t r) := by
  intro k hk
  rw [handling_sendResponse] at hk
  by_cases h : k = t.connection
  · subst h
    exact settled_responded r
  · have same : (n.sendResponse t r).history k = n.history k := getD_modify_ne _ h
    rw [same]
    exact inv k h hk

/-- **The step lemma**: whoever gives up a callback has run it, or handed it on. -/
theorem Carried.step (inv : Carried n) {a : Occurrence}
    (hs : n.step cfg parse undef a = some n') : Carried n' := by
  -- other connections than that of the callback are not concerned
  have others {op : Op} (hop : op ∈ n.ops) {c : ℕ} (hc : ∀ k, op.isRequest k = true → k = c) (k : ℕ)
      (hk : k ≠ c) (h : (n.complete op).handling k = 0) : Settled (n.history k) := by
    apply inv k
    have count := handling_complete (k := k) hop
    rw [if_neg (mt (hc k) hk)] at count
    omega
  have kept {op : Op} (hop : op ∈ n.ops) (hno : ∀ k, op.isRequest k = false) :
      Carried (n.complete op) := by
    intro k h
    apply inv k
    have count := handling_complete (k := k) hop
    rw [hno k, if_neg Bool.false_ne_true] at count
    omega
  have ticket {t : Ticket} (k : ℕ) (h : decide (t.connection = k) = true) : k = t.connection :=
    (of_decide_eq_true h).symm
  cases networkStep_cases hs with
  | accept =>
    intro k hk
    rw [handling_doRead] at hk
    show Settled ((n.histories ++ [[]]).getD k [])
    rw [history_accept]
    exact inv k hk
  | @onRead c req pending =>
    have given := kept pending fun k => rfl
    cases req with
    | none => exact given
    | some req =>
      intro k hk
      have count : ((n.complete (.asyncRead c)).onRead c (some req)).handling k =
          (n.complete (.asyncRead c)).handling k + (if decide (c = k) = true then 1 else 0) :=
        handling_append _
      by_cases h : c = k
      · rw [if_pos (decide_eq_true h)] at count
        omega
      · have same : ((n.complete (.asyncRead c)).onRead c (some req)).history k = n.history k :=
          getD_modify_ne _ (Ne.symm h)
        rw [same]
        apply given k
        omega
  | @handle t front e pending _ _ _ =>
    cases e with
    | respond r => exact Carried.sendResponse (others pending ticket) r
    | handOver c =>
      intro k (hk : ((n.complete (.handleRequest t)).enter t c).handling k = 0)
      have count := handling_enter (n := n.complete (.handleRequest t)) (t := t) (k := k) c
      have same : ((n.complete (.handleRequest t)).enter t c).history k = n.history k := by
        cases c <;> rfl
      show Settled (((n.complete (.handleRequest t)).enter t c).history k)
      rw [same]
      have hne : k ≠ t.connection := by
        rintro rfl
        rw [if_pos rfl] at count
        omega
      apply others pending ticket k hne
      omega
  | describe pending _ => exact Carried.sendResponse (others pending ticket) _
  | onWrite keepAlive pending =>
    have given := kept pending fun k => rfl
    intro k hk
    rw [handling_onWrite] at hk
    have settled := given k hk
    rcases keepAlive with _ | _ | _ <;> exact settled
  | @move j f f' t m' hj hmove silent =>
    intro k hk
    rw [handling_move m' hj fun _ => ?_] at hk
    · exact inv k hk
    · cases hf : f.answered with
      | true => exact answered_keeps hmove hf
      | false =>
        rw [← Bool.not_eq_true]
        intro hf'
        obtain ⟨a, ha⟩ := answer_of_answered hmove hf hf'
        cases silent.symm.trans ha
  | @answer j f f' t m' a hj hmove _ =>
    apply Carried.sendResponse (n := { n with tasks := n.tasks.set j (f', t), memory := m' })
    intro k hk h
    rw [handling_move m' hj fun e => absurd e.symm hk] at h
    exact inv k h

end Step

/-! ## The responses on a connection -/

/-- The responses are those to the requests, each answered once and in their order; the request read
last may be unanswered. -/
theorem TakeTurns.numbers {k : ℕ} {h : List Event} (turns : TakeTurns k h) :
    (Settled h → h.filterMap Event.number? = (List.range' 1 (requests h)).reverse) ∧
      (¬ Settled h → h.filterMap Event.number? = (List.range' 1 (requests h - 1)).reverse) := by
  induction h with
  | nil =>
    constructor
    · intro _
      rfl
    · intro h
      exact absurd trivial h
  | cons e h ih =>
    obtain ⟨settled, unsettled⟩ := ih turns.tail
    cases e with
    | received req =>
      constructor
      · intro h
        exact h.elim
      · intro _
        rw [requests_received, Nat.add_sub_cancel]
        exact settled turns.1
    | responded t r =>
      constructor
      · intro _
        obtain ⟨_, ⟨earlier, rfl, hnumber⟩, _⟩ := turns
        have before := unsettled id
        rw [requests_responded, requests_received] at *
        rw [List.range'_1_concat, List.reverse_append]
        show t.number :: _ = _
        rw [before, hnumber, Nat.add_sub_cancel, Nat.add_comm]
        rfl
      · intro h
        exact absurd trivial h

/-! ## Every run -/

section Runs

variable {cfg : Config} {parse : String → Option Json} {undef : ℚ → SizeT}
  {C : Network → Occurrence → Prop} {n : Network}

/-- **The run lemma**. -/
theorem carried (h : Reachable (networkMachine cfg parse undef) C n) : Carried n := by
  refine h.invariant ?_ fun _ _ _ _ inv _ hs => inv.step hs
  rintro n rfl k -
  exact trivial

/-- A connection with a callback of one of its requests has an unanswered request. -/
theorem not_settled_of_handling (inv : InPairs n) {k : ℕ} (h : n.handling k ≠ 0) :
    ¬ Settled (n.history k) := by
  have unsettled {t : Ticket} {h : List Event} (own : n.histories[t.connection]? = some h)
      (awaits : Awaits t h) : ¬ Settled (n.history t.connection) := by
    obtain ⟨_, rfl, _⟩ := awaits
    rw [history_of_getElem? own]
    exact id
  rcases Nat.eq_zero_or_pos (n.ops.countP (Op.isRequest k)) with hops | hops
  · have htasks : 0 < n.tasks.countP (holds k) := by
      unfold Network.handling at h
      omega
    obtain ⟨⟨f, t⟩, hp, hholds⟩ := List.countP_pos_iff.mp htasks
    simp only [holds, Bool.and_eq_true, Bool.not_eq_true', decide_eq_true_eq] at hholds
    obtain ⟨hopen, rfl⟩ := hholds
    obtain ⟨_, own, awaits⟩ := inv.tasks _ hp hopen
    exact unsettled own awaits
  · obtain ⟨op, hop, hrequest⟩ := List.countP_pos_iff.mp hops
    obtain ⟨h, own, fits⟩ := inv.ops op hop
    cases op with
    | handleRequest t =>
      obtain rfl := of_decide_eq_true hrequest
      exact unsettled own fits
    | describe t =>
      obtain rfl := of_decide_eq_true hrequest
      exact unsettled own fits
    | asyncRead _ => cases hrequest
    | asyncWrite _ _ => cases hrequest

/-- Where nobody has the callback of a request of the connection, and nowhere else, there is no
unanswered request. -/
theorem handling_iff (h : Reachable (networkMachine cfg parse undef) C n) (k : ℕ) :
    n.handling k = 0 ↔ Settled (n.history k) := by
  constructor
  · exact carried h k
  · intro settled
    by_contra hne
    exact not_settled_of_handling (inPairs h) hne settled

theorem handling_le (h : Reachable (networkMachine cfg parse undef) C n) (k : ℕ) :
    n.handling k ≤ 1 := by
  have total := (inPairs h).one k
  rw [n.outstanding_eq k] at total
  omega

theorem takeTurns (h : Reachable (networkMachine cfg parse undef) C n) (k : ℕ) :
    TakeTurns k (n.history k) := by
  rw [Network.history, List.getD_eq_getElem?_getD]
  cases hk : n.histories[k]? with
  | none => trivial
  | some events => exact (inPairs h).turns k events hk

theorem handling_one_iff (h : Reachable (networkMachine cfg parse undef) C n) (k : ℕ) :
    n.handling k = 1 ↔ ¬ Settled (n.history k) := by
  have one := handling_le h k
  rw [← handling_iff h k]
  omega

/-- The responses on a connection are those to the requests that nobody has the callback of. -/
theorem numbers_of_reachable (h : Reachable (networkMachine cfg parse undef) C n) (k : ℕ) :
    (n.history k).filterMap Event.number? =
      (List.range' 1 (requests (n.history k) - n.handling k)).reverse := by
  obtain ⟨settled, unsettled⟩ := (takeTurns h k).numbers
  by_cases hk : Settled (n.history k)
  · rw [(handling_iff h k).mpr hk]
    exact settled hk
  · rw [(handling_one_iff h k).mpr hk]
    exact unsettled hk

theorem requests_pos {events : List Event} (h : ¬ Settled events) : 1 ≤ requests events := by
  cases events with
  | nil => exact absurd trivial h
  | cons e events =>
    cases e with
    | received req =>
      rw [requests_received]
      exact Nat.le_add_left 1 _
    | responded t r => exact absurd trivial h

/-- **No request is lost, and none is answered twice**: on every connection, the responses are those to
the requests in their order, but for the request read last if its callback is still with the handler, a
task of `GetAllItemDescription` or an agent of the server, and it is with one of them only. -/
theorem custody (h : Reachable (networkMachine cfg parse undef) C n) (k : ℕ) :
    n.handling k ≤ 1 ∧ n.handling k ≤ requests (n.history k) ∧
      (n.history k).filterMap Event.number? =
        (List.range' 1 (requests (n.history k) - n.handling k)).reverse := by
  refine ⟨handling_le h k, ?_, numbers_of_reachable h k⟩
  by_cases hk : Settled (n.history k)
  · rw [(handling_iff h k).mpr hk]
    exact Nat.zero_le _
  · rw [(handling_one_iff h k).mpr hk]
    exact requests_pos hk

/-- A connection asks what there is, and then buys a burger; the callback of that is with an agent. -/
theorem custody_diner :
    let get : Request := { method := .get, target := "/get_description", body := "" }
    ∃ n, (networkMachine .diner parseIntegers fun _ => 0).run Config.diner.network
        ([.accept, .onRead 0 (some get), .handle ⟨0, 1, get⟩, .describe ⟨0, 1, get⟩,
          .onWrite 0 (callback (getAllItemDescription .burger)) (some true),
          .onRead 0 (some burgerRequest), .handle ⟨0, 2, burgerRequest⟩] ++
            List.replicate 7 (.run 0)) = some n ∧
      n.handling 0 = 1 ∧ n.handling 0 ≤ 1 ∧ n.handling 0 ≤ requests (n.history 0) ∧
        (n.history 0).filterMap Event.number? =
          (List.range' 1 (requests (n.history 0) - n.handling 0)).reverse := by
  intro get
  have run : ((networkMachine .diner parseIntegers fun _ => 0).run Config.diner.network
      ([.accept, .onRead 0 (some get), .handle ⟨0, 1, get⟩, .describe ⟨0, 1, get⟩,
        .onWrite 0 (callback (getAllItemDescription .burger)) (some true),
        .onRead 0 (some burgerRequest), .handle ⟨0, 2, burgerRequest⟩] ++
          List.replicate 7 (.run 0))).map (fun n => n.handling 0) = some 1 := by
    decide +kernel
  obtain ⟨n, hn, hone⟩ := Option.map_eq_some_iff.mp run
  exact ⟨n, hn, hone, custody ((Reachable.init rfl).leads (Machine.run_leads _ hn)) 0⟩

end Runs

end TcpServer
