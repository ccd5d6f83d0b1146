import TcpServer.ControllerLayer.Message
import TcpServer.Laws.Custody

/-!
# One request a connection

`on_write` goes on to the next `do_read` only if the response that was written keeps the connection. No
message of the program does (`Beast.Documented.closes`): a connection is read from once, whatever its
client sends (`one_request_each`).

The argument is that a read is only ever pending where nothing has happened yet (`ReadOnce.fresh`). The
server is called at most as often as requests were read (`ReadOnce.calls`), since a callback that was
handed over is not handed over again.
-/

namespace TcpServer

open Interleaving RequestHandler Transition

/-! ## The calls of a connection -/

/-- The request is with the handler. -/
def Op.isHandle (k : ℕ) : Op → Bool
  | .handleRequest t => decide (t.connection = k)
  | _ => false

/-- The agent has or had the callback of a request of the connection. -/
def calledBy (k : ℕ) (p : Frame × Ticket) : Bool := decide (p.2.connection = k)

/-- The calls the connection has made of the operations with agents, and those its handler may make. -/
def Network.called (n : Network) (k : ℕ) : ℕ :=
  n.tasks.countP (calledBy k) + n.ops.countP (Op.isHandle k)

section Calls

variable {n : Network} {k : ℕ} {t : Ticket}

theorem called_complete {op : Op} (hop : op ∈ n.ops) :
    (n.complete op).called k + (if op.isHandle k then 1 else 0) = n.called k := by
  have count := countP_complete (Op.isHandle k) hop
  show n.tasks.countP _ + (n.complete op).ops.countP _ + _ = n.tasks.countP _ + n.ops.countP _
  omega

theorem called_append (op : Op) :
    Network.called { n with ops := n.ops ++ [op] } k =
      n.called k + (if op.isHandle k then 1 else 0) := by
  show n.tasks.countP _ + (n.ops ++ [op]).countP _ = n.tasks.countP _ + n.ops.countP _ + _
  rw [List.countP_append, List.countP_singleton]
  omega

theorem called_enter (c : Call) :
    (n.enter t c).called k ≤ n.called k + (if t.connection = k then 1 else 0) := by
  have spawned : ∀ f : Frame, Network.called { n with tasks := n.tasks ++ [(f, t)] } k =
      n.called k + (if t.connection = k then 1 else 0) := by
    intro f
    show (n.tasks ++ [(f, t)]).countP _ + n.ops.countP _ = n.tasks.countP _ + n.ops.countP _ + _
    rw [countP_spawn]
    simp only [calledBy, decide_eq_true_eq]
    omega
  cases c with
  | getAllItemDescription =>
    rw [Network.enter, called_append]
    exact Nat.add_le_add_left (Nat.zero_le _) _
  | buy i c s => exact le_of_eq (spawned _)
  | remove i c s => exact le_of_eq (spawned _)
  | makeOrder o s => exact le_of_eq (spawned _)

/-- An agent keeps its callback. -/
theorem called_move {j : ℕ} {f f' : Frame} (m' : Memory) (hj : n.tasks[j]? = some (f, t)) :
    Network.called { n with tasks := n.tasks.set j (f', t), memory := m' } k = n.called k := by
  have count := countP_set (calledBy k) (f', t) hj
  have here : calledBy k (f', t) = calledBy k (f, t) := rfl
  rw [here] at count
  show (n.tasks.set j (f', t)).countP _ + n.ops.countP _ = n.tasks.countP _ + n.ops.countP _
  omega

/-- The requests read are those read before the response. -/
theorem requests_sendResponse (r : Response) :
    requests ((n.sendResponse t r).history k) = requests (n.history k) := by
  show requests ((n.histories.modify t.connection _).getD k []) = requests (n.histories.getD k [])
  rw [List.getD_eq_getElem?_getD, List.getD_eq_getElem?_getD, List.getElem?_modify]
  cases n.histories[k]? with
  | none => rfl
  | some h =>
    by_cases heq : t.connection = k
    · simp only [if_pos heq, Option.getD_some]
      exact requests_responded t r h
    · simp only [if_neg heq, Option.getD_some]
      rfl

end Calls

/-! ## Reads -/

/-- **The invariant**: a read is only pending on a connection of which nothing was read. -/
structure ReadOnce (n : Network) : Prop where
  fresh : ∀ k, .asyncRead k ∈ n.ops → n.history k = []
  once : ∀ k, requests (n.history k) ≤ 1
  calls : ∀ k, n.called k ≤ requests (n.history k)

section Step

variable {n : Network} {t : Ticket}

theorem ReadOnce.complete (inv : ReadOnce n) {op : Op} (hop : op ∈ n.ops) :
    ReadOnce (n.complete op) where
  fresh k hk := inv.fresh k (List.mem_of_mem_erase hk)
  once := inv.once
  calls k := le_trans (Nat.le_of_add_right_le (le_of_eq (called_complete hop))) (inv.calls k)

/-- A response is to a request, so no read is pending on its connection. -/
theorem ReadOnce.sendResponse (inv : ReadOnce n) {h : List Event}
    (own : n.histories[t.connection]? = some h) (awaits : Awaits t h) (r : Response) :
    ReadOnce (n.sendResponse t r) where
  fresh k hk := by
    rcases List.mem_append.mp hk with hk | hk
    · have hne : k ≠ t.connection := by
        intro heq
        obtain ⟨_, rfl, _⟩ := awaits
        have hempty := inv.fresh k hk
        rw [heq, history_of_getElem? own] at hempty
        cases hempty
      show (n.histories.modify t.connection _).getD k [] = []
      rw [getD_modify_ne _ hne]
      exact inv.fresh k hk
    · cases List.mem_singleton.mp hk
  once k := by
    rw [requests_sendResponse]
    exact inv.once k
  calls k := by
    rw [requests_sendResponse]
    have count : (n.sendResponse t r).called k = n.called k := called_append (.asyncWrite t.connection r)
    rw [count]
    exact inv.calls k

/-- A move of an agent is none of a connection. -/
theorem ReadOnce.move (inv : ReadOnce n) {j : ℕ} {f f' : Frame} (m' : Memory)
    (hj : n.tasks[j]? = some (f, t)) :
    ReadOnce { n with tasks := n.tasks.set j (f', t), memory := m' } where
  fresh := inv.fresh
  once := inv.once
  calls k := by
    rw [called_move m' hj]
    exact inv.calls k

/-- The first request of a connection is the only one. -/
theorem ReadOnce.onRead (inv : ReadOnce n) {c : ℕ} (pending : .asyncRead c ∈ n.ops)
    (own : n.histories[c]? = some []) (free : (n.complete (.asyncRead c)).outstanding c = 0)
    (req : Request) : ReadOnce ((n.complete (.asyncRead c)).onRead c (some req)) := by
  have given := inv.complete pending
  have here : ((n.complete (.asyncRead c)).onRead c (some req)).history c = [.received req] :=
    history_of_getElem? (histories_own (n := n.complete (.asyncRead c)) _ own)
  have there : ∀ k, k ≠ c →
      ((n.complete (.asyncRead c)).onRead c (some req)).history k = n.history k :=
    fun k hk => getD_modify_ne _ hk
  refine ⟨fun k hk => ?_, fun k => ?_, fun k => ?_⟩
  · rcases List.mem_append.mp hk with hk | hk
    · rw [there k (free_ops free hk)]
      exact given.fresh k hk
    · cases List.mem_singleton.mp hk
  · by_cases hk : k = c
    · rw [hk, here]
      exact le_refl 1
    · rw [there k hk]
      exact inv.once k
  · have count : ((n.complete (.asyncRead c)).onRead c (some req)).called k =
        (n.complete (.asyncRead c)).called k + (if decide (c = k) = true then 1 else 0) :=
      called_append _
    have calls := given.calls k
    rw [count]
    by_cases hk : k = c
    · subst hk
      have before : (n.complete (.asyncRead k)).history k = [] := history_of_getElem? own
      rw [before] at calls
      rw [here, if_pos (decide_eq_true rfl)]
      exact Nat.succ_le_succ calls
    · rw [there k hk, decide_eq_false (Ne.symm hk), if_neg Bool.false_ne_true]
      exact calls

/-- The handler hands the callback over once. -/
theorem ReadOnce.handOver (inv : ReadOnce n) (pending : .handleRequest t ∈ n.ops) (c : Call) :
    ReadOnce ((n.complete (.handleRequest t)).enter t c) := by
  have given := inv.complete pending
  have same : ∀ k, ((n.complete (.handleRequest t)).enter t c).history k = n.history k := by
    intro k
    cases c <;> rfl
  refine ⟨fun k hk => ?_, fun k => ?_, fun k => ?_⟩
  · rw [same]
    apply given.fresh
    cases c with
    | getAllItemDescription =>
      rcases List.mem_append.mp hk with hk | hk
      · exact hk
      · cases List.mem_singleton.mp hk
    | _ => exact hk
  · rw [same]
    exact inv.once k
  · have before := called_complete (k := k) pending
    have after := called_enter (n := n.complete (.handleRequest t)) (t := t) (k := k) c
    have calls := inv.calls k
    simp only [Op.isHandle, decide_eq_true_eq] at before
    rw [same]
    omega

variable {cfg : Config} {parse : String → Option Json} {undef : ℚ → SizeT} {n' : Network}
  {beast : Beast}

/-- **The step lemma**: only `accept` starts a read, for the flag `on_write` gets is never set. -/
theorem ReadOnce.step (doc : beast.Documented) (pairs : InPairs n) (inv : ReadOnce n)
    {a : Occurrence} (flagged : beast.Flagged n a) (hs : n.step cfg parse undef a = some n') :
    ReadOnce n' := by
  cases networkStep_cases hs with
  | accept =>
    have same : ∀ k, ({ n with histories := n.histories ++ [[]] } : Network).history k =
        n.history k := history_accept n
    refine ⟨fun k hk => ?_, fun k => ?_, fun k => ?_⟩
    · refine (same k).trans ?_
      rcases List.mem_append.mp hk with hk | hk
      · exact inv.fresh k hk
      · obtain rfl : k = n.histories.length := Op.asyncRead.inj (List.mem_singleton.mp hk)
        rw [Network.history, List.getD_eq_getElem?_getD, List.getElem?_eq_none (le_refl _)]
        rfl
    · exact (congrArg requests (same k)).trans_le (inv.once k)
    · refine le_of_le_of_eq (le_of_eq_of_le ?_ (inv.calls k)) (congrArg requests (same k)).symm
      exact called_append (.asyncRead n.histories.length)
  | @onRead c req pending =>
    cases req with
    | none => exact inv.complete pending
    | some req =>
      obtain ⟨h, own, _⟩ := pairs.ops _ pending
      obtain rfl : h = [] := (history_of_getElem? own).symm.trans (inv.fresh c pending)
      exact inv.onRead pending own (pairs.complete pending).2 req
  | @handle t front e pending _ _ _ =>
    obtain ⟨h, own, awaits⟩ := pairs.ops _ pending
    cases e with
    | respond r => exact (inv.complete pending).sendResponse own awaits r
    | handOver c => exact inv.handOver pending c
  | describe pending _ =>
    obtain ⟨h, own, awaits⟩ := pairs.ops _ pending
    exact (inv.complete pending).sendResponse own awaits _
  | @onWrite k r keepAlive pending =>
    have given := inv.complete pending
    cases keepAlive with
    | none => exact given
    | some keepAlive =>
      obtain rfl : keepAlive = false := Eq.trans flagged (doc.closes r)
      exact given
  | move hj _ _ => exact inv.move _ hj
  | @answer j f f' t m' a hj hmove answers =>
    obtain ⟨hopen, _⟩ := answered_of_answer hmove answers
    obtain ⟨h, own, awaits⟩ := pairs.tasks _ (List.mem_of_getElem? hj) hopen
    exact (inv.move m' hj).sendResponse own awaits _

end Step

/-! ## Every run -/

/-- What can have happened where at most one request was read. -/
theorem TakeTurns.of_once {k : ℕ} {h : List Event} (turns : TakeTurns k h) (once : requests h ≤ 1) :
    h = [] ∨ (∃ req, h = [.received req]) ∨
      ∃ req r, h = [.responded ⟨k, 1, req⟩ r, .received req] := by
  -- what goes before a request that was read holds no request, and so nothing
  have nothing {req : Request} {earlier : List Event} (turns : TakeTurns k (.received req :: earlier))
      (once : requests (.received req :: earlier) ≤ 1) : earlier = [] := by
    rw [requests_received] at once
    cases earlier with
    | nil => rfl
    | cons e earlier =>
      cases e with
      | received _ => exact turns.1.elim
      | responded t r =>
        obtain ⟨_, _, ⟨_, rfl, _⟩, _⟩ := turns
        rw [requests_responded, requests_received] at once
        omega
  cases h with
  | nil => exact .inl rfl
  | cons e h =>
    cases e with
    | received req =>
      obtain rfl := nothing turns once
      exact .inr (.inl ⟨req, rfl⟩)
    | responded t r =>
      obtain ⟨connection, ⟨earlier, rfl, number⟩, before⟩ := turns
      rw [requests_responded] at once
      obtain rfl := nothing before once
      obtain ⟨_, _, req⟩ := t
      obtain rfl := connection
      obtain rfl : _ = 1 := number
      exact .inr (.inr ⟨req, r, rfl⟩)

section Runs

variable {cfg : Config} {parse : String → Option Json} {undef : ℚ → SizeT} {beast : Beast}
  {n : Network}

/-- **The run lemma**. -/
theorem readOnce (doc : beast.Documented)
    (h : Reachable (networkMachine cfg parse undef) beast.Flagged n) : ReadOnce n := by
  refine h.invariant ?_ fun n _ _ hr inv flagged hs => inv.step doc (inPairs hr) flagged hs
  rintro n rfl
  exact ⟨(fun k hk => nomatch hk), (fun _ => Nat.zero_le 1), fun _ => le_refl 0⟩

/-- **One request a connection**: nothing has happened on it, or one request was read, or that and its
response was written. Once a request was read no other read is started, and there is at most one call of
an operation with an agent for it. -/
theorem one_request_each (doc : beast.Documented)
    (h : Reachable (networkMachine cfg parse undef) beast.Flagged n) (k : ℕ) :
    (n.history k = [] ∨ (∃ req, n.history k = [.received req]) ∨
        ∃ req r, n.history k = [.responded ⟨k, 1, req⟩ r, .received req]) ∧
      (n.history k ≠ [] → n.reading k = 0) ∧ n.tasks.countP (calledBy k) ≤ 1 := by
  have inv := readOnce doc h
  refine ⟨(takeTurns h k).of_once (inv.once k), fun hne => ?_, ?_⟩
  · refine List.countP_eq_zero.mpr fun op hop hread => ?_
    cases op with
    | asyncRead c =>
      obtain rfl := of_decide_eq_true hread
      exact hne (inv.fresh c hop)
    | _ => cases hread
  · exact (Nat.le_of_add_right_le (inv.calls k)).trans (inv.once k)

/-- Header fields, and one of them set. -/
def setField (fields : Field → Option String) (field : Field) (value : String) :
    Field → Option String :=
  fun other => if other = field then some value else fields other

theorem setField_of_ne (fields : Field → Option String) {field other : Field} (value : String)
    (hne : other ≠ field) : setField fields field value other = fields other :=
  if_neg hne

/-- A library that puts the length of the body into a message, and reads one token of `Connection`. -/
def Beast.plain : Beast where
  versionString := "Boost.Beast"
  Fields := Field → Option String
  noFields _ := none
  set := setField
  find? fields := fields
  preparePayload m :=
    { m with fields := setField m.fields .contentLength (toString m.body.utf8ByteSize) }
  keepAlive m :=
    if m.version < 11 then decide (m.fields .connection = some "keep-alive")
    else decide (m.fields .connection ≠ some "close")

theorem Beast.documented_plain : Beast.plain.Documented where
  find?_noFields _ := rfl
  find?_set_ne fields _ value _ hne := setField_of_ne fields value hne
  preparePayload_version _ := rfl
  preparePayload_connection m :=
    have hne : Field.connection ≠ Field.contentLength := by decide
    setField_of_ne m.fields (toString m.body.utf8ByteSize) hne
  keepAlive_http10 m version unset := by
    have here : m.fields Field.connection = none := unset
    unfold Beast.plain
    simp only [if_pos version, here, reduceCtorEq, decide_false]

/-- A connection asks what there is, and gets its answer; then it is closed. -/
theorem one_request_each_diner :
    let get : Request := { method := .get, target := "/get_description", body := "" }
    ∃ n, (networkMachine .diner parseIntegers fun _ => 0).runIf Beast.plain.Flagged
        Config.diner.network
        [.accept, .onRead 0 (some get), .handle ⟨0, 1, get⟩, .describe ⟨0, 1, get⟩,
          .onWrite 0 (callback (getAllItemDescription .burger)) (some false)] = some n ∧
      requests (n.history 0) = 1 ∧
      (n.history 0 = [] ∨ (∃ req, n.history 0 = [.received req]) ∨
        ∃ req r, n.history 0 = [.responded ⟨0, 1, req⟩ r, .received req]) ∧
      (n.history 0 ≠ [] → n.reading 0 = 0) ∧ n.tasks.countP (calledBy 0) ≤ 1 := by
  intro get
  have run : ((networkMachine .diner parseIntegers fun _ => 0).runIf Beast.plain.Flagged
      Config.diner.network
      [.accept, .onRead 0 (some get), .handle ⟨0, 1, get⟩, .describe ⟨0, 1, get⟩,
        .onWrite 0 (callback (getAllItemDescription .burger)) (some false)]).map
      (fun n => requests (n.history 0)) = some 1 := by
    decide
  obtain ⟨n, hn, one⟩ := Option.map_eq_some_iff.mp run
  have reached := (Reachable.init rfl).leads (Machine.runIf_leads _ hn)
  exact ⟨n, hn, one, one_request_each Beast.documented_plain reached 0⟩

end Runs

end TcpServer
