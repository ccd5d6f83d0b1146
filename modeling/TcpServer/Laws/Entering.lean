import TcpServer.ControllerLayer.Listener
import TcpServer.Laws.Draining
import TcpServer.Laws.Wedge

/-!
# Getting through `CheckSessionIdSize`

A call is in its caller's thread until its task is posted, and one at a time is: the handler keeps
`server_mutex` for as long. On its way it has the table's lock alone, in `CheckSessionIdSize`. What can
keep it there is an order at a gate, which shares that lock.

`Taken` is what the server keeps while the table takes the session of every call: nothing is thrown, no
access is out of range, and a call gets through (`none_in_handler`) unless it is behind an order that has
got there before it and whose gate does not open (`Passable`). Such an order waits for good, and nobody
enters `CheckSessionIdSize` any more (`AtShutGate.step`, `AtShutGate.called`).
-/

namespace TcpServer

open Interleaving Transition

/-! ## Gates that will open -/

/-- Has got the table's lock in `CheckSessionIdSize`. -/
def CartPc.entered (pc : CartPc) : Bool := decide (pc ≠ .called)

/-- Has got the table's lock in `CheckSessionIdSize`, and has not passed its gate. -/
def OrderPc.underWay : OrderPc → Bool
  | .resizing | .posting | .queued | .started | .gate => true
  | _ => false

/-- The gate of the session is open, or a `Buy` or `Remove` of the session has got into
`CheckSessionIdSize`. -/
def WillOpen (s : ServerState) (σ : SessionId) : Prop :=
  s.memory.table.flag σ = true ∨ s.carts CartPc.entered σ ≠ 0

instance (s : ServerState) (σ : SessionId) : Decidable (WillOpen s σ) :=
  inferInstanceAs (Decidable (_ ∨ _))

/-- The orders at points of a kind have before them gates that will open. -/
def OrdersOpen (p : OrderPc → Bool) (s : ServerState) : Prop :=
  ∀ (j : ℕ) (c : OrderCall) (pc : OrderPc), s.agents[j]? = some (.order c pc) → p pc = true →
    WillOpen s c.sessionId

/-- Somebody is about to enter `CheckSessionIdSize`. -/
def SomeCalled (s : ServerState) : Prop :=
  ∃ (j : ℕ) (f : Frame), s.agents[j]? = some f ∧ f.isCalled = true

/-- Whoever is about to enter `CheckSessionIdSize` is not behind an order that waits for good. -/
def Passable (s : ServerState) : Prop := SomeCalled s → OrdersOpen OrderPc.underWay s

theorem beforeGate_of_underWay {pc : OrderPc} (h : pc.underWay = true) : pc.beforeGate = true := by
  cases pc <;> first | rfl | cases h

theorem underWay_of_beforeGate {pc : OrderPc} (h : pc.beforeGate = true) (hpc : pc ≠ .called) :
    pc.underWay = true := by
  cases pc with
  | called => exact absurd rfl hpc
  | _ => first | rfl | cases h

section Gates

variable {cfg : Config} {s s' : ServerState} {k : ℕ} {σ : SessionId}

/-- Whoever moves has got into `CheckSessionIdSize` then. -/
theorem CartStep.entered {c : CartCall} {pc pc' : CartPc} {m' : Memory}
    (h : CartStep cfg s c pc pc' m') : pc'.entered = true := by
  cases h <;> rfl

theorem WillOpen.move (will : WillOpen s σ) (count : CountExact s)
    (h : (server cfg).step s (.run k) = some s') : WillOpen s' σ := by
  rcases will with hopen | hentered
  · exact .inl (flag_step count h hopen)
  · have grows := carts_le_step (p := CartPc.entered) rfl
      (fun c pc pc' m' hstep _ => hstep.entered) h σ
    exact .inr (by omega)

/-- A gate that will not open stays so, unless an operation of the session enters. -/
theorem not_willOpen_step {a : Action Frame} (shut : ¬ WillOpen s σ) (count : CountExact s)
    (enters : ∀ j c, a = .run j → s.agents[j]? = some (.cart c .called) → s.tableFree = true →
      c.sessionId ≠ σ)
    (h : (server cfg).step s a = some s') : ¬ WillOpen s' σ := by
  obtain ⟨hflag, hnone⟩ := not_or.mp shut
  rw [Bool.not_eq_true] at hflag
  rw [not_not] at hnone
  rintro (hopen | hentered)
  · obtain ⟨j, b, hj, rfl⟩ := opening_of_flag count h hflag hopen
    exact carts_ne_zero hj rfl hnone
  · obtain ⟨j, c, pc, hj, rfl, hpc⟩ := exists_of_carts hentered
    rcases cart_came h hj with hj₀ | ⟨pc₀, m', ha, hj₀, hstep⟩ | rfl
    · exact carts_ne_zero hj₀ hpc hnone
    · by_cases hcalled : pc₀ = .called
      · subst hcalled
        cases hstep with
        | enter free => exact enters j c ha hj₀ free rfl
      · exact carts_ne_zero hj₀ (decide_eq_true hcalled) hnone
    · cases hpc

/-- Orders do not come back to before their gates. -/
theorem OrdersOpen.move (opens : OrdersOpen OrderPc.beforeGate s) (count : CountExact s)
    (h : (server cfg).step s (.run k) = some s') : OrdersOpen OrderPc.beforeGate s' := by
  intro j c pc hj hpc
  rcases order_moved h hj with hj | ⟨pc₀, _, hj, hstep⟩
  · exact (opens j c pc hj hpc).move count h
  · exact (opens j c pc₀ hj (hstep.beforeGate hpc)).move count h

end Gates

/-! ## Calls whose sessions are taken -/

/-- Before the end of `CheckSessionIdSize`. -/
def Frame.beforeResize : Frame → Bool
  | .cart _ pc => match pc with
    | .called | .resizing => true
    | _ => false
  | .order _ pc => match pc with
    | .called | .resizing => true
    | _ => false

/-- The table takes the session of every call: those that are through are in the table, and one that is
not will be. Nothing has gone wrong so far. Of one order, while it is in its caller's thread, less is
asked: `CheckSessionIdSize` returns, but its session need not be in the table then. -/
structure Taken (cfg : Config) (late : Option ℕ) (s : ServerState) : Prop where
  placed : ∃ n, s.memory.table.Sized n ∧ ∀ (j : ℕ) (f : Frame), s.agents[j]? = some f →
    late ≠ some j → f.pastResize = true → f.sessionId.toNat < n
  defined : s.memory.undefined = false
  returns : ∀ (j : ℕ) (c : CartCall) (pc : CartPc), s.agents[j]? = some (.cart c pc) →
    c.throws = false
  escapes : ∀ (j : ℕ) (f : Frame), s.agents[j]? = some f → f.escaping = false
  admits : ∀ (j : ℕ) (f : Frame), s.agents[j]? = some f → late ≠ some j → f.beforeResize = true →
    s.memory.table.Admits cfg.alloc f.sessionId
  one : Exclusive Frame.submitting s.agents
  late : ∀ j, late = some j → ∃ c pc, s.agents[j]? = some (.order c pc) ∧
    (Frame.order c pc).submitting = true ∧
      ((Frame.order c pc).beforeResize = true → s.memory.table.Resizes cfg.alloc c.sessionId)

/-- No call is in its caller's thread any more, and no exception on its way there. -/
def NoneInHandler (s : ServerState) : Prop :=
  ∀ (j : ℕ) (f : Frame), s.agents[j]? = some f → f.inHandler = false

section Taken

variable {cfg : Config} {s s' : ServerState} {late : Option ℕ} {k : ℕ}

theorem submitting_of_beforeResize {f : Frame} (h : f.beforeResize = true) : f.submitting = true := by
  cases f with
  | cart c pc => cases pc <;> first | rfl | cases h
  | order c pc => cases pc <;> first | rfl | cases h

theorem submitting_of_holdsTable {f : Frame} (h : f.holdsTable = true) : f.submitting = true := by
  cases f with
  | cart c pc =>
    obtain rfl := of_decide_eq_true h
    rfl
  | order c pc =>
    obtain rfl := of_decide_eq_true h
    rfl

theorem submitting_of_isCalled {f : Frame} (h : f.isCalled = true) : f.submitting = true := by
  cases f with
  | cart c pc =>
    obtain rfl := of_decide_eq_true h
    rfl
  | order c pc =>
    obtain rfl := of_decide_eq_true h
    rfl

/-- Whether the table takes a session depends on the length of the vectors. -/
theorem Table.Sized.admits_congr {t t' : Table} {n : ℕ} {σ : SessionId} {alloc : ℕ → Bool}
    (h : t.Sized n) (h' : t'.Sized n) : t.Admits alloc σ ↔ t'.Admits alloc σ := by
  rw [Table.Admits, Table.Admits, h.bools, h'.bools]

theorem Table.Sized.resizes_congr {t t' : Table} {n : ℕ} {σ : SessionId} {alloc : ℕ → Bool}
    (h : t.Sized n) (h' : t'.Sized n) : t.Resizes alloc σ ↔ t'.Resizes alloc σ := by
  rw [Table.Resizes, Table.Resizes, h.bools, h'.bools]

/-- An agent other than the one that submits moves, or that one without changing the vectors' length. -/
theorem Taken.set (T : Taken cfg late s) {f f' : Frame} {m' : Memory} (hk : s.agents[k]? = some f)
    (session : f'.sessionId = f.sessionId)
    (length : ∀ n, s.memory.table.Sized n → m'.table.Sized n)
    (defined : m'.undefined = s.memory.undefined)
    (returns : ∀ c pc, f' = .cart c pc → ∃ pc₀, f = .cart c pc₀)
    (past : f'.pastResize = true → f.pastResize = true)
    (before : f'.beforeResize = true → f.beforeResize = true)
    (submits : f'.submitting = true → f.submitting = true) (escapes : f'.escaping = false)
    (stays : late = some k → f'.submitting = true ∧ ∃ c pc, f' = .order c pc) :
    Taken cfg late { agents := s.agents.set k f', memory := m' } := by
  obtain ⟨n, hn, placed⟩ := T.placed
  have hn' := length n hn
  constructor
  · refine ⟨n, hn', fun j g hj hlate hg => ?_⟩
    rcases getElem?_set_cases hj with ⟨rfl, rfl⟩ | ⟨_, hj⟩
    · rw [session]
      exact placed _ f hk hlate (past hg)
    · exact placed j g hj hlate hg
  · exact defined.trans T.defined
  · intro j c pc hj
    rcases getElem?_set_cases hj with ⟨rfl, heq⟩ | ⟨_, hj⟩
    · obtain ⟨pc₀, rfl⟩ := returns c pc heq.symm
      exact T.returns _ c pc₀ hk
    · exact T.returns j c pc hj
  · intro j g hj
    rcases getElem?_set_cases hj with ⟨rfl, rfl⟩ | ⟨_, hj⟩
    · exact escapes
    · exact T.escapes j g hj
  · intro j g hj hlate hg
    rw [hn'.admits_congr hn]
    rcases getElem?_set_cases hj with ⟨rfl, rfl⟩ | ⟨_, hj⟩
    · rw [session]
      exact T.admits _ f hk hlate (before hg)
    · exact T.admits j g hj hlate hg
  · exact T.one.set hk fun h => .inl (submits h)
  · intro j hj
    obtain ⟨c, pc, hj', hsubmits, hresizes⟩ := T.late j hj
    by_cases hjk : j = k
    · subst hjk
      obtain ⟨hsubmits', c', pc', rfl⟩ := stays hj
      obtain rfl := Option.some.inj (hk.symm.trans hj')
      refine ⟨c', pc', getElem?_set_self hk, hsubmits', fun hbefore => ?_⟩
      rw [hn'.resizes_congr hn]
      have same : c'.sessionId = c.sessionId := session
      rw [same]
      exact hresizes (before hbefore)
    · refine ⟨c, pc, (getElem?_set_other hjk).trans hj', hsubmits, fun hbefore => ?_⟩
      rw [hn'.resizes_congr hn]
      exact hresizes hbefore

/-- The agent that submits gets through `CheckSessionIdSize`. -/
theorem Taken.resize (T : Taken cfg late s) {f f' : Frame} {t : Table} (hk : s.agents[k]? = some f)
    (session : f'.sessionId = f.sessionId)
    (returns : ∀ c pc, f' = .cart c pc → ∃ pc₀, f = .cart c pc₀)
    (hsubmits : f.submitting = true) (hbefore : f.beforeResize = true)
    (after : f'.beforeResize = false) (escapes : f'.escaping = false)
    (stays : late = some k → f'.submitting = true ∧ ∃ c pc, f' = .order c pc)
    (ht : s.memory.table.checkSessionIdSize cfg.alloc f.sessionId = .ok t) :
    Taken cfg late { agents := s.agents.set k f', memory := { s.memory with table := t } } := by
  obtain ⟨n, hn, placed⟩ := T.placed
  obtain ⟨⟨m, hnm, hm⟩, _⟩ := Table.checkSessionIdSize_ok hn ht
  -- nobody else is before the end of `CheckSessionIdSize`
  have alone : ∀ j g, s.agents[j]? = some g → j ≠ k → g.submitting = false := by
    intro j g hj hne
    rw [← Bool.not_eq_true]
    intro hg
    exact hne (T.one.eq hj hk hg hsubmits)
  constructor
  · refine ⟨m, hm, fun j g hj hlate hg => ?_⟩
    rcases getElem?_set_cases hj with ⟨rfl, rfl⟩ | ⟨_, hj⟩
    · obtain ⟨t', m', hok, hm', hlt⟩ := (Table.admits_iff hn).mp (T.admits _ f hk hlate hbefore)
      obtain rfl := Except.ok.inj (hok.symm.trans ht)
      obtain rfl := hm'.bools.symm.trans hm.bools
      rwa [session]
    · exact Nat.lt_of_lt_of_le (placed j g hj hlate hg) hnm
  · exact T.defined
  · intro j c pc hj
    rcases getElem?_set_cases hj with ⟨rfl, heq⟩ | ⟨_, hj⟩
    · obtain ⟨pc₀, rfl⟩ := returns c pc heq.symm
      exact T.returns _ c pc₀ hk
    · exact T.returns j c pc hj
  · intro j g hj
    rcases getElem?_set_cases hj with ⟨rfl, rfl⟩ | ⟨_, hj⟩
    · exact escapes
    · exact T.escapes j g hj
  · intro j g hj _ hg
    rcases getElem?_set_cases hj with ⟨rfl, rfl⟩ | ⟨hne, hj⟩
    · cases after.symm.trans hg
    · cases (alone j g hj hne).symm.trans (submitting_of_beforeResize hg)
  · exact T.one.set hk fun _ => .inl hsubmits
  · intro j hj
    obtain ⟨c, pc, hj', hlate, _⟩ := T.late j hj
    have hjk : j = k := T.one.eq hj' hk hlate hsubmits
    subst hjk
    obtain ⟨hsubmits', c', pc', rfl⟩ := stays hj
    exact ⟨c', pc', getElem?_set_self hk, hsubmits', fun h => by cases after.symm.trans h⟩

/-- **The step lemma**: a move keeps the calls taken, or it takes the one of which less is asked out of its
caller's thread. -/
theorem Taken.move (T : Taken cfg late s) (h : (server cfg).step s (.run k) = some s') :
    Taken cfg late s' ∨ late = some k ∧ NoneInHandler s' := by
  obtain ⟨n, hn, placed⟩ := T.placed
  have fits : ∀ f : Frame, s.agents[k]? = some f → f.beforeResize = true →
      ∃ t, s.memory.table.checkSessionIdSize cfg.alloc f.sessionId = .ok t := by
    intro f hk hf
    by_cases hlate : late = some k
    · obtain ⟨c, pc, hk', _, hresizes⟩ := T.late k hlate
      obtain rfl := Option.some.inj (hk.symm.trans hk')
      exact (Table.resizes_iff hn).mp (hresizes hf)
    · obtain ⟨t, _, ht, _⟩ := (Table.admits_iff hn).mp (T.admits k f hk hlate hf)
      exact ⟨t, ht⟩
  have sameCall : ∀ {c : CartCall} {pc pc' : CartPc} (c' : CartCall) (pc'' : CartPc),
      Frame.cart c pc' = .cart c' pc'' → ∃ pc₀, Frame.cart c pc = .cart c' pc₀ := by
    intro c pc pc' c' pc'' heq
    cases heq
    exact ⟨pc, rfl⟩
  have noCart : ∀ {c : OrderCall} {pc' : OrderPc} {f : Frame} (c' : CartCall) (pc'' : CartPc),
      Frame.order c pc' = .cart c' pc'' → ∃ pc₀, f = .cart c' pc₀ := fun c' pc'' heq => nomatch heq
  cases step_cases h with
  | @undefined _ f hk hfault =>
    exfalso
    cases hfault with
    | resize hf herr _ =>
      have hbefore : f.beforeResize = true := by
        cases f with
        | cart c pc =>
          obtain rfl := of_decide_eq_true hf
          rfl
        | order c pc =>
          obtain rfl := of_decide_eq_true hf
          rfl
      obtain ⟨t, ht⟩ := fits f hk hbefore
      exact herr t ht
    | access hf hhas =>
      have hlate : late ≠ some k := by
        intro hlate
        obtain ⟨c, pc, hk', hsubmits, _⟩ := T.late k hlate
        obtain rfl := Option.some.inj (hk.symm.trans hk')
        cases pc <;> first | cases hf; done | cases hsubmits
      exact hhas (hn.has_iff.mpr (placed k f hk hlate (pastResize_of_sharesTable hf)))
  | @cart _ c pc pc' m' hk hstep =>
    have hlate : ¬ late = some k := by
      intro hlate
      obtain ⟨_, _, hk', _⟩ := T.late k hlate
      cases hk.symm.trans hk'
    refine .inl ?_
    cases hstep with
    | resize ht =>
      exact T.resize hk rfl sameCall rfl rfl rfl rfl (fun h => absurd h hlate) ht
    | throw hbad =>
      obtain ⟨t, ht⟩ := fits _ hk rfl
      cases ht.symm.trans hbad
    | increment ht =>
      exact T.set hk rfl (fun n hn => (Table.updateCount_ok hn ht).1) rfl sameCall id id id rfl
        fun h => absurd h hlate
    | decrement ht =>
      exact T.set hk rfl (fun n hn => (Table.updateCount_ok hn ht).1) rfl sameCall id id id rfl
        fun h => absurd h hlate
    | raise ht =>
      exact T.set hk rfl (fun n hn => (Table.raiseFlag_ok hn ht).1) rfl sameCall id id id rfl
        fun h => absurd h hlate
    | post =>
      exact T.set hk rfl (fun _ hn => hn) rfl sameCall id id (fun h => nomatch h) rfl
        fun h => absurd h hlate
    | _ =>
      exact T.set hk rfl (fun _ hn => hn) rfl sameCall id id id rfl fun h => absurd h hlate
  | @order _ c pc pc' m' hk hstep =>
    -- what is past its caller's thread is not the one of which less is asked
    have passed : (Frame.order c pc).submitting = false → ¬ late = some k := by
      intro hnot hlate
      obtain ⟨c', pc', hk', hsubmits, _⟩ := T.late k hlate
      cases hk.symm.trans hk'
      cases hnot.symm.trans hsubmits
    cases hstep with
    | enter _ =>
      exact .inl (T.set hk rfl (fun _ hn => hn) rfl noCart id id id rfl fun _ => ⟨rfl, c, _, rfl⟩)
    | resize ht =>
      exact .inl (T.resize hk rfl noCart rfl rfl rfl rfl (fun _ => ⟨rfl, c, _, rfl⟩) ht)
    | throw hbad =>
      obtain ⟨t, ht⟩ := fits _ hk rfl
      cases ht.symm.trans hbad
    | post =>
      by_cases hlate : late = some k
      · refine .inr ⟨hlate, fun j g hj => ?_⟩
        rcases getElem?_set_cases hj with ⟨rfl, rfl⟩ | ⟨hne, hj⟩
        · rfl
        · refine Bool.or_eq_false_iff.mpr ⟨?_, T.escapes j g hj⟩
          rw [← Bool.not_eq_true]
          intro hg
          exact hne (T.one.eq hj hk hg rfl)
      · exact .inl (T.set hk rfl (fun _ hn => hn) rfl noCart id id (fun h => nomatch h) rfl
          fun h => absurd h hlate)
    | _ =>
      exact .inl (T.set hk rfl (fun _ hn => hn) rfl noCart id id id rfl
        fun h => absurd h (passed rfl))

/-- A call starts when nobody else is in a caller's thread. -/
theorem Taken.call (T : Taken cfg none s) (mutex : s.agents.countP Frame.submitting = 0) {f : Frame}
    (fresh : f.isCalled = true) (returns : ∀ c pc, f = .cart c pc → c.throws = false)
    (takes : s.memory.table.Admits cfg.alloc f.sessionId) :
    Taken cfg none { s with agents := s.agents ++ [f] } := by
  obtain ⟨n, hn, placed⟩ := T.placed
  have new : f.pastResize = false ∧ f.escaping = false := by
    cases f with
    | cart c pc =>
      obtain rfl := of_decide_eq_true fresh
      exact ⟨rfl, rfl⟩
    | order c pc =>
      obtain rfl := of_decide_eq_true fresh
      exact ⟨rfl, rfl⟩
  constructor
  · refine ⟨n, hn, fun j g hj hlate hg => ?_⟩
    rcases getElem?_spawn_cases hj with hj | ⟨_, rfl⟩
    · exact placed j g hj hlate hg
    · cases new.1.symm.trans hg
  · exact T.defined
  · intro j c pc hj
    rcases getElem?_spawn_cases hj with hj | ⟨_, heq⟩
    · exact T.returns j c pc hj
    · exact returns c pc heq.symm
  · intro j g hj
    rcases getElem?_spawn_cases hj with hj | ⟨_, rfl⟩
    · exact T.escapes j g hj
    · exact new.2
  · intro j g hj hlate hg
    rcases getElem?_spawn_cases hj with hj | ⟨_, rfl⟩
    · exact T.admits j g hj hlate hg
    · exact takes
  · show (s.agents ++ [f]).countP Frame.submitting ≤ 1
    rw [countP_spawn, mutex]
    split <;> omega
  · intro j hj
    cases hj

/-- Or an order of which less is asked. -/
theorem Taken.order (T : Taken cfg none s) (mutex : s.agents.countP Frame.submitting = 0)
    (c : OrderCall) (takes : s.memory.table.Resizes cfg.alloc c.sessionId) :
    Taken cfg (some s.agents.length) { s with agents := s.agents ++ [.order c .called] } := by
  obtain ⟨n, hn, placed⟩ := T.placed
  constructor
  · refine ⟨n, hn, fun j g hj _ hg => ?_⟩
    rcases getElem?_spawn_cases hj with hj | ⟨_, rfl⟩
    · exact placed j g hj nofun hg
    · cases hg
  · exact T.defined
  · intro j b pc hj
    rcases getElem?_spawn_cases hj with hj | ⟨_, heq⟩
    · exact T.returns j b pc hj
    · cases heq
  · intro j g hj
    rcases getElem?_spawn_cases hj with hj | ⟨_, rfl⟩
    · exact T.escapes j g hj
    · rfl
  · intro j g hj hlate hg
    rcases getElem?_spawn_cases hj with hj | ⟨rfl, rfl⟩
    · exact T.admits j g hj nofun hg
    · exact absurd rfl hlate
  · show (s.agents ++ [Frame.order c .called]).countP Frame.submitting ≤ 1
    rw [countP_spawn, mutex]
    split <;> omega
  · intro j hj
    obtain rfl := Option.some.inj hj
    exact ⟨c, .called, List.getElem?_concat_length, rfl, fun _ => takes⟩

theorem Taken.start (cfg : Config) : Taken cfg none cfg.start where
  placed := ⟨_, Table.ofLength_sized _, fun _ _ hj => nomatch hj⟩
  defined := rfl
  returns _ _ _ hj := nomatch hj
  escapes _ _ hj := nomatch hj
  admits _ _ hj := nomatch hj
  one := Nat.zero_le 1
  late _ hj := nomatch hj

end Taken

/-! ## Getting through -/

section Through

variable {cfg : Config} {s s' : ServerState} {late : Option ℕ} {k : ℕ}
  {C : ServerState → Action Frame → Prop}

/-- Nobody gets before somebody who is about to enter: who entered before has a gate that will open, and
the next to enter is the one. -/
theorem Passable.move (passable : Passable s) (T : Taken cfg late s) (count : CountExact s)
    (h : (server cfg).step s (.run k) = some s') : Passable s' := by
  rintro ⟨j, f, hj, hf⟩ i c pc hi hpc
  have called : s.agents[j]? = some f := by
    cases f with
    | cart b pc₁ =>
      obtain rfl := of_decide_eq_true hf
      rcases cart_moved h hj with hj | ⟨_, _, _, hstep⟩
      · exact hj
      · cases hstep
    | order b pc₁ =>
      obtain rfl := of_decide_eq_true hf
      rcases order_moved h hj with hj | ⟨_, _, _, hstep⟩
      · exact hj
      · cases hstep
  have opens := passable ⟨j, f, called, hf⟩
  rcases order_moved h hi with hi₀ | ⟨pc₀, _, hi₀, hstep⟩
  · exact (opens i c pc hi₀ hpc).move count h
  · by_cases hpc₀ : pc₀ = .called
    · -- the order has entered just now, and only one of the two can be in its caller's thread
      subst hpc₀
      obtain rfl := T.one.eq hi₀ called rfl (submitting_of_isCalled hf)
      obtain rfl := Option.some.inj (hi.symm.trans hj)
      obtain rfl := of_decide_eq_true hf
      cases hpc
    · have before := hstep.beforeGate (beforeGate_of_underWay hpc)
      exact (opens i c pc₀ hi₀ (underWay_of_beforeGate before hpc₀)).move count h

/-- Nothing is abandoned where every callback returns. -/
theorem Taken.isAbandoned (T : Taken cfg late s) (h : Reachable (serverMachine cfg) C s)
    (σ : SessionId) : s.carts CartPc.isAbandoned σ = 0 := by
  refine carts_isAbandoned_eq_zero (fun j c hj => ?_) σ
  cases (T.returns j c _ hj).symm.trans (throws_of_abandoned h hj)

/-- Where nobody can move, a gate that will open is open. -/
theorem Taken.flag_of_willOpen (T : Taken cfg late s) (h : Reachable (serverMachine cfg) C s)
    (stuck : Stalled cfg s) {σ : SessionId} (will : WillOpen s σ) : s.memory.table.flag σ = true := by
  refine will.elim id fun hentered => ?_
  by_contra hshut
  rw [Bool.not_eq_true] at hshut
  obtain ⟨j, c, pc, hj, rfl, hpc⟩ := exists_of_carts hentered
  have hpast : pc.pastResize = true := by
    rcases stuck_cart stuck hj with rfl | rfl | rfl | rfl
    · cases hpc
    · rfl
    · rfl
    · cases T.escapes j _ hj
  exact carts_ne_zero hj hpast (stuck_pastResize stuck (awake h) hshut (T.isAbandoned h _))

/-- Who is in its caller's thread when nobody can move is about to enter. -/
theorem isCalled_of_stalled (stuck : Stalled cfg s) {j : ℕ} {f : Frame}
    (hj : s.agents[j]? = some f) (hf : f.submitting = true) : f.isCalled = true := by
  cases f with
  | cart c pc =>
    rcases stuck_cart stuck hj with rfl | rfl | rfl | rfl
    · rfl
    · cases hf
    · cases hf
    · cases hf
  | order c pc =>
    cases stuck.order j c pc hj with
    | called => rfl
    | _ => cases hf

/-- **A call gets through** if it is not behind an order that waits for good: when nobody can move, none
is in its caller's thread any more. -/
theorem none_in_handler (T : Taken cfg late s) (h : Reachable (serverMachine cfg) C s)
    (passable : Passable s) (blocked : ∀ k, (server cfg).step s (.run k) = none) :
    NoneInHandler s := by
  have stuck : Stalled cfg s := stalled T.defined fun k _ _ _ => blocked k
  intro j f hj
  refine Bool.or_eq_false_iff.mpr ⟨?_, T.escapes j f hj⟩
  rw [← Bool.not_eq_true]
  intro hf
  have hcalled := isCalled_of_stalled stuck hj hf
  have hgate : ∀ (i : ℕ) (c : OrderCall), s.agents[i]? ≠ some (.order c .gate) := by
    intro i c hi
    have hopen := T.flag_of_willOpen h stuck (passable ⟨j, f, hj, hcalled⟩ i c .gate hi rfl)
    cases stuck.order i c .gate hi with
    | gate hshut => cases hopen.symm.trans hshut
  cases (tableFree_of_blocked T.defined hj hcalled (blocked j)).symm.trans
    (stuck_tableFree stuck hgate)

end Through

/-! ## Waiting for good -/

/-- The agent waits at a gate that will not open. -/
def AtShutGate (s : ServerState) (i : ℕ) : Prop :=
  ∃ c, s.agents[i]? = some (.order c .gate) ∧ ¬ WillOpen s c.sessionId

section Shut

variable {cfg : Config} {s s' : ServerState} {late : Option ℕ} {i : ℕ} {a : Action Frame}
  {C : ServerState → Action Frame → Prop}

/-- It has the table's lock shared. -/
theorem AtShutGate.tableFree (waits : AtShutGate s i) : s.tableFree = false := by
  obtain ⟨c, hi, _⟩ := waits
  rw [← Bool.not_eq_true]
  intro hfree
  cases countP_eq_zero_iff.mp (nobody_table hfree).2 i _ hi

/-- **It waits for good**, whoever moves and whatever is called. -/
theorem AtShutGate.step (waits : AtShutGate s i) (count : CountExact s)
    (hs : (server cfg).step s a = some s') : AtShutGate s' i := by
  have taken := waits.tableFree
  obtain ⟨c, hi, shut⟩ := waits
  refine ⟨c, ?_, not_willOpen_step shut count (fun j b _ _ free => ?_) hs⟩
  · cases step_cases hs with
    | callCart _ => exact getElem?_spawn hi
    | callOrder _ => exact getElem?_spawn hi
    | undefined _ _ => exact hi
    | @cart j _ _ _ _ hj _ =>
      have hij : i ≠ j := fun e => nomatch (e ▸ hi).symm.trans hj
      exact (getElem?_set_other hij).trans hi
    | @order j _ _ _ _ hj hstep =>
      by_cases hij : i = j
      · subst hij
        cases hi.symm.trans hj
        cases hstep with
        | pass hload => exact absurd (.inl (Table.loadFlag_ok hload)) shut
      · exact (getElem?_set_other hij).trans hi
  · cases taken.symm.trans free

/-- Meanwhile nobody enters `CheckSessionIdSize`. -/
theorem AtShutGate.called (waits : AtShutGate s i) {j : ℕ} {f : Frame}
    (hj : s.agents[j]? = some f) (hf : f.isCalled = true)
    (hs : (server cfg).step s a = some s') : s'.agents[j]? = some f := by
  have taken := waits.tableFree
  cases step_cases hs with
  | callCart _ => exact getElem?_spawn hj
  | callOrder _ => exact getElem?_spawn hj
  | undefined _ _ => exact hj
  | @cart k _ _ _ _ hk hstep =>
    by_cases hjk : j = k
    · subst hjk
      obtain rfl := Option.some.inj (hj.symm.trans hk)
      obtain rfl := of_decide_eq_true hf
      cases hstep with
      | enter free => cases taken.symm.trans free
    · exact (getElem?_set_other hjk).trans hj
  | @order k _ _ _ _ hk hstep =>
    by_cases hjk : j = k
    · subst hjk
      obtain rfl := Option.some.inj (hj.symm.trans hk)
      obtain rfl := of_decide_eq_true hf
      cases hstep with
      | enter free => cases taken.symm.trans free
    · exact (getElem?_set_other hjk).trans hj

/-- Where nobody can move and an order is not past its gate, some order waits for good. -/
theorem exists_atShutGate (T : Taken cfg late s) (h : Reachable (serverMachine cfg) C s)
    (stuck : Stalled cfg s) {c : OrderCall} {pc : OrderPc} (hi : s.agents[i]? = some (.order c pc))
    (hpc : pc.beforeGate = true) (entered : pc = .called → s.tableFree = false) :
    ∃ j, AtShutGate s j := by
  by_contra hnone
  have hgate : ∀ (j : ℕ) (c : OrderCall), s.agents[j]? ≠ some (.order c .gate) := by
    intro j c hj
    refine hnone ⟨j, c, hj, fun will => ?_⟩
    have hopen := T.flag_of_willOpen h stuck will
    cases stuck.order j c .gate hj with
    | gate hshut => cases hopen.symm.trans hshut
  rcases stuck_order stuck hgate hi with rfl | rfl | rfl
  · cases (entered rfl).symm.trans (stuck_tableFree stuck hgate)
  · cases hpc
  · cases hpc

end Shut

end TcpServer
