import TcpServer.Laws.Counter

/-!
# The order gate

A `MakeOrder` waits until its session's gate is open, and the gate is opened by the task that finds
nobody pending. That is meant to make an order wait for the operations called before it. But nothing
ever shuts a gate: once a session has been idle its later orders do not wait (`gate_leaks`).

Where the gate is shut when the order is called, and no task is about to open it, it does its work: it
opens at a test that found no pending operation, and so after every operation that had returned. So it
does where there is nothing left to wait for. `order_gate` is about an order that is called in one of
these two situations, in any run whose counts do not wrap; how the other orders are called does not matter.
-/

namespace TcpServer

open Interleaving Transition

/-! ## Kinds of points -/

/-- The call has returned. -/
def CartPc.returned : CartPc → Bool
  | .called | .resizing | .sized | .counting | .counted | .posting | .threw => false
  | _ => true

/-- The effect on the stock and the cart is there, or has been refused. -/
def CartPc.isApplied : CartPc → Bool
  | .applied _ | .settling | .decrementing | .testing | .opening | .leaving | .ended
  | .abandoned => true
  | _ => false

/-- The call has returned, and has no effect yet. -/
def CartPc.outstanding (pc : CartPc) : Bool := pc.returned && !pc.isApplied

def CartPc.isOpening : CartPc → Bool
  | .opening => true
  | _ => false

/-- Past `wait(false)`. -/
def OrderPc.pastGate : OrderPc → Bool
  | .called | .resizing | .posting | .queued | .started | .gate | .threw => false
  | _ => true

section Mono

variable {cfg : Config} {s : ServerState} {c : CartCall} {pc pc' : CartPc} {m' : Memory}

theorem CartStep.returned (h : CartStep cfg s c pc pc' m') (hr : pc.returned = true) :
    pc'.returned = true := by
  cases h <;> first | rfl | cases hr

theorem CartStep.isApplied (h : CartStep cfg s c pc pc' m') (hr : pc.isApplied = true) :
    pc'.isApplied = true := by
  cases h <;> first | rfl | cases hr

/-- An operation that has returned and is no longer pending has been applied. -/
theorem isApplied_of_not_pending (hr : pc.returned = true) (hp : pc.pending = false) :
    pc.isApplied = true := by
  cases pc <;> first | rfl | exact absurd hr Bool.false_ne_true | exact absurd hp.symm Bool.false_ne_true

end Mono

/-! ## The property -/

/-- Every `Buy` and `Remove` of the session whose call had returned in `s₁` has been applied in `s`. -/
def EarlierApplied (s₁ : ServerState) (σ : SessionId) (s : ServerState) : Prop :=
  ∀ (j : ℕ) (b : CartCall) (pc : CartPc), s₁.agents[j]? = some (.cart b pc) → b.sessionId = σ →
    pc.returned = true → ∃ pc', s.agents[j]? = some (.cart b pc') ∧ pc'.isApplied = true

/-- Nothing of the session that has returned is without effect, or its gate is shut and nobody is about
to open it. -/
def Gated (s : ServerState) (σ : SessionId) : Prop :=
  s.carts CartPc.outstanding σ = 0 ∨
    s.memory.table.flag σ = false ∧ s.carts CartPc.isOpening σ = 0

instance (s : ServerState) (σ : SessionId) : Decidable (Gated s σ) :=
  inferInstanceAs (Decidable (_ = 0 ∨ _ ∧ _ = 0))

/-! ## The invariant of a waiting order -/

section Waiting

variable {cfg : Config} {s₁ s s' : ServerState} {σ : SessionId} {k : ℕ} {a : Action Frame}

/-- What has been applied stays applied. -/
theorem EarlierApplied.step (inv : EarlierApplied s₁ σ s) (h : (server cfg).step s a = some s') :
    EarlierApplied s₁ σ s' := by
  intro j b pc hj hσ hr
  obtain ⟨pc₁, hj₁, happlied⟩ := inv j b pc hj hσ hr
  obtain ⟨pc', hj', rfl | ⟨m', hstep⟩⟩ := cart_follows h hj₁
  · exact ⟨pc', hj', happlied⟩
  · exact ⟨pc', hj', hstep.isApplied happlied⟩

/-- From the call of an order on, the `k`-th agent: what had returned is still there; it has been
applied if the gate is open or about to be, and if the order is past the gate. -/
structure Waiting (s₁ : ServerState) (σ : SessionId) (k : ℕ) (s : ServerState) : Prop where
  carried : ∀ (j : ℕ) (b : CartCall) (pc : CartPc), s₁.agents[j]? = some (.cart b pc) →
    b.sessionId = σ → pc.returned = true →
      ∃ pc', s.agents[j]? = some (.cart b pc') ∧ pc'.returned = true
  opened : s.memory.table.flag σ = true ∨ s.carts CartPc.isOpening σ ≠ 0 → EarlierApplied s₁ σ s
  passed : ∀ c pc, s.agents[k]? = some (.order c pc) → c.sessionId = σ → pc.pastGate = true →
    EarlierApplied s₁ σ s

/-- The order starts to wait. -/
theorem Waiting.start {c : OrderCall} (hgated : Gated s₁ c.sessionId) :
    Waiting s₁ c.sessionId s₁.agents.length
      { s₁ with agents := s₁.agents ++ [.order c .called] } where
  carried j b pc hj _ hr := ⟨pc, getElem?_spawn hj, hr⟩
  opened hopen := by
    intro j b pc hj hσ hr
    rcases hgated with hnone | ⟨hshut, hnobody⟩
    · refine ⟨pc, getElem?_spawn hj, ?_⟩
      by_contra hout
      have hpc : pc.outstanding = true := by
        rw [CartPc.outstanding, hr, Bool.eq_false_iff.mpr hout]
        rfl
      exact carts_ne_zero hj hpc (hσ ▸ hnone)
    · rcases hopen with hflag | hopening
      · cases hshut.symm.trans hflag
      · rw [carts_callOrder] at hopening
        exact absurd hnobody hopening
  passed c' pc hk _ hpast := by
    rw [List.getElem?_append_right (Nat.le_refl _), Nat.sub_self] at hk
    cases hk
    cases hpast

/-- Nobody pending: everything that had returned has been applied. -/
theorem Waiting.applied_of_none (inv : Waiting s₁ σ k s) (hnone : s.carts CartPc.pending σ = 0) :
    EarlierApplied s₁ σ s := by
  intro j b pc hj hσ hr
  obtain ⟨pc', hj', hr'⟩ := inv.carried j b pc hj hσ hr
  refine ⟨pc', hj', isApplied_of_not_pending hr' (Bool.eq_false_iff.mpr fun hp => ?_)⟩
  exact carts_ne_zero hj' hp (hσ ▸ hnone)

/-- A gate that opens, or is about to, opens after everything that had returned. -/
theorem Waiting.opened_step (inv : Waiting s₁ σ k s) (count : CountExact s)
    (bound : ∀ σ, s.carts CartPc.pending σ < 2 ^ 64) (h : (server cfg).step s a = some s')
    (hopen : s'.memory.table.flag σ = true ∨ s'.carts CartPc.isOpening σ ≠ 0) :
    EarlierApplied s₁ σ s := by
  obtain ⟨n, hn⟩ := count.sized
  cases step_cases h with
  | callCart c =>
    rw [carts_callCart c rfl] at hopen
    exact inv.opened hopen
  | callOrder c =>
    rw [carts_callOrder c] at hopen
    exact inv.opened hopen
  | undefined _ _ => exact inv.opened hopen
  | order hk hstep =>
    rw [(hstep.table hn).2.2, carts_order _ _ hk] at hopen
    exact inv.opened hopen
  | @cart k c pc pc' m' hk hstep =>
    rw [hstep.flag hn, Bool.or_eq_true] at hopen
    have hmove := carts_cart (p := CartPc.isOpening) (σ := σ) pc' m' hk
    rcases hopen with (hflag | hraise) | hopening
    · exact inv.opened (.inl hflag)
    · -- the gate was about to be opened
      obtain ⟨rfl, rfl⟩ := of_decide_eq_true hraise
      exact inv.opened (.inr (carts_ne_zero hk rfl))
    · by_cases hnew : c.sessionId = σ ∧ pc'.isOpening = true
      · -- the test has just found nobody
        obtain ⟨rfl, hpc'⟩ := hnew
        cases hstep with
        | last hload =>
          have hzero := count.pending_eq (bound c.sessionId)
          rw [Table.loadCount_ok hload] at hzero
          exact inv.applied_of_none hzero.symm
        | _ => cases hpc'
      · rw [if_neg hnew] at hmove
        exact inv.opened (.inr (by omega))

/-- **The step lemma** of a waiting order. -/
theorem Waiting.step (inv : Waiting s₁ σ k s) (count : CountExact s)
    (bound : ∀ σ, s.carts CartPc.pending σ < 2 ^ 64)
    (h : (server cfg).step s a = some s') : Waiting s₁ σ k s' := by
  refine ⟨?_, ?_, ?_⟩
  · intro j b pc hj hσ hr
    obtain ⟨pc₁, hj₁, hr₁⟩ := inv.carried j b pc hj hσ hr
    obtain ⟨pc', hj', rfl | ⟨m', hstep⟩⟩ := cart_follows h hj₁
    · exact ⟨pc', hj', hr₁⟩
    · exact ⟨pc', hj', hstep.returned hr₁⟩
  · intro hopen
    exact (inv.opened_step count bound h hopen).step h
  · intro c pc hk' hσ hpast
    rcases order_came h hk' with hk | ⟨pc₀, m', _, hk, hstep⟩ | rfl
    · exact (inv.passed c pc hk hσ hpast).step h
    · cases hstep with
      | pass hload =>
        -- the order goes through the open gate
        exact (inv.opened (.inl (hσ ▸ Table.loadFlag_ok hload))).step h
      | _ => first
        | exact (inv.passed c _ hk hσ rfl).step h
        | cases hpast
    · cases hpast

end Waiting

/-! ## The order gate -/

/-- **The order gate**, for an order that is called at a gate that serves it: when it is past the gate,
every `Buy` and `Remove` of its session whose call had returned before it was called has been applied. -/
theorem order_gate (cfg : Config) {s₁ s₂ s₃ : ServerState} {c : OrderCall} {pc : OrderPc}
    (before : Reachable (serverMachine cfg) CountedRun s₁) (gated : Gated s₁ c.sessionId)
    (call : (serverMachine cfg).step s₁ (.spawn (.order c .called)) = some s₂)
    (later : Leads (serverMachine cfg) CountedRun s₂ s₃)
    (order : s₃.agents[s₁.agents.length]? = some (.order c pc)) (past : pc.pastGate = true) :
    EarlierApplied s₁ c.sessionId s₃ := by
  have free : CountedRun s₁ (.spawn (.order c .called)) := trivial
  have called : Reachable (serverMachine cfg) CountedRun s₂ := before.step free call
  have start : Waiting s₁ c.sessionId s₁.agents.length s₂ := by
    have hs : (server cfg).step s₁ (.spawn (.order c .called)) = some s₂ := call
    obtain ⟨_, rfl⟩ := step_spawn hs
    exact Waiting.start gated
  have waiting : Waiting s₁ c.sessionId s₁.agents.length s₃ :=
    later.invariant called start fun s a s' hr inv _ hs =>
      inv.step (countExact hr) (pendingBound hr) hs
  exact waiting.passed c pc order rfl past

/-- A `Buy` waits for a thread and the gate is shut; the order called then is past the gate in the
end, and the `Buy` is applied. -/
theorem order_gate_diner :
    ∃ s₁ s₂ s₃, (serverMachine .diner).runIf CountedRun Config.diner.start
        (.spawn (.cart (burgerFor 1) .called) :: moves 0 6) = some s₁ ∧
      (serverMachine .diner).step s₁ (.spawn (.order (orderFor 1) .called)) = some s₂ ∧
      (serverMachine .diner).runIf CountedRun s₂ (moves 0 11 ++ moves 1 6) = some s₃ ∧
      s₃.agents[s₁.agents.length]? = some (.order (orderFor 1) .passed) ∧
      EarlierApplied s₁ 1 s₃ := by
  have run : (((serverMachine .diner).runIf CountedRun Config.diner.start
      (.spawn (.cart (burgerFor 1) .called) :: moves 0 6)).bind fun s₁ =>
    ((serverMachine .diner).step s₁ (.spawn (.order (orderFor 1) .called))).bind fun s₂ =>
    ((serverMachine .diner).runIf CountedRun s₂ (moves 0 11 ++ moves 1 6)).map fun s₃ =>
      decide (Gated s₁ 1 ∧
        s₃.agents[s₁.agents.length]? = some (.order (orderFor 1) .passed))) = some true := by decide
  obtain ⟨s₁, h₁, run⟩ := Option.bind_eq_some_iff.mp run
  obtain ⟨s₂, h₂, run⟩ := Option.bind_eq_some_iff.mp run
  obtain ⟨s₃, h₃, run⟩ := Option.map_eq_some_iff.mp run
  obtain ⟨gated, order⟩ := of_decide_eq_true run
  have before := (Reachable.init rfl).leads (Machine.runIf_leads _ h₁)
  exact ⟨s₁, s₂, s₃, h₁, h₂, h₃, order,
    order_gate .diner before gated h₂ (Machine.runIf_leads _ h₃) order rfl⟩

/-- A session that has been idle: its second `Buy` waits for a thread, and its order is priced. -/
theorem gate_leaks :
    ¬ ∀ (cfg : Config) (s₁ s₂ s₃ : ServerState) (c : OrderCall) (pc : OrderPc),
      Reachable (serverMachine cfg) Always s₁ →
        (serverMachine cfg).step s₁ (.spawn (.order c .called)) = some s₂ →
          Leads (serverMachine cfg) Always s₂ s₃ →
            s₃.agents[s₁.agents.length]? = some (.order c pc) → pc.pastGate = true →
              EarlierApplied s₁ c.sessionId s₃ := by
  intro h
  have run : (((serverMachine .diner).run Config.diner.start
      (.spawn (.cart (burgerFor 1) .called) :: moves 0 17 ++
        .spawn (.cart (burgerFor 1) .called) :: moves 1 6)).bind fun s₁ =>
    ((serverMachine .diner).step s₁ (.spawn (.order (orderFor 1) .called))).bind fun s₂ =>
    ((serverMachine .diner).run s₂ (moves 2 9)).map fun s₃ =>
      decide (s₁.agents[1]? = some (.cart (burgerFor 1) .queued) ∧
        s₃.agents[1]? = some (.cart (burgerFor 1) .queued) ∧
        s₃.agents[s₁.agents.length]? = some (.order (orderFor 1) (.accepted 970)))) = some true := by
    decide
  obtain ⟨s₁, h₁, run⟩ := Option.bind_eq_some_iff.mp run
  obtain ⟨s₂, h₂, run⟩ := Option.bind_eq_some_iff.mp run
  obtain ⟨s₃, h₃, run⟩ := Option.map_eq_some_iff.mp run
  obtain ⟨queued, still, accepted⟩ := of_decide_eq_true run
  have before := (Reachable.init rfl).leads (Machine.run_leads _ h₁)
  obtain ⟨pc', hpc', happlied⟩ := h .diner s₁ s₂ s₃ (orderFor 1) _ before h₂ (Machine.run_leads _ h₃)
    accepted rfl 1 (burgerFor 1) .queued queued rfl rfl
  cases still.symm.trans hpc'
  cases happlied

end TcpServer
