import TcpServer.Laws.Steps

/-!
# The pending counter and the wake-up

What the two vectors say about the agents. The count of a session is the number of its `Buy`s and
`Remove`s that have incremented it and not yet decremented it, modulo 2^64 (`CountExact`); this holds
in every run. And its gate is open as soon as one of them is past its increment and none is between
its increment and the end of its task, unless the callback of a `Buy` threw and left its operation
pending for good (`Awake`); this holds in every run as well.

The decrement and the test are two steps, and other operations of the session can come in between. The
argument for the gate is about the test: it is passed over only when the count is not zero, so
somebody else is pending, and whoever tests last finds zero.
-/

namespace TcpServer

open Interleaving Transition

/-! ## Kinds of points -/

/-- Between the increment and the decrement; a callback that throws leaves its operation there. -/
def CartPc.pending : CartPc → Bool
  | .counted | .posting | .queued | .started | .locked | .admitted | .moved | .applied _
  | .settling | .decrementing | .abandoned => true
  | _ => false

/-- Between the increment and the last access to the gate. -/
def CartPc.inFlight : CartPc → Bool
  | .counted | .posting | .queued | .started | .locked | .admitted | .moved | .applied _
  | .settling | .decrementing | .testing | .opening => true
  | _ => false

/-- Past the increment. -/
def CartPc.pastIncrement : CartPc → Bool
  | .called | .resizing | .sized | .counting | .threw => false
  | _ => true

/-- Before the callback of a `Buy`. -/
def CartPc.answering : CartPc → Bool
  | .applied _ => true
  | _ => false

def CartPc.isAbandoned : CartPc → Bool
  | .abandoned => true
  | _ => false

/-- A `Buy` or a `Remove` of the session at a point of a kind. -/
def Frame.cartAt (p : CartPc → Bool) (σ : SessionId) : Frame → Bool
  | .cart c pc => decide (c.sessionId = σ) && p pc
  | .order _ _ => false

/-- The number of `Buy`s and `Remove`s of the session at points of a kind. -/
def ServerState.carts (s : ServerState) (p : CartPc → Bool) (σ : SessionId) : ℕ :=
  s.agents.countP (Frame.cartAt p σ)

section Carts

variable {s : ServerState} {p : CartPc → Bool} {σ : SessionId}

/-- How a move of a `Buy` or a `Remove` changes the numbers. -/
theorem carts_cart {k : ℕ} {c : CartCall} {pc : CartPc} (pc' : CartPc) (m' : Memory)
    (hk : s.agents[k]? = some (.cart c pc)) :
    ServerState.carts { agents := s.agents.set k (.cart c pc'), memory := m' } p σ +
        (if c.sessionId = σ ∧ p pc = true then 1 else 0) =
      s.carts p σ + (if c.sessionId = σ ∧ p pc' = true then 1 else 0) := by
  have h := countP_set (Frame.cartAt p σ) (.cart c pc') hk
  simp only [Frame.cartAt, Bool.and_eq_true, decide_eq_true_eq] at h
  exact h

/-- A move that does not leave the points of a kind takes nobody from their number. -/
theorem carts_le_cart {k : ℕ} {c : CartCall} {pc pc' : CartPc} {m' : Memory}
    (hk : s.agents[k]? = some (.cart c pc)) (hp : p pc = true → p pc' = true) :
    s.carts p σ ≤ ServerState.carts { agents := s.agents.set k (.cart c pc'), memory := m' } p σ := by
  have hmove := carts_cart (p := p) (σ := σ) pc' m' hk
  by_cases hpc : c.sessionId = σ ∧ p pc = true
  · rw [if_pos hpc, if_pos ⟨hpc.1, hp hpc.2⟩] at hmove
    omega
  · rw [if_neg hpc] at hmove
    omega

/-- A `MakeOrder` is not counted, wherever it goes. -/
theorem carts_order {k : ℕ} {c : OrderCall} {pc : OrderPc} (pc' : OrderPc) (m' : Memory)
    (hk : s.agents[k]? = some (.order c pc)) :
    ServerState.carts { agents := s.agents.set k (.order c pc'), memory := m' } p σ =
      s.carts p σ :=
  countP_set (Frame.cartAt p σ) (.order c pc') hk

theorem carts_callCart (c : CartCall) (hp : p .called = false) :
    ServerState.carts { s with agents := s.agents ++ [.cart c .called] } p σ = s.carts p σ := by
  rw [ServerState.carts, countP_spawn, Frame.cartAt, hp, Bool.and_false]
  rfl

theorem carts_callOrder (c : OrderCall) :
    ServerState.carts { s with agents := s.agents ++ [.order c .called] } p σ = s.carts p σ :=
  countP_spawn _ _ _

/-- An operation of the session at a point of a kind is one of its number. -/
theorem carts_ne_zero {k : ℕ} {c : CartCall} {pc : CartPc} (hk : s.agents[k]? = some (.cart c pc))
    (hp : p pc = true) : s.carts p c.sessionId ≠ 0 := by
  have hf : Frame.cartAt p c.sessionId (.cart c pc) = true := by
    simp only [Frame.cartAt, decide_true, hp, Bool.and_self]
  exact Nat.ne_of_gt (List.countP_pos_iff.mpr ⟨_, List.mem_of_getElem? hk, hf⟩)

theorem exists_of_carts (h : s.carts p σ ≠ 0) : ∃ (k : ℕ) (c : CartCall) (pc : CartPc),
    s.agents[k]? = some (.cart c pc) ∧ c.sessionId = σ ∧ p pc = true := by
  obtain ⟨k, f, hk, hf⟩ := countP_ne_zero h
  cases f with
  | order c pc => cases hf
  | cart c pc =>
    simp only [Frame.cartAt, Bool.and_eq_true, decide_eq_true_eq] at hf
    exact ⟨k, c, pc, hk, hf⟩

/-- No operation of the session is at a point of a kind. -/
theorem carts_eq_zero (h : ∀ (k : ℕ) (c : CartCall) (pc : CartPc),
    s.agents[k]? = some (.cart c pc) → c.sessionId = σ → p pc = false) : s.carts p σ = 0 := by
  by_contra hne
  obtain ⟨k, c, pc, hk, hσ, hp⟩ := exists_of_carts hne
  cases (h k c pc hk hσ).symm.trans hp

end Carts

/-! ## The vectors along a step -/

section Step

variable {cfg : Config} {s : ServerState} {m' : Memory}

/-- **The counts along a step** of a `Buy` or a `Remove`: both sides of the equation gain one when the
operation becomes pending, and lose one when it no longer is. -/
theorem CartStep.count {c : CartCall} {pc pc' : CartPc} (h : CartStep cfg s c pc pc' m') {n : ℕ}
    (hn : s.memory.table.Sized n) :
    (∃ m, n ≤ m ∧ m'.table.Sized m) ∧ ∀ σ,
      m'.table.count σ + (if c.sessionId = σ ∧ pc.pending = true then 1 else 0) =
        s.memory.table.count σ + (if c.sessionId = σ ∧ pc'.pending = true then 1 else 0) := by
  have same : ∃ m, n ≤ m ∧ s.memory.table.Sized m := ⟨n, le_refl n, hn⟩
  cases h with
  | resize h =>
    obtain ⟨hsized, hcount, _⟩ := Table.checkSessionIdSize_ok hn h
    exact ⟨hsized, fun σ => by rw [hcount]; rfl⟩
  | increment h =>
    obtain ⟨hsized, hcount, _⟩ := Table.updateCount_ok hn h
    refine ⟨⟨n, le_refl n, hsized⟩, fun σ => ?_⟩
    rw [hcount]
    simp only [CartPc.pending, and_true, Bool.false_eq_true, and_false, if_false, add_zero]
    by_cases hσ : c.sessionId = σ
    · rw [if_pos hσ, if_pos hσ.symm, hσ]
    · rw [if_neg hσ, if_neg (Ne.symm hσ), add_zero]
  | decrement h =>
    obtain ⟨hsized, hcount, _⟩ := Table.updateCount_ok hn h
    refine ⟨⟨n, le_refl n, hsized⟩, fun σ => ?_⟩
    rw [hcount]
    simp only [CartPc.pending, and_true, Bool.false_eq_true, and_false, if_false, add_zero]
    by_cases hσ : c.sessionId = σ
    · rw [if_pos hσ, if_pos hσ.symm, hσ, sub_add_cancel]
    · rw [if_neg hσ, if_neg (Ne.symm hσ), add_zero]
  | raise h =>
    obtain ⟨hsized, hcount, _⟩ := Table.raiseFlag_ok hn h
    exact ⟨⟨n, le_refl n, hsized⟩, fun σ => by rw [hcount]; rfl⟩
  | _ => exact ⟨same, fun _ => rfl⟩

/-- **The gates along a step** of a `Buy` or a `Remove`. -/
theorem CartStep.flag {c : CartCall} {pc pc' : CartPc} (h : CartStep cfg s c pc pc' m') {n : ℕ}
    (hn : s.memory.table.Sized n) (σ : SessionId) :
    m'.table.flag σ = (s.memory.table.flag σ || decide (c.sessionId = σ ∧ pc = .opening)) := by
  cases h with
  | resize h =>
    obtain ⟨_, _, hflag⟩ := Table.checkSessionIdSize_ok hn h
    simp only [hflag, reduceCtorEq, and_false, decide_false, Bool.or_false]
  | increment h =>
    obtain ⟨_, _, hflag⟩ := Table.updateCount_ok hn h
    simp only [hflag, reduceCtorEq, and_false, decide_false, Bool.or_false]
  | decrement h =>
    obtain ⟨_, _, hflag⟩ := Table.updateCount_ok hn h
    simp only [hflag, reduceCtorEq, and_false, decide_false, Bool.or_false]
  | raise h =>
    obtain ⟨_, _, hflag⟩ := Table.raiseFlag_ok hn h
    rw [hflag]
    by_cases hσ : c.sessionId = σ
    · rw [if_pos hσ.symm, decide_eq_true ⟨hσ, rfl⟩, Bool.or_true]
    · rw [if_neg (Ne.symm hσ), decide_eq_false fun e => hσ e.1, Bool.or_false]
  | _ => simp only [reduceCtorEq, and_false, decide_false, Bool.or_false]

/-- A step of a `MakeOrder` grows the vectors or leaves them alone. -/
theorem OrderStep.table {c : OrderCall} {pc pc' : OrderPc} (h : OrderStep cfg s c pc pc' m') {n : ℕ}
    (hn : s.memory.table.Sized n) :
    (∃ m, n ≤ m ∧ m'.table.Sized m) ∧ (∀ σ, m'.table.count σ = s.memory.table.count σ) ∧
      ∀ σ, m'.table.flag σ = s.memory.table.flag σ := by
  cases h with
  | resize h => exact Table.checkSessionIdSize_ok hn h
  | _ => exact ⟨⟨n, le_refl n, hn⟩, fun _ => rfl, fun _ => rfl⟩

end Step

/-! ## The count -/

/-- The vectors have one length, and each count is the number of pending operations, modulo 2^64. -/
structure CountExact (s : ServerState) : Prop where
  sized : ∃ n, s.memory.table.Sized n
  count : ∀ σ, s.memory.table.count σ = (s.carts CartPc.pending σ : SizeT)

theorem CountExact.start (cfg : Config) : CountExact cfg.start :=
  ⟨⟨_, Table.ofLength_sized _⟩, fun σ => Table.count_ofLength _ σ⟩

/-- Every step keeps the counts exact. -/
theorem CountExact.step {cfg : Config} {s s' : ServerState} {a : Action Frame} (inv : CountExact s)
    (h : (server cfg).step s a = some s') : CountExact s' := by
  obtain ⟨n, hn⟩ := inv.sized
  cases step_cases h with
  | callCart c =>
    exact ⟨inv.sized, fun σ => by rw [carts_callCart c rfl]; exact inv.count σ⟩
  | callOrder c =>
    exact ⟨inv.sized, fun σ => by rw [carts_callOrder c]; exact inv.count σ⟩
  | @cart k c pc pc' m' hk hstep =>
    obtain ⟨⟨m, _, hm⟩, hcount⟩ := hstep.count hn
    refine ⟨⟨m, hm⟩, fun σ => ?_⟩
    have hcarts : ((ServerState.carts { agents := s.agents.set k (.cart c pc'), memory := m' }
          CartPc.pending σ : ℕ) : SizeT) + (if c.sessionId = σ ∧ pc.pending = true then 1 else 0) =
        s.carts CartPc.pending σ + (if c.sessionId = σ ∧ pc'.pending = true then 1 else 0) := by
      exact_mod_cast congrArg (fun n : ℕ => (n : SizeT)) (carts_cart pc' m' hk)
    have hσ := hcount σ
    rw [inv.count σ, ← hcarts] at hσ
    exact add_right_cancel hσ
  | order hk hstep =>
    obtain ⟨⟨m, _, hm⟩, hcount, _⟩ := hstep.table hn
    exact ⟨⟨m, hm⟩, fun σ => by rw [hcount, carts_order _ _ hk]; exact inv.count σ⟩
  | undefined _ _ => exact ⟨inv.sized, inv.count⟩

/-- **The counts are exact** in every run of the server. -/
theorem countExact {cfg : Config} {C : ServerState → Action Frame → Prop} {s : ServerState}
    (h : Reachable (serverMachine cfg) C s) : CountExact s :=
  reachable_invariant (CountExact.start cfg) (fun _ _ _ _ inv _ hs => inv.step hs) h

/-- No step shuts a gate. -/
theorem flag_step {cfg : Config} {s s' : ServerState} {a : Action Frame} (count : CountExact s)
    (h : (server cfg).step s a = some s') {σ : SessionId} (hσ : s.memory.table.flag σ = true) :
    s'.memory.table.flag σ = true := by
  obtain ⟨n, hn⟩ := count.sized
  cases step_cases h with
  | callCart c => exact hσ
  | callOrder c => exact hσ
  | undefined _ _ => exact hσ
  | order hk hstep => exact ((hstep.table hn).2.2 σ).trans hσ
  | cart hk hstep => exact (hstep.flag hn σ).trans (by rw [hσ, Bool.true_or])

/-! ## Fewer than 2^64 -/

/-- An increment leaves fewer than 2^64 pending operations of the session. -/
def RoomToCount (s : ServerState) : Frame → Prop
  | .cart c pc => pc = .counting → s.carts CartPc.pending c.sessionId + 1 < 2 ^ 64
  | .order _ _ => True

instance (s : ServerState) : DecidablePred (RoomToCount s)
  | .cart c pc => inferInstanceAs (Decidable (pc = .counting → s.carts _ c.sessionId + 1 < 2 ^ 64))
  | .order _ _ => isTrue trivial

/-- The discipline of runs whose counts do not wrap. -/
abbrev CountedRun : ServerState → Action Frame → Prop := Rule (fun _ _ => True) RoomToCount

section Bound

variable {cfg : Config} {s s' : ServerState} {a : Action Frame}

/-- Every step keeps the numbers of pending operations below 2^64. -/
theorem pendingBound_step (bound : ∀ σ, s.carts CartPc.pending σ < 2 ^ 64)
    (hcount : ∀ k f, a = .run k → s.agents[k]? = some f → RoomToCount s f)
    (h : (server cfg).step s a = some s') (σ : SessionId) : s'.carts CartPc.pending σ < 2 ^ 64 := by
  have hσ := bound σ
  cases step_cases h with
  | callCart c => rwa [carts_callCart c rfl]
  | callOrder c => rwa [carts_callOrder c]
  | order hk _ => rwa [carts_order _ _ hk]
  | undefined _ _ => exact hσ
  | @cart k c pc pc' m' hk hstep =>
    have hmove := carts_cart (p := CartPc.pending) (σ := σ) pc' m' hk
    by_cases hpc : pc = .counting
    · have hroom := hcount k _ rfl hk hpc
      by_cases hc : c.sessionId = σ
      · rw [hc] at hroom
        split at hmove <;> split at hmove <;> omega
      · rw [if_neg fun e => hc e.1, if_neg fun e => hc e.1] at hmove
        omega
    · have hnew : pc'.pending = true → pc.pending = true := by
        intro hp
        cases hstep with
        | increment _ => exact absurd rfl hpc
        | _ => first | rfl | cases hp
      by_cases hp : pc'.pending = true
      · rw [hp, hnew hp] at hmove
        omega
      · have hno : ¬ (c.sessionId = σ ∧ pc'.pending = true) := fun e => hp e.2
        rw [if_neg hno] at hmove
        omega

end Bound

/-- Fewer than 2^64 operations of a session are pending in runs whose increments have room. -/
theorem pendingBound {cfg : Config} {starts : ServerState → Frame → Prop} {s : ServerState}
    (h : Reachable (serverMachine cfg) (Rule starts RoomToCount) s) :
    ∀ σ, s.carts CartPc.pending σ < 2 ^ 64 := by
  apply reachable_invariant _ _ h
  · intro σ
    exact Nat.two_pow_pos 64
  · intro s a s' _ inv hC hs
    apply pendingBound_step inv _ hs
    rintro k f rfl hk
    exact hC f hk

/-- The number of pending operations, read off the count. -/
theorem CountExact.pending_eq {s : ServerState} (h : CountExact s) {σ : SessionId}
    (bound : s.carts CartPc.pending σ < 2 ^ 64) :
    (s.memory.table.count σ).toNat = s.carts CartPc.pending σ := by
  rw [h.count σ, BitVec.natCast_eq_ofNat, BitVec.toNat_ofNat, Nat.mod_eq_of_lt bound]

/-! ## The gate -/

/-- Behind a shut gate an operation that is past its increment leaves another one in flight, unless one
was abandoned. -/
def Awake (s : ServerState) : Prop :=
  ∀ σ, s.memory.table.flag σ = false → s.carts CartPc.isAbandoned σ = 0 →
    s.carts CartPc.pastIncrement σ ≠ 0 → s.carts CartPc.inFlight σ ≠ 0

theorem carts_pending_le (s : ServerState) (σ : SessionId) :
    s.carts CartPc.pending σ ≤ s.carts CartPc.inFlight σ + s.carts CartPc.isAbandoned σ := by
  refine countP_le_add (fun f hf => ?_) s.agents
  cases f with
  | order c pc => cases hf
  | cart c pc =>
    simp only [Frame.cartAt, Bool.and_eq_true] at hf ⊢
    cases pc with
    | abandoned => exact .inr ⟨hf.1, rfl⟩
    | _ => exact .inl ⟨hf.1, by first | rfl | cases hf.2⟩

/-- Nothing changes for the sessions that are awake where neither gates nor numbers change. -/
theorem Awake.congr {s s' : ServerState} (inv : Awake s)
    (hflag : ∀ σ, s'.memory.table.flag σ = s.memory.table.flag σ)
    (hcarts : ∀ (p : CartPc → Bool) (σ : SessionId), p .called = false → s'.carts p σ = s.carts p σ) :
    Awake s' := by
  intro σ hσ
  rw [hcarts _ σ rfl, hcarts _ σ rfl, hcarts _ σ rfl]
  exact inv σ (hflag σ ▸ hσ)

section Move

variable {cfg : Config} {s : ServerState} {k : ℕ} {c : CartCall} {pc pc' : CartPc} {m' : Memory}

/-- Behind a shut gate an operation past its increment leaves another one in flight: the last step
that could leave none is a test, and a test that is passed over has found somebody pending. -/
theorem Awake.cart (inv : Awake s) (count : CountExact s)
    (count' : CountExact { agents := s.agents.set k (.cart c pc'), memory := m' })
    (hk : s.agents[k]? = some (.cart c pc)) (h : CartStep cfg s c pc pc' m') :
    Awake { agents := s.agents.set k (.cart c pc'), memory := m' } := by
  intro σ hσ hnone hpast
  obtain ⟨n, hn⟩ := count.sized
  have hflag : m'.table.flag σ = false := hσ
  rw [h.flag hn, Bool.or_eq_false_iff] at hflag
  have hnoneBefore : s.carts CartPc.isAbandoned σ = 0 := by
    have stays : pc.isAbandoned = true → pc'.isAbandoned = true := by
      intro hpc
      cases h <;> cases hpc
    exact Nat.le_zero.mp (hnone ▸ carts_le_cart hk stays)
  have hmove := carts_cart (p := CartPc.inFlight) (σ := σ) pc' m' hk
  have hmovePast := carts_cart (p := CartPc.pastIncrement) (σ := σ) pc' m' hk
  -- a move that changes neither number for this session
  have unchanged : (c.sessionId = σ → pc.inFlight = pc'.inFlight ∧
      pc.pastIncrement = pc'.pastIncrement) →
      ServerState.carts { agents := s.agents.set k (.cart c pc'), memory := m' }
        CartPc.inFlight σ ≠ 0 := by
    intro hsame
    by_cases hc : c.sessionId = σ
    · rw [(hsame hc).1] at hmove
      rw [(hsame hc).2] at hmovePast
      have := inv σ hflag.1 hnoneBefore (by omega)
      omega
    · simp only [hc, false_and, if_false, add_zero] at hmove hmovePast
      rw [hmove]
      exact inv σ hflag.1 hnoneBefore (hmovePast ▸ hpast)
  by_cases hc : c.sessionId = σ
  · subst hc
    by_cases hin : pc'.inFlight = true
    · exact carts_ne_zero (getElem?_set_self hk) hin
    · cases h with
      | notLast hload hzero =>
        have hpending : ServerState.carts _ CartPc.pending c.sessionId ≠ 0 := fun h0 =>
          hzero ((Table.loadCount_ok hload).symm.trans
            ((count'.count c.sessionId).trans (by rw [h0]; rfl)))
        have hle := carts_pending_le
          { agents := s.agents.set k (.cart c .leaving), memory := s.memory } c.sessionId
        omega
      | raise _ => exact absurd ⟨rfl, rfl⟩ (of_decide_eq_false hflag.2)
      | abandon _ _ => exact absurd hnone (carts_ne_zero (getElem?_set_self hk) rfl)
      | _ => first
        | exact unchanged fun _ => ⟨rfl, rfl⟩
        | exact absurd rfl hin
  · exact unchanged fun h => absurd h hc

end Move

/-- Every step keeps the sessions awake. -/
theorem Awake.step {cfg : Config} {s s' : ServerState} {a : Action Frame} (inv : Awake s)
    (count : CountExact s) (h : (server cfg).step s a = some s') : Awake s' := by
  have count' := count.step h
  obtain ⟨n, hn⟩ := count.sized
  cases step_cases h with
  | callCart c => exact inv.congr (fun _ => rfl) fun p σ hp => carts_callCart c hp
  | callOrder c => exact inv.congr (fun _ => rfl) fun p σ _ => carts_callOrder c
  | order hk hstep => exact inv.congr (hstep.table hn).2.2 fun p σ _ => carts_order _ _ hk
  | undefined _ _ => exact inv.congr (fun _ => rfl) fun _ _ _ => rfl
  | cart hk hstep => exact inv.cart count count' hk hstep

/-- **No wake-up is lost** in any run of the server, but by a callback that throws. -/
theorem awake {cfg : Config} {C : ServerState → Action Frame → Prop} {s : ServerState}
    (h : Reachable (serverMachine cfg) C s) : Awake s :=
  reachable_invariant (fun _ _ _ hpast => absurd rfl hpast)
    (fun _ _ _ hr inv _ hs => inv.step (countExact hr) hs) h

/-- Only a callback that throws abandons its operation. -/
theorem throws_of_abandoned {cfg : Config} {C : ServerState → Action Frame → Prop} {s : ServerState}
    (h : Reachable (serverMachine cfg) C s) {j : ℕ} {c : CartCall}
    (hj : s.agents[j]? = some (.cart c .abandoned)) : c.throws = true := by
  revert j c hj
  apply reachable_invariant _ _ h
  · intro j c hj
    cases hj
  · intro s a s' _ inv _ hs j c hj
    rcases cart_came hs hj with hj | ⟨pc₀, m', _, _, hstep⟩ | heq
    · exact inv hj
    · cases hstep with
      | abandon _ throws => exact throws
    · cases heq

/-- No session has abandoned operations where no agent is one. -/
theorem carts_isAbandoned_eq_zero {s : ServerState}
    (none : ∀ (j : ℕ) (c : CartCall), s.agents[j]? ≠ some (.cart c .abandoned)) (σ : SessionId) :
    s.carts CartPc.isAbandoned σ = 0 := by
  refine carts_eq_zero fun j c pc hj _ => ?_
  cases pc with
  | abandoned => exact absurd hj (none j c)
  | _ => rfl

end TcpServer
