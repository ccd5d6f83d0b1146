import TcpServer.Laws.Locks
import TcpServer.Laws.Progress

/-!
# Orders that wait for good

The other half of `Progress`: an order at a gate that is neither open nor going to be opened stays
there, whatever is called and whoever moves (`wedged_for_good`). It shares the table's lock, so nobody
gets through `CheckSessionIdSize` any more; and an operation that was abandoned keeps the count of its
session above zero, so that no test finds zero (`abandoned_excludes_opening`).

The counts are assumed not to wrap.
-/

namespace TcpServer

open Interleaving Transition

section Abandoned

variable {cfg : Config} {s : ServerState}

/-- While an operation of a session is abandoned, none is about to open the gate: the test found zero
before, and both need the mutex. -/
theorem abandoned_excludes_opening (h : Reachable (serverMachine cfg) CountedRun s) {i j : ℕ}
    {c c' : CartCall} (hi : s.agents[i]? = some (.cart c .abandoned))
    (hj : s.agents[j]? = some (.cart c' .opening)) : c.sessionId ≠ c'.sessionId := by
  revert i j c c' hi hj
  apply reachable_invariant _ _ h
  · intro i j c c' hi
    cases hi
  · intro s a s' hr inv _ hs i j c c' hi hj
    rcases cart_came hs hi with hi | ⟨_, _, ha, hi, abandons⟩ | heq
    · rcases cart_came hs hj with hj | ⟨_, _, _, hj, opens⟩ | heq
      · exact inv hi hj
      · -- the test has just found zero, but the abandoned operation is pending
        cases opens with
        | last hload =>
          intro hσ
          have hzero := (countExact hr).pending_eq (pendingBound hr c'.sessionId)
          rw [Table.loadCount_ok hload] at hzero
          exact carts_ne_zero (p := CartPc.pending) hi rfl (hσ ▸ hzero.symm)
      · cases heq
    · rcases cart_came hs hj with hj | ⟨_, _, ha', hj, opens⟩ | heq
      · -- the callback throws under the mutex, which the other agent would have too
        cases abandons with
        | abandon _ _ =>
          obtain rfl := (locked hr).mutex.eq hi hj rfl rfl
          cases hi.symm.trans hj
      · obtain rfl := Action.run.inj (ha.symm.trans ha')
        cases abandons with
        | abandon _ _ => cases hi.symm.trans hj; cases opens
      · cases heq
    · cases heq

end Abandoned

section Wedged

variable {cfg : Config} {s s' : ServerState} {a : Action Frame} {k : ℕ} {c : OrderCall}

/-- While an order is at its gate, nobody gets through `CheckSessionIdSize`. -/
theorem pastResize_of_gate (lock : Locked s) (order : s.agents[k]? = some (.order c .gate))
    (h : (server cfg).step s a = some s') {j : ℕ} {b : CartCall} {pc : CartPc}
    (hj : s'.agents[j]? = some (.cart b pc)) (hpast : pc.pastResize = true) :
    ∃ pc₀, s.agents[j]? = some (.cart b pc₀) ∧ pc₀.pastResize = true := by
  rcases cart_came h hj with hj₀ | ⟨pc₀, m', _, hj₀, hstep⟩ | rfl
  · exact ⟨pc, hj₀, hpast⟩
  · refine ⟨pc₀, hj₀, ?_⟩
    cases hstep with
    | resize _ =>
      rcases lock.shared with hnone | hnone
      · cases countP_eq_zero_iff.mp hnone j _ hj₀
      · cases countP_eq_zero_iff.mp hnone k _ order
    | _ => first | rfl | cases hpast
  · cases hpast

/-- A gate is opened by an operation that was about to open it. -/
theorem opening_of_flag (count : CountExact s) (h : (server cfg).step s a = some s') {σ : SessionId}
    (shut : s.memory.table.flag σ = false) (hopen : s'.memory.table.flag σ = true) :
    ∃ (j : ℕ) (b : CartCall), s.agents[j]? = some (.cart b .opening) ∧ b.sessionId = σ := by
  obtain ⟨n, hn⟩ := count.sized
  cases step_cases h with
  | callCart _ => cases shut.symm.trans hopen
  | callOrder _ => cases shut.symm.trans hopen
  | undefined _ _ => cases shut.symm.trans hopen
  | order hk hstep => cases shut.symm.trans (((hstep.table hn).2.2 σ).symm.trans hopen)
  | @cart j b pc pc' m' hk hstep =>
    have hflag := (hstep.flag hn σ).symm.trans hopen
    rw [shut, Bool.false_or] at hflag
    obtain ⟨hσ, rfl⟩ := of_decide_eq_true hflag
    exact ⟨j, b, hk, hσ⟩

/-- An order at a gate that does not open stays there, and the gate does not open. -/
theorem wedged_step (h : Reachable (serverMachine cfg) CountedRun s)
    (order : s.agents[k]? = some (.order c .gate)) (shut : ¬ Opens s c.sessionId)
    (hs : (server cfg).step s a = some s') :
    s'.agents[k]? = some (.order c .gate) ∧ ¬ Opens s' c.sessionId := by
  obtain ⟨hflag, hstuck⟩ := not_or.mp shut
  rw [Bool.not_eq_true] at hflag
  constructor
  · cases step_cases hs with
    | callCart _ => exact getElem?_spawn order
    | callOrder _ => exact getElem?_spawn order
    | undefined _ _ => exact order
    | @cart j _ _ _ _ hj _ =>
      have hkj : k ≠ j := fun e => nomatch (e ▸ order).symm.trans hj
      exact (getElem?_set_other hkj).trans order
    | @order j _ _ _ _ hj hstep =>
      by_cases hkj : k = j
      · subst hkj
        cases order.symm.trans hj
        cases hstep with
        | pass hload => cases hflag.symm.trans (Table.loadFlag_ok hload)
      · exact (getElem?_set_other hkj).trans order
  · rintro (hopen | ⟨hpast, hnone⟩)
    · obtain ⟨j, b, hj, hσ⟩ := opening_of_flag (countExact h) hs hflag hopen
      refine hstuck ⟨hσ ▸ carts_ne_zero hj rfl, carts_eq_zero fun i b' pc hi hσ' => ?_⟩
      cases pc with
      | abandoned => exact absurd (hσ'.trans hσ.symm) (abandoned_excludes_opening h hi hj)
      | _ => rfl
    · obtain ⟨j, b, pc, hj, hσ, hpast'⟩ := exists_of_carts hpast
      obtain ⟨pc₀, hj₀, hpast₀⟩ := pastResize_of_gate (locked h) order hs hj hpast'
      have stays := carts_le_step (p := CartPc.isAbandoned) rfl
        (fun c pc pc' m' hstep hp => by cases hstep <;> cases hp) hs c.sessionId
      exact hstuck ⟨hσ ▸ carts_ne_zero hj₀ hpast₀, by omega⟩

/-- **An order at a gate that does not open waits for good**: it is there in every later state. -/
theorem wedged_for_good (h : Reachable (serverMachine cfg) CountedRun s)
    (order : s.agents[k]? = some (.order c .gate)) (shut : ¬ Opens s c.sessionId)
    (later : Leads (serverMachine cfg) CountedRun s s') :
    s'.agents[k]? = some (.order c .gate) := by
  have stays := later.invariant
    (I := fun s => s.agents[k]? = some (.order c .gate) ∧ ¬ Opens s c.sessionId) h ⟨order, shut⟩
    fun s a s' hr inv _ hs => wedged_step hr inv.1 inv.2 hs
  exact stays.1

end Wedged

end TcpServer
