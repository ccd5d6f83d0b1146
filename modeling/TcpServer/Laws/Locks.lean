import TcpServer.Laws.Steps

/-!
# Mutual exclusion

The locks are not part of the memory: who has one is read off the program counters. That the code's
lock sections exclude each other is therefore a fact about the machine, proved here for every run. At
most one agent has `bying_removing_mutex`; at most one has the table's lock alone, and then nobody has
it shared, so nobody accesses the vectors while they are copied.
-/

namespace TcpServer

open Interleaving Transition

section Enter

variable {cfg : Config} {s : ServerState} {m' : Memory}

/-- The mutex is entered only when it is free. -/
theorem CartStep.holdsMutex {c : CartCall} {pc pc' : CartPc} (h : CartStep cfg s c pc pc' m')
    (hp : (Frame.cart c pc').holdsMutex = true) :
    (Frame.cart c pc).holdsMutex = true ∨ s.mutexFree = true := by
  cases h with
  | lock free => exact .inr free
  | _ => first | exact .inl rfl | cases hp

theorem OrderStep.holdsMutex {c : OrderCall} {pc pc' : OrderPc} (h : OrderStep cfg s c pc pc' m')
    (hp : (Frame.order c pc').holdsMutex = true) :
    (Frame.order c pc).holdsMutex = true ∨ s.mutexFree = true := by
  cases h with
  | lock free => exact .inr free
  | _ => first | exact .inl rfl | cases hp

/-- The table's lock is entered alone only when nobody has it. -/
theorem CartStep.holdsTable {c : CartCall} {pc pc' : CartPc} (h : CartStep cfg s c pc pc' m')
    (hp : (Frame.cart c pc').holdsTable = true) : s.tableFree = true := by
  cases h with
  | enter free => exact free
  | _ => cases hp

theorem OrderStep.holdsTable {c : OrderCall} {pc pc' : OrderPc} (h : OrderStep cfg s c pc pc' m')
    (hp : (Frame.order c pc').holdsTable = true) : s.tableFree = true := by
  cases h with
  | enter free => exact free
  | _ => cases hp

/-- It is entered shared only when nobody has it alone. -/
theorem CartStep.sharesTable {c : CartCall} {pc pc' : CartPc} (h : CartStep cfg s c pc pc' m')
    (hp : (Frame.cart c pc').sharesTable = true) :
    (Frame.cart c pc).sharesTable = true ∨ s.tableShareable = true := by
  cases h with
  | share free => exact .inr free
  | shareAgain free => exact .inr free
  | _ => first | exact .inl rfl | cases hp

theorem OrderStep.sharesTable {c : OrderCall} {pc pc' : OrderPc} (h : OrderStep cfg s c pc pc' m')
    (hp : (Frame.order c pc').sharesTable = true) :
    (Frame.order c pc).sharesTable = true ∨ s.tableShareable = true := by
  cases h with
  | share free => exact .inr free
  | _ => first | exact .inl rfl | cases hp

end Enter

/-- The lock sections exclude each other. -/
structure Locked (s : ServerState) : Prop where
  mutex : Exclusive Frame.holdsMutex s.agents
  table : Exclusive Frame.holdsTable s.agents
  shared : s.agents.countP Frame.holdsTable = 0 ∨ s.agents.countP Frame.sharesTable = 0

theorem nobody_mutex {s : ServerState} (h : s.mutexFree = true) :
    s.agents.countP Frame.holdsMutex = 0 :=
  of_decide_eq_true h

theorem nobody_alone {s : ServerState} (h : s.tableShareable = true) :
    s.agents.countP Frame.holdsTable = 0 :=
  of_decide_eq_true h

theorem nobody_table {s : ServerState} (h : s.tableFree = true) :
    s.agents.countP Frame.holdsTable = 0 ∧ s.agents.countP Frame.sharesTable = 0 := by
  obtain ⟨halone, hshared⟩ := Bool.and_eq_true_iff.mp h
  exact ⟨of_decide_eq_true halone, of_decide_eq_true hshared⟩

/-- One agent moves, entering what it enters by the rules. -/
theorem Locked.set {s : ServerState} (inv : Locked s) {k : ℕ} {f f' : Frame} {m' : Memory}
    (hk : s.agents[k]? = some f)
    (hmutex : f'.holdsMutex = true → f.holdsMutex = true ∨ s.mutexFree = true)
    (halone : f'.holdsTable = true → s.tableFree = true)
    (hshared : f'.sharesTable = true → f.sharesTable = true ∨ s.tableShareable = true) :
    Locked { agents := s.agents.set k f', memory := m' } := by
  have moveAlone := countP_set Frame.holdsTable f' hk
  have moveShared := countP_set Frame.sharesTable f' hk
  refine ⟨inv.mutex.set hk fun h => (hmutex h).imp id nobody_mutex,
    inv.table.set hk fun h => .inr (nobody_table (halone h)).1, ?_⟩
  show (s.agents.set k f').countP Frame.holdsTable = 0 ∨
    (s.agents.set k f').countP Frame.sharesTable = 0
  by_cases h : f'.holdsTable = true
  · -- it has just entered alone: nobody shared the lock, and this agent does not
    obtain ⟨_, hnone⟩ := nobody_table (halone h)
    have hnot : ¬ f'.sharesTable = true := by
      cases f' with
      | cart c pc => cases pc <;> first | exact Bool.false_ne_true | cases h
      | order c pc => cases pc <;> first | exact Bool.false_ne_true | cases h
    rw [if_neg hnot, hnone] at moveShared
    exact .inr (by omega)
  · rw [if_neg h] at moveAlone
    by_cases h' : f'.sharesTable = true
    · rcases hshared h' with hf | hfree
      · rcases inv.shared with hnone | hnone
        · exact .inl (by omega)
        · exact absurd hf (Bool.eq_false_iff.mp (countP_eq_zero_iff.mp hnone k f hk))
      · exact .inl (by have := nobody_alone hfree; omega)
    · rw [if_neg h'] at moveShared
      rcases inv.shared with hnone | hnone
      · exact .inl (by omega)
      · exact .inr (by omega)

/-- **Mutual exclusion** in every run of the server. -/
theorem locked {cfg : Config} {C : ServerState → Action Frame → Prop} {s : ServerState}
    (h : Reachable (serverMachine cfg) C s) : Locked s := by
  apply reachable_invariant _ _ h
  · exact ⟨Nat.zero_le 1, Nat.zero_le 1, .inl rfl⟩
  · intro s a s' _ inv _ hs
    have called : ∀ f : Frame, f.holdsMutex = false → f.holdsTable = false →
        f.sharesTable = false → Locked { s with agents := s.agents ++ [f] } := by
      intro f h₁ h₂ h₃
      refine ⟨?_, ?_, ?_⟩
      · rw [Exclusive, countP_spawn, h₁]
        exact inv.mutex
      · rw [Exclusive, countP_spawn, h₂]
        exact inv.table
      · rw [countP_spawn, countP_spawn, h₂, h₃]
        exact inv.shared
    cases step_cases hs with
    | callCart c => exact called _ rfl rfl rfl
    | callOrder c => exact called _ rfl rfl rfl
    | undefined _ _ => exact ⟨inv.mutex, inv.table, inv.shared⟩
    | cart hk hstep => exact inv.set hk hstep.holdsMutex hstep.holdsTable hstep.sharesTable
    | order hk hstep => exact inv.set hk hstep.holdsMutex hstep.holdsTable hstep.sharesTable

end TcpServer
