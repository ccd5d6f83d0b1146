import Mathlib.Algebra.Order.Ring.Nat
import TcpServer.Base.Transition

/-!
# Interleaved agents over a shared memory

A population of agents, each at some point of its own program, over one shared memory. An action
either starts a new agent or lets one agent make its next move; every other agent stays where it is.
So a run is an interleaving, and what an agent may do can depend on where the others are: a lock is
free when no agent is at a point where it holds it.

Proofs about such a system look at one move at a time, and need the same three things each time:

- how many agents are at points of a given kind before and after the move (`countP_set`);
- who is at a point of that kind afterwards (`getElem?_set_cases`);
- what a move or a start is, read backwards (`step_run`, `step_spawn`).

`reachable_invariant` packages the induction over a run.
-/

namespace Interleaving

/-- The agents, in the order they were started, and the memory they share. -/
structure State (F M : Type) where
  agents : List F
  memory : M

/-- One step of an interleaving: a new agent starts, or the `k`-th agent moves. -/
inductive Action (F : Type) where
  | spawn (f : F)
  | run (k : Nat)

/-- A move of an agent that has started. -/
def Action.IsRun {F : Type} : Action F → Prop
  | .spawn _ => False
  | .run _ => True

/-- What the agents do: where one may start, and the next move of an agent in a given state. -/
structure Program (F M : Type) where
  fresh : F → Bool
  move : State F M → F → Option (F × M)

variable {F M : Type}

/-- One step of the interleaving. -/
def Program.step (P : Program F M) (s : State F M) : Action F → Option (State F M)
  | .spawn f => if P.fresh f then some { s with agents := s.agents ++ [f] } else none
  | .run k => s.agents[k]?.bind fun f =>
      (P.move s f).map fun r => { agents := s.agents.set k r.1, memory := r.2 }

/-- The machine of the interleavings that start without agents. -/
def Program.machine (P : Program F M) (m : M) : Transition.Machine (State F M) (Action F) where
  init s := s = { agents := [], memory := m }
  step := P.step

variable {P : Program F M} {s s' : State F M}

/-- What starting an agent does. -/
theorem step_spawn {f : F} (h : P.step s (.spawn f) = some s') :
    P.fresh f = true ∧ s' = { s with agents := s.agents ++ [f] } := by
  simp only [Program.step] at h
  split at h
  next hf => exact ⟨hf, (Option.some.inj h).symm⟩
  next => cases h

/-- What a move does: one agent is replaced, the memory is what its move made of it. -/
theorem step_run {k : Nat} (h : P.step s (.run k) = some s') :
    ∃ f f' m', s.agents[k]? = some f ∧ P.move s f = some (f', m') ∧
      s' = { agents := s.agents.set k f', memory := m' } := by
  obtain ⟨f, hf, h⟩ := Option.bind_eq_some_iff.mp h
  obtain ⟨⟨f', m'⟩, hm, rfl⟩ := Option.map_eq_some_iff.mp h
  exact ⟨f, f', m', hf, hm, rfl⟩

/-- A move, read forwards. -/
theorem step_of_move {k : Nat} {f f' : F} {m' : M} (hk : s.agents[k]? = some f)
    (h : P.move s f = some (f', m')) :
    P.step s (.run k) = some { agents := s.agents.set k f', memory := m' } := by
  simp only [Program.step, hk, Option.bind_some, h, Option.map_some]

/-- An agent with a move is not blocked. -/
theorem step_run_isSome {k : Nat} {f : F} (hk : s.agents[k]? = some f)
    (h : (P.move s f).isSome) : (P.step s (.run k)).isSome := by
  simp only [Program.step, hk, Option.bind_some, Option.isSome_map, h]

/-- Nobody there to move. -/
theorem step_run_none {k : Nat} (h : s.agents.length ≤ k) : P.step s (.run k) = none := by
  simp only [Program.step, List.getElem?_eq_none h, Option.bind_none]

/-- **The invariant rule** for interleavings: a property of the start without agents that every admitted
step keeps. -/
theorem reachable_invariant {m : M} {C : State F M → Action F → Prop} {I : State F M → Prop}
    (start : I { agents := [], memory := m })
    (hstep : ∀ s a s', Transition.Reachable (P.machine m) C s → I s → C s a →
      P.step s a = some s' → I s')
    {s : State F M} (h : Transition.Reachable (P.machine m) C s) : I s := by
  refine h.invariant ?_ hstep
  rintro s₀ rfl
  exact start

/-! ## The population after a step -/

/-- The agents after a move: the mover is new, the others are who they were. -/
theorem getElem?_set_cases {l : List F} {k j : Nat} {f' g : F} (h : (l.set k f')[j]? = some g) :
    (j = k ∧ g = f') ∨ (j ≠ k ∧ l[j]? = some g) := by
  rw [List.getElem?_set] at h
  split at h
  next hk =>
    subst hk
    split at h
    next => exact .inl ⟨rfl, (Option.some.inj h).symm⟩
    next => cases h
  next hk => exact .inr ⟨fun e => hk e.symm, h⟩

theorem getElem?_set_self {l : List F} {k : Nat} {f f' : F} (h : l[k]? = some f) :
    (l.set k f')[k]? = some f' := by
  rw [List.getElem?_set_self (List.getElem?_eq_some_iff.mp h).1]

theorem getElem?_set_other {l : List F} {k j : Nat} {f' : F} (h : j ≠ k) :
    (l.set k f')[j]? = l[j]? :=
  List.getElem?_set_ne (fun e => h e.symm)

/-- Starting an agent leaves the others where they were. -/
theorem getElem?_spawn {l : List F} {j : Nat} {f g : F} (h : l[j]? = some g) :
    (l ++ [f])[j]? = some g := by
  rw [List.getElem?_append_left (List.getElem?_eq_some_iff.mp h).1, h]

theorem getElem?_spawn_cases {l : List F} {j : Nat} {f g : F} (h : (l ++ [f])[j]? = some g) :
    l[j]? = some g ∨ (j = l.length ∧ g = f) := by
  rcases Nat.lt_or_ge j l.length with hj | hj
  · exact .inl (by rwa [List.getElem?_append_left hj] at h)
  · rw [List.getElem?_append_right hj] at h
    rcases Nat.eq_zero_or_pos (j - l.length) with h0 | h0
    · rw [h0, List.getElem?_cons_zero] at h
      exact .inr ⟨by omega, (Option.some.inj h).symm⟩
    · rw [List.getElem?_eq_none (by rw [List.length_singleton]; exact h0)] at h
      cases h

/-! ## Counting agents -/

/-- A move changes the number of agents of a kind by the mover's own change. -/
theorem countP_set (p : F → Bool) (f' : F) {l : List F} {k : Nat} {f : F} (h : l[k]? = some f) :
    (l.set k f').countP p + (if p f then 1 else 0) = l.countP p + (if p f' then 1 else 0) := by
  obtain ⟨hk, rfl⟩ := List.getElem?_eq_some_iff.mp h
  rw [List.countP_set hk]
  have hpos : p l[k] = true → 0 < l.countP p := fun hp =>
    List.countP_pos_iff.mpr ⟨_, List.getElem_mem hk, hp⟩
  by_cases hp : p l[k] = true
  · have := hpos hp
    rw [if_pos hp]
    omega
  · rw [if_neg hp]
    omega

theorem countP_spawn (p : F → Bool) (l : List F) (f : F) :
    (l ++ [f]).countP p = l.countP p + (if p f then 1 else 0) := by
  rw [List.countP_append, List.countP_singleton]

/-- A move changes a sum over the agents by the mover's own change. -/
theorem sum_set (w : F → Nat) (f' : F) {l : List F} {k : Nat} {f : F} (h : l[k]? = some f) :
    ((l.set k f').map w).sum + w f = (l.map w).sum + w f' := by
  induction l generalizing k with
  | nil => cases h
  | cons g l ih =>
    cases k with
    | zero =>
      obtain rfl := Option.some.inj h
      rw [List.set_cons_zero, List.map_cons, List.map_cons, List.sum_cons, List.sum_cons]
      omega
    | succ k =>
      have hrest := ih h
      rw [List.set_cons_succ, List.map_cons, List.map_cons, List.sum_cons, List.sum_cons]
      omega

/-- No agent of a kind: the count is zero. -/
theorem countP_eq_zero_iff {p : F → Bool} {l : List F} :
    l.countP p = 0 ↔ ∀ (j : Nat) (g : F), l[j]? = some g → p g = false := by
  rw [List.countP_eq_zero]
  constructor
  · intro h j g hg
    exact Bool.eq_false_iff.mpr (h g (List.mem_of_getElem? hg))
  · intro h g hg
    obtain ⟨j, hj⟩ := List.mem_iff_getElem?.mp hg
    rw [h j g hj]
    exact Bool.false_ne_true

/-- Nobody is of a kind after a move to a point that is not. -/
theorem countP_set_eq_zero {p : F → Bool} {l : List F} {k : Nat} {f' : F} (h : l.countP p = 0)
    (hf' : p f' = false) : (l.set k f').countP p = 0 := by
  refine countP_eq_zero_iff.mpr fun j g hj => ?_
  rcases getElem?_set_cases hj with ⟨_, rfl⟩ | ⟨_, hj⟩
  · exact hf'
  · exact countP_eq_zero_iff.mp h j g hj

theorem countP_ne_zero {p : F → Bool} {l : List F} (h : l.countP p ≠ 0) :
    ∃ (j : Nat) (g : F), l[j]? = some g ∧ p g = true := by
  obtain ⟨g, hg, hp⟩ := List.countP_pos_iff.mp (Nat.pos_of_ne_zero h)
  obtain ⟨j, hj⟩ := List.mem_iff_getElem?.mp hg
  exact ⟨j, g, hj, hp⟩

/-- Two different agents of a kind: the count is at least two. -/
theorem two_le_countP {p : F → Bool} {l : List F} {i j : Nat} {f g : F} (hij : i ≠ j)
    (hi : l[i]? = some f) (hj : l[j]? = some g) (hf : p f = true) (hg : p g = true) :
    2 ≤ l.countP p := by
  induction l generalizing i j with
  | nil => cases hi
  | cons x l ih =>
    rw [List.countP_cons]
    have one : ∀ {k : Nat} {y : F}, l[k]? = some y → p y = true → 1 ≤ l.countP p :=
      fun hy hp => List.countP_pos_iff.mpr ⟨_, List.mem_of_getElem? hy, hp⟩
    cases i with
    | zero =>
      cases j with
      | zero => exact absurd rfl hij
      | succ j =>
        cases hi
        have := one hj hg
        rw [if_pos hf]
        omega
    | succ i =>
      cases j with
      | zero =>
        cases hj
        have := one hi hf
        rw [if_pos hg]
        omega
      | succ j =>
        have := ih (fun e => hij (congrArg _ e)) hi hj
        omega

/-- A kind covered by two others has no more agents than they have together. -/
theorem countP_le_add {p q r : F → Bool} (h : ∀ f, p f = true → q f = true ∨ r f = true)
    (l : List F) : l.countP p ≤ l.countP q + l.countP r := by
  induction l with
  | nil => exact Nat.le_refl 0
  | cons f l ih =>
    simp only [List.countP_cons]
    by_cases hp : p f = true
    · rcases h f hp with hq | hr
      · rw [if_pos hp, if_pos hq]
        omega
      · rw [if_pos hp, if_pos hr]
        omega
    · rw [if_neg hp]
      omega

/-! ## Rules

The conditions of a discipline on runs: one on the agents that start, one on the agents that move. -/

section Rule

variable (starts moves : State F M → F → Prop)

/-- The agent that starts meets the one condition, the agent that moves the other. -/
def Rule (s : State F M) : Action F → Prop
  | .spawn f => starts s f
  | .run k => ∀ f, s.agents[k]? = some f → moves s f

instance [∀ s f, Decidable (starts s f)] [∀ s f, Decidable (moves s f)] (s : State F M)
    (a : Action F) : Decidable (Rule starts moves s a) :=
  match a with
  | .spawn f => inferInstanceAs (Decidable (starts s f))
  | .run k =>
    match h : s.agents[k]? with
    | none => isTrue fun _ hf => nomatch h.symm.trans hf
    | some f => decidable_of_iff (moves s f)
      ⟨fun hm _ hg => Option.some.inj (h.symm.trans hg) ▸ hm, fun hm => hm f h⟩

end Rule

/-! ## Roles of one agent at a time -/

/-- At most one agent is at a point of the kind `p`. -/
def Exclusive (p : F → Bool) (l : List F) : Prop := l.countP p ≤ 1

/-- The agent of an exclusive role is unique. -/
theorem Exclusive.eq {p : F → Bool} {l : List F} (h : Exclusive p l) {i j : Nat} {f g : F}
    (hi : l[i]? = some f) (hj : l[j]? = some g) (hf : p f = true) (hg : p g = true) : i = j := by
  by_contra hij
  have := two_le_countP hij hi hj hf hg
  unfold Exclusive at h
  omega

/-- A role that is entered only when nobody is in it stays exclusive. -/
theorem Exclusive.set {p : F → Bool} {l : List F} (h : Exclusive p l) {k : Nat} {f f' : F}
    (hk : l[k]? = some f) (enter : p f' = true → p f = true ∨ l.countP p = 0) :
    Exclusive p (l.set k f') := by
  have hc := countP_set p f' hk
  unfold Exclusive at *
  by_cases hf' : p f' = true
  · rcases enter hf' with hf | h0
    · rw [if_pos hf, if_pos hf'] at hc
      omega
    · rw [if_pos hf'] at hc
      split at hc <;> omega
  · rw [if_neg hf'] at hc
    omega

end Interleaving
