import Mathlib.Data.List.Basic

/-!
# Machines, runs and invariants

A machine is a partial step function: `step s a` is the state action `a` leads to, or `none` where
the action is blocked. A run is the machine's reading of a list of actions.

Runs are often only promised to behave under a discipline: a condition on the action and on the state
BEFORE it. `Reachable C` and `Leads C` are reachability along steps that all meet the condition `C`;
with the condition that always holds they are plain reachability. Conditions are part of the relation
and not of the machine, so one machine serves every theorem about it.

The two induction rules are packaged once: `Reachable.invariant` carries a property from the initial
states to every reachable state, `Leads.invariant` from one state of a run to the later ones. A
forward simulation (`Reachable.simulate`) carries reachability from one machine to a relation with
another system's states. A rank that some actions lower bounds the runs of such actions
(`Machine.Descends.run`), and some such run ends where none can be taken any more.
-/

namespace Transition

/-- A deterministic machine over states `σ` and actions `α`. -/
structure Machine (σ α : Type) where
  init : σ → Prop
  step : σ → α → Option σ

variable {σ α : Type} (M : Machine σ α)

/-- The state a list of actions leads to, if none of them is blocked. -/
def Machine.run (s : σ) : List α → Option σ
  | [] => some s
  | a :: as => (M.step s a).bind fun s' => Machine.run s' as

/-- No condition at all. -/
def Always : σ → α → Prop := fun _ _ => True

/-- The states reached from an initial one by steps that all meet `C`. -/
inductive Reachable (C : σ → α → Prop) : σ → Prop
  | init {s : σ} : M.init s → Reachable C s
  | step {s s' : σ} {a : α} : Reachable C s → C s a → M.step s a = some s' → Reachable C s'

/-- `s'` is reached from `s` by steps that all meet `C`. -/
inductive Leads (C : σ → α → Prop) (s : σ) : σ → Prop
  | refl : Leads C s s
  | step {s₁ s₂ : σ} {a : α} : Leads C s s₁ → C s₁ a → M.step s₁ a = some s₂ → Leads C s s₂

variable {M} {C : σ → α → Prop}

theorem Leads.trans {s₁ s₂ s₃ : σ} (h : Leads M C s₁ s₂) (h' : Leads M C s₂ s₃) :
    Leads M C s₁ s₃ := by
  induction h' with
  | refl => exact h
  | step _ hC hs ih => exact .step ih hC hs

theorem Reachable.leads {s s' : σ} (h : Reachable M C s) (h' : Leads M C s s') :
    Reachable M C s' := by
  induction h' with
  | refl => exact h
  | step _ hC hs ih => exact .step ih hC hs

/-- Steps that meet a condition meet a weaker one. -/
theorem Leads.mono {C' : σ → α → Prop} (hC : ∀ s a, C s a → C' s a) {s s' : σ}
    (h : Leads M C s s') : Leads M C' s s' := by
  induction h with
  | refl => exact .refl
  | step _ ha hs ih => exact .step ih (hC _ _ ha) hs

/-- What is reached under a discipline is reached. -/
theorem Reachable.always {s : σ} (h : Reachable M C s) : Reachable M Always s := by
  induction h with
  | init h => exact .init h
  | step _ _ hs ih => exact .step ih trivial hs

/-- **The invariant rule.** A property of the initial states that every admitted step keeps holds of
every reachable state. The step may use that its source is reachable, and so every invariant proved
before. -/
theorem Reachable.invariant {I : σ → Prop} (hinit : ∀ s, M.init s → I s)
    (hstep : ∀ s a s', Reachable M C s → I s → C s a → M.step s a = some s' → I s') {s : σ}
    (h : Reachable M C s) : I s := by
  induction h with
  | init h => exact hinit _ h
  | step hr hC hs ih => exact hstep _ _ _ hr ih hC hs

/-- The invariant rule along a run from a reachable state. -/
theorem Leads.invariant {I : σ → Prop} {s s' : σ} (hr : Reachable M C s) (hI : I s)
    (hstep : ∀ s a s', Reachable M C s → I s → C s a → M.step s a = some s' → I s')
    (h : Leads M C s s') : I s' := by
  induction h with
  | refl => exact hI
  | step h' hC hs ih => exact hstep _ _ _ (hr.leads h') ih hC hs

/-- **Forward simulation.** `R` relates each initial state to something, and each admitted step of a
related state to something: then every reachable state is related to something. -/
theorem Reachable.simulate {τ : Type} {R : σ → τ → Prop} (hinit : ∀ s, M.init s → ∃ t, R s t)
    (hstep : ∀ s a s' t, Reachable M C s → R s t → C s a → M.step s a = some s' → ∃ t', R s' t')
    {s : σ} (h : Reachable M C s) : ∃ t, R s t :=
  h.invariant (I := fun s => ∃ t, R s t) hinit
    (fun s a s' hr ⟨t, ht⟩ hC hs => hstep s a s' t hr ht hC hs)

/-- A run goes on from where another has ended. -/
theorem Machine.run_append (as bs : List α) {s s' : σ} (h : M.run s as = some s') :
    M.run s (as ++ bs) = M.run s' bs := by
  induction as generalizing s with
  | nil =>
    obtain rfl := Option.some.inj h
    rfl
  | cons a as ih =>
    obtain ⟨s₁, hs, h⟩ := Option.bind_eq_some_iff.mp h
    rw [List.cons_append, Machine.run, hs, Option.bind_some, ih h]

/-! ## Coming to rest -/

/-- From states with a property, the actions of a kind keep it and lower the rank. -/
structure Machine.Descends (M : Machine σ α) (I : σ → Prop) (kind : α → Prop) (rank : σ → ℕ) :
    Prop where
  keeps : ∀ s a s', I s → kind a → M.step s a = some s' → I s'
  lowers : ∀ s a s', I s → kind a → M.step s a = some s' → rank s' < rank s

/-- No action of the kind can be taken. -/
def Machine.AtRest (M : Machine σ α) (kind : α → Prop) (s : σ) : Prop :=
  ∀ a, kind a → M.step s a = none

section Rest

variable {I : σ → Prop} {kind : α → Prop} {rank : σ → ℕ}

/-- A run of such actions is no longer than the rank it starts at. -/
theorem Machine.Descends.run (d : M.Descends I kind rank) (as : List α) {s s' : σ} (hI : I s)
    (hkind : ∀ a ∈ as, kind a) (h : M.run s as = some s') :
    I s' ∧ as.length + rank s' ≤ rank s := by
  induction as generalizing s with
  | nil =>
    obtain rfl := Option.some.inj h
    exact ⟨hI, Nat.le_of_eq (Nat.zero_add _)⟩
  | cons a as ih =>
    obtain ⟨s₁, hs, h⟩ := Option.bind_eq_some_iff.mp h
    have ha := hkind a List.mem_cons_self
    obtain ⟨hI', hlength⟩ := ih (d.keeps s a s₁ hI ha hs) (fun b hb => hkind b (.tail _ hb)) h
    have hlower := d.lowers s a s₁ hI ha hs
    refine ⟨hI', ?_⟩
    rw [List.length_cons]
    omega

/-- Some run of such actions ends at rest: whoever goes on comes to an end. -/
theorem Machine.Descends.comes_to_rest (d : M.Descends I kind rank) {s : σ} (hI : I s) :
    ∃ as s', (∀ a ∈ as, kind a) ∧ M.run s as = some s' ∧ M.AtRest kind s' := by
  induction hn : rank s using Nat.strongRecOn generalizing s with
  | ind n ih =>
    by_cases hrest : M.AtRest kind s
    · exact ⟨[], s, (fun a ha => absurd ha List.not_mem_nil), rfl, hrest⟩
    · obtain ⟨a, hrest⟩ := not_forall.mp hrest
      obtain ⟨ha, hstep⟩ := Classical.not_imp.mp hrest
      obtain ⟨s₁, hs⟩ := Option.ne_none_iff_exists'.mp hstep
      obtain ⟨as, s', hkind, hrun, hrest⟩ :=
        ih (rank s₁) (hn ▸ d.lowers s a s₁ hI ha hs) (d.keeps s a s₁ hI ha hs) rfl
      refine ⟨a :: as, s', ?_, Option.bind_eq_some_iff.mpr ⟨s₁, hs, hrun⟩, hrest⟩
      intro b hb
      rcases List.mem_cons.mp hb with rfl | hb
      · exact ha
      · exact hkind b hb

end Rest

/-! ## Runs by evaluation -/

/-- A run whose every step is checked against a decidable condition. -/
def Machine.runIf (M : Machine σ α) (C : σ → α → Prop) [∀ s a, Decidable (C s a)] (s : σ) :
    List α → Option σ
  | [] => some s
  | a :: as => if C s a then (M.step s a).bind fun s' => Machine.runIf M C s' as else none

theorem Machine.runIf_leads [∀ s a, Decidable (C s a)] :
    ∀ (as : List α) {s s' : σ}, M.runIf C s as = some s' → Leads M C s s'
  | [], s, s', h => by
    cases h
    exact .refl
  | a :: as, s, s', h => by
    simp only [Machine.runIf] at h
    split at h
    next hC =>
      obtain ⟨s₁, hs, h'⟩ := Option.bind_eq_some_iff.mp h
      exact (Leads.step .refl hC hs).trans (Machine.runIf_leads as h')
    next => cases h

theorem Machine.run_leads :
    ∀ (as : List α) {s s' : σ}, M.run s as = some s' → Leads M Always s s'
  | [], s, s', h => by
    cases h
    exact .refl
  | a :: as, s, s', h => by
    obtain ⟨s₁, hs, h'⟩ := Option.bind_eq_some_iff.mp h
    exact (Leads.step .refl trivial hs).trans (Machine.run_leads as h')

end Transition
