import Mathlib.Data.List.Nodup
import Mathlib.Logic.Relation
import TcpServer.Base.Transition

/-!
# Linearizable histories

Clients invoke the operations of a shared object and are given responses; operations overlap. The
history of a run is linearizable when each operation can be taken to happen at one point: there is a
sequential run of the object whose operations were all invoked, in which every operation that has
responded gave that response, and in which an operation that had responded before another one was
invoked comes before it.

The proofs are by commit points. A `Ledger` is a history with the sequential run committed to so far,
and it advances in three ways: an operation is invoked, commits, or gives the response it committed
to. However it advances, the run it commits to linearizes its history (`Linearizes.advance`). A machine
whose steps are matched by advances of a ledger has linearizable histories
(`linearizable_of_simulation`).

Histories and runs are lists, the newest first.
-/

namespace Linearizability

open Transition Relation

/-- A sequential object. An operation need not have a response in every state. -/
structure Object (σ Op Ret : Type) where
  init : σ
  apply : σ → Op → Option (σ × Ret)

/-- What is seen of an operation. -/
inductive Event (Id Op Ret : Type) where
  | invoke (i : Id) (op : Op)
  | respond (i : Id) (ret : Ret)

/-- An operation that has taken effect, with the response this settles. -/
structure Commit (Id Op Ret : Type) where
  id : Id
  op : Op
  ret : Ret

variable {σ Op Ret Id : Type}

/-- The commits are a run of the object, which ends in a state. -/
inductive Object.Runs (O : Object σ Op Ret) : List (Commit Id Op Ret) → σ → Prop
  | start : Runs O [] O.init
  | commit {cs : List (Commit Id Op Ret)} {st st' : σ} {i : Id} {op : Op} {ret : Ret} :
    Runs O cs st → O.apply st op = some (st', ret) → Runs O ({ id := i, op, ret } :: cs) st'

/-- A history, a sequential run and the state it ends in. -/
structure Ledger (σ Op Ret Id : Type) where
  history : List (Event Id Op Ret)
  commits : List (Commit Id Op Ret)
  state : σ

/-- Nothing has happened yet. -/
def Object.start (O : Object σ Op Ret) : Ledger σ Op Ret Id :=
  { history := [], commits := [], state := O.init }

/-- **The run linearizes the history.** -/
structure Linearizes (O : Object σ Op Ret) (l : Ledger σ Op Ret Id) : Prop where
  legal : O.Runs l.commits l.state
  once : (l.commits.map Commit.id).Nodup
  invoked : ∀ c ∈ l.commits, .invoke c.id c.op ∈ l.history
  completed : ∀ i ret, .respond i ret ∈ l.history → ∃ c ∈ l.commits, c.id = i ∧ c.ret = ret
  /-- Whatever had responded when an operation was invoked comes before it. -/
  realTime : ∀ c before, (c :: before) <:+ l.commits →
    ∀ op earlier, (.invoke c.id op :: earlier) <:+ l.history →
      ∀ i ret, .respond i ret ∈ earlier → ∃ c' ∈ before, c'.id = i

/-- Some sequential run linearizes the history. -/
def Linearizable (O : Object σ Op Ret) (history : List (Event Id Op Ret)) : Prop :=
  ∃ commits state, Linearizes O { history, commits, state }

/-- The identity has not committed. -/
def Ledger.Open (l : Ledger σ Op Ret Id) (i : Id) : Prop := ∀ c ∈ l.commits, c.id ≠ i

/-- How a ledger advances. -/
inductive Advance (O : Object σ Op Ret) : Ledger σ Op Ret Id → Ledger σ Op Ret Id → Prop
  | invoke {l : Ledger σ Op Ret Id} (i : Id) (op : Op) (fresh : l.Open i) :
    Advance O l { l with history := .invoke i op :: l.history }
  | commit {l : Ledger σ Op Ret Id} {i : Id} {op : Op} {state : σ} {ret : Ret}
    (invoked : .invoke i op ∈ l.history) (fresh : l.Open i)
    (happens : O.apply l.state op = some (state, ret)) :
    Advance O l { l with commits := { id := i, op, ret } :: l.commits, state }
  | respond {l : Ledger σ Op Ret Id} {c : Commit Id Op Ret} (settled : c ∈ l.commits) :
    Advance O l { l with history := .respond c.id c.ret :: l.history }

section Advance

variable {O : Object σ Op Ret} {l l' : Ledger σ Op Ret Id}

theorem Object.linearizes_start (O : Object σ Op Ret) :
    Linearizes O (O.start : Ledger σ Op Ret Id) where
  legal := .start
  once := List.nodup_nil
  invoked _ hc := nomatch hc
  completed _ _ h := nomatch h
  realTime _ _ hs := nomatch List.suffix_nil.mp hs

/-- **The step lemma.** -/
theorem Linearizes.advance (lin : Linearizes O l) (h : Advance O l l') : Linearizes O l' := by
  cases h with
  | invoke i op fresh =>
    refine ⟨lin.legal, lin.once, fun c hc => .tail _ (lin.invoked c hc), fun j ret hj => ?_, ?_⟩
    · rcases List.mem_cons.mp hj with hj | hj
      · cases hj
      · exact lin.completed j ret hj
    · intro c before hc op' earlier hs
      rcases List.suffix_cons_iff.mp hs with heq | hs
      · -- what is invoked now has not committed
        obtain ⟨heq, _⟩ := List.cons.inj heq
        obtain ⟨rfl, _⟩ := Event.invoke.inj heq
        exact absurd rfl (fresh c (hc.subset List.mem_cons_self))
      · exact lin.realTime c before hc op' earlier hs
  | @commit i op state ret invoked fresh happens =>
    refine ⟨.commit lin.legal happens, ?_, fun c hc => ?_, fun j r hj => ?_, ?_⟩
    · refine List.nodup_cons.mpr ⟨fun hi => ?_, lin.once⟩
      obtain ⟨c, hc, heq⟩ := List.mem_map.mp hi
      exact fresh c hc heq
    · rcases List.mem_cons.mp hc with rfl | hc
      · exact invoked
      · exact lin.invoked c hc
    · obtain ⟨c, hc, hsettled⟩ := lin.completed j r hj
      exact ⟨c, .tail _ hc, hsettled⟩
    · intro c before hc op' earlier hs j r hj
      rcases List.suffix_cons_iff.mp hc with heq | hc
      · -- whatever has responded has committed
        obtain ⟨_, rfl⟩ := List.cons.inj heq
        obtain ⟨c', hc', hj', _⟩ := lin.completed j r (hs.subset (.tail _ hj))
        exact ⟨c', hc', hj'⟩
      · exact lin.realTime c before hc op' earlier hs j r hj
  | @respond c settled =>
    refine ⟨lin.legal, lin.once, fun c' hc' => .tail _ (lin.invoked c' hc'), fun j ret hj => ?_, ?_⟩
    · rcases List.mem_cons.mp hj with hj | hj
      · obtain ⟨rfl, rfl⟩ := Event.respond.inj hj
        exact ⟨c, settled, rfl, rfl⟩
      · exact lin.completed j ret hj
    · intro c' before hc' op' earlier hs
      rcases List.suffix_cons_iff.mp hs with heq | hs
      · cases (List.cons.inj heq).1
      · exact lin.realTime c' before hc' op' earlier hs

theorem Linearizes.advances (lin : Linearizes O l) (h : ReflTransGen (Advance O) l l') :
    Linearizes O l' := by
  induction h with
  | refl => exact lin
  | tail _ hstep ih => exact ih.advance hstep

end Advance

/-! ## Histories of a machine -/

variable {τ α : Type} {M : Machine τ α} {O : Object σ Op Ret}

/-- What is seen of a run, when `obs` is what is seen of a step. -/
def historyOf (M : Machine τ α) (obs : τ → α → List (Event Id Op Ret)) (s : τ) :
    List α → List (Event Id Op Ret)
  | [] => []
  | a :: as => ((M.step s a).elim [] fun s' => historyOf M obs s' as) ++ obs s a

/-- A part of what is seen that every step adds to a view of the state is what the view has at the
end. -/
theorem view_of_run {ε : Type} {obs : τ → α → List (Event Id Op Ret)}
    {part : Event Id Op Ret → Option ε} {view : τ → List ε}
    (hstep : ∀ s a s', Reachable M Always s → M.step s a = some s' →
      view s' = (obs s a).filterMap part ++ view s) (as : List α) {s₀ s : τ}
    (reached : Reachable M Always s₀) (h : M.run s₀ as = some s) :
    view s = (historyOf M obs s₀ as).filterMap part ++ view s₀ := by
  induction as generalizing s₀ with
  | nil =>
    obtain rfl := Option.some.inj h
    rfl
  | cons a as ih =>
    obtain ⟨s₁, hs, h⟩ := Option.bind_eq_some_iff.mp h
    rw [ih (.step reached trivial hs) h, hstep s₀ a s₁ reached hs, historyOf, hs, Option.elim_some,
      List.filterMap_append, List.append_assoc]

/-- **The commit point rule.** A machine has linearizable histories when each of its steps is matched by
advances of a ledger in which the step is seen. -/
theorem linearizable_of_simulation {obs : τ → α → List (Event Id Op Ret)}
    {R : τ → Ledger σ Op Ret Id → Prop} (hinit : ∀ s, M.init s → R s O.start)
    (hstep : ∀ s a s' l, Reachable M Always s → Linearizes O l → R s l → M.step s a = some s' →
      ∃ l', ReflTransGen (Advance O) l l' ∧ l'.history = obs s a ++ l.history ∧ R s' l')
    {s₀ s : τ} (start : M.init s₀) (as : List α) (h : M.run s₀ as = some s) :
    Linearizable O (historyOf M obs s₀ as) := by
  -- from any point of a run on
  have run : ∀ (as : List α) (s₀ : τ) (l : Ledger σ Op Ret Id), Reachable M Always s₀ →
      Linearizes O l → R s₀ l → M.run s₀ as = some s →
        ∃ l', Linearizes O l' ∧ l'.history = historyOf M obs s₀ as ++ l.history := by
    intro as
    induction as with
    | nil => exact fun _ l _ lin _ _ => ⟨l, lin, rfl⟩
    | cons a as ih =>
      intro s₀ l reached lin related h
      obtain ⟨s₁, hs, h⟩ := Option.bind_eq_some_iff.mp h
      obtain ⟨l₁, adv, seen, related⟩ := hstep s₀ a s₁ l reached lin related hs
      obtain ⟨l', lin', seen'⟩ :=
        ih s₁ l₁ (.step reached trivial hs) (lin.advances adv) related h
      refine ⟨l', lin', ?_⟩
      rw [seen', seen, historyOf, hs, Option.elim_some, List.append_assoc]
  obtain ⟨l, lin, seen⟩ := run as s₀ O.start (.init start) O.linearizes_start (hinit s₀ start) h
  obtain ⟨history, commits, state⟩ := l
  obtain rfl : history = historyOf M obs s₀ as := seen.trans (List.append_nil _)
  exact ⟨commits, state, lin⟩

end Linearizability
