import Mathlib.Data.List.Basic

/-!
# A thread pool

Function objects are posted to a pool, its threads take them one by one, and the pool can be waited for
and stopped. All that a pool shows is what happens to it, in the order in which it happens
(`PoolHistory`).

Boost is no part of the program. What is used of its `thread_pool` is a parameter (`ThreadPool`): when a
thread may take what is queued, and when a `wait` returns. What is relied on is its documentation
(`ThreadPool.Documented`): `wait` blocks until the threads of the pool have completed, which, unless the
pool is stopped, is when it has no more outstanding work. What `stop` does to the function objects in
the queue is not said, and nothing is relied on.

A pool that is waited for may be out of work some time before the `wait` returns. What is posted in
between counts as posted to a pool that is `spent`: nothing says that it is ever taken.
-/

namespace TcpServer

inductive PoolEvent where
  /-- A function object is queued. -/
  | post
  /-- A thread takes a function object. -/
  | start
  /-- A function object returns. -/
  | finish
  /-- A call of `wait` or of `join` begins. -/
  | wait
  | stop
  deriving DecidableEq, Repr

/-- What has happened to a pool, the newest first. -/
abbrev PoolHistory := List PoolEvent

namespace PoolHistory

def running (h : PoolHistory) : ℕ := h.count .start - h.count .finish

/-- The function objects that are queued or running. -/
def outstanding (h : PoolHistory) : ℕ := h.count .post - h.count .finish

/-- The pool has been waited for, and has been out of work since. -/
def spent : PoolHistory → Bool
  | [] => false
  | e :: h => decide (.wait ∈ e :: h ∧ outstanding (e :: h) = 0) || spent h

theorem spent_cons {e : PoolEvent} {h : PoolHistory} :
    spent (e :: h) = true ↔ (.wait ∈ e :: h ∧ outstanding (e :: h) = 0) ∨ h.spent = true := by
  rw [spent, Bool.or_eq_true, decide_eq_true_eq]

/-- A pool stays spent. -/
theorem spent_append (later : PoolHistory) {h : PoolHistory} (spends : h.spent = true) :
    spent (later ++ h) = true := by
  induction later with
  | nil => exact spends
  | cons e later ih => exact spent_cons.mpr (.inr ih)

/-- A pool that is waited for is spent when it is out of work. -/
theorem spent_of_outstanding {h : PoolHistory} (waited : .wait ∈ h) (none : h.outstanding = 0) :
    h.spent = true := by
  cases h with
  | nil => cases waited
  | cons e h => exact spent_cons.mpr (.inl ⟨waited, none⟩)

/-- Only a pool that was waited for is spent. -/
theorem wait_of_spent {h : PoolHistory} (spends : h.spent = true) : .wait ∈ h := by
  induction h with
  | nil => cases spends
  | cons e h ih =>
    rcases spent_cons.mp spends with ⟨waited, _⟩ | spends
    · exact waited
    · exact .tail _ (ih spends)

end PoolHistory

/-! ## Histories and counts -/

/-- With this history, so many function objects are queued and so many are running. -/
structure Tally (h : PoolHistory) (queued running : ℕ) : Prop where
  posted : h.count .post = queued + h.count .start
  started : h.count .start = running + h.count .finish

namespace Tally

variable {h : PoolHistory} {queued running : ℕ}

theorem running_eq (t : Tally h queued running) : h.running = running := by
  rw [PoolHistory.running, t.started, Nat.add_sub_cancel]

theorem outstanding_eq (t : Tally h queued running) : h.outstanding = queued + running := by
  rw [PoolHistory.outstanding, t.posted, t.started, ← Nat.add_assoc, Nat.add_sub_cancel]

theorem post (t : Tally h queued running) : Tally (.post :: h) (queued + 1) running := by
  obtain ⟨posted, started⟩ := t
  refine ⟨?_, ?_⟩ <;> simp only [List.count_cons] <;> simp <;> omega

theorem start (t : Tally h (queued + 1) running) : Tally (.start :: h) queued (running + 1) := by
  obtain ⟨posted, started⟩ := t
  refine ⟨?_, ?_⟩ <;> simp only [List.count_cons] <;> simp <;> omega

theorem finish (t : Tally h queued (running + 1)) : Tally (.finish :: h) queued running := by
  obtain ⟨posted, started⟩ := t
  refine ⟨?_, ?_⟩ <;> simp only [List.count_cons] <;> simp <;> omega

theorem wait (t : Tally h queued running) : Tally (.wait :: h) queued running := by
  obtain ⟨posted, started⟩ := t
  refine ⟨?_, ?_⟩ <;> simp only [List.count_cons] <;> simp <;> omega

theorem stop (t : Tally h queued running) : Tally (.stop :: h) queued running := by
  obtain ⟨posted, started⟩ := t
  refine ⟨?_, ?_⟩ <;> simp only [List.count_cons] <;> simp <;> omega

end Tally

/-! ## Pools -/

/-- What is used of Boost's `thread_pool`. -/
structure ThreadPool where
  /-- After this history a thread that has nothing to do may take a function object from the queue. -/
  takes : PoolHistory → Bool
  /-- After this history a `wait` that has begun returns. -/
  returns : PoolHistory → Bool

namespace ThreadPool

/-- What is relied on of it. -/
structure Documented (pool : ThreadPool) : Prop where
  takes_unspent : ∀ h : PoolHistory, .stop ∉ h → h.spent = false → pool.takes h = true
  /-- The threads have completed when `wait` returns: none of them runs a function object, -/
  returns_running : ∀ h : PoolHistory, pool.returns h = true → h.running = 0
  /-- and none takes another one, ever. -/
  returns_takes : ∀ h later : PoolHistory, pool.returns h = true → pool.takes (later ++ h) = false
  returns_spent : ∀ h : PoolHistory, pool.returns h = true → .stop ∉ h → h.spent = true
  returns_of_spent : ∀ h : PoolHistory, .stop ∉ h → h.spent = true → h.running = 0 →
    pool.returns h = true

/-- A `wait` for the pool has returned. -/
def Completed (pool : ThreadPool) (h : PoolHistory) : Prop :=
  ∃ later before : PoolHistory, h = later ++ before ∧ pool.returns before = true

variable {pool : ThreadPool} {h : PoolHistory}

theorem Completed.append (later : PoolHistory) (done : pool.Completed h) :
    pool.Completed (later ++ h) := by
  obtain ⟨since, before, rfl, returns⟩ := done
  exact ⟨later ++ since, before, (List.append_assoc ..).symm, returns⟩

theorem Completed.of_returns (returns : pool.returns h = true) : pool.Completed h :=
  ⟨[], h, rfl, returns⟩

theorem Completed.takes (doc : pool.Documented) (done : pool.Completed h) : pool.takes h = false := by
  obtain ⟨later, before, rfl, returns⟩ := done
  exact doc.returns_takes before later returns

end ThreadPool

end TcpServer
