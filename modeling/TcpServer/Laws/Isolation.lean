import TcpServer.Laws.Ledger

/-!
# Session isolation

What a session finds in its cart, and what its orders are answered, is decided by its own tasks and by
the verdicts on its `Buy`s. The other sessions act on the first only through those verdicts.

`ownTrace` is what a session knows of a run: its own tasks, in order, with the verdicts on its `Buy`s
(and not on its orders: those are a conclusion). `soloBooks` replays such a trace with nobody else
around, and `cart_after_solo` and `orderOutcomes_solo` say that the run of many sessions looks to each
of them like its solo replay. Two runs with one trace then agree.
-/

namespace TcpServer

open Bookkeeping

/-- The verdict on a `Buy`; the other tasks have none. -/
def verdict : Task × Outcome → Option Bool
  | (.buy _ _ _, o) => some o.ok
  | _ => none

/-- A session's own tasks in a history, with the verdicts on its `Buy`s. -/
def ownTrace (s : SessionId) (h : List (Task × Outcome)) : List (Task × Option Bool) :=
  (h.filter fun x => x.1.sessionId = s).map fun x => (x.1, verdict x)

/-- What a session's orders were answered in a history, and what they had cooked. -/
def orderOutcomes (s : SessionId) (h : List (Task × Outcome)) : List Outcome :=
  h.filterMap fun x =>
    match x with
    | (.makeOrder _ s', o) => if s' = s then some o else none
    | _ => none

section Solo

variable (st : Store)

/-- What an order of a session is answered, given the session's cart. -/
def soloOrder (cart : ItemId → SizeT) (orderSum : SizeT) (s : SessionId) : Outcome :=
  if value st.cost cart = orderSum then
    { answer := .ready s, makeProduct := some (∑ i, cart i * st.cookingTime i) }
  else { answer := .notSufficient orderSum s, makeProduct := none }

/-- The entry of a traced task, given the books before it. -/
def soloEntry (b : Books SessionId ItemId SizeT) :
    Task × Option Bool → Option (Entry SessionId ItemId SizeT)
  | (.buy i c s, v) => if v = some true then some (.take s i c) else none
  | (.remove i c s, _) => some (.putBack s i c)
  | (.makeOrder o s, _) => if (soloOrder st (b.cart s) o s).ok then some (.settle s) else none

/-- The books of a trace replayed alone. -/
def soloBooks (b : Books SessionId ItemId SizeT) :
    List (Task × Option Bool) → Books SessionId ItemId SizeT
  | [] => b
  | x :: tr => (soloBooks b tr).postOpt (soloEntry st (soloBooks b tr) x)

/-- The orders of a trace replayed alone. -/
def soloOutcomes (b : Books SessionId ItemId SizeT) : List (Task × Option Bool) → List Outcome
  | [] => []
  | (.makeOrder o s, _) :: tr => soloOrder st ((soloBooks st b tr).cart s) o s :: soloOutcomes b tr
  | _ :: tr => soloOutcomes b tr

end Solo

theorem ownTrace_own {s : SessionId} {t : Task} {o : Outcome} (h : List (Task × Outcome))
    (hs : t.sessionId = s) : ownTrace s ((t, o) :: h) = (t, verdict (t, o)) :: ownTrace s h := by
  rw [ownTrace, List.filter_cons_of_pos (by simpa only [decide_eq_true_eq] using hs)]
  rfl

theorem ownTrace_foreign {s : SessionId} {t : Task} {o : Outcome} (h : List (Task × Outcome))
    (hs : t.sessionId ≠ s) : ownTrace s ((t, o) :: h) = ownTrace s h := by
  rw [ownTrace, List.filter_cons_of_neg (by simpa only [decide_eq_true_eq] using hs)]
  rfl

/-- An entry is of the session its task is of. -/
theorem owner_of_entryOf {t : Task} {o : Outcome} {e : Entry SessionId ItemId SizeT}
    (h : entryOf (t, o) = some e) : e.owner = t.sessionId := by
  cases t with
  | buy i c s =>
    simp only [entryOf] at h
    split at h
    next => cases h; rfl
    next => cases h
  | remove i c s => cases h; rfl
  | makeOrder m s =>
    simp only [entryOf] at h
    split at h
    next => cases h; rfl
    next => cases h

/-- What an order is answered depends on the session's cart and on the prices. -/
theorem outcome_makeOrder (st : Store) (o : SizeT) (s : SessionId) :
    (st.exec (.makeOrder o s)).2 = soloOrder st (st.quantity s) o s := by
  obtain ⟨sum, hcook, _⟩ := st.pricing_spec s
  have hsum : (st.pricing s).tempSum = value st.cost (st.quantity s) := sum
  unfold soloOrder
  by_cases h : (st.pricing s).tempSum = o
  · rw [st.exec_makeOrder_accepted h, hcook, if_pos (hsum.symm.trans h)]
  · rw [st.exec_makeOrder_refused h, if_neg fun e => h (hsum.trans e)]

/-- The same order, priced in a later store: the prices are the initial ones. -/
theorem soloOrder_after (st : Store) (ts : List Task) (cart : ItemId → SizeT) (o : SizeT)
    (s : SessionId) : soloOrder (st.after ts) cart o s = soloOrder st cart o s := by
  have hcost : (st.after ts).cost = st.cost := funext fun i => st.cost_after ts i
  have hcook : (st.after ts).cookingTime = st.cookingTime := funext fun i => st.cookingTime_after ts i
  rw [soloOrder, soloOrder, hcost, hcook]

/-- **Isolation of the cart**: after any tasks, a session's cart is the one its own trace makes. -/
theorem cart_after_solo (a : Account) (s : SessionId) (ts : List Task) :
    (a.after ts).books.cart s =
      (soloBooks a.store a.books (ownTrace s (a.store.history ts))).cart s := by
  induction ts with
  | nil => rfl
  | cons t ts ih =>
    rw [Account.after, Account.books_exec, Account.store_after, Store.history]
    by_cases hs : t.sessionId = s
    · rw [ownTrace_own _ hs, soloBooks]
      have same : entryOf (t, ((a.store.after ts).exec t).2) =
          soloEntry a.store (soloBooks a.store a.books (ownTrace s (a.store.history ts)))
            (t, verdict (t, ((a.store.after ts).exec t).2)) := by
        cases t with
        | buy i c s' => simp only [entryOf, soloEntry, verdict, Option.some.injEq]
        | remove i c s' => rfl
        | makeOrder o s' =>
          obtain rfl : s' = s := hs
          have hcart : (a.store.after ts).quantity s' = (a.after ts).books.cart s' := by
            rw [← Account.store_after]
            rfl
          rw [entryOf, soloEntry, outcome_makeOrder, soloOrder_after, hcart, ih]
      rw [same]
      cases soloEntry a.store (soloBooks a.store a.books (ownTrace s (a.store.history ts)))
          (t, verdict (t, ((a.store.after ts).exec t).2)) with
      | none => exact ih
      | some e => exact cart_post_congr ih e
    · rw [ownTrace_foreign _ hs, ← ih]
      cases he : entryOf (t, ((a.store.after ts).exec t).2) with
      | none => rfl
      | some e => exact cart_post_of_ne _ fun e' => hs ((owner_of_entryOf he).symm.trans e'.symm)

/-- **Isolation of the answers**: a session's orders are answered as its own trace replayed alone. -/
theorem orderOutcomes_solo (a : Account) (s : SessionId) (ts : List Task) :
    orderOutcomes s (a.store.history ts) =
      soloOutcomes a.store a.books (ownTrace s (a.store.history ts)) := by
  induction ts with
  | nil => rfl
  | cons t ts ih =>
    rw [Store.history]
    by_cases hs : t.sessionId = s
    · rw [ownTrace_own _ hs]
      cases t with
      | buy i c s' => exact ih
      | remove i c s' => exact ih
      | makeOrder o s' =>
        obtain rfl : s' = s := hs
        have hcart : (a.store.after ts).quantity s' = (a.after ts).books.cart s' := by
          rw [← Account.store_after]
          rfl
        rw [soloOutcomes, ← ih, orderOutcomes, List.filterMap_cons, outcome_makeOrder,
          soloOrder_after, hcart, cart_after_solo]
        simp only [if_true]
        rfl
    · rw [ownTrace_foreign _ hs, ← ih, orderOutcomes, List.filterMap_cons]
      cases t with
      | buy i c s' => rfl
      | remove i c s' => rfl
      | makeOrder o s' =>
        simp only [if_neg (show ¬ s' = s from hs)]
        rfl

/-- **Session isolation.** Every cart quantity is the session's own net quantity modulo 2^64; and in
two runs with the same own trace of a session, its cart and the answers to its orders are the same,
whatever the other sessions do. -/
theorem session_isolation (itemHolder : ItemHolder) (s : SessionId) :
    (∀ (ts : List Task) (i : ItemId),
      ((((Store.initial itemHolder).after ts).quantity s i).toNat : ℤ) ≡
        netQuantity s i ((Store.initial itemHolder).history ts) [ZMOD 2 ^ 64]) ∧
    ∀ ts ts' : List Task,
      ownTrace s ((Store.initial itemHolder).history ts) =
          ownTrace s ((Store.initial itemHolder).history ts') →
        ((Store.initial itemHolder).after ts).quantity s =
            ((Store.initial itemHolder).after ts').quantity s ∧
          orderOutcomes s ((Store.initial itemHolder).history ts) =
            orderOutcomes s ((Store.initial itemHolder).history ts') := by
  constructor
  · intro ts i
    rw [intModEq_iff, intCast_toNat]
    exact quantity_after itemHolder ts s i
  · intro ts ts' same
    constructor
    · have cart := cart_after_solo (Account.initial itemHolder) s
      have h := (cart ts).trans ((congrArg (fun tr =>
        (soloBooks (Account.initial itemHolder).store (Account.initial itemHolder).books tr).cart s)
        same).trans (cart ts').symm)
      simp only [Account.books, Account.store_after] at h
      exact h
    · exact (orderOutcomes_solo (Account.initial itemHolder) s ts).trans
        ((congrArg _ same).trans (orderOutcomes_solo (Account.initial itemHolder) s ts').symm)

end TcpServer
