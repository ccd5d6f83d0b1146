import TcpServer.Laws.Sections

/-!
# The ledger of the server

The store refines books of goods (`Base/Bookkeeping.lean`). A task is at most one entry: a granted
`Buy` takes, a `Remove` puts back, an accepted `MakeOrder` settles, and a rejected task is no entry.
`Account` extends the store with what the source forgets, the quantities delivered and the money
received, and `books_after` is the refinement: after any tasks the account's books are the initial ones
with the entries of the history posted.

The same entries posted in exact integers are the exact ledger. Its carts are the net quantities
(`netQuantity`: granted buys minus removes since the last accepted order), and the machine's books are
its image modulo 2^64 (`exactBooks_cast`). Nothing here assumes that a `Remove` is covered by the cart:
that is where the exact ledger goes negative and the machine's wraps.
-/

namespace TcpServer

open Bookkeeping

/-- The entry a task makes in the books, if any. -/
def entryOf : Task × Outcome → Option (Entry SessionId ItemId SizeT)
  | (.buy i c s, o) => if o.ok then some (.take s i c) else none
  | (.remove i c s, _) => some (.putBack s i c)
  | (.makeOrder _ s, o) => if o.ok then some (.settle s) else none

/-- The entries of a history. -/
def entries (h : List (Task × Outcome)) : List (Entry SessionId ItemId SizeT) := h.filterMap entryOf

/-- The store with the quantities delivered and the money received so far. -/
structure Account where
  store : Store
  delivered : ItemId → ℕ
  revenue : ℕ

namespace Account

/-- The account of a new server. -/
def initial (itemHolder : ItemHolder) : Account where
  store := .initial itemHolder
  delivered _ := 0
  revenue := 0

/-- A task on the account: an accepted order delivers the cart it erases and brings in its sum. -/
def exec (a : Account) (t : Task) : Account :=
  let r := a.store.exec t
  match t with
  | .makeOrder orderSum s =>
    if r.2.ok then
      { store := r.1
        delivered := fun i => a.delivered i + (a.store.quantity s i).toNat
        revenue := a.revenue + orderSum.toNat }
    else { a with store := r.1 }
  | _ => { a with store := r.1 }

/-- The account after some tasks, the newest first. -/
def after (a : Account) : List Task → Account
  | [] => a
  | t :: ts => (a.after ts).exec t

theorem store_exec (a : Account) (t : Task) : (a.exec t).store = (a.store.exec t).1 := by
  cases t with
  | buy i c s => rfl
  | remove i c s => rfl
  | makeOrder o s =>
    simp only [exec]
    split <;> rfl

theorem store_after (a : Account) (ts : List Task) : (a.after ts).store = a.store.after ts := by
  induction ts with
  | nil => rfl
  | cons t ts ih => rw [after, store_exec, ih, Store.after]

/-- The account as books in `size_t`. -/
def books (a : Account) : Books SessionId ItemId SizeT where
  stock := a.store.stock
  cart := a.store.quantity
  delivered i := (a.delivered i : SizeT)

/-- **Refinement, one task.** The store moves as the books do. -/
theorem books_exec (a : Account) (t : Task) :
    (a.exec t).books = a.books.postOpt (entryOf (t, (a.store.exec t).2)) := by
  cases t with
  | buy i c s =>
    by_cases h : c ≤ a.store.stock i
    · rw [entryOf, if_pos (a.store.ok_buy.mpr h)]
      apply books_ext
      · intro j
        show (a.store.exec (.buy i c s)).1.stock j = (a.books.move s i c).stock j
        rw [stock_move, a.store.exec_buy_granted h]
        exact a.store.stock_takeStock i c j
      · intro s' j
        show (a.store.exec (.buy i c s)).1.quantity s' j = (a.books.move s i c).cart s' j
        rw [cart_move, a.store.exec_buy_granted h]
        exact (a.store.takeStock i c).quantity_addToCart i c s s' j
      · intro j
        rfl
    · rw [entryOf, if_neg (fun e => h (a.store.ok_buy.mp e))]
      apply books_ext
      · intro j
        show (a.store.exec (.buy i c s)).1.stock j = a.store.stock j
        rw [a.store.exec_buy_refused h]
        exact a.store.stock_touch i j
      · intro s' j
        show (a.store.exec (.buy i c s)).1.quantity s' j = a.store.quantity s' j
        rw [a.store.exec_buy_refused h]
        rfl
      · intro j
        rfl
  | remove i c s =>
    apply books_ext
    · intro j
      show (a.store.returnStock i c).stock j = (a.books.move s i (-c)).stock j
      rw [stock_move, sub_neg_eq_add]
      exact a.store.stock_returnStock i c j
    · intro s' j
      show ((a.store.returnStock i c).takeFromCart i c s).quantity s' j =
        (a.books.move s i (-c)).cart s' j
      rw [cart_move, ← sub_eq_add_neg]
      exact (a.store.returnStock i c).quantity_takeFromCart i c s s' j
    · intro j
      rfl
  | makeOrder o s =>
    by_cases h : (a.store.pricing s).tempSum = o
    · have hok := a.store.ok_makeOrder.mpr h
      rw [entryOf, if_pos hok]
      apply books_ext
      · intro j
        show (a.exec (.makeOrder o s)).store.stock j = a.store.stock j
        rw [store_exec, a.store.exec_makeOrder_accepted h]
        rfl
      · intro s' j
        show (a.exec (.makeOrder o s)).store.quantity s' j = (a.books.post (.settle s)).cart s' j
        rw [store_exec, cart_settle, a.store.exec_makeOrder_accepted h, Store.quantity_eraseCart,
          Store.quantity_checkOrderCost]
        rfl
      · intro j
        show ((a.exec (.makeOrder o s)).delivered j : SizeT) =
          (a.delivered j : SizeT) + a.store.quantity s j
        simp only [exec, hok, if_true, Nat.cast_add, natCast_toNat]
    · have hok : ¬ (a.store.exec (.makeOrder o s)).2.ok = true := fun e => h (a.store.ok_makeOrder.mp e)
      rw [entryOf, if_neg hok]
      apply books_ext
      · intro j
        show (a.exec (.makeOrder o s)).store.stock j = a.store.stock j
        rw [store_exec, a.store.exec_makeOrder_refused h]
        rfl
      · intro s' j
        show (a.exec (.makeOrder o s)).store.quantity s' j = a.store.quantity s' j
        rw [store_exec, a.store.exec_makeOrder_refused h]
        exact a.store.quantity_checkOrderCost o s s' j
      · intro j
        simp only [books, exec, hok, Bool.false_eq_true, if_false, Books.postOpt]

/-- **Refinement.** The books of the account are the initial ones with the history posted. -/
theorem books_after (a : Account) (ts : List Task) :
    (a.after ts).books = a.books.postAll (entries (a.store.history ts)) := by
  induction ts with
  | nil => rfl
  | cons t ts ih =>
    rw [after, books_exec, ih, store_after]
    exact (postAll_filterMap_cons a.books entryOf _ _).symm

end Account

/-! ## The exact ledger -/

/-- The net quantity of an item for a session: its granted `Buy`s minus its `Remove`s since its last
accepted order. The history's newest task comes first. -/
def netQuantity (s : SessionId) (i : ItemId) : List (Task × Outcome) → ℤ
  | [] => 0
  | (.buy i' c s', o) :: h =>
    if s' = s ∧ i' = i ∧ o.ok then netQuantity s i h + c.toNat else netQuantity s i h
  | (.remove i' c s', _) :: h =>
    if s' = s ∧ i' = i then netQuantity s i h - c.toNat else netQuantity s i h
  | (.makeOrder _ s', o) :: h => if s' = s ∧ o.ok then 0 else netQuantity s i h

/-- The quantities of an entry as integers. -/
def exact (e : Entry SessionId ItemId SizeT) : Entry SessionId ItemId ℤ :=
  e.map fun c => (c.toNat : ℤ)

/-- The exact books before any task: the initial stock, and nothing in carts or delivered. -/
def exactStart (st : Store) : Books SessionId ItemId ℤ where
  stock i := (st.stock i).toNat
  cart _ _ := 0
  delivered _ := 0

/-- The exact books of a history: its entries posted as integers. -/
def exactBooks (st : Store) (h : List (Task × Outcome)) : Books SessionId ItemId ℤ :=
  (exactStart st).postAll (h.filterMap fun x => (entryOf x).map exact)

theorem exactBooks_cons (st : Store) (x : Task × Outcome) (h : List (Task × Outcome)) :
    exactBooks st (x :: h) = (exactBooks st h).postOpt ((entryOf x).map exact) :=
  postAll_filterMap_cons (exactStart st) (fun x => (entryOf x).map exact) x h

/-- The carts of the exact books are the net quantities. -/
theorem cart_exactBooks (st : Store) (h : List (Task × Outcome)) (s : SessionId) (i : ItemId) :
    (exactBooks st h).cart s i = netQuantity s i h := by
  induction h with
  | nil => rfl
  | cons x h ih =>
    obtain ⟨t, o⟩ := x
    rw [exactBooks_cons]
    cases t with
    | buy i' c s' =>
      cases ho : o.ok with
      | false =>
        simp only [entryOf, netQuantity, ho, Bool.false_eq_true, if_false, and_false, Option.map_none]
        exact ih
      | true =>
        simp only [entryOf, netQuantity, ho, and_true, if_true, Option.map_some, ← ih]
        refine (cart_move _ s' i' (c.toNat : ℤ) s i).trans ?_
        by_cases hs : s' = s ∧ i' = i
        · obtain ⟨rfl, rfl⟩ := hs
          simp only [and_self, if_true]
        · rw [if_neg fun e => hs ⟨e.1.symm, e.2.symm⟩, if_neg hs]
    | remove i' c s' =>
      simp only [entryOf, netQuantity, Option.map_some, ← ih]
      refine (cart_move _ s' i' (-(c.toNat : ℤ)) s i).trans ?_
      by_cases hs : s' = s ∧ i' = i
      · obtain ⟨rfl, rfl⟩ := hs
        simp only [and_self, if_true, sub_eq_add_neg]
      · rw [if_neg fun e => hs ⟨e.1.symm, e.2.symm⟩, if_neg hs]
    | makeOrder m s' =>
      cases ho : o.ok with
      | false =>
        simp only [entryOf, netQuantity, ho, Bool.false_eq_true, if_false, and_false, Option.map_none]
        exact ih
      | true =>
        simp only [entryOf, netQuantity, ho, and_true, if_true, Option.map_some, ← ih]
        refine (cart_settle _ s' s i).trans ?_
        by_cases hs : s' = s
        · rw [if_pos hs.symm, if_pos hs]
        · rw [if_neg fun e => hs e.symm, if_neg hs]

/-- The machine's books are the exact ones modulo 2^64. -/
theorem exactBooks_cast (itemHolder : ItemHolder) (ts : List Task) :
    (exactBooks (.initial itemHolder) ((Store.initial itemHolder).history ts)).map
        (Int.castAddHom SizeT) =
      ((Account.initial itemHolder).after ts).books := by
  have back : ∀ e : Entry SessionId ItemId SizeT, (exact e).map (Int.castAddHom SizeT) = e := by
    intro e
    cases e <;> simp only [exact, Entry.map, Int.coe_castAddHom, intCast_toNat]
  have start : (exactStart (.initial itemHolder)).map (Int.castAddHom SizeT) =
      (Account.initial itemHolder).books := by
    apply books_ext
    · intro i
      exact intCast_toNat _
    · intro s i
      show ((0 : ℤ) : SizeT) = (Store.initial itemHolder).quantity s i
      rw [Store.quantity_initial, Int.cast_zero]
    · intro i
      rfl
  rw [exactBooks, map_postAll, start, Account.books_after, List.map_filterMap]
  refine congrArg _ (List.filterMap_congr fun x _ => ?_)
  rw [Option.map_map]
  cases entryOf x with
  | none => rfl
  | some e => exact congrArg some (back e)

/-- **The ledger.** A cart holds the net quantity modulo 2^64. -/
theorem quantity_after (itemHolder : ItemHolder) (ts : List Task) (s : SessionId) (i : ItemId) :
    ((Store.initial itemHolder).after ts).quantity s i =
      (netQuantity s i ((Store.initial itemHolder).history ts) : SizeT) := by
  have h := congrArg (fun b => b.cart s i) (exactBooks_cast itemHolder ts)
  simp only [Books.map, cart_exactBooks, Int.coe_castAddHom, Account.books, Account.store_after] at h
  exact h.symm

theorem stock_after (itemHolder : ItemHolder) (ts : List Task) (i : ItemId) :
    ((Store.initial itemHolder).after ts).stock i =
      ((exactBooks (.initial itemHolder) ((Store.initial itemHolder).history ts)).stock i : SizeT) := by
  have h := congrArg (fun b => b.stock i) (exactBooks_cast itemHolder ts)
  simp only [Books.map, Int.coe_castAddHom, Account.books, Account.store_after] at h
  exact h.symm

end TcpServer
