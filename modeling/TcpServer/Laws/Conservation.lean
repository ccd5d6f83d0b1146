import TcpServer.Laws.Ledger

/-!
# Conservation of goods and money

In machine arithmetic nothing is lost: whatever the tasks and their order, the stock, the carts and the
deliveries of an item add up to its initial amount modulo 2^64, and the money received is the worth of
what was delivered, modulo 2^64. The goods are an instance of `total_postAll`; the money is carried by
`worth_exec`, where the sum of an accepted order is the price of the very cart it erases.
-/

namespace TcpServer

open Bookkeeping

/-- What was delivered is worth what was received, at the prices `price`. -/
def Account.Settled (price : ItemId → SizeT) (a : Account) : Prop :=
  (a.revenue : SizeT) = value price a.books.delivered

/-- One task keeps the money settled: an accepted order brings in the price of the cart it delivers. -/
theorem Account.worth_exec {a : Account} (h : a.Settled a.store.cost) (t : Task) :
    (a.exec t).Settled a.store.cost := by
  cases t with
  | buy i c s => exact h
  | remove i c s => exact h
  | makeOrder o s =>
    by_cases hp : (a.store.pricing s).tempSum = o
    · have hok := a.store.ok_makeOrder.mpr hp
      have hbooks : (a.exec (.makeOrder o s)).books = a.books.post (.settle s) := by
        rw [Account.books_exec, entryOf, if_pos hok]
        rfl
      have hsum : value a.store.cost (a.books.cart s) = o :=
        (a.store.pricing_spec s).1.symm.trans hp
      rw [Settled, hbooks, value_settle, hsum, ← h]
      simp only [exec, hok, if_true, Nat.cast_add, natCast_toNat]
    · have hok : ¬ (a.store.exec (.makeOrder o s)).2.ok = true := fun e => hp (a.store.ok_makeOrder.mp e)
      simp only [Settled, exec, hok, Bool.false_eq_true, if_false]
      exact h

theorem Account.worth_after (a : Account) (h : a.Settled a.store.cost) (ts : List Task) :
    (a.after ts).Settled a.store.cost := by
  induction ts with
  | nil => exact h
  | cons t ts ih =>
    have hcost : (a.after ts).store.cost = a.store.cost := by
      funext i
      rw [store_after, Store.cost_after]
    rw [← hcost] at ih ⊢
    exact worth_exec ih t

/-- The goods after any tasks, in `size_t`. -/
theorem goods_after (itemHolder : ItemHolder) (ts : List Task) (i : ItemId) :
    ((Account.initial itemHolder).after ts).books.total i = (Store.initial itemHolder).stock i := by
  rw [Account.books_after, total_postAll]
  exact total_of_empty (fun s => Store.quantity_initial itemHolder s i) rfl

/-- The money after any tasks, in `size_t`. -/
theorem money_after (itemHolder : ItemHolder) (ts : List Task) :
    ((Account.initial itemHolder).after ts).Settled (Store.initial itemHolder).cost := by
  refine Account.worth_after (Account.initial itemHolder) ?_ ts
  simp only [Account.Settled, value, Account.books, Account.initial, Nat.cast_zero, mul_zero,
    Finset.sum_const_zero]

/-- **Conservation of goods and money**: after any tasks in any order, every item's stock, carts and
deliveries add up to its initial amount modulo 2^64, and the revenue is the cost of the deliveries
modulo 2^64. -/
theorem conservation (itemHolder : ItemHolder) (ts : List Task) :
    (∀ i, (((Account.initial itemHolder).after ts).store.stock i).toNat +
        ∑ s, (((Account.initial itemHolder).after ts).store.quantity s i).toNat +
        ((Account.initial itemHolder).after ts).delivered i ≡
      ((Store.initial itemHolder).stock i).toNat [MOD 2 ^ 64]) ∧
    ((Account.initial itemHolder).after ts).revenue ≡
      ∑ i, ((Store.initial itemHolder).cost i).toNat *
        ((Account.initial itemHolder).after ts).delivered i [MOD 2 ^ 64] := by
  constructor
  · intro i
    rw [natModEq_iff, Nat.cast_add, Nat.cast_add, Nat.cast_sum, natCast_toNat, natCast_toNat,
      ← goods_after itemHolder ts i]
    simp only [natCast_toNat]
    rfl
  · rw [natModEq_iff, money_after itemHolder ts, value, Nat.cast_sum]
    refine Finset.sum_congr rfl fun i _ => ?_
    rw [Nat.cast_mul, natCast_toNat]
    rfl

end TcpServer
