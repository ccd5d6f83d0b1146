import TcpServer.Base.Bookkeeping
import TcpServer.ServiceLayer.Store

/-!
# What the critical sections do

One specification per section of `Store.lean`, so that later proofs cite it and never unfold a
section. Quantities and prices are read through `stock`, `quantity`, `cost` and `cookingTime`, in which
an absent entry counts as zero; the keys a lookup creates are stated apart, where they matter.

The pricing loop is the one section with a loop: `pricing_spec` says that it computes the two sums over
ALL items (an item that is not in the cart contributes zero), changes no price, and adds exactly the
priced items that the catalogue lacks.
-/

namespace TcpServer

open UnorderedMap

namespace Store

variable (st : Store)

/-! ## `Buy` -/

theorem stock_touch (i j : ItemId) :
    Store.stock { st with itemsAmount := st.itemsAmount.touch i } j = st.stock j :=
  value_touch st.itemsAmount i j

/-- A refused `Buy` leaves only what its guard's lookup created. -/
theorem buy_refused {i c : SizeT} {s : SessionId} (h : ¬ c ≤ st.stock i) :
    st.buy i c s = (false, { st with itemsAmount := st.itemsAmount.touch i }) := by
  simp only [buy, guardBuy, stock_touch, h, decide_false, Bool.false_eq_true, if_false]

/-- A granted `Buy` moves the quantity from the stock into the cart. -/
theorem buy_granted {i c : SizeT} {s : SessionId} (h : c ≤ st.stock i) :
    st.buy i c s = (true, (st.takeStock i c).addToCart i c s) := by
  simp only [buy, guardBuy, stock_touch, h, decide_true, if_true, takeStock, addToCart, modify_touch]

theorem stock_takeStock (i c j : SizeT) :
    (st.takeStock i c).stock j = if j = i then st.stock i - c else st.stock j :=
  value_modify st.itemsAmount i (· - c) j

theorem stock_returnStock (i c j : SizeT) :
    (st.returnStock i c).stock j = if j = i then st.stock i + c else st.stock j :=
  value_modify st.itemsAmount i (· + c) j

/-- Both compound assignments to a cart, in one statement about the cart's quantities. -/
theorem quantity_modify (f : SizeT → SizeT) (i : ItemId) (s s' : SessionId) (j : ItemId) :
    Store.quantity { st with boughtItems := st.boughtItems.modify s (·.modify i f) } s' j =
      if s' = s ∧ j = i then f (st.quantity s i) else st.quantity s' j := by
  unfold quantity
  rw [value_modify]
  by_cases hs : s' = s
  · subst hs
    simp only [if_true, value_modify, true_and]
  · simp only [hs, if_false, false_and]

theorem quantity_addToCart (i c : SizeT) (s s' : SessionId) (j : ItemId) :
    (st.addToCart i c s).quantity s' j =
      if s' = s ∧ j = i then st.quantity s i + c else st.quantity s' j :=
  st.quantity_modify (· + c) i s s' j

theorem quantity_takeFromCart (i c : SizeT) (s s' : SessionId) (j : ItemId) :
    (st.takeFromCart i c s).quantity s' j =
      if s' = s ∧ j = i then st.quantity s i - c else st.quantity s' j :=
  st.quantity_modify (· - c) i s s' j

/-! ## The pricing loop -/

/-- The value every accumulator of the loop may rely on: no lookup changes a price. -/
theorem pricing_add_value (p : Pricing) (i a j : SizeT) :
    (p.add i a).itemsDescription.value j = p.itemsDescription.value j := by
  unfold Pricing.add
  split
  next => rfl
  next => exact value_touch p.itemsDescription i j

theorem eq_zero_of_le_zero {a : SizeT} (h : a ≤ 0) : a = 0 := by
  have := BitVec.le_def.mp h
  exact BitVec.eq_of_toNat_eq (Nat.le_zero.mp this)

/-- One round adds cost times amount: a skipped entry would have added zero. -/
theorem pricing_add_tempSum (p : Pricing) (i a : SizeT) :
    (p.add i a).tempSum = p.tempSum + (p.itemsDescription.value i).cost * a := by
  unfold Pricing.add
  split
  next h => rw [eq_zero_of_le_zero h, mul_zero, add_zero]
  next => rfl

theorem pricing_add_totalCookingTime (p : Pricing) (i a : SizeT) :
    (p.add i a).totalCookingTime =
      p.totalCookingTime + a * (p.itemsDescription.value i).cookingTime := by
  unfold Pricing.add
  split
  next h => rw [eq_zero_of_le_zero h, zero_mul, add_zero]
  next => rfl

theorem mem_pricing_add (p : Pricing) (i a j : SizeT) :
    j ∈ (p.add i a).itemsDescription ↔ j ∈ p.itemsDescription ∨ (j = i ∧ a ≠ 0) := by
  unfold Pricing.add
  split
  next h => simp only [eq_zero_of_le_zero h, ne_eq, not_true, and_false, or_false]
  next h =>
    have ha : a ≠ 0 := fun e => h (e ▸ BitVec.le_refl 0)
    simp only [mem_touch, ne_eq, ha, not_false_eq_true, and_true]
    exact or_comm

/-- The catalogue `d` has the prices of the store. -/
def SamePrices (d : UnorderedMap ItemId Item) : Prop :=
  ∀ j, d.value j = st.itemsDescription.value j

/-- The loop as a sum: any reading of the accumulators that a round moves by `g` of its entry. -/
theorem pricing_weigh (s : SessionId) (weigh : Pricing → SizeT) (g : ItemId → SizeT → SizeT)
    (zero : ∀ i, g i 0 = 0)
    (adds : ∀ (p : Pricing) (i a : SizeT), st.SamePrices p.itemsDescription →
      weigh (p.add i a) = weigh p + g i a) :
    st.SamePrices (st.pricing s).itemsDescription ∧
      weigh (st.pricing s) = weigh ⟨0, 0, st.itemsDescription⟩ + ∑ i, g i (st.quantity s i) := by
  have h := foldl_weigh Pricing.add_comm (fun p : Pricing => st.SamePrices p.itemsDescription)
    weigh g (fun p i a h j => (pricing_add_value p i a j).trans (h j)) adds
    (st.boughtItems.value s) (d := ⟨0, 0, st.itemsDescription⟩) (fun _ => rfl)
  rw [sum_keys _ zero] at h
  exact h

/-- **The pricing loop**: both sums, and the prices it leaves behind. -/
theorem pricing_spec (s : SessionId) :
    (st.pricing s).tempSum = ∑ i, st.cost i * st.quantity s i ∧
      (st.pricing s).totalCookingTime = ∑ i, st.quantity s i * st.cookingTime i ∧
      st.SamePrices (st.pricing s).itemsDescription := by
  have sum := st.pricing_weigh s Pricing.tempSum (fun i a => st.cost i * a)
    (fun i => mul_zero (st.cost i)) (fun p i a h => by rw [pricing_add_tempSum, h]; rfl)
  have cook := st.pricing_weigh s Pricing.totalCookingTime (fun i a => a * st.cookingTime i)
    (fun i => zero_mul (st.cookingTime i)) (fun p i a h => by rw [pricing_add_totalCookingTime, h]; rfl)
  exact ⟨sum.2.trans (zero_add _), cook.2.trans (zero_add _), sum.1⟩

/-- The loop adds to the catalogue the items it prices and does not find. -/
theorem mem_pricing_iff (s : SessionId) (i : ItemId) :
    i ∈ (st.pricing s).itemsDescription ↔ i ∈ st.itemsDescription ∨ st.quantity s i ≠ 0 := by
  have h := foldl_exists Pricing.add_comm (fun p : Pricing => i ∈ p.itemsDescription)
    (fun j a => i = j ∧ a ≠ 0) (fun p j a => mem_pricing_add p j a i) (st.boughtItems.value s)
    ⟨0, 0, st.itemsDescription⟩
  refine h.trans (or_congr_right ⟨?_, fun hq => ?_⟩)
  · rintro ⟨j, a, hl, rfl, ha⟩
    rwa [quantity, value_of_lookup hl]
  · by_cases hm : i ∈ st.boughtItems.value s
    · exact ⟨i, _, lookup_of_mem hm, rfl, hq⟩
    · exact absurd (value_of_notMem hm) hq

/-! ## Tasks -/

theorem exec_buy_granted {i c : SizeT} {s : SessionId} (h : c ≤ st.stock i) :
    st.exec (.buy i c s) =
      ((st.takeStock i c).addToCart i c s, { answer := .bought, makeProduct := none }) := by
  simp only [exec, st.buy_granted h, if_true]

theorem exec_buy_refused {i c : SizeT} {s : SessionId} (h : ¬ c ≤ st.stock i) :
    st.exec (.buy i c s) = ({ st with itemsAmount := st.itemsAmount.touch i },
      { answer := .tooMany i, makeProduct := none }) := by
  simp only [exec, st.buy_refused h, Bool.false_eq_true, if_false]

theorem exec_makeOrder_accepted {o : SizeT} {s : SessionId} (h : (st.pricing s).tempSum = o) :
    st.exec (.makeOrder o s) = ((st.checkOrderCost o s).2.2.eraseCart s,
      { answer := .ready s, makeProduct := some (st.pricing s).totalCookingTime }) := by
  simp only [exec, makeOrder, checkOrderCost, h, decide_true, if_true, Option.isSome_some]

theorem exec_makeOrder_refused {o : SizeT} {s : SessionId} (h : (st.pricing s).tempSum ≠ o) :
    st.exec (.makeOrder o s) = ((st.checkOrderCost o s).2.2,
      { answer := .notSufficient o s, makeProduct := none }) := by
  simp only [exec, makeOrder, checkOrderCost, h, decide_false, Bool.false_eq_true, if_false,
    Option.isSome_none]

/-- A `Buy` is granted exactly when the stock suffices. -/
theorem ok_buy {i c : SizeT} {s : SessionId} :
    (st.exec (.buy i c s)).2.ok = true ↔ c ≤ st.stock i := by
  by_cases h : c ≤ st.stock i
  · rw [st.exec_buy_granted h]
    exact iff_of_true rfl h
  · rw [st.exec_buy_refused h]
    exact iff_of_false Bool.false_ne_true h

/-- An order is accepted exactly when its sum is the price the loop computes. -/
theorem ok_makeOrder {o : SizeT} {s : SessionId} :
    (st.exec (.makeOrder o s)).2.ok = true ↔ (st.pricing s).tempSum = o := by
  by_cases h : (st.pricing s).tempSum = o
  · rw [st.exec_makeOrder_accepted h]
    exact iff_of_true rfl h
  · rw [st.exec_makeOrder_refused h]
    exact iff_of_false Bool.false_ne_true h

/-- An accepted order has the kitchen cook for the total cooking time of the cart. -/
theorem makeProduct_makeOrder {o : SizeT} {s : SessionId} :
    (st.exec (.makeOrder o s)).2.makeProduct =
      if (st.pricing s).tempSum = o then some (st.pricing s).totalCookingTime else none := by
  by_cases h : (st.pricing s).tempSum = o
  · rw [st.exec_makeOrder_accepted h, if_pos h]
  · rw [st.exec_makeOrder_refused h, if_neg h]

theorem quantity_checkOrderCost (o : SizeT) (s s' : SessionId) (i : ItemId) :
    (st.checkOrderCost o s).2.2.quantity s' i = st.quantity s' i := by
  simp only [quantity, checkOrderCost, value_touch]

theorem quantity_eraseCart (s s' : SessionId) (i : ItemId) :
    (st.eraseCart s).quantity s' i = if s' = s then 0 else st.quantity s' i := by
  unfold quantity eraseCart
  rw [value_erase]
  by_cases h : s' = s
  · rw [if_pos h, if_pos h]
    exact value_empty i
  · rw [if_neg h, if_neg h]

/-- The carts of a new server are empty. -/
theorem quantity_initial (itemHolder : ItemHolder) (s : SessionId) (i : ItemId) :
    (Store.initial itemHolder).quantity s i = 0 := by
  rw [quantity, initial, value_empty]
  exact value_empty i

/-- No task changes a price: the entries it may create cost nothing, as absent ones do. -/
theorem value_itemsDescription_exec (t : Task) (i : ItemId) :
    (st.exec t).1.itemsDescription.value i = st.itemsDescription.value i := by
  cases t with
  | buy j c s =>
    by_cases h : c ≤ st.stock j
    · rw [st.exec_buy_granted h]
      rfl
    · rw [st.exec_buy_refused h]
  | remove j c s => rfl
  | makeOrder o s =>
    by_cases h : (st.pricing s).tempSum = o
    · rw [st.exec_makeOrder_accepted h]
      exact (st.pricing_spec s).2.2 i
    · rw [st.exec_makeOrder_refused h]
      exact (st.pricing_spec s).2.2 i

theorem value_itemsDescription_after (ts : List Task) (i : ItemId) :
    (st.after ts).itemsDescription.value i = st.itemsDescription.value i := by
  induction ts with
  | nil => rfl
  | cons t ts ih => rw [after, value_itemsDescription_exec, ih]

theorem cost_after (ts : List Task) (i : ItemId) : (st.after ts).cost i = st.cost i :=
  congrArg Item.cost (st.value_itemsDescription_after ts i)

theorem cookingTime_after (ts : List Task) (i : ItemId) :
    (st.after ts).cookingTime i = st.cookingTime i :=
  congrArg Item.cookingTime (st.value_itemsDescription_after ts i)

end Store

end TcpServer
