import TcpServer.Laws.Ledger

/-!
# Exact pricing

The exact price of a session's cart is the sum of cost times net quantity over the items it holds a
positive net quantity of. The pricing loop computes something else: the sum over all items modulo 2^64,
with a net quantity below zero priced as the `size_t` it wraps to, because the filter `amount <= 0`
holds of no `size_t` but zero.

`tempSum_after` states the difference: the loop's sum is the exact price minus the debt, the cost of what
the session removed beyond what it was granted, modulo 2^64; and likewise for the cooking time. So the
pricing of a cart is exact for every order sum exactly when price and cooking time fit a `size_t` and
both debts vanish modulo 2^64 (`exact_pricing_iff`).
-/

namespace TcpServer

section Exact

variable (st : Store) (rate : ItemId → SizeT) (s : SessionId) (h : List (Task × Outcome))

/-- A rate times the net quantity, over the items with a positive net quantity. -/
def exactSum : ℕ :=
  ∑ i with 0 < netQuantity s i h, (rate i).toNat * (netQuantity s i h).toNat

/-- A rate times the missing quantity, over the items removed beyond what was granted. -/
def debt : ℕ :=
  ∑ i with netQuantity s i h < 0, (rate i).toNat * (-netQuantity s i h).toNat

/-- An order is accepted exactly for the exact price, and then cooked for exactly the exact cooking
time. `ts` are the tasks before it. -/
def ExactPricing (ts : List Task) (orderSum : SizeT) : Prop :=
  (((st.after ts).exec (.makeOrder orderSum s)).2.ok = true ↔
      orderSum.toNat = exactSum st.cost s (st.history ts)) ∧
    (((st.after ts).exec (.makeOrder orderSum s)).2.ok = true →
      ∃ k : SizeT, ((st.after ts).exec (.makeOrder orderSum s)).2.makeProduct = some k ∧
        k.toNat = exactSum st.cookingTime s (st.history ts))

/-- The exact price is asked for: then the debts vanish in `size_t` arithmetic and the cooking time
fits. Or it is not: then neither is what the loop takes for it. -/
def OrderInRange (ts : List Task) (orderSum : SizeT) : Prop :=
  if orderSum.toNat = exactSum st.cost s (st.history ts) then
    2 ^ 64 ∣ debt st.cost s (st.history ts) ∧
      exactSum st.cookingTime s (st.history ts) < 2 ^ 64 ∧
      2 ^ 64 ∣ debt st.cookingTime s (st.history ts)
  else
    ¬ orderSum.toNat + debt st.cost s (st.history ts) ≡
      exactSum st.cost s (st.history ts) [MOD 2 ^ 64]

/-- Price and cooking time fit a `size_t`, and the debts vanish in `size_t` arithmetic. -/
def PricedInRange (ts : List Task) : Prop :=
  exactSum st.cost s (st.history ts) < 2 ^ 64 ∧
    exactSum st.cookingTime s (st.history ts) < 2 ^ 64 ∧
    2 ^ 64 ∣ debt st.cost s (st.history ts) ∧
    2 ^ 64 ∣ debt st.cookingTime s (st.history ts)

end Exact

/-- A sum over all items splits by the sign of the net quantity. -/
theorem sum_netQuantity (rate : ItemId → SizeT) (s : SessionId) (h : List (Task × Outcome)) :
    ∑ i, ((rate i).toNat : ℤ) * netQuantity s i h = exactSum rate s h - debt rate s h := by
  have term : ∀ i, ((rate i).toNat : ℤ) * netQuantity s i h =
      (if 0 < netQuantity s i h then
        (((rate i).toNat * (netQuantity s i h).toNat : ℕ) : ℤ) else 0) -
      (if netQuantity s i h < 0 then
        (((rate i).toNat * (-netQuantity s i h).toNat : ℕ) : ℤ) else 0) := by
    intro i
    rcases lt_trichotomy (netQuantity s i h) 0 with hq | hq | hq
    · rw [if_neg (not_lt.mpr hq.le), if_pos hq, Nat.cast_mul,
        Int.toNat_of_nonneg (neg_nonneg.mpr hq.le), mul_neg, zero_sub, neg_neg]
    · rw [hq, mul_zero, if_neg (lt_irrefl 0), if_neg (lt_irrefl 0), sub_zero]
    · rw [if_pos hq, if_neg (not_lt.mpr hq.le), Nat.cast_mul, Int.toNat_of_nonneg hq.le, sub_zero]
  rw [Finset.sum_congr rfl fun i _ => term i, Finset.sum_sub_distrib, ← Finset.sum_filter,
    ← Finset.sum_filter, exactSum, debt, Nat.cast_sum, Nat.cast_sum]

/-- A machine sum of rate times cart quantity is the exact sum minus the debt, modulo 2^64. -/
theorem sum_quantity_after (itemHolder : ItemHolder) (ts : List Task) (s : SessionId)
    (rate : ItemId → SizeT) :
    ∑ i, rate i * ((Store.initial itemHolder).after ts).quantity s i =
      (exactSum rate s ((Store.initial itemHolder).history ts) : SizeT) -
        (debt rate s ((Store.initial itemHolder).history ts) : SizeT) := by
  have cast := congrArg (fun z : ℤ => (z : SizeT))
    (sum_netQuantity rate s ((Store.initial itemHolder).history ts))
  simp only [Int.cast_sum, Int.cast_mul, Int.cast_sub, Int.cast_natCast, natCast_toNat] at cast
  rw [← cast]
  exact Finset.sum_congr rfl fun i _ => by rw [quantity_after]

section Loop

variable (itemHolder : ItemHolder) (ts : List Task) (s : SessionId)

/-- **What the loop charges**: the exact price minus the debt. -/
theorem tempSum_after :
    (((Store.initial itemHolder).after ts).pricing s).tempSum =
      (exactSum (Store.initial itemHolder).cost s ((Store.initial itemHolder).history ts) : SizeT) -
        (debt (Store.initial itemHolder).cost s ((Store.initial itemHolder).history ts) : SizeT) := by
  rw [(Store.pricing_spec _ s).1, ← sum_quantity_after]
  exact Finset.sum_congr rfl fun i _ => by rw [Store.cost_after]

/-- **What the loop has cooked**: the exact cooking time minus its debt. -/
theorem totalCookingTime_after :
    (((Store.initial itemHolder).after ts).pricing s).totalCookingTime =
      (exactSum (Store.initial itemHolder).cookingTime s
          ((Store.initial itemHolder).history ts) : SizeT) -
        (debt (Store.initial itemHolder).cookingTime s
          ((Store.initial itemHolder).history ts) : SizeT) := by
  rw [(Store.pricing_spec _ s).2.1, ← sum_quantity_after]
  exact Finset.sum_congr rfl fun i _ => by rw [Store.cookingTime_after, mul_comm]

end Loop

theorem natCast_eq_zero_iff {n : ℕ} : (n : SizeT) = 0 ↔ 2 ^ 64 ∣ n := by
  rw [show (0 : SizeT) = ((0 : ℕ) : SizeT) from rfl, ← natModEq_iff, Nat.modEq_zero_iff_dvd]

/-- A machine sum with a debt is the exact sum exactly when the exact sum fits and the debt vanishes. -/
theorem toNat_sub_debt {n d : ℕ} :
    ((n : SizeT) - (d : SizeT)).toNat = n ↔ n < 2 ^ 64 ∧ 2 ^ 64 ∣ d := by
  rw [← natCast_eq_zero_iff]
  constructor
  · intro h
    have hlt := ((n : SizeT) - (d : SizeT)).isLt
    rw [h] at hlt
    have same : (n : SizeT) - (d : SizeT) = n := by
      rw [← natCast_toNat ((n : SizeT) - (d : SizeT)), h]
    exact ⟨hlt, sub_eq_self.mp same⟩
  · rintro ⟨hn, hd⟩
    rw [hd, sub_zero, BitVec.natCast_eq_ofNat, BitVec.toNat_ofNat, Nat.mod_eq_of_lt hn]

/-- An order is accepted exactly when its sum and the debt make up the exact price, modulo 2^64. -/
theorem accepted_iff (itemHolder : ItemHolder) (ts : List Task) (s : SessionId) (orderSum : SizeT) :
    (((Store.initial itemHolder).after ts).exec (.makeOrder orderSum s)).2.ok = true ↔
      orderSum.toNat + debt (Store.initial itemHolder).cost s ((Store.initial itemHolder).history ts) ≡
        exactSum (Store.initial itemHolder).cost s ((Store.initial itemHolder).history ts)
        [MOD 2 ^ 64] := by
  rw [Store.ok_makeOrder, tempSum_after, natModEq_iff, Nat.cast_add, natCast_toNat, sub_eq_iff_eq_add]
  exact eq_comm

/-- An accepted order is cooked for exactly the exact cooking time when that fits and has no debt. -/
theorem cooked_iff (itemHolder : ItemHolder) (ts : List Task) (s : SessionId) {orderSum : SizeT}
    (hok : (((Store.initial itemHolder).after ts).exec (.makeOrder orderSum s)).2.ok = true) :
    (∃ k : SizeT,
        (((Store.initial itemHolder).after ts).exec (.makeOrder orderSum s)).2.makeProduct = some k ∧
          k.toNat =
            exactSum (Store.initial itemHolder).cookingTime s ((Store.initial itemHolder).history ts)) ↔
      exactSum (Store.initial itemHolder).cookingTime s ((Store.initial itemHolder).history ts) <
          2 ^ 64 ∧
        2 ^ 64 ∣
          debt (Store.initial itemHolder).cookingTime s ((Store.initial itemHolder).history ts) := by
  rw [← toNat_sub_debt, ← totalCookingTime_after, Store.makeProduct_makeOrder,
    if_pos ((Store.ok_makeOrder _).mp hok)]
  simp only [Option.some.injEq, exists_eq_left']

/-- **Exact pricing of an order**: after any tasks, an order is accepted exactly for the exact price and
then cooked for the exact cooking time, if and only if it is in range. -/
theorem exact_pricing_iff (itemHolder : ItemHolder) (ts : List Task) (s : SessionId)
    (orderSum : SizeT) :
    ExactPricing (.initial itemHolder) s ts orderSum ↔
      OrderInRange (.initial itemHolder) s ts orderSum := by
  rw [ExactPricing, OrderInRange]
  have accepted := accepted_iff itemHolder ts s orderSum
  by_cases hprice : orderSum.toNat =
      exactSum (Store.initial itemHolder).cost s ((Store.initial itemHolder).history ts)
  · -- the sum is the price: accepted exactly when the debt vanishes
    rw [if_pos hprice]
    rw [hprice, Nat.add_modEq_left_iff] at accepted
    constructor
    · rintro ⟨hiff, hcook⟩
      have hok := hiff.mpr hprice
      exact ⟨accepted.mp hok, (cooked_iff itemHolder ts s hok).mp (hcook hok)⟩
    · rintro ⟨hdebt, hcook⟩
      have hok := accepted.mpr hdebt
      exact ⟨iff_of_true hok hprice, fun _ => (cooked_iff itemHolder ts s hok).mpr hcook⟩
  · -- the sum is not the price: to be refused
    rw [if_neg hprice, ← accepted]
    constructor
    · rintro ⟨hiff, _⟩ hok
      exact hprice (hiff.mp hok)
    · intro hrefused
      exact ⟨iff_of_false hrefused hprice, fun hok => absurd hok hrefused⟩

/-- **Exact pricing of a session**, whatever the sums of its orders: exactly when price and cooking time
fit a `size_t` and the cost and the cooking time of what the session removed beyond what it was granted
vanish modulo 2^64. -/
theorem always_exact_iff (itemHolder : ItemHolder) (ts : List Task) (s : SessionId) :
    (∀ orderSum, ExactPricing (.initial itemHolder) s ts orderSum) ↔
      PricedInRange (.initial itemHolder) s ts := by
  have price := @toNat_sub_debt
    (exactSum (Store.initial itemHolder).cost s ((Store.initial itemHolder).history ts))
    (debt (Store.initial itemHolder).cost s ((Store.initial itemHolder).history ts))
  have cook := @toNat_sub_debt
    (exactSum (Store.initial itemHolder).cookingTime s ((Store.initial itemHolder).history ts))
    (debt (Store.initial itemHolder).cookingTime s ((Store.initial itemHolder).history ts))
  rw [← tempSum_after] at price
  rw [← totalCookingTime_after] at cook
  constructor
  · intro h
    -- the order with the sum the loop computes is accepted
    obtain ⟨hiff, hcook⟩ := h (((Store.initial itemHolder).after ts).pricing s).tempSum
    have hok := (Store.ok_makeOrder ((Store.initial itemHolder).after ts) (s := s)).mpr rfl
    obtain ⟨k, hk, hkn⟩ := hcook hok
    rw [Store.makeProduct_makeOrder, if_pos rfl] at hk
    obtain rfl := Option.some.inj hk
    have hprice := price.mp (hiff.mp hok)
    have hcooking := cook.mp hkn
    exact ⟨hprice.1, hcooking.1, hprice.2, hcooking.2⟩
  · rintro ⟨hs, hk, hds, hdk⟩ orderSum
    have hprice := price.mpr ⟨hs, hds⟩
    constructor
    · rw [Store.ok_makeOrder, ← hprice, BitVec.toNat_inj]
      exact eq_comm
    · intro hok
      exact ⟨_, (Store.makeProduct_makeOrder _).trans (if_pos ((Store.ok_makeOrder _).mp hok)),
        cook.mpr ⟨hk, hdk⟩⟩

/-- A burger that was never bought is removed, and the order for nothing, worth nothing, is refused:
the loop prices the wrapped quantity. -/
theorem overdrawn_cart_mispriced :
    ¬ ∀ (itemHolder : ItemHolder) (ts : List Task) (s : SessionId) (orderSum : SizeT),
      ExactPricing (.initial itemHolder) s ts orderSum := by
  intro h
  obtain ⟨hiff, _⟩ := h .burger [.remove 1 1 1] 1 0
  have nothing : exactSum (Store.initial .burger).cost 1
      ((Store.initial .burger).history [.remove 1 1 1]) = 0 := by
    refine Finset.sum_eq_zero fun i hi => ?_
    have hq := (Finset.mem_filter.mp hi).2
    simp only [Store.history, netQuantity, true_and] at hq
    split at hq
    next => exact absurd hq (by decide)
    next => exact absurd hq (lt_irrefl 0)
  have accepted := hiff.mpr nothing.symm
  exact absurd accepted (by decide)

end TcpServer
