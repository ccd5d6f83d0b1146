import TcpServer.Laws.Sections

/-!
# Rejected tasks

A task answered with an error status changes no quantity and no price, but its lookups create entries:
the guard of `Buy` the item it asks for, the pricing loop the session's cart and the items it prices.
As finite maps the three maps are what they were exactly when all of these were there before
(`rejection_atomic_iff`).
-/

namespace TcpServer

open UnorderedMap

/-- Every entry a task looks up before its verdict is there. -/
def LookupsPresent (st : Store) : Task → Prop
  | .buy i _ _ => i ∈ st.itemsAmount
  | .remove _ _ _ => True
  | .makeOrder _ s =>
    s ∈ st.boughtItems ∧ ∀ i, st.quantity s i ≠ 0 → i ∈ st.itemsDescription

/-- A task answered with an error leaves the three maps as they were. -/
def RejectionAtomic (st : Store) (t : Task) : Prop :=
  (st.exec t).2.answer.status ≠ .ok → (st.exec t).1 = st

theorem Store.eq_iff {st st' : Store} :
    st = st' ↔ st.itemsAmount = st'.itemsAmount ∧ st.itemsDescription = st'.itemsDescription ∧
      st.boughtItems = st'.boughtItems := by
  obtain ⟨a, d, b⟩ := st
  obtain ⟨a', d', b'⟩ := st'
  exact Store.mk.injEq a d b a' d' b' ▸ Iff.rfl

/-- The pricing loop leaves the catalogue alone exactly when every priced item is in it. -/
theorem pricing_itemsDescription_eq_iff (st : Store) (s : SessionId) :
    (st.pricing s).itemsDescription = st.itemsDescription ↔
      ∀ i, st.quantity s i ≠ 0 → i ∈ st.itemsDescription := by
  constructor
  · intro h i hq
    rw [← h]
    exact (st.mem_pricing_iff s i).mpr (.inr hq)
  · intro h
    refine ext_value (fun i => ?_) (st.pricing_spec s).2.2
    rw [st.mem_pricing_iff]
    exact ⟨fun hi => hi.elim id (h i), .inl⟩

/-- **Rejections are atomic exactly when their lookups find what they look for.** -/
theorem rejection_atomic_iff (st : Store) (t : Task) (rejected : (st.exec t).2.answer.status ≠ .ok) :
    (st.exec t).1 = st ↔ LookupsPresent st t := by
  have hok : ¬ (st.exec t).2.ok = true := fun h => rejected (of_decide_eq_true h)
  cases t with
  | buy i c s =>
    rw [st.exec_buy_refused fun h => hok (st.ok_buy.mpr h), Store.eq_iff]
    simp only [and_self, and_true, LookupsPresent]
    exact touch_eq_self
  | remove i c s => exact absurd rfl rejected
  | makeOrder o s =>
    rw [st.exec_makeOrder_refused fun h => hok (st.ok_makeOrder.mpr h), Store.eq_iff]
    simp only [Store.checkOrderCost, true_and, LookupsPresent, pricing_itemsDescription_eq_iff,
      touch_eq_self]
    exact and_comm

/-- Eight burgers where there are seven: refused, and nothing changes. -/
theorem rejection_atomic_burger :
    ((Store.initial .burger).exec (.buy 1 8 1)).2.answer.status ≠ .ok ∧
      ((Store.initial .burger).exec (.buy 1 8 1)).1 = Store.initial .burger := by
  have rejected : ((Store.initial .burger).exec (.buy 1 8 1)).2.answer.status ≠ .ok := by decide
  have present : LookupsPresent (Store.initial .burger) (.buy 1 8 1) := by
    show (1 : ItemId) ∈ (Store.initial .burger).itemsAmount
    decide
  exact ⟨rejected, (rejection_atomic_iff _ _ rejected).mpr present⟩

/-- A `Buy` of an unknown item, refused by a fresh server: the item is in the stock afterwards. -/
theorem refused_buy_creates_item :
    ¬ ∀ (itemHolder : ItemHolder) (ts : List Task) (t : Task),
      RejectionAtomic ((Store.initial itemHolder).after ts) t := by
  intro h
  have same := h .burger [] (.buy 2 1 1) (by decide)
  have created : (2 : ItemId) ∈
      (((Store.initial .burger).after []).exec (.buy 2 1 1)).1.itemsAmount := by decide
  rw [same] at created
  exact absurd created (by decide)

end TcpServer
