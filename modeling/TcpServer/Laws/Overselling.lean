import Mathlib.Data.Set.List
import TcpServer.Laws.Refinement

/-!
# Concurrent buyers

A batch of `Buy`s, in whatever order their tasks get the mutex. `Store.after` runs the newest task of a
list last, so a batch in an order is a list, and its suffixes are what has run before each of them.

No order sells more of an item than there is, and what is left is what was not sold: the guard reads
what is left, so that the subtraction never wraps (`stock_sold`). A `Buy` is rejected only when it asks
for more than that. When there is enough for the whole batch nobody is rejected in any order; and the
granted `Buy`s commute, so that all orders leave the same store (`no_overselling`).

A server that is only asked to buy runs such a batch, of the `Buy`s whose sections are over
(`server_sells`).
-/

namespace TcpServer

open Interleaving Transition UnorderedMap

/-- The arguments of a `Buy`. -/
structure Purchase where
  itemId : ItemId
  itemCount : SizeT
  sessionId : SessionId
  deriving DecidableEq, Repr

namespace Purchase

/-- The task of a `Buy`. -/
def task (b : Purchase) : Task := .buy b.itemId b.itemCount b.sessionId

/-- What is asked for of an item. -/
def wants (i : ItemId) (b : Purchase) : ℕ := if b.itemId = i then b.itemCount.toNat else 0

end Purchase

/-- What a batch asks for of an item. -/
def demand (i : ItemId) (bs : List Purchase) : ℕ := (bs.map (Purchase.wants i)).sum

namespace Store

/-- The store after a batch, the newest `Buy` first. -/
def afterBatch (st : Store) (bs : List Purchase) : Store := st.after (bs.map Purchase.task)

/-- The `Buy` is granted when its turn comes in the store. -/
def grants (st : Store) (b : Purchase) : Bool := (st.exec b.task).2.ok

/-- What a batch is granted of an item. -/
def sold (st : Store) (i : ItemId) : List Purchase → ℕ
  | [] => 0
  | b :: bs => (if (st.afterBatch bs).grants b then b.wants i else 0) + st.sold i bs

variable (st : Store)

theorem afterBatch_cons (b : Purchase) (bs : List Purchase) :
    st.afterBatch (b :: bs) = ((st.afterBatch bs).exec b.task).1 := rfl

theorem grants_iff {b : Purchase} : st.grants b = true ↔ b.itemCount ≤ st.stock b.itemId :=
  st.ok_buy

/-! ## What is left -/

/-- **The step lemma**: what a granted `Buy` takes is no longer there, and a rejected one takes
nothing. -/
theorem stock_exec_buy (b : Purchase) (i : ItemId) :
    ((st.exec b.task).1.stock i).toNat + (if st.grants b then b.wants i else 0) =
      (st.stock i).toNat := by
  by_cases h : b.itemCount ≤ st.stock b.itemId
  · have hle := BitVec.le_def.mp h
    rw [if_pos (st.grants_iff.mpr h), Purchase.task, st.exec_buy_granted h, Purchase.wants]
    show ((st.takeStock b.itemId b.itemCount).stock i).toNat + _ = _
    rw [stock_takeStock]
    by_cases hi : i = b.itemId
    · rw [if_pos hi, if_pos hi.symm, hi, BitVec.toNat_sub_of_le h]
      omega
    · rw [if_neg hi, if_neg (Ne.symm hi), Nat.add_zero]
  · rw [if_neg fun e => h (st.grants_iff.mp e), Nat.add_zero, Purchase.task, st.exec_buy_refused h,
      stock_touch]

/-- **The run lemma**: what is left of an item and what was sold of it is what there was. -/
theorem stock_sold (i : ItemId) (bs : List Purchase) :
    ((st.afterBatch bs).stock i).toNat + st.sold i bs = (st.stock i).toNat := by
  induction bs with
  | nil => rfl
  | cons b bs ih =>
    have step := (st.afterBatch bs).stock_exec_buy b i
    rw [afterBatch_cons, sold]
    omega

theorem sold_le_demand (i : ItemId) (bs : List Purchase) : st.sold i bs ≤ demand i bs := by
  induction bs with
  | nil => exact Nat.le_refl 0
  | cons b bs ih =>
    rw [sold, demand, List.map_cons, List.sum_cons, ← demand]
    split <;> omega

/-! ## When there is enough -/

/-- There is enough of every item for the whole batch. -/
def Suffices (st : Store) (bs : List Purchase) : Prop := ∀ i, demand i bs ≤ (st.stock i).toNat

variable {st} {bs bs' : List Purchase}

/-- What a `Buy` of the batch asks for is left when its turn comes. -/
theorem Suffices.grants {b : Purchase} (h : st.Suffices bs) (hb : (b :: bs') <:+ bs) :
    (st.afterBatch bs').grants b = true := by
  rw [grants_iff, BitVec.le_def]
  have left := st.stock_sold b.itemId bs'
  have paid := st.sold_le_demand b.itemId bs'
  obtain ⟨later, rfl⟩ := hb
  have enough := h b.itemId
  simp only [demand, List.map_append, List.map_cons, List.sum_append, List.sum_cons, Purchase.wants,
    if_true] at enough paid
  omega

/-- Enough is enough in every order. -/
theorem Suffices.perm (h : st.Suffices bs) (order : bs'.Perm bs) : st.Suffices bs' := by
  intro i
  rw [demand, (order.map (Purchase.wants i)).sum_eq]
  exact h i

/-- The effect of a granted `Buy`. -/
def grant (b : Purchase) (st : Store) : Store :=
  (st.takeStock b.itemId b.itemCount).addToCart b.itemId b.itemCount b.sessionId

/-- **Granted `Buy`s commute**: on the stock as subtractions do, on the carts as additions do. -/
theorem grant_comm (b b' : Purchase) (st : Store) :
    grant b (grant b' st) = grant b' (grant b st) := by
  have stock : (st.itemsAmount.modify b'.itemId (· - b'.itemCount)).modify b.itemId
      (· - b.itemCount) = (st.itemsAmount.modify b.itemId (· - b.itemCount)).modify b'.itemId
        (· - b'.itemCount) :=
    modify_comm st.itemsAmount _ _ fun v => sub_right_comm v b'.itemCount b.itemCount
  have carts : (st.boughtItems.modify b'.sessionId (·.modify b'.itemId (· + b'.itemCount))).modify
      b.sessionId (·.modify b.itemId (· + b.itemCount)) =
        (st.boughtItems.modify b.sessionId (·.modify b.itemId (· + b.itemCount))).modify
          b'.sessionId (·.modify b'.itemId (· + b'.itemCount)) :=
    modify_comm st.boughtItems _ _ fun m =>
      modify_comm m _ _ fun v => add_right_comm v b'.itemCount b.itemCount
  simp only [grant, takeStock, addToCart, stock, carts]

instance : LeftCommutative grant := ⟨grant_comm⟩

theorem exec_of_grants {b : Purchase} (h : st.grants b = true) : (st.exec b.task).1 = grant b st := by
  rw [Purchase.task, st.exec_buy_granted (st.grants_iff.mp h)]
  rfl

/-- When there is enough, a batch leaves the store its granted `Buy`s make. -/
theorem Suffices.afterBatch (h : st.Suffices bs) (hs : bs' <:+ bs) :
    st.afterBatch bs' = bs'.foldr grant st := by
  induction bs' with
  | nil => rfl
  | cons b bs' ih =>
    rw [afterBatch_cons, exec_of_grants (h.grants hs), ih ((List.suffix_cons b bs').trans hs),
      List.foldr_cons]

end Store

/-- **No overselling by concurrent buyers**: whatever is in stock, whoever buys how much of what, and
in whatever order. -/
theorem no_overselling (st : Store) (bs : List Purchase) :
    (∀ i, st.sold i bs ≤ (st.stock i).toNat ∧
      ((st.afterBatch bs).stock i).toNat = (st.stock i).toNat - st.sold i bs) ∧
    (∀ b earlier, (b :: earlier) <:+ bs → (st.afterBatch earlier).grants b = false →
      ((st.afterBatch earlier).stock b.itemId).toNat < b.itemCount.toNat) ∧
    (st.Suffices bs → ∀ order : List Purchase, order.Perm bs →
      (∀ b earlier, (b :: earlier) <:+ order → (st.afterBatch earlier).grants b = true) ∧
        (st.afterBatch order).itemsAmount = (st.afterBatch bs).itemsAmount ∧
        ∀ s i, (st.afterBatch order).quantity s i = (st.afterBatch bs).quantity s i) := by
  refine ⟨fun i => ?_, fun b earlier _ hrejected => ?_, fun enough order hperm => ?_⟩
  · have := st.stock_sold i bs
    omega
  · have short : ¬ b.itemCount ≤ (st.afterBatch earlier).stock b.itemId := fun h =>
      absurd (hrejected.symm.trans ((Store.grants_iff _).mpr h)) Bool.false_ne_true
    rw [BitVec.le_def] at short
    omega
  · have same : st.afterBatch order = st.afterBatch bs := by
      rw [(enough.perm hperm).afterBatch (List.suffix_refl order),
        enough.afterBatch (List.suffix_refl bs)]
      exact hperm.foldr_eq st
    exact ⟨fun b earlier hb => (enough.perm hperm).grants hb, by rw [same], fun s i => by rw [same]⟩

/-! ## On the server -/

section Server

variable {cfg : Config} {C : ServerState → Action Frame → Prop} {s : ServerState}

/-- The call of a `Buy`. -/
def Frame.buys : Frame → Bool
  | .cart c _ => decide (c.kind = .buy)
  | .order _ _ => false

theorem Purchase.task_injective : Function.Injective Purchase.task := by
  rintro ⟨i, c, σ⟩ ⟨i', c', σ'⟩ h
  obtain ⟨rfl, rfl, rfl⟩ := Task.buy.inj h
  rfl

/-- What a `Buy` has done is a `Buy`. -/
theorem purchase_of_done {f : Frame} {t : Task} (hf : f.buys = true) (hdone : f.done? = some t) :
    ∃ b : Purchase, b.task = t := by
  cases f with
  | order c pc => exact absurd hf Bool.false_ne_true
  | cart c pc =>
    have hkind : c.kind = .buy := of_decide_eq_true hf
    have htask : c.task = t := by
      cases pc <;> first | exact Option.some.inj hdone | cases hdone
    refine ⟨⟨c.itemId, c.itemCount, c.sessionId⟩, ?_⟩
    rw [← htask, CartCall.task, hkind]
    rfl

/-- **Concurrent buyers of a server**: whatever their interleaving, what is in stock is what a batch of
the `Buy`s that are done has left of it, and nothing was sold that was not there. -/
theorem server_sells (h : Reachable (serverMachine cfg) C s)
    (buyers : ∀ f ∈ s.agents, f.buys = true) (free : s.mutexFree = true) :
    ∃ bs : List Purchase, (∀ b, bs.count b = s.agents.countP (Frame.hasDone b.task)) ∧
      s.memory.store = (Store.initial cfg.itemHolder).afterBatch bs ∧
      ∀ i, (s.memory.store.stock i).toNat + (Store.initial cfg.itemHolder).sold i bs =
        ((Store.initial cfg.itemHolder).stock i).toNat := by
  obtain ⟨ts, inv⟩ := server_runs_tasks h
  have purchases : ∀ t ∈ ts, t ∈ Set.range Purchase.task := by
    intro t ht
    have hcount := inv.done t ▸ List.count_pos_iff.mpr ht
    obtain ⟨f, hf, hdone⟩ := List.countP_pos_iff.mp hcount
    exact purchase_of_done (buyers f hf) (of_decide_eq_true hdone)
  have batch : ts ∈ Set.range (List.map Purchase.task) := by
    rw [Set.range_list_map]
    exact purchases
  obtain ⟨bs, rfl⟩ := batch
  have left := inv.free (nobody_mutex free)
  refine ⟨bs, fun b => ?_, left, fun i => ?_⟩
  · rw [← inv.done, List.count_map_of_injective bs _ Purchase.task_injective]
  · rw [left]
    exact (Store.initial cfg.itemHolder).stock_sold i bs

end Server

end TcpServer
