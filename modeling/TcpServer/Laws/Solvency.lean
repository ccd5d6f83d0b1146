import TcpServer.Laws.Ledger

/-!
# No goods out of nothing

`Buy` looks whether the stock suffices before it takes from it; `Remove` takes from a cart without
looking. So goods can come out of nothing: a session that removes what it never bought adds to the
stock, and its cart wraps below zero (`goods_from_nothing`).

That is the only way. `no_goods_from_nothing_iff` says that a run makes no goods out of nothing
exactly when each of its removes is covered by the session's net quantity, in exact arithmetic. One
direction is solvency: covered entries keep the exact books nonnegative, nonnegative quantities stay
below the initial amount, hence in the range of `size_t`, and the machine's books do not wrap. The
other direction reads the first uncovered remove off the machine's cart, which is exact until then.
-/

namespace TcpServer

open Bookkeeping

/-- In every state of a run no stock exceeds the initial one, and every `Remove` of the run that was
answered "ok" found what it took in the cart. -/
def NoGoodsFromNothing (st : Store) (ts : List Task) : Prop :=
  (∀ ts', ts' <:+ ts → ∀ i, (st.after ts').stock i ≤ st.stock i) ∧
    ∀ i c s ts', (.remove i c s :: ts') <:+ ts →
      ((st.after ts').exec (.remove i c s)).2.ok = true → c ≤ (st.after ts').quantity s i

/-- Every `Remove` of a run takes at most the net quantity of its session: what the session was
granted minus what it removed since its last accepted order. -/
def RemovesCovered (st : Store) (ts : List Task) : Prop :=
  ∀ i c s ts', (.remove i c s :: ts') <:+ ts → (c.toNat : ℤ) ≤ netQuantity s i (st.history ts')

theorem NoGoodsFromNothing.tail {st : Store} {t : Task} {ts : List Task}
    (h : NoGoodsFromNothing st (t :: ts)) : NoGoodsFromNothing st ts :=
  ⟨fun ts' h' => h.1 ts' (h'.trans (List.suffix_cons t ts)),
    fun i c s ts' h' => h.2 i c s ts' (h'.trans (List.suffix_cons t ts))⟩

theorem RemovesCovered.suffix {st : Store} {ts ts' : List Task} (h : RemovesCovered st ts)
    (h' : ts' <:+ ts) : RemovesCovered st ts' :=
  fun i c s ts'' h'' => h i c s ts'' (h''.trans h')

/-- The exact books of a run of the server made of `itemHolder`. -/
abbrev runBooks (itemHolder : ItemHolder) (ts : List Task) : Books SessionId ItemId ℤ :=
  exactBooks (.initial itemHolder) ((Store.initial itemHolder).history ts)

theorem total_exactStart (st : Store) (i : ItemId) :
    (exactStart st).total i = (st.stock i).toNat :=
  total_of_empty (fun _ => rfl) rfl

/-- There is as much as in the beginning of every item. -/
theorem total_runBooks (itemHolder : ItemHolder) (ts : List Task) (i : ItemId) :
    (runBooks itemHolder ts).total i = ((Store.initial itemHolder).stock i).toNat := by
  rw [runBooks, exactBooks, total_postAll, total_exactStart]

/-! ## Solvent books do not wrap -/

theorem stock_of_solvent {itemHolder : ItemHolder} {ts : List Task}
    (h : Solvent (runBooks itemHolder ts)) (i : ItemId) :
    ((((Store.initial itemHolder).after ts).stock i).toNat : ℤ) = (runBooks itemHolder ts).stock i := by
  have hle := h.stock_le i
  rw [total_runBooks] at hle
  have hlt := ((Store.initial itemHolder).stock i).isLt
  rw [stock_after, toNat_intCast_of_range (h.stock i) (by omega)]

theorem quantity_of_solvent {itemHolder : ItemHolder} {ts : List Task}
    (h : Solvent (runBooks itemHolder ts)) (s : SessionId) (i : ItemId) :
    ((((Store.initial itemHolder).after ts).quantity s i).toNat : ℤ) =
      netQuantity s i ((Store.initial itemHolder).history ts) := by
  have hle := h.cart_le s i
  have hpos := h.cart s i
  rw [total_runBooks] at hle
  rw [cart_exactBooks] at hle hpos
  have hlt := ((Store.initial itemHolder).stock i).isLt
  rw [quantity_after, toNat_intCast_of_range hpos (by omega)]

/-- A run whose removes are covered keeps the exact books solvent: a granted `Buy` is covered by its
own guard, which reads the exact stock as long as the books are solvent. -/
theorem solvent_of_covered {itemHolder : ItemHolder} :
    ∀ {ts : List Task}, RemovesCovered (.initial itemHolder) ts → Solvent (runBooks itemHolder ts)
  | [], _ => ⟨fun i => Int.natCast_nonneg _, fun _ _ => le_refl _, fun _ => le_refl _⟩
  | t :: ts, h => by
    have ih := solvent_of_covered (h.suffix (List.suffix_cons t ts))
    rw [runBooks, Store.history, exactBooks_cons]
    refine ih.postOpt fun e he => ?_
    cases t with
    | buy i c s =>
      by_cases hc : c ≤ ((Store.initial itemHolder).after ts).stock i
      · rw [entryOf, if_pos (Store.ok_buy _ |>.mpr hc)] at he
        cases he
        refine ⟨Int.natCast_nonneg _, ?_⟩
        show (c.toNat : ℤ) ≤ (runBooks itemHolder ts).stock i
        rw [← stock_of_solvent ih i]
        exact_mod_cast BitVec.le_def.mp hc
      · rw [entryOf, if_neg fun e' => hc (Store.ok_buy _ |>.mp e')] at he
        cases he
    | remove i c s =>
      cases he
      refine ⟨Int.natCast_nonneg _, ?_⟩
      rw [cart_exactBooks]
      exact h i c s ts List.suffix_rfl
    | makeOrder o s =>
      simp only [entryOf] at he
      split at he
      next => cases he; trivial
      next => cases he

/-- The covered runs make nothing: one direction of the exact condition. -/
theorem noGoodsFromNothing_of_covered {itemHolder : ItemHolder} {ts : List Task}
    (h : RemovesCovered (.initial itemHolder) ts) : NoGoodsFromNothing (.initial itemHolder) ts := by
  constructor
  · intro ts' h' i
    have solvent := solvent_of_covered (h.suffix h')
    have hle := solvent.stock_le i
    rw [total_runBooks, ← stock_of_solvent solvent] at hle
    exact BitVec.le_def.mpr (by exact_mod_cast hle)
  · intro i c s ts' h' _
    have solvent := solvent_of_covered (h.suffix ((List.suffix_cons _ ts').trans h'))
    have hle := h i c s ts' h'
    rw [← quantity_of_solvent solvent] at hle
    exact BitVec.le_def.mpr (by exact_mod_cast hle)

/-- The runs that make nothing are covered: until the first uncovered remove the cart is exact. -/
theorem covered_of_noGoodsFromNothing {itemHolder : ItemHolder} :
    ∀ {ts : List Task}, NoGoodsFromNothing (.initial itemHolder) ts →
      RemovesCovered (.initial itemHolder) ts
  | [], _, _, _, _, _, h' => absurd (List.suffix_nil.mp h') (List.cons_ne_nil _ _)
  | t :: ts, h, i, c, s, ts', h' => by
    have ih := covered_of_noGoodsFromNothing h.tail
    rcases List.suffix_cons_iff.mp h' with heq | h''
    · obtain ⟨rfl, rfl⟩ := List.cons.inj heq
      have hle := BitVec.le_def.mp (h.2 i c s ts' List.suffix_rfl rfl)
      rw [← quantity_of_solvent (solvent_of_covered ih)]
      exact_mod_cast hle
    · exact ih i c s ts' h''

/-- **No goods out of nothing, exactly when the removes are covered.** -/
theorem no_goods_from_nothing_iff (itemHolder : ItemHolder) (ts : List Task) :
    NoGoodsFromNothing (.initial itemHolder) ts ↔ RemovesCovered (.initial itemHolder) ts :=
  ⟨covered_of_noGoodsFromNothing, noGoodsFromNothing_of_covered⟩

/-- One `Remove` of an item that was never bought, from a fresh server: the stock grows. -/
theorem goods_from_nothing :
    ¬ ∀ (itemHolder : ItemHolder) (ts : List Task), NoGoodsFromNothing (.initial itemHolder) ts := by
  intro h
  have stock := (h .burger [.remove 1 1 1]).1 [.remove 1 1 1] List.suffix_rfl 1
  exact absurd stock (by decide)

end TcpServer
