import Mathlib.Algebra.BigOperators.Group.Finset.Basic
import Mathlib.Algebra.BigOperators.Ring.Finset
import Mathlib.Algebra.Order.BigOperators.Group.Finset
import Mathlib.Algebra.Order.Ring.Int
import Mathlib.Tactic.Abel

/-!
# Books of goods

Goods of several items are in one of three places: on stock, in the cart of an owner, or delivered.
An entry moves them: `take` from the stock into a cart, `putBack` from a cart to the stock, `settle`
a whole cart into what was delivered. The quantities live in any commutative group, so the same books
are kept in exact integers and in wrapping machine words.

What the books say, in any group:

- `total_postAll`: stock, carts and deliveries of an item add up to the same total for ever;
- `value_settle`: what was delivered is worth what was settled;
- `map_postAll`: a homomorphism of quantities is a homomorphism of books, which is what makes the
  machine's books a shadow of the exact ones;
- `cart_post_of_ne`, `cart_post_congr`: an owner's cart depends on that owner's entries and on its own
  past only;
- `Solvent.postOpt`: over an ordered group, books that only move what is there never go negative, and
  then no quantity exceeds the total (`Solvent.stock_le`, `Solvent.cart_le`).

Entries are listed newest first, so a list of entries is a history and its tail is the past.
-/

namespace Bookkeeping

/-- One movement of goods of the items `I` for the owners `S`, in quantities `G`. -/
inductive Entry (S I G : Type) where
  | take (s : S) (i : I) (c : G)
  | putBack (s : S) (i : I) (c : G)
  | settle (s : S)

/-- Where the goods are. -/
@[ext] structure Books (S I G : Type) where
  stock : I → G
  cart : S → I → G
  delivered : I → G

variable {S I G : Type} [DecidableEq S] [DecidableEq I]

omit [DecidableEq S] [DecidableEq I] in
/-- Books with the same quantities everywhere are one. -/
theorem books_ext {b b' : Books S I G} (stock : ∀ i, b.stock i = b'.stock i)
    (cart : ∀ s i, b.cart s i = b'.cart s i) (delivered : ∀ i, b.delivered i = b'.delivered i) :
    b = b' := by
  ext
  · apply stock
  · apply cart
  · apply delivered

/-- Whose cart an entry moves goods of. -/
def Entry.owner : Entry S I G → S
  | .take s _ _ => s
  | .putBack s _ _ => s
  | .settle s => s

section Post

variable [AddCommGroup G]

/-- A quantity moved from the stock into a cart; a negative one moves back. -/
def Books.move (b : Books S I G) (s : S) (i : I) (c : G) : Books S I G :=
  { b with stock := Function.update b.stock i (b.stock i - c)
           cart := Function.update b.cart s (Function.update (b.cart s) i (b.cart s i + c)) }

/-- The books after an entry. -/
def Books.post (b : Books S I G) : Entry S I G → Books S I G
  | .take s i c => b.move s i c
  | .putBack s i c => b.move s i (-c)
  | .settle s => { b with cart := Function.update b.cart s 0
                          delivered := b.delivered + b.cart s }

/-- The books after a history, its newest entry first. -/
def Books.postAll (b : Books S I G) : List (Entry S I G) → Books S I G
  | [] => b
  | e :: es => (b.postAll es).post e

/-- The books after an event that makes one entry or none. -/
def Books.postOpt (b : Books S I G) : Option (Entry S I G) → Books S I G
  | none => b
  | some e => b.post e

/-- A history of events, each making one entry or none, is posted event by event. -/
theorem postAll_filterMap_cons {X : Type} (b : Books S I G) (f : X → Option (Entry S I G)) (x : X)
    (xs : List X) :
    b.postAll ((x :: xs).filterMap f) = (b.postAll (xs.filterMap f)).postOpt (f x) := by
  rw [List.filterMap_cons]
  cases f x <;> rfl

/-- Everything there is of an item. -/
def Books.total [Fintype S] (b : Books S I G) (i : I) : G :=
  b.stock i + ∑ s, b.cart s i + b.delivered i

theorem stock_move (b : Books S I G) (s : S) (i : I) (c : G) (j : I) :
    (b.move s i c).stock j = if j = i then b.stock i - c else b.stock j :=
  Function.update_apply _ _ _ _

theorem cart_move (b : Books S I G) (s : S) (i : I) (c : G) (s' : S) (j : I) :
    (b.move s i c).cart s' j = if s' = s ∧ j = i then b.cart s i + c else b.cart s' j := by
  by_cases hs : s' = s
  · subst hs
    simp only [Books.move, Function.update_self, Function.update_apply, true_and]
  · simp only [Books.move, Function.update_of_ne hs, hs, false_and, if_false]

theorem cart_settle (b : Books S I G) (s s' : S) (j : I) :
    (b.post (.settle s)).cart s' j = if s' = s then 0 else b.cart s' j := by
  by_cases hs : s' = s
  · subst hs
    simp only [Books.post, Function.update_self, Pi.zero_apply, if_true]
  · simp only [Books.post, Function.update_of_ne hs, if_neg hs]

/-- **Isolation**, one half: an entry touches no other owner's cart. -/
theorem cart_post_of_ne (b : Books S I G) {e : Entry S I G} {s : S} (h : s ≠ e.owner) :
    (b.post e).cart s = b.cart s := by
  cases e <;> exact Function.update_of_ne h _ _

theorem cart_move_congr {b b' : Books S I G} {s : S} (h : b.cart s = b'.cart s) (s₀ : S) (i : I)
    (c : G) : (b.move s₀ i c).cart s = (b'.move s₀ i c).cart s := by
  funext j
  rw [cart_move, cart_move]
  split
  next hs => rw [← hs.1, h]
  next => rw [h]

/-- **Isolation**, the other half: what an entry makes of a cart depends on that cart alone. -/
theorem cart_post_congr {b b' : Books S I G} {s : S} (h : b.cart s = b'.cart s)
    (e : Entry S I G) : (b.post e).cart s = (b'.post e).cart s := by
  cases e with
  | take s₀ i c => exact cart_move_congr h s₀ i c
  | putBack s₀ i c => exact cart_move_congr h s₀ i (-c)
  | settle s₀ =>
    funext j
    rw [cart_settle, cart_settle, h]

omit [DecidableEq I] in
/-- The sum over the carts moves by the change of the one cart an entry touches. -/
theorem sum_cart_update [Fintype S] (cart : S → I → G) (s : S) (q : I → G) (i : I) :
    ∑ s', (Function.update cart s q) s' i = ∑ s', cart s' i - cart s i + q i := by
  have split : ∀ f : S → I → G, ∑ s', f s' i = f s i + ∑ s' ∈ Finset.univ.erase s, f s' i :=
    fun f => (Finset.add_sum_erase _ _ (Finset.mem_univ s)).symm
  rw [split (Function.update cart s q), split cart, Function.update_self]
  have others : ∑ s' ∈ Finset.univ.erase s, (Function.update cart s q) s' i =
      ∑ s' ∈ Finset.univ.erase s, cart s' i :=
    Finset.sum_congr rfl fun s' hs' => by rw [Function.update_of_ne (Finset.ne_of_mem_erase hs')]
  rw [others]
  abel

theorem total_move [Fintype S] (b : Books S I G) (s : S) (i : I) (c : G) (j : I) :
    (b.move s i c).total j = b.total j := by
  simp only [Books.total, Books.move, sum_cart_update]
  by_cases h : j = i
  · subst h
    simp only [Function.update_self]
    abel
  · simp only [Function.update_of_ne h]
    abel

/-- **Conservation**, one entry. -/
theorem total_post [Fintype S] (b : Books S I G) (e : Entry S I G) (i : I) :
    (b.post e).total i = b.total i := by
  cases e with
  | take s j c => exact total_move b s j c i
  | putBack s j c => exact total_move b s j (-c) i
  | settle s =>
    simp only [Books.total, Books.post, sum_cart_update, Pi.zero_apply, Pi.add_apply]
    abel

/-- **Conservation**, a whole history. -/
theorem total_postAll [Fintype S] (b : Books S I G) (es : List (Entry S I G)) (i : I) :
    (b.postAll es).total i = b.total i := by
  induction es with
  | nil => rfl
  | cons e es ih => rw [Books.postAll, total_post, ih]

omit [DecidableEq S] [DecidableEq I] in
/-- With empty carts and nothing delivered, everything there is is in stock. -/
theorem total_of_empty [Fintype S] {b : Books S I G} {i : I} (hcart : ∀ s, b.cart s i = 0)
    (hdelivered : b.delivered i = 0) : b.total i = b.stock i := by
  rw [Books.total, Finset.sum_eq_zero fun s _ => hcart s, hdelivered, add_zero, add_zero]

end Post

/-! ## Money -/

section Value

variable [CommRing G] [Fintype I]

/-- What quantities are worth at given prices. -/
def value (price q : I → G) : G := ∑ i, price i * q i

omit [DecidableEq I] in
theorem value_add (price q q' : I → G) : value price (q + q') = value price q + value price q' := by
  simp only [value, Pi.add_apply, mul_add, Finset.sum_add_distrib]

/-- Settling a cart delivers its worth. -/
theorem value_settle (price : I → G) (b : Books S I G) (s : S) :
    value price (b.post (.settle s)).delivered =
      value price b.delivered + value price (b.cart s) :=
  value_add price b.delivered (b.cart s)

end Value

/-! ## Books in other quantities -/

section Map

variable {H : Type}

/-- An entry in other quantities. -/
def Entry.map (φ : G → H) : Entry S I G → Entry S I H
  | .take s i c => .take s i (φ c)
  | .putBack s i c => .putBack s i (φ c)
  | .settle s => .settle s

/-- Books in other quantities. -/
def Books.map (φ : G → H) (b : Books S I G) : Books S I H where
  stock i := φ (b.stock i)
  cart s i := φ (b.cart s i)
  delivered i := φ (b.delivered i)

variable [AddCommGroup G] [AddCommGroup H]

theorem map_move (φ : G →+ H) (b : Books S I G) (s : S) (i : I) (c : G) :
    (b.move s i c).map φ = (b.map φ).move s i (φ c) := by
  apply books_ext
  · intro j
    simp only [Books.map, stock_move, apply_ite φ, map_sub]
  · intro s' j
    simp only [Books.map, cart_move, apply_ite φ, map_add]
  · intro j
    rfl

/-- A homomorphism of quantities commutes with posting an entry. -/
theorem map_post (φ : G →+ H) (b : Books S I G) (e : Entry S I G) :
    (b.post e).map φ = (b.map φ).post (e.map φ) := by
  cases e with
  | take s i c => exact map_move φ b s i c
  | putBack s i c =>
    show (b.move s i (-c)).map φ = (b.map φ).move s i (-φ c)
    rw [map_move, map_neg]
  | settle s =>
    apply books_ext
    · intro j
      rfl
    · intro s' j
      show φ ((b.post (.settle s)).cart s' j) = ((b.map φ).post (.settle s)).cart s' j
      simp only [cart_settle, apply_ite φ, map_zero, Books.map]
    · intro j
      simp only [Books.map, Books.post, Entry.map, Pi.add_apply, map_add]

theorem map_postAll (φ : G →+ H) (b : Books S I G) (es : List (Entry S I G)) :
    (b.postAll es).map φ = (b.map φ).postAll (es.map (Entry.map φ)) := by
  induction es with
  | nil => rfl
  | cons e es ih => rw [Books.postAll, map_post, ih, List.map_cons, Books.postAll]

end Map

/-! ## Solvent books -/

section Solvent

variable [AddCommGroup G] [LinearOrder G] [IsOrderedAddMonoid G]

/-- Nothing is negative. -/
structure Solvent (b : Books S I G) : Prop where
  stock : ∀ i, 0 ≤ b.stock i
  cart : ∀ s i, 0 ≤ b.cart s i
  delivered : ∀ i, 0 ≤ b.delivered i

/-- An entry moves a quantity that is where it is taken from. -/
def Covered (b : Books S I G) : Entry S I G → Prop
  | .take _ i c => 0 ≤ c ∧ c ≤ b.stock i
  | .putBack s i c => 0 ≤ c ∧ c ≤ b.cart s i
  | .settle _ => True

theorem Solvent.move {b : Books S I G} (h : Solvent b) {s : S} {i : I} {c : G}
    (hstock : c ≤ b.stock i) (hcart : 0 ≤ b.cart s i + c) : Solvent (b.move s i c) := by
  refine ⟨fun j => ?_, fun s' j => ?_, h.delivered⟩
  · rw [stock_move]
    split
    next => exact sub_nonneg.mpr hstock
    next => exact h.stock j
  · rw [cart_move]
    split
    next => exact hcart
    next => exact h.cart s' j

theorem Solvent.post {b : Books S I G} (h : Solvent b) {e : Entry S I G} (he : Covered b e) :
    Solvent (b.post e) := by
  cases e with
  | take s i c => exact h.move he.2 (add_nonneg (h.cart s i) he.1)
  | putBack s i c =>
    have covered : 0 ≤ b.cart s i + -c := le_add_neg_iff_add_le.mpr (by simpa using he.2)
    exact h.move ((neg_nonpos.mpr he.1).trans (h.stock i)) covered
  | settle s =>
    refine ⟨h.stock, fun s' j => ?_, fun j => add_nonneg (h.delivered j) (h.cart s j)⟩
    rw [cart_settle]
    split
    next => exact le_refl 0
    next => exact h.cart s' j

/-- **Solvency**: an event whose entry is covered leaves nothing negative. -/
theorem Solvent.postOpt {b : Books S I G} (h : Solvent b) {e : Option (Entry S I G)}
    (he : ∀ x ∈ e, Covered b x) : Solvent (b.postOpt e) := by
  cases e with
  | none => exact h
  | some x => exact h.post (he x rfl)

variable [Fintype S]

omit [DecidableEq S] [DecidableEq I] in
/-- Solvent books have no more on stock than there is in total. -/
theorem Solvent.stock_le {b : Books S I G} (h : Solvent b) (i : I) : b.stock i ≤ b.total i := by
  have hsum : 0 ≤ ∑ s, b.cart s i := Finset.sum_nonneg fun s _ => h.cart s i
  exact le_add_of_le_of_nonneg (le_add_of_nonneg_right hsum) (h.delivered i)

omit [DecidableEq S] [DecidableEq I] in
/-- Solvent books have no more in a cart than there is in total. -/
theorem Solvent.cart_le {b : Books S I G} (h : Solvent b) (s : S) (i : I) :
    b.cart s i ≤ b.total i := by
  have hsum : b.cart s i ≤ ∑ s', b.cart s' i :=
    Finset.single_le_sum (fun s' _ => h.cart s' i) (Finset.mem_univ s)
  exact le_add_of_le_of_nonneg (hsum.trans (le_add_of_nonneg_left (h.stock i))) (h.delivered i)

end Solvent

end Bookkeeping
