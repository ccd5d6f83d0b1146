import Mathlib.Data.List.Basic
import Mathlib.Order.Lattice
import Mathlib.Order.Monotone.Basic

/-!
# Ordered maps

A map as the list of its entries in the order of their keys, with no key twice. Inserting assigns, so the
last value given to a key is the one that stays; what is ordered is not changed by inserting it again
(`Ordered.ofList`). Keys that are replaced in their order make no difference to what is inserted where
(`insert_map`).
-/

namespace OrderedMap

variable {κ ν : Type} [LinearOrder κ]

/-- Insert or assign. -/
def insert (k : κ) (v : ν) : List (κ × ν) → List (κ × ν)
  | [] => [(k, v)]
  | e :: l =>
    if k < e.1 then (k, v) :: e :: l
    else if k = e.1 then (k, v) :: l
    else e :: insert k v l

/-- The entries, inserted one after the other. -/
def ofList (l : List (κ × ν)) : List (κ × ν) := l.foldl (fun m e => insert e.1 e.2 m) []

/-- The keys strictly increase. -/
def Ordered (l : List (κ × ν)) : Prop := l.Pairwise fun a b => a.1 < b.1

instance (l : List (κ × ν)) : Decidable (Ordered l) :=
  inferInstanceAs (Decidable (l.Pairwise _))

section Ordered

variable {k : κ} {v : ν} {e : κ × ν} {l l' m : List (κ × ν)}

theorem ordered_nil : Ordered ([] : List (κ × ν)) := List.Pairwise.nil

theorem ordered_cons : Ordered (e :: l) ↔ (∀ e' ∈ l, e.1 < e'.1) ∧ Ordered l :=
  List.pairwise_cons

theorem mem_insert {e' : κ × ν} (h : e' ∈ insert k v l) : e' = (k, v) ∨ e' ∈ l := by
  induction l with
  | nil => exact .inl (List.mem_singleton.mp h)
  | cons e l ih =>
    simp only [insert] at h
    split at h
    · exact List.mem_cons.mp h
    · split at h
      · rcases List.mem_cons.mp h with h | h
        · exact .inl h
        · exact .inr (.tail _ h)
      · rcases List.mem_cons.mp h with rfl | h
        · exact .inr List.mem_cons_self
        · exact (ih h).imp_right (.tail _)

theorem mem_foldl_insert {e' : κ × ν}
    (h : e' ∈ l.foldl (fun m e => insert e.1 e.2 m) m) : e' ∈ l ∨ e' ∈ m := by
  induction l generalizing m with
  | nil => exact .inr h
  | cons e l ih =>
    rcases ih h with h | h
    · exact .inl (.tail _ h)
    · rcases mem_insert h with rfl | h
      · exact .inl List.mem_cons_self
      · exact .inr h

/-- What is in the map was inserted. -/
theorem mem_ofList {e' : κ × ν} (h : e' ∈ ofList l) : e' ∈ l :=
  (mem_foldl_insert h).resolve_right List.not_mem_nil

/-- Inserting keeps the order. -/
theorem Ordered.insert (h : Ordered l) (k : κ) (v : ν) : Ordered (insert k v l) := by
  induction l with
  | nil => exact List.pairwise_singleton _ _
  | cons e l ih =>
    obtain ⟨first, rest⟩ := ordered_cons.mp h
    simp only [OrderedMap.insert]
    split
    next hlt =>
      refine ordered_cons.mpr ⟨fun e' he' => ?_, h⟩
      rcases List.mem_cons.mp he' with rfl | he'
      · exact hlt
      · exact lt_trans hlt (first e' he')
    next hlt =>
      split
      next heq => exact ordered_cons.mpr ⟨fun e' he' => heq ▸ first e' he', rest⟩
      next hne =>
        refine ordered_cons.mpr ⟨fun e' he' => ?_, ih rest⟩
        rcases mem_insert he' with rfl | he'
        · exact lt_of_le_of_ne (not_lt.mp hlt) (Ne.symm hne)
        · exact first e' he'

theorem Ordered.foldl_insert (h : Ordered m) (l : List (κ × ν)) :
    Ordered (l.foldl (fun m e => OrderedMap.insert e.1 e.2 m) m) := by
  induction l generalizing m with
  | nil => exact h
  | cons e l ih => exact ih (h.insert e.1 e.2)

theorem ordered_ofList (l : List (κ × ν)) : Ordered (ofList l) := ordered_nil.foldl_insert l

/-- A key above all others goes to the end. -/
theorem insert_of_forall_lt (h : ∀ e ∈ l, e.1 < k) : insert k v l = l ++ [(k, v)] := by
  induction l with
  | nil => rfl
  | cons e l ih =>
    have hlt := h e List.mem_cons_self
    rw [insert, if_neg (not_lt_of_gt hlt), if_neg (ne_of_gt hlt),
      ih fun e' he' => h e' (.tail _ he')]
    rfl

theorem foldl_insert_of_ordered (h : Ordered (m ++ l)) :
    l.foldl (fun m e => insert e.1 e.2 m) m = m ++ l := by
  induction l generalizing m with
  | nil => exact (List.append_nil m).symm
  | cons e l ih =>
    have below : ∀ e' ∈ m, e'.1 < e.1 := fun e' he' =>
      (List.pairwise_append.mp h).2.2 e' he' e List.mem_cons_self
    rw [List.foldl_cons, insert_of_forall_lt below, ih, List.append_assoc, List.singleton_append]
    rwa [List.append_assoc, List.singleton_append]

/-- What is ordered is not changed by inserting it again. -/
theorem Ordered.ofList (h : Ordered l) : ofList l = l := foldl_insert_of_ordered h

end Ordered

/-! ## Other keys -/

/-- Keys that are replaced in their order are inserted where the old ones are. -/
theorem insert_map {κ' ν' : Type} [LinearOrder κ'] {g : κ → κ'} (mono : StrictMono g) (f : ν → ν')
    (k : κ) (v : ν) (l : List (κ × ν)) :
    insert (g k) (f v) (l.map fun e => (g e.1, f e.2)) =
      (insert k v l).map fun e => (g e.1, f e.2) := by
  induction l with
  | nil => rfl
  | cons e l ih =>
    rw [List.map_cons, insert, insert]
    by_cases hlt : k < e.1
    · rw [if_pos hlt, if_pos (mono hlt)]
      rfl
    · rw [if_neg hlt, if_neg fun h => hlt (mono.lt_iff_lt.mp h)]
      by_cases heq : k = e.1
      · rw [if_pos heq, if_pos (congrArg g heq)]
        rfl
      · rw [if_neg heq, if_neg fun h => heq (mono.injective h), ih]
        rfl

end OrderedMap
