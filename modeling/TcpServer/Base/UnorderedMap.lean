import Mathlib.Data.Finmap
import Mathlib.Algebra.BigOperators.Group.Finset.Basic

/-!
# Unordered maps

A hash map seen from outside is a finite map: each key has at most one value, and the order in which
a loop meets the entries is not part of it. `Finmap` is exactly that, and its equality is the
equality of finite maps (the same keys with the same values).

What `Finmap` lacks is the subscript operator. Subscripting does two things at once: it denotes a
value, and it CREATES the entry when the key is absent. The two halves are kept apart here:
`value` is the value denoted, `touch` is the map left behind, and `modify` is the compound assignment
through a subscript.

A loop over a map is a fold whose step does not depend on the order of the entries. Two rules say
what such a loop computes: `foldl_weigh` when every entry adds its own weight to a total, and
`foldl_exists` when every entry may switch a proposition on.
-/

/-- A hash map: finitely many keys, one value each, in no order. -/
abbrev UnorderedMap (κ ν : Type) := Finmap (fun _ : κ => ν)

namespace UnorderedMap

variable {κ ν : Type} [DecidableEq κ]

section Subscript

variable [Inhabited ν]

/-- The value a subscript denotes: the stored one, or the default one of an absent key. -/
def value (m : UnorderedMap κ ν) (k : κ) : ν := (m.lookup k).getD default

/-- The map a subscript leaves behind: an absent key is created with the default value. -/
def touch (m : UnorderedMap κ ν) (k : κ) : UnorderedMap κ ν :=
  if k ∈ m then m else m.insert k default

/-- Compound assignment through a subscript. -/
def modify (m : UnorderedMap κ ν) (k : κ) (f : ν → ν) : UnorderedMap κ ν :=
  m.insert k (f (m.value k))

@[simp] theorem value_empty (k : κ) : value (∅ : UnorderedMap κ ν) k = default := by
  simp only [value, Finmap.lookup_empty, Option.getD_none]

theorem value_of_notMem {m : UnorderedMap κ ν} {k : κ} (h : k ∉ m) : m.value k = default := by
  simp only [value, Finmap.lookup_eq_none.mpr h, Option.getD_none]

theorem value_of_lookup {m : UnorderedMap κ ν} {k : κ} {v : ν} (h : m.lookup k = some v) :
    m.value k = v := by
  simp only [value, h, Option.getD_some]

/-- A present key is stored under the value its subscript denotes. -/
theorem lookup_of_mem {m : UnorderedMap κ ν} {k : κ} (h : k ∈ m) :
    m.lookup k = some (m.value k) := by
  obtain ⟨v, hv⟩ := Finmap.mem_iff.mp h
  rw [value_of_lookup hv, hv]

@[simp] theorem value_insert (m : UnorderedMap κ ν) (k : κ) (v : ν) (k' : κ) :
    value (m.insert k v) k' = if k' = k then v else m.value k' := by
  by_cases h : k' = k
  · subst h
    simp only [value, Finmap.lookup_insert, Option.getD_some, if_true]
  · simp only [value, Finmap.lookup_insert_of_ne m h, if_neg h]

@[simp] theorem value_erase (m : UnorderedMap κ ν) (k k' : κ) :
    value (m.erase k) k' = if k' = k then default else m.value k' := by
  by_cases h : k' = k
  · subst h
    simp only [value, Finmap.lookup_erase, Option.getD_none, if_true]
  · simp only [value, Finmap.lookup_erase_ne h, if_neg h]

@[simp] theorem value_modify (m : UnorderedMap κ ν) (k : κ) (f : ν → ν) (k' : κ) :
    (m.modify k f).value k' = if k' = k then f (m.value k) else m.value k' :=
  value_insert m k (f (m.value k)) k'

/-- Reading through a subscript changes no value, whatever it creates. -/
@[simp] theorem value_touch (m : UnorderedMap κ ν) (k k' : κ) :
    (m.touch k).value k' = m.value k' := by
  unfold touch
  by_cases h : k ∈ m
  · rw [if_pos h]
  · rw [if_neg h, value_insert]
    by_cases hk : k' = k
    · rw [if_pos hk, hk, value_of_notMem h]
    · rw [if_neg hk]

@[simp] theorem mem_touch {m : UnorderedMap κ ν} {k k' : κ} :
    k' ∈ m.touch k ↔ k' = k ∨ k' ∈ m := by
  unfold touch
  by_cases h : k ∈ m
  · rw [if_pos h]
    exact ⟨.inr, fun h' => h'.elim (fun e => e ▸ h) id⟩
  · rw [if_neg h, Finmap.mem_insert]

/-- Two maps with the same keys and the same denoted values are one map. -/
theorem ext_value {m m' : UnorderedMap κ ν} (hk : ∀ k, k ∈ m ↔ k ∈ m')
    (hv : ∀ k, m.value k = m'.value k) : m = m' := by
  refine Finmap.ext_lookup fun k => ?_
  by_cases h : k ∈ m
  · rw [lookup_of_mem h, lookup_of_mem ((hk k).mp h), hv]
  · rw [Finmap.lookup_eq_none.mpr h, Finmap.lookup_eq_none.mpr fun h' => h ((hk k).mpr h')]

/-- A subscript leaves the map alone exactly when its key was there. -/
theorem touch_eq_self {m : UnorderedMap κ ν} {k : κ} : m.touch k = m ↔ k ∈ m := by
  refine ⟨fun h => ?_, fun h => if_pos h⟩
  rw [← h]
  exact mem_touch.mpr (.inl rfl)

theorem touch_comm (m : UnorderedMap κ ν) (k k' : κ) :
    (m.touch k).touch k' = (m.touch k').touch k :=
  ext_value (fun _ => by simp only [mem_touch]; exact or_left_comm)
    (fun _ => by simp only [value_touch])

/-- Assigning after a read through the same subscript is assigning. -/
@[simp] theorem modify_touch (m : UnorderedMap κ ν) (k : κ) (f : ν → ν) :
    (m.touch k).modify k f = m.modify k f := by
  refine ext_value (fun k' => ?_) (fun k' => by simp only [value_modify, value_touch])
  simp only [modify, Finmap.mem_insert, mem_touch]
  exact ⟨fun h => h.elim .inl id, .inr⟩

@[simp] theorem mem_modify {m : UnorderedMap κ ν} {k k' : κ} {f : ν → ν} :
    k' ∈ m.modify k f ↔ k' = k ∨ k' ∈ m := by
  rw [modify, Finmap.mem_insert]

/-- Compound assignments that commute on a value commute on a map. -/
theorem modify_comm (m : UnorderedMap κ ν) (k k' : κ) {f g : ν → ν} (h : ∀ v, g (f v) = f (g v)) :
    (m.modify k f).modify k' g = (m.modify k' g).modify k f := by
  refine ext_value (fun _ => ?_) (fun j => ?_)
  · simp only [mem_modify]
    exact or_left_comm
  · simp only [value_modify]
    by_cases hk : k = k'
    · subst hk
      by_cases hj : j = k
      · simp only [hj, if_true, h]
      · simp only [hj, if_false]
    · rw [if_neg (Ne.symm hk), if_neg hk]
      by_cases hj : j = k
      · rw [if_pos hj, if_pos hj, if_neg fun e => hk (hj.symm.trans e)]
      · simp only [hj, if_false]

end Subscript

/-! ## Insertion that keeps what is there -/

/-- Insertion of an entry: a key that is there keeps its value. -/
def insertNew (m : UnorderedMap κ ν) (k : κ) (v : ν) : UnorderedMap κ ν :=
  if k ∈ m then m else m.insert k v

/-- The first insertion under a key is the one that counts. -/
theorem lookup_insertNew (m : UnorderedMap κ ν) (k : κ) (v : ν) (k' : κ) :
    (m.insertNew k v).lookup k' = (m.lookup k').or (if k' = k then some v else none) := by
  unfold insertNew
  by_cases hk : k' = k
  · subst hk
    by_cases h : k' ∈ m
    · obtain ⟨w, hw⟩ := Finmap.mem_iff.mp h
      rw [if_pos h, hw, Option.some_or]
    · rw [if_neg h, Finmap.lookup_insert, Finmap.lookup_eq_none.mpr h, if_pos rfl, Option.none_or]
  · rw [if_neg hk, Option.or_none]
    by_cases h : k ∈ m
    · rw [if_pos h]
    · rw [if_neg h, Finmap.lookup_insert_of_ne m hk]

/-! ## Loops over a map -/

section Loops

variable {δ : Type*} {f : δ → κ → ν → δ}
  (comm : ∀ d k v k' v', f (f d k v) k' v' = f (f d k' v') k v)

/-- A loop whose every entry adds its own weight: the total is the start plus the sum of the weights.
The invariant `inv` is what the weights may rely on about the accumulator. -/
theorem foldl_weigh [Inhabited ν] {M : Type*} [AddCommMonoid M] (inv : δ → Prop) (weigh : δ → M)
    (g : κ → ν → M) (keeps : ∀ d k v, inv d → inv (f d k v))
    (adds : ∀ d k v, inv d → weigh (f d k v) = weigh d + g k v)
    (m : UnorderedMap κ ν) {d : δ} (hd : inv d) :
    inv (m.foldl f comm d) ∧
      weigh (m.foldl f comm d) = weigh d + ∑ k ∈ m.keys, g k (m.value k) := by
  -- the loop over a list of entries, and the sum over its keys, by induction on that list
  have list : ∀ (l : List (Sigma fun _ : κ => ν)) (d : δ), inv d →
      inv (l.foldl (fun d s => f d s.1 s.2) d) ∧
        weigh (l.foldl (fun d s => f d s.1 s.2) d) = weigh d + (l.map fun s => g s.1 s.2).sum := by
    intro l
    induction l with
    | nil => intro d hd; exact ⟨hd, by simp only [List.foldl_nil, List.map_nil, List.sum_nil, add_zero]⟩
    | cons s l ih =>
      intro d hd
      obtain ⟨hi, hw⟩ := ih (f d s.1 s.2) (keeps d s.1 s.2 hd)
      refine ⟨hi, ?_⟩
      rw [List.foldl_cons, hw, adds d s.1 s.2 hd, List.map_cons, List.sum_cons, add_assoc]
  have keysSum : ∑ k ∈ m.keys, g k (m.value k) = (m.entries.map fun s => g s.1 s.2).sum := by
    have hval : (m.entries.map fun s => g s.1 s.2) =
        m.entries.keys.map fun k => g k (m.value k) := by
      rw [Multiset.keys, Multiset.map_map]
      refine Multiset.map_congr rfl fun s hs => ?_
      have : m.lookup s.1 = some s.2 := Finmap.mem_lookup_iff.mpr hs
      rw [Function.comp_apply, value_of_lookup this]
    rw [hval]
    rfl
  rw [keysSum]
  induction m using Finmap.induction_on with
  | _ l => exact list l.entries d hd

/-- Keys that are absent weigh nothing, so the sum over the keys is the sum over everything. -/
theorem sum_keys [Inhabited ν] [Fintype κ] {M : Type*} [AddCommMonoid M] (m : UnorderedMap κ ν)
    {g : κ → ν → M} (h : ∀ k, g k default = 0) :
    ∑ k ∈ m.keys, g k (m.value k) = ∑ k, g k (m.value k) := by
  refine Finset.sum_subset (Finset.subset_univ _) fun k _ hk => ?_
  rw [value_of_notMem fun hm => hk (Finmap.mem_keys.mpr hm), h]

/-- A loop whose every entry may switch a proposition on, and never off. -/
theorem foldl_exists (on : δ → Prop) (g : κ → ν → Prop)
    (step : ∀ d k v, on (f d k v) ↔ on d ∨ g k v) (m : UnorderedMap κ ν) (d : δ) :
    on (m.foldl f comm d) ↔ on d ∨ ∃ k v, m.lookup k = some v ∧ g k v := by
  have list : ∀ (l : List (Sigma fun _ : κ => ν)) (d : δ),
      on (l.foldl (fun d s => f d s.1 s.2) d) ↔ on d ∨ ∃ s ∈ l, g s.1 s.2 := by
    intro l
    induction l with
    | nil => intro d; simp only [List.foldl_nil, List.not_mem_nil, false_and, exists_false, or_false]
    | cons s l ih =>
      intro d
      rw [List.foldl_cons, ih, step, or_assoc]
      simp only [List.mem_cons, or_and_right, exists_or, exists_eq_left]
  have entries : (∃ k v, m.lookup k = some v ∧ g k v) ↔ ∃ s ∈ m.entries, g s.1 s.2 := by
    constructor
    · rintro ⟨k, v, hv, hg⟩
      exact ⟨⟨k, v⟩, Finmap.mem_lookup_iff.mp hv, hg⟩
    · rintro ⟨s, hs, hg⟩
      exact ⟨s.1, s.2, Finmap.mem_lookup_iff.mpr hs, hg⟩
  rw [entries]
  induction m using Finmap.induction_on with
  | _ l => exact list l.entries d

end Loops

end UnorderedMap
