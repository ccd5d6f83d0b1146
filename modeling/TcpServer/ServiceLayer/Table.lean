import TcpServer.DataLayer.Cpp

/-!
# The session table

The two vectors of `ServiceLayer/Server.h` that are indexed by session: `allAtomicsBools`, the gates
the orders wait at, and `allAtomicsCount`, the pending operations. `CheckSessionIdSize` grows both when
a session id does not fit.

An access out of range has no meaning in C++ and ends in `Abort.undefinedBehaviour`, as does the copy
loop when it increments its `int` index past 2^31 - 1. The new length is twice the id in `size_t`
arithmetic, so it can be smaller than the id. Whether vectors of a length can be had at all is a
parameter (`alloc`).

`checkSessionIdSize_eq` says what comes of a call on vectors of one length, `Admits` when the entry of
the session can be accessed after it.
-/

namespace TcpServer

/-- `v[i]`. -/
def entryAt {α : Type} (v : List α) (i : ℕ) : Except Abort α :=
  match v[i]? with
  | some a => .ok a
  | none => .error .undefinedBehaviour

/-- `v[i] = a`. -/
def setEntry {α : Type} (v : List α) (i : ℕ) (a : α) : Except Abort (List α) :=
  if i < v.length then .ok (v.set i a) else .error .undefinedBehaviour

theorem entryAt_of_lt {α : Type} {v : List α} {i : ℕ} (h : i < v.length) :
    entryAt v i = .ok v[i] := by
  rw [entryAt, List.getElem?_eq_getElem h]

theorem setEntry_of_lt {α : Type} {v : List α} {i : ℕ} (a : α) (h : i < v.length) :
    setEntry v i a = .ok (v.set i a) :=
  if_pos h

theorem setEntry_of_le {α : Type} {v : List α} {i : ℕ} (a : α) (h : v.length ≤ i) :
    setEntry v i a = .error .undefinedBehaviour :=
  if_neg (Nat.not_lt.mpr h)

structure Table where
  allAtomicsBools : List Bool
  allAtomicsCount : List SizeT
  deriving DecidableEq, Repr

namespace Table

/-- Two vectors of a length, all gates shut and all counts zero. -/
def ofLength (n : ℕ) : Table where
  allAtomicsBools := List.replicate n false
  allAtomicsCount := List.replicate n 0

/-- The body of the copy loop of `CheckSessionIdSize`. -/
def copyEntry (t new : Table) (i : ℕ) : Except Abort Table := do
  let flag ← entryAt t.allAtomicsBools i
  let allAtomicsBools ← setEntry new.allAtomicsBools i flag
  let count ← entryAt t.allAtomicsCount i
  let allAtomicsCount ← setEntry new.allAtomicsCount i count
  return { allAtomicsBools, allAtomicsCount }

/-- The copy loop from the index `i` on, which is an `int`; `left` entries are still to be copied. -/
def copyFrom (t new : Table) (i : ℕ) : ℕ → Except Abort Table
  | 0 => .ok new
  | left + 1 => do
    let new ← t.copyEntry new i
    -- `++i`
    if i + 1 < 2 ^ 31 then t.copyFrom new (i + 1) left else .error .undefinedBehaviour

/-- `CheckSessionIdSize`. -/
def checkSessionIdSize (alloc : ℕ → Bool) (t : Table) (sessionId : SessionId) :
    Except Abort Table :=
  if t.allAtomicsBools.length ≤ sessionId.toNat then
    let size := (sessionId * 2).toNat
    if alloc size then t.copyFrom (ofLength size) 0 t.allAtomicsBools.length
    else .error .badAlloc
  else .ok t

/-- An atomic update of `(*allAtomicsCount)[sessionId]`. -/
def updateCount (f : SizeT → SizeT) (t : Table) (sessionId : SessionId) : Except Abort Table := do
  let count ← entryAt t.allAtomicsCount sessionId.toNat
  let allAtomicsCount ← setEntry t.allAtomicsCount sessionId.toNat (f count)
  return { t with allAtomicsCount }

/-- `++(*allAtomicsCount)[sessionId]`. -/
def increment : Table → SessionId → Except Abort Table := updateCount (· + 1)

/-- `--(*allAtomicsCount)[sessionId]`. -/
def decrement : Table → SessionId → Except Abort Table := updateCount (· - 1)

/-- `(*allAtomicsCount)[sessionId].load()`. -/
def loadCount (t : Table) (sessionId : SessionId) : Except Abort SizeT :=
  entryAt t.allAtomicsCount sessionId.toNat

/-- `(*allAtomicsBools)[sessionId].load()`. -/
def loadFlag (t : Table) (sessionId : SessionId) : Except Abort Bool :=
  entryAt t.allAtomicsBools sessionId.toNat

/-- `(*allAtomicsBools)[sessionId] = true`. -/
def raiseFlag (t : Table) (sessionId : SessionId) : Except Abort Table := do
  let allAtomicsBools ← setEntry t.allAtomicsBools sessionId.toNat true
  return { t with allAtomicsBools }

/-! ## Tables of one length -/

/-- Both vectors have the length `n`. -/
structure Sized (t : Table) (n : ℕ) : Prop where
  bools : t.allAtomicsBools.length = n
  counts : t.allAtomicsCount.length = n

/-- The entries of a session can be accessed. -/
def Has (t : Table) (s : SessionId) : Prop :=
  s.toNat < t.allAtomicsBools.length ∧ s.toNat < t.allAtomicsCount.length

theorem ofLength_sized (n : ℕ) : (ofLength n).Sized n :=
  ⟨List.length_replicate, List.length_replicate⟩

/-- The pending operations of a session; zero beyond the table. -/
def count (t : Table) (s : SessionId) : SizeT := t.allAtomicsCount.getD s.toNat 0

/-- The gate of a session; shut beyond the table. -/
def flag (t : Table) (s : SessionId) : Bool := t.allAtomicsBools.getD s.toNat false

variable {t t' : Table} {n : ℕ} {s : SessionId}

theorem count_ofLength (n : ℕ) (s : SessionId) : (ofLength n).count s = 0 := by
  simp only [count, ofLength, List.getD_eq_getElem?_getD, List.getElem?_replicate]
  split <;> rfl

/-- Reading a vector with one entry replaced. -/
theorem getD_set {α : Type} {v : List α} {a d : α} {s s' : SessionId} (h : s.toNat < v.length) :
    (v.set s.toNat a).getD s'.toNat d = if s' = s then a else v.getD s'.toNat d := by
  rw [List.getD_eq_getElem?_getD, List.getD_eq_getElem?_getD]
  by_cases hs : s' = s
  · rw [if_pos hs, hs, List.getElem?_set_self h, Option.getD_some]
  · rw [if_neg hs, List.getElem?_set_ne fun e => hs (BitVec.toNat_inj.mp e.symm)]

theorem entryAt_isOk {α : Type} {v : List α} {i : ℕ} {a : α} (h : entryAt v i = .ok a) :
    v[i]? = some a := by
  unfold entryAt at h
  split at h
  next b hb => rw [hb, Except.ok.inj h]
  next => cases h

theorem setEntry_isOk {α : Type} {v w : List α} {i : ℕ} {a : α} (h : setEntry v i a = .ok w) :
    i < v.length ∧ w = v.set i a := by
  unfold setEntry at h
  split at h
  next hi => exact ⟨hi, (Except.ok.inj h).symm⟩
  next => cases h

theorem Sized.has_iff (h : t.Sized n) : t.Has s ↔ s.toNat < n := by
  rw [Has, h.bools, h.counts, and_self]

/-- What an update of a count does. -/
theorem updateCount_ok {f : SizeT → SizeT} (hn : t.Sized n) (h : updateCount f t s = .ok t') :
    t'.Sized n ∧ (∀ s', t'.count s' = if s' = s then f (t.count s) else t.count s') ∧
      ∀ s', t'.flag s' = t.flag s' := by
  obtain ⟨c, hc, h⟩ := bind_eq_ok.mp h
  obtain ⟨counts, hset, h⟩ := bind_eq_ok.mp h
  obtain rfl := Except.ok.inj h
  obtain ⟨hlt, rfl⟩ := setEntry_isOk hset
  have read : t.count s = c := by
    rw [count, List.getD_eq_getElem?_getD, entryAt_isOk hc, Option.getD_some]
  refine ⟨⟨hn.bools, ?_⟩, fun s' => ?_, fun _ => rfl⟩
  · rw [List.length_set, hn.counts]
  · rw [count, getD_set hlt, read]
    rfl

theorem updateCount_isOk (f : SizeT → SizeT) (h : t.Has s) : ∃ t', updateCount f t s = .ok t' := by
  rw [updateCount, entryAt_of_lt h.2, ok_bind, setEntry_of_lt _ h.2]
  exact ⟨_, rfl⟩

/-- What opening a gate does. -/
theorem raiseFlag_ok (hn : t.Sized n) (h : t.raiseFlag s = .ok t') :
    t'.Sized n ∧ (∀ s', t'.count s' = t.count s') ∧
      ∀ s', t'.flag s' = if s' = s then true else t.flag s' := by
  obtain ⟨bools, hset, h⟩ := bind_eq_ok.mp h
  obtain rfl := Except.ok.inj h
  obtain ⟨hlt, rfl⟩ := setEntry_isOk hset
  refine ⟨⟨?_, hn.counts⟩, fun _ => rfl, fun s' => ?_⟩
  · rw [List.length_set, hn.bools]
  · rw [flag, getD_set hlt]
    rfl

theorem raiseFlag_isOk (h : t.Has s) : ∃ t', t.raiseFlag s = .ok t' := by
  rw [raiseFlag, setEntry_of_lt _ h.1]
  exact ⟨_, rfl⟩

theorem loadCount_ok {c : SizeT} (h : t.loadCount s = .ok c) : t.count s = c := by
  rw [count, List.getD_eq_getElem?_getD, entryAt_isOk h, Option.getD_some]

theorem loadCount_isOk (h : t.Has s) : t.loadCount s = .ok (t.count s) := by
  have hload := entryAt_of_lt h.2
  rw [loadCount_ok hload, loadCount, hload]

theorem loadFlag_ok {b : Bool} (h : t.loadFlag s = .ok b) : t.flag s = b := by
  rw [flag, List.getD_eq_getElem?_getD, entryAt_isOk h, Option.getD_some]

theorem loadFlag_isOk (h : t.Has s) : t.loadFlag s = .ok (t.flag s) := by
  have hload := entryAt_of_lt h.1
  rw [loadFlag_ok hload, loadFlag, hload]

/-! ## Growing -/

/-- The table after the copy loop's first `i` rounds into vectors of length `m`. -/
def copied (t : Table) (m i : ℕ) : Table where
  allAtomicsBools := t.allAtomicsBools.take i ++ List.replicate (m - i) false
  allAtomicsCount := t.allAtomicsCount.take i ++ List.replicate (m - i) 0

/-- One round on one vector. -/
theorem setEntry_copied {α : Type} {v : List α} {m i : ℕ} (d : α) (hi : i < v.length) (hm : i < m) :
    setEntry (v.take i ++ List.replicate (m - i) d) i v[i] =
      .ok (v.take (i + 1) ++ List.replicate (m - (i + 1)) d) := by
  have hlen : (v.take i).length = i := List.length_take_of_le hi.le
  have hlt : i < (v.take i ++ List.replicate (m - i) d).length := by
    rw [List.length_append, hlen, List.length_replicate]
    omega
  have hrep : List.replicate (m - i) d = d :: List.replicate (m - (i + 1)) d := by
    rw [← List.replicate_succ]
    congr 1
    omega
  rw [setEntry_of_lt _ hlt, hrep, List.set_append_right _ _ hlen.le, hlen, Nat.sub_self,
    List.set_cons_zero, List.take_succ_eq_append_getElem hi, List.append_assoc]
  rfl

theorem copyEntry_copied {m i : ℕ} (hn : t.Sized n) (hi : i < n) (hm : i < m) :
    t.copyEntry (t.copied m i) i = .ok (t.copied m (i + 1)) := by
  have hb : i < t.allAtomicsBools.length := hn.bools.symm ▸ hi
  have hc : i < t.allAtomicsCount.length := hn.counts.symm ▸ hi
  rw [copyEntry, entryAt_of_lt hb, ok_bind, copied, setEntry_copied _ hb hm, ok_bind,
    entryAt_of_lt hc, ok_bind, setEntry_copied _ hc hm]
  rfl

/-- Copying an entry to where there is no room. -/
theorem copyEntry_overflow {m i : ℕ} (hn : t.Sized n) (hi : i < n) (hm : m ≤ i) :
    t.copyEntry (t.copied m i) i = .error .undefinedBehaviour := by
  have hb : i < t.allAtomicsBools.length := hn.bools.symm ▸ hi
  have room : (t.copied m i).allAtomicsBools.length ≤ i := by
    rw [copied, List.length_append, List.length_replicate, List.length_take]
    omega
  rw [copyEntry, entryAt_of_lt hb, ok_bind, setEntry_of_le _ room, error_bind]

/-- **The copy loop** from any round on: it copies everything when there is room for it and the index
stays an `int`. -/
theorem copyFrom_copied {m : ℕ} (hn : t.Sized n) :
    ∀ (left i : ℕ), i + left = n → i ≤ m → i < 2 ^ 31 →
      t.copyFrom (t.copied m i) i left =
        if n ≤ m ∧ n < 2 ^ 31 then .ok (t.copied m n) else .error .undefinedBehaviour
  | 0, i, hin, him, hi31 => by
    obtain rfl : i = n := hin
    rw [if_pos ⟨him, hi31⟩]
    rfl
  | left + 1, i, hin, him, hi31 => by
    have hi : i < n := by omega
    rw [copyFrom]
    rcases Nat.lt_or_ge i m with hm | hm
    · rw [copyEntry_copied hn hi hm, ok_bind]
      by_cases h31 : i + 1 < 2 ^ 31
      · rw [if_pos h31]
        exact copyFrom_copied hn left (i + 1) (by omega) hm h31
      · rw [if_neg h31, if_neg (by omega)]
    · rw [copyEntry_overflow hn hi hm, error_bind, if_neg (by omega)]

/-- The table with new entries after the old ones. -/
def grown (t : Table) (m : ℕ) : Table where
  allAtomicsBools := t.allAtomicsBools ++ List.replicate (m - t.allAtomicsBools.length) false
  allAtomicsCount := t.allAtomicsCount ++ List.replicate (m - t.allAtomicsCount.length) 0

theorem copied_all {m : ℕ} (hn : t.Sized n) : t.copied m n = t.grown m := by
  rw [copied, grown, hn.bools, hn.counts, List.take_of_length_le hn.bools.le,
    List.take_of_length_le hn.counts.le]

/-- **What `CheckSessionIdSize` does** to vectors of one length: nothing when the id fits; else it asks
for vectors of twice the id, and has the old entries in them when they fit and the index of the copy
loop does not overflow. -/
theorem checkSessionIdSize_eq (alloc : ℕ → Bool) (hn : t.Sized n) :
    t.checkSessionIdSize alloc s =
      if s.toNat < n then .ok t
      else if alloc (s * 2).toNat then
        if n ≤ (s * 2).toNat ∧ n < 2 ^ 31 then .ok (t.grown (s * 2).toNat)
        else .error .undefinedBehaviour
      else .error .badAlloc := by
  rw [checkSessionIdSize, hn.bools]
  by_cases hs : s.toNat < n
  · rw [if_neg (Nat.not_le.mpr hs), if_pos hs]
  · rw [if_pos (Nat.not_lt.mp hs), if_neg hs]
    have start : ofLength (s * 2).toNat = t.copied (s * 2).toNat 0 := rfl
    simp only [start, copyFrom_copied hn n 0 (Nat.zero_add n) (Nat.zero_le _) (by decide),
      copied_all hn]

theorem grown_sized {m : ℕ} (hn : t.Sized n) (hm : n ≤ m) : (t.grown m).Sized m := by
  constructor
  · rw [grown, List.length_append, List.length_replicate, hn.bools]
    omega
  · rw [grown, List.length_append, List.length_replicate, hn.counts]
    omega

/-- Reading a vector with default entries behind it. -/
theorem getD_append_replicate {α : Type} (v : List α) (k i : ℕ) (d : α) :
    (v ++ List.replicate k d).getD i d = v.getD i d := by
  simp only [List.getD_eq_getElem?_getD]
  rcases Nat.lt_or_ge i v.length with h | h
  · rw [List.getElem?_append_left h]
  · rw [List.getElem?_append_right h, List.getElem?_eq_none h, List.getElem?_replicate]
    split <;> rfl

theorem count_grown (t : Table) (m : ℕ) (s : SessionId) : (t.grown m).count s = t.count s :=
  getD_append_replicate _ _ _ _

theorem flag_grown (t : Table) (m : ℕ) (s : SessionId) : (t.grown m).flag s = t.flag s :=
  getD_append_replicate _ _ _ _

/-- A call of `CheckSessionIdSize` that returns keeps every gate and every count, and the vectors at
one length. -/
theorem checkSessionIdSize_ok {alloc : ℕ → Bool} (hn : t.Sized n)
    (h : t.checkSessionIdSize alloc s = .ok t') :
    (∃ m, n ≤ m ∧ t'.Sized m) ∧ (∀ s', t'.count s' = t.count s') ∧
      ∀ s', t'.flag s' = t.flag s' := by
  rw [checkSessionIdSize_eq alloc hn] at h
  split at h
  next =>
    obtain rfl := Except.ok.inj h
    exact ⟨⟨n, le_refl n, hn⟩, fun _ => rfl, fun _ => rfl⟩
  next =>
    split at h
    next =>
      split at h
      next hroom =>
        obtain rfl := Except.ok.inj h
        exact ⟨⟨_, hroom.1, grown_sized hn hroom.1⟩, count_grown t _, flag_grown t _⟩
      next => cases h
    next => cases h

/-! ## The ids a table admits -/

/-- The id fits, or twice the id is more, can be had, and the copy loop gets through. -/
def Admits (alloc : ℕ → Bool) (t : Table) (s : SessionId) : Prop :=
  s.toNat < t.allAtomicsBools.length ∨
    0 < s.toNat ∧ s.toNat < 2 ^ 63 ∧ t.allAtomicsBools.length < 2 ^ 31 ∧ alloc (2 * s.toNat) = true

instance (alloc : ℕ → Bool) (t : Table) (s : SessionId) : Decidable (t.Admits alloc s) :=
  inferInstanceAs (Decidable (_ ∨ _))

theorem toNat_mul_two (s : SessionId) : (s * 2).toNat = 2 * s.toNat % 2 ^ 64 := by
  rw [BitVec.toNat_mul, mul_comm]
  rfl

/-- **When the entry of the session can be accessed afterwards.** -/
theorem admits_iff {alloc : ℕ → Bool} (hn : t.Sized n) :
    t.Admits alloc s ↔
      ∃ t' m, t.checkSessionIdSize alloc s = .ok t' ∧ t'.Sized m ∧ s.toNat < m := by
  have hlt := s.isLt
  rw [Admits, checkSessionIdSize_eq alloc hn, hn.bools, toNat_mul_two]
  constructor
  · rintro (hs | ⟨hpos, h63, h31, halloc⟩)
    · exact ⟨t, n, if_pos hs, hn, hs⟩
    · by_cases hs : s.toNat < n
      · exact ⟨t, n, if_pos hs, hn, hs⟩
      · have room : n ≤ 2 * s.toNat := by omega
        rw [Nat.mod_eq_of_lt (by omega), if_neg hs, if_pos halloc, if_pos ⟨room, h31⟩]
        exact ⟨_, _, rfl, grown_sized hn room, by omega⟩
  · rintro ⟨t', m, h, hm, hsm⟩
    by_cases hs : s.toNat < n
    · exact .inl hs
    · rw [if_neg hs] at h
      split at h
      next halloc =>
        split at h
        next hroom =>
          obtain rfl := Except.ok.inj h
          obtain rfl := hm.bools.symm.trans (grown_sized hn hroom.1).bools
          have h63 : s.toNat < 2 ^ 63 := by omega
          rw [Nat.mod_eq_of_lt (by omega)] at halloc
          exact .inr ⟨by omega, h63, hroom.2, halloc⟩
        next => cases h
      next => cases h

/-- The id fits, or vectors of twice the id in `size_t` arithmetic can be had and the copy loop gets
through. -/
def Resizes (alloc : ℕ → Bool) (t : Table) (s : SessionId) : Prop :=
  s.toNat < t.allAtomicsBools.length ∨
    alloc (s * 2).toNat = true ∧ t.allAtomicsBools.length ≤ (s * 2).toNat ∧
      t.allAtomicsBools.length < 2 ^ 31

/-- **When `CheckSessionIdSize` returns.** -/
theorem resizes_iff {alloc : ℕ → Bool} (hn : t.Sized n) :
    t.Resizes alloc s ↔ ∃ t', t.checkSessionIdSize alloc s = .ok t' := by
  rw [Resizes, checkSessionIdSize_eq alloc hn, hn.bools]
  by_cases hs : s.toNat < n
  · simp only [hs, true_or, if_true, Except.ok.injEq, exists_eq']
  · simp only [hs, false_or, if_false]
    cases alloc (s * 2).toNat with
    | false => simp only [Bool.false_eq_true, false_and, if_false, reduceCtorEq, exists_false]
    | true =>
      simp only [true_and, if_true]
      split
      next hroom => exact ⟨fun _ => ⟨_, rfl⟩, fun _ => hroom⟩
      next hroom => exact ⟨fun h => absurd h hroom, fun h => nomatch h⟩

/-- Small ids and small vectors: the call is thrown out of, or the id fits afterwards into vectors
that are still small. -/
theorem checkSessionIdSize_small (alloc : ℕ → Bool) (hn : t.Sized n) (hpos : 0 < n)
    (h31 : n < 2 ^ 31) (hs : s.toNat < 2 ^ 30) :
    t.checkSessionIdSize alloc s = .error .badAlloc ∨
      ∃ t' m, t.checkSessionIdSize alloc s = .ok t' ∧ t'.Sized m ∧ s.toNat < m ∧ m < 2 ^ 31 := by
  rw [checkSessionIdSize_eq alloc hn, toNat_mul_two, Nat.mod_eq_of_lt (by omega)]
  by_cases hfits : s.toNat < n
  · exact .inr ⟨t, n, if_pos hfits, hn, hfits, h31⟩
  · rw [if_neg hfits]
    cases alloc (2 * s.toNat) with
    | false => exact .inl rfl
    | true =>
      have room : n ≤ 2 * s.toNat := by omega
      rw [if_pos rfl, if_pos ⟨room, h31⟩]
      exact .inr ⟨_, _, rfl, grown_sized hn room, by omega, by omega⟩

end Table

end TcpServer
