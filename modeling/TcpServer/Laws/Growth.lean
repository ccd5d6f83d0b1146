import TcpServer.Laws.Counter
import TcpServer.Laws.Room

/-!
# Growth of the session table

`CheckSessionIdSize` is to make room for a session id: vectors that are longer, have the old entries,
and have an entry for the id (`Table.GrowsFor`). It asks for vectors of twice the id, and copies with
an `int` index. So it fails for ids from 2^63 on, whose double wraps and may be less than the old
length; for the id 0 in empty vectors, whose double is 0; and for vectors of 2^31 entries and more.
`table_growth_iff` says that it makes room in all other cases, whatever has run before.

That vectors can be had is assumed of every length, also of the lengths above `max_size()`, for which the
constructor of the vector throws `length_error` whatever the memory: those that ids from 2^59 on ask for.

In a run whose ids are none of these no access to the vectors is ever out of range (`growing_run`).
-/

namespace TcpServer

open Interleaving Transition

namespace Table

/-- The vectors of `t'` have the length `m`: the first `n` entries are those of `t`, the others are
new. -/
structure Extends (t' : Table) (m : ℕ) (t : Table) (n : ℕ) : Prop where
  sized : t'.Sized m
  longer : n ≤ m
  kept : ∀ i, i < n → t'.allAtomicsBools[i]? = t.allAtomicsBools[i]? ∧
    t'.allAtomicsCount[i]? = t.allAtomicsCount[i]?
  fresh : ∀ i, n ≤ i → i < m → t'.allAtomicsBools[i]? = some false ∧
    t'.allAtomicsCount[i]? = some 0

/-- `CheckSessionIdSize` makes room for the session, where vectors can be had: nothing is accessed out
of range, and the entries of the session can be accessed afterwards. -/
def GrowsFor (t : Table) (n : ℕ) (s : SessionId) : Prop :=
  ∃ t' m, t.checkSessionIdSize (fun _ => true) s = .ok t' ∧ t'.Extends m t n ∧ t'.Has s

variable {t t' : Table} {n m : ℕ} {s : SessionId}

/-- Vectors that need not grow. -/
theorem Sized.extends (hn : t.Sized n) : t.Extends n t n where
  sized := hn
  longer := le_refl n
  kept _ _ := ⟨rfl, rfl⟩
  fresh _ hge hlt := absurd hlt (Nat.not_lt.mpr hge)

/-- An entry behind the old ones. -/
theorem getElem?_append_fresh {α : Type} {v : List α} {i : ℕ} (d : α) (hge : v.length ≤ i)
    (hlt : i < m) : (v ++ List.replicate (m - v.length) d)[i]? = some d := by
  rw [List.getElem?_append_right hge, List.getElem?_replicate, if_pos (by omega)]

theorem grown_extends (hn : t.Sized n) (hm : n ≤ m) : (t.grown m).Extends m t n where
  sized := grown_sized hn hm
  longer := hm
  kept _ hi :=
    ⟨List.getElem?_append_left (hn.bools.symm ▸ hi), List.getElem?_append_left (hn.counts.symm ▸ hi)⟩
  fresh _ hge hlt :=
    ⟨getElem?_append_fresh false (hn.bools.symm ▸ hge) hlt,
      getElem?_append_fresh 0 (hn.counts.symm ▸ hge) hlt⟩

/-- A call of `CheckSessionIdSize` that returns has extended the vectors, if by nothing. -/
theorem checkSessionIdSize_extends {alloc : ℕ → Bool} (hn : t.Sized n)
    (h : t.checkSessionIdSize alloc s = .ok t') : ∃ m, t'.Extends m t n := by
  rw [checkSessionIdSize_eq alloc hn] at h
  split at h
  next =>
    obtain rfl := Except.ok.inj h
    exact ⟨n, hn.extends⟩
  next =>
    split at h
    next =>
      split at h
      next hroom =>
        obtain rfl := Except.ok.inj h
        exact ⟨_, grown_extends hn hroom.1⟩
      next => cases h
    next => cases h

/-- **When the vectors grow for a session**: its id is in them, or is neither 0 nor so large that its
double wraps, and the copy loop gets through. -/
theorem growsFor_iff (hn : t.Sized n) :
    t.GrowsFor n s ↔ s.toNat < n ∨ 0 < s.toNat ∧ s.toNat < 2 ^ 63 ∧ n < 2 ^ 31 := by
  have admits : t.Admits (fun _ => true) s ↔
      s.toNat < n ∨ 0 < s.toNat ∧ s.toNat < 2 ^ 63 ∧ n < 2 ^ 31 := by
    rw [Admits, hn.bools]
    simp only [and_true]
  rw [← admits, admits_iff hn]
  constructor
  · rintro ⟨t', m, hcheck, hext, hhas⟩
    exact ⟨t', m, hcheck, hext.sized, hext.sized.has_iff.mp hhas⟩
  · rintro ⟨t', m, hcheck, hm, hs⟩
    obtain ⟨m', hext⟩ := checkSessionIdSize_extends hn hcheck
    exact ⟨t', m', hcheck, hext, hm.has_iff.mpr hs⟩

/-- Where vectors may be refused: a session that they would grow for gets its entries, or the call
leaves by the exception. -/
theorem GrowsFor.room {alloc : ℕ → Bool} (hn : t.Sized n) (h : t.GrowsFor n s) :
    (∃ t' m, t.checkSessionIdSize alloc s = .ok t' ∧ t'.Sized m ∧ s.toNat < m) ∨
      t.checkSessionIdSize alloc s = .error .badAlloc := by
  rcases (growsFor_iff hn).mp h with hs | ⟨hpos, h63, h31⟩
  · refine .inl ⟨t, n, ?_, hn, hs⟩
    rw [checkSessionIdSize_eq alloc hn, if_pos hs]
  · cases halloc : alloc (2 * s.toNat) with
    | true => exact .inl ((admits_iff hn).mp (.inr ⟨hpos, h63, hn.bools.symm ▸ h31, halloc⟩))
    | false =>
      by_cases hs : s.toNat < n
      · exact .inl ((admits_iff hn).mp (.inl (hn.bools.symm ▸ hs)))
      · refine .inr ?_
        rw [checkSessionIdSize_eq alloc hn, if_neg hs, toNat_mul_two, Nat.mod_eq_of_lt (by omega),
          halloc, if_neg Bool.false_ne_true]

end Table

/-! ## On the server -/

section Server

variable {cfg : Config} {C : ServerState → Action Frame → Prop} {s : ServerState}

/-- **Growth of the session table**, in every state of every run of every server: the two vectors have
one length, and grow for exactly these ids. -/
theorem table_growth_iff (h : Reachable (serverMachine cfg) C s) :
    ∃ n, s.memory.table.Sized n ∧ ∀ σ : SessionId, s.memory.table.GrowsFor n σ ↔
      σ.toNat < n ∨ 0 < σ.toNat ∧ σ.toNat < 2 ^ 63 ∧ n < 2 ^ 31 := by
  obtain ⟨n, hn⟩ := (countExact h).sized
  exact ⟨n, hn, fun σ => Table.growsFor_iff hn⟩

/-- A server whose vectors have grown from 4 to 18 entries. -/
theorem table_growth_diner :
    ∃ s n, (serverMachine .diner).run Config.diner.start
        (.spawn (.cart (burgerFor 9) .called) :: moves 0 2) = some s ∧
      s.memory.table.Sized n ∧ ∀ σ : SessionId, s.memory.table.GrowsFor n σ ↔
        σ.toNat < n ∨ 0 < σ.toNat ∧ σ.toNat < 2 ^ 63 ∧ n < 2 ^ 31 := by
  obtain ⟨s, hs⟩ := Option.isSome_iff_exists.mp (show ((serverMachine .diner).run
    Config.diner.start (.spawn (.cart (burgerFor 9) .called) :: moves 0 2)).isSome = true by decide)
  obtain ⟨n, hgrows⟩ := table_growth_iff ((Reachable.init rfl).leads (Machine.run_leads _ hs))
  exact ⟨s, n, hs, hgrows⟩

/-- The id 2^63 on a new server: its double is 0, and the first entry is copied to nowhere. -/
theorem doubled_id_wraps :
    ¬ ∀ (cfg : Config) (s : ServerState) (n : ℕ) (σ : SessionId),
      Reachable (serverMachine cfg) Always s → s.memory.table.Sized n →
        s.memory.table.GrowsFor n σ := by
  intro h
  have hn : Config.diner.start.memory.table.Sized 4 := Table.ofLength_sized 4
  have grows := h .diner Config.diner.start 4 (BitVec.ofNat 64 (2 ^ 63)) (.init rfl) hn
  rw [Table.growsFor_iff hn, BitVec.toNat_ofNat, Nat.mod_eq_of_lt (by omega)] at grows
  omega

/-! ## Runs whose vectors grow -/

/-- The discipline of runs that look up sessions for which the vectors grow. -/
abbrev GrowingRun : ServerState → Action Frame → Prop :=
  Rule (fun _ _ => True) fun s f => f.holdsTable = true →
    s.memory.table.GrowsFor s.memory.table.allAtomicsBools.length f.sessionId

/-- **No access is out of range** in such a run: every call past `CheckSessionIdSize` has its session in
the vectors, and no step is undefined. -/
theorem growing_run (h : Reachable (serverMachine cfg) GrowingRun s) :
    Placed s ∧ s.memory.undefined = false := by
  apply reachable_invariant _ _ h
  · exact ⟨Placed.start cfg, rfl⟩
  · rintro s a s' hr ⟨placed, hdef⟩ hC hs
    apply room_step placed hdef _ hs
    rintro k f rfl hk hf
    obtain ⟨n, hn, _⟩ := placed
    have grows := hC f hk hf
    rw [hn.bools] at grows
    exact grows.room hn

end Server

end TcpServer
