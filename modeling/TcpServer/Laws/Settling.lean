import TcpServer.Laws.Entering

/-!
# The table that the next call finds

While a call is on its way through `CheckSessionIdSize`, the next one waits for it; what it finds then is
the settled table. Its length is the same whoever moves (`settled_move`), and so is whether it takes a
session. A call whose session it does not take never gets its task posted (`Doomed.move`): it throws, or it
increments a count out of range, if it gets there at all.
-/

namespace TcpServer

open Interleaving Transition

/-! ## The settled table -/

/-- The table once the call that is on its way through `CheckSessionIdSize`, if there is one, has been
through. -/
def ServerState.settled (s : ServerState) : Table :=
  match s.agents.find? Frame.beforeResize with
  | some f =>
    if f.sessionId.toNat < s.memory.table.allAtomicsBools.length then s.memory.table
    else s.memory.table.grown (f.sessionId * 2).toNat
  | none => s.memory.table

/-- The table takes the session of a call: `CheckSessionIdSize` returns and, for a `Buy` or a `Remove`, the
session is in the table then. -/
def Call.Takes (alloc : ℕ → Bool) (t : Table) : Call → Prop
  | .getAllItemDescription => True
  | .buy _ _ s | .remove _ _ s => t.Admits alloc s
  | .makeOrder _ s => t.Resizes alloc s

section Settled

variable {cfg : Config} {s s' : ServerState} {k : ℕ} {alloc : ℕ → Bool} {t t' : Table} {n : ℕ}
  {σ : SessionId}

/-- The length of the vectors after `CheckSessionIdSize`. -/
theorem Table.Sized.resized (hn : t.Sized n) (h : t.checkSessionIdSize alloc σ = .ok t') :
    t'.Sized (if σ.toNat < n then n else (σ * 2).toNat) := by
  rw [Table.checkSessionIdSize_eq alloc hn] at h
  split at h
  next hs =>
    obtain rfl := Except.ok.inj h
    rwa [if_pos hs]
  next hs =>
    rw [if_neg hs]
    split at h
    next =>
      split at h
      next room =>
        obtain rfl := Except.ok.inj h
        exact Table.grown_sized hn room.1
      next => cases h
    next => cases h

/-- Who is before the end of `CheckSessionIdSize`, if anybody is, leaves the settled table. -/
theorem settled_cases (T : Taken cfg none s) :
    (∃ (j : ℕ) (f : Frame), s.agents[j]? = some f ∧ f.beforeResize = true ∧
        s.memory.table.checkSessionIdSize cfg.alloc f.sessionId = .ok s.settled) ∨
      (∀ (j : ℕ) (f : Frame), s.agents[j]? = some f → f.beforeResize = false) ∧
        s.settled = s.memory.table := by
  obtain ⟨n, hn, _⟩ := T.placed
  cases hfind : s.agents.find? Frame.beforeResize with
  | none =>
    refine .inr ⟨fun j f hj => ?_, by rw [ServerState.settled, hfind]⟩
    exact Bool.not_eq_true _ ▸ List.find?_eq_none.mp hfind f (List.mem_of_getElem? hj)
  | some f =>
    have hf := List.find?_some hfind
    obtain ⟨j, hj⟩ := List.mem_iff_getElem?.mp (List.mem_of_find?_eq_some hfind)
    refine .inl ⟨j, f, hj, hf, ?_⟩
    obtain ⟨t', _, ht', _⟩ := (Table.admits_iff hn).mp (T.admits j f hj nofun hf)
    rw [ht', ServerState.settled, hfind]
    simp only [hn.bools]
    rw [Table.checkSessionIdSize_eq cfg.alloc hn] at ht'
    split at ht'
    next hs => rw [if_pos hs, Except.ok.inj ht']
    next hs =>
      rw [if_neg hs]
      split at ht'
      next =>
        split at ht'
        next => rw [Except.ok.inj ht']
        next => cases ht'
      next => cases ht'

/-- The vectors keep their length, but where `CheckSessionIdSize` ends. -/
theorem CartStep.sized {c : CartCall} {pc pc' : CartPc} {m' : Memory}
    (h : CartStep cfg s c pc pc' m') (hn : s.memory.table.Sized n) (hpc : pc ≠ .resizing) :
    m'.table.Sized n := by
  cases h with
  | resize _ => exact absurd rfl hpc
  | increment ht => exact (Table.updateCount_ok hn ht).1
  | decrement ht => exact (Table.updateCount_ok hn ht).1
  | raise ht => exact (Table.raiseFlag_ok hn ht).1
  | _ => exact hn

theorem OrderStep.sized {c : OrderCall} {pc pc' : OrderPc} {m' : Memory}
    (h : OrderStep cfg s c pc pc' m') (hn : s.memory.table.Sized n) (hpc : pc ≠ .resizing) :
    m'.table.Sized n := by
  cases h with
  | resize _ => exact absurd rfl hpc
  | _ => exact hn

theorem sized_move {g : Frame} (hn : s.memory.table.Sized n) (hk : s.agents[k]? = some g)
    (hg : g.holdsTable = false) (h : (server cfg).step s (.run k) = some s') :
    s'.memory.table.Sized n := by
  cases step_cases h with
  | undefined _ _ => exact hn
  | cart hk' hstep =>
    cases hk'.symm.trans hk
    exact hstep.sized hn (of_decide_eq_false hg)
  | order hk' hstep =>
    cases hk'.symm.trans hk
    exact hstep.sized hn (of_decide_eq_false hg)

/-- A move leaves the length of the vectors and who is before the end of `CheckSessionIdSize`, or it is
that end. -/
theorem resize_cases (T' : Taken cfg none s') (hn : s.memory.table.Sized n)
    (h : (server cfg).step s (.run k) = some s') :
    (s'.memory.table.Sized n ∧ ∀ (j : ℕ) (f : Frame), s.agents[j]? = some f →
        f.beforeResize = true → ∃ f', s'.agents[j]? = some f' ∧ f'.beforeResize = true) ∨
      ∃ f f', s.agents[k]? = some f ∧ f.beforeResize = true ∧ s'.agents = s.agents.set k f' ∧
        f'.beforeResize = false ∧
          s.memory.table.checkSessionIdSize cfg.alloc f.sessionId = .ok s'.memory.table := by
  have keeps : ∀ {g g' : Frame}, s.agents[k]? = some g →
      (g.beforeResize = true → g'.beforeResize = true) → ∀ (j : ℕ) (f : Frame),
      s.agents[j]? = some f → f.beforeResize = true →
        ∃ f', (s.agents.set k g')[j]? = some f' ∧ f'.beforeResize = true := by
    intro g g' hk hg j f hj hf
    by_cases hjk : j = k
    · subst hjk
      obtain rfl := Option.some.inj (hj.symm.trans hk)
      exact ⟨g', getElem?_set_self hj, hg hf⟩
    · exact ⟨f, (getElem?_set_other hjk).trans hj, hf⟩
  cases step_cases h with
  | undefined _ _ => exact .inl ⟨hn, fun j f hj hf => ⟨f, hj, hf⟩⟩
  | cart hk hstep =>
    have same := hstep.sized hn
    cases hstep with
    | resize ht => exact .inr ⟨_, _, hk, rfl, rfl, rfl, ht⟩
    | throw _ => cases T'.escapes k _ (getElem?_set_self hk)
    | _ => exact .inl ⟨same nofun, keeps hk id⟩
  | order hk hstep =>
    have same := hstep.sized hn
    cases hstep with
    | resize ht => exact .inr ⟨_, _, hk, rfl, rfl, rfl, ht⟩
    | throw _ => cases T'.escapes k _ (getElem?_set_self hk)
    | _ => exact .inl ⟨same nofun, keeps hk id⟩

/-- Nobody comes to before the end of `CheckSessionIdSize` who was past it. -/
theorem beforeResize_move (h : (server cfg).step s (.run k) = some s') {j : ℕ} {f : Frame}
    (hj : s'.agents[j]? = some f) (hf : f.beforeResize = true) :
    ∃ f₀, s.agents[j]? = some f₀ ∧ f₀.beforeResize = true ∧ f₀.sessionId = f.sessionId := by
  cases f with
  | cart c pc =>
    rcases cart_moved h hj with hj | ⟨pc₀, _, hj, hstep⟩
    · exact ⟨_, hj, hf, rfl⟩
    · refine ⟨_, hj, ?_, rfl⟩
      cases hstep <;> first | rfl | cases hf
  | order c pc =>
    rcases order_moved h hj with hj | ⟨pc₀, _, hj, hstep⟩
    · exact ⟨_, hj, hf, rfl⟩
    · refine ⟨_, hj, ?_, rfl⟩
      cases hstep <;> first | rfl | cases hf

/-- The length of the settled table is the same whoever moves. -/
theorem settled_move (T : Taken cfg none s) (T' : Taken cfg none s')
    (h : (server cfg).step s (.run k) = some s') : ∃ m, s.settled.Sized m ∧ s'.settled.Sized m := by
  obtain ⟨n, hn, _⟩ := T.placed
  -- nobody else is before the end when somebody is
  have alone : ∀ {i j : ℕ} {f g : Frame}, s.agents[i]? = some f → s.agents[j]? = some g →
      f.beforeResize = true → g.beforeResize = true → i = j ∧ f = g := by
    intro i j f g hi hj hf hg
    obtain rfl := T.one.eq hi hj (submitting_of_beforeResize hf) (submitting_of_beforeResize hg)
    exact ⟨rfl, Option.some.inj (hi.symm.trans hj)⟩
  rcases resize_cases T' hn h with ⟨hn', keeps⟩ | ⟨g, g', hk, hg, agents, hg', resized⟩
  · rcases settled_cases T with ⟨j, f, hj, hf, settled⟩ | ⟨nobody, settled⟩
    · refine ⟨_, hn.resized settled, ?_⟩
      rcases settled_cases T' with ⟨j', f', hj', hf', settled'⟩ | ⟨nobody', _⟩
      · obtain ⟨f₀, hj₀, hf₀, same⟩ := beforeResize_move h hj' hf'
        obtain ⟨rfl, rfl⟩ := alone hj hj₀ hf hf₀
        rw [same]
        exact hn'.resized settled'
      · obtain ⟨f', hj', hf'⟩ := keeps j f hj hf
        cases (nobody' j f' hj').symm.trans hf'
    · refine ⟨n, settled ▸ hn, ?_⟩
      rcases settled_cases T' with ⟨j', f', hj', hf', _⟩ | ⟨_, settled'⟩
      · obtain ⟨f₀, hj₀, hf₀, _⟩ := beforeResize_move h hj' hf'
        cases (nobody j' f₀ hj₀).symm.trans hf₀
      · exact settled' ▸ hn'
  · refine ⟨if g.sessionId.toNat < n then n else (g.sessionId * 2).toNat, ?_, ?_⟩
    · rcases settled_cases T with ⟨j, f, hj, hf, settled⟩ | ⟨nobody, _⟩
      · obtain ⟨rfl, rfl⟩ := alone hj hk hf hg
        exact hn.resized settled
      · cases (nobody k g hk).symm.trans hg
    · rcases settled_cases T' with ⟨j', f', hj', hf', _⟩ | ⟨_, settled'⟩
      · obtain ⟨f₀, hj₀, hf₀, _⟩ := beforeResize_move h hj' hf'
        obtain ⟨rfl, rfl⟩ := alone hj₀ hk hf₀ hg
        rw [agents] at hj'
        obtain rfl := Option.some.inj ((getElem?_set_self hk).symm.trans hj')
        cases hg'.symm.trans hf'
      · rw [settled']
        exact hn.resized resized

/-- So the table takes what it took. -/
theorem takes_move (T : Taken cfg none s) (T' : Taken cfg none s')
    (h : (server cfg).step s (.run k) = some s') (c : Call) :
    c.Takes alloc s'.settled ↔ c.Takes alloc s.settled := by
  obtain ⟨m, hm, hm'⟩ := settled_move T T' h
  cases c with
  | getAllItemDescription => exact Iff.rfl
  | buy i c σ => exact hm'.admits_congr hm
  | remove i c σ => exact hm'.admits_congr hm
  | makeOrder o σ => exact hm'.resizes_congr hm

/-- Where nobody submits, the settled table is the table. -/
theorem settled_of_mutex (T : Taken cfg none s) (mutex : s.agents.countP Frame.submitting = 0) :
    s.settled = s.memory.table := by
  rcases settled_cases T with ⟨j, f, hj, hf, _⟩ | ⟨_, settled⟩
  · cases (countP_eq_zero_iff.mp mutex j f hj).symm.trans (submitting_of_beforeResize hf)
  · exact settled

end Settled

/-! ## Calls whose sessions are not taken -/

/-- The call does not get its task posted: `CheckSessionIdSize` is going to fail, or it has left the session
out of the vectors whose count the call increments, or its exception leaves the call. -/
inductive Doomed (cfg : Config) (s : ServerState) : Frame → Prop
  | cart {c : CartCall} {pc : CartPc} (hpc : (Frame.cart c pc).beforeResize = true)
    (h : ¬ s.memory.table.Admits cfg.alloc c.sessionId) : Doomed cfg s (.cart c pc)
  | order {c : OrderCall} {pc : OrderPc} (hpc : (Frame.order c pc).beforeResize = true)
    (h : ¬ s.memory.table.Resizes cfg.alloc c.sessionId) : Doomed cfg s (.order c pc)
  | sized {c : CartCall} (h : ¬ s.memory.table.Has c.sessionId) : Doomed cfg s (.cart c .sized)
  | counting {c : CartCall} (h : ¬ s.memory.table.Has c.sessionId) : Doomed cfg s (.cart c .counting)
  | escaping {f : Frame} (hf : f.escaping = true) : Doomed cfg s f

section Doomed

variable {cfg : Config} {s s' : ServerState} {k j : ℕ} {f : Frame}

theorem Doomed.inHandler (doomed : Doomed cfg s f) : f.inHandler = true := by
  refine Bool.or_eq_true_iff.mpr ?_
  cases doomed with
  | cart hpc _ => exact .inl (submitting_of_beforeResize hpc)
  | order hpc _ => exact .inl (submitting_of_beforeResize hpc)
  | sized _ => exact .inl rfl
  | counting _ => exact .inl rfl
  | escaping hf => exact .inr hf

/-- It depends on the length of the vectors. -/
theorem Doomed.congr {n : ℕ} (doomed : Doomed cfg s f) (hn : s.memory.table.Sized n)
    (hn' : s'.memory.table.Sized n) : Doomed cfg s' f := by
  cases doomed with
  | cart hpc h => exact .cart hpc (mt (hn'.admits_congr hn).mp h)
  | order hpc h => exact .order hpc (mt (hn'.resizes_congr hn).mp h)
  | sized h =>
    rw [hn.has_iff] at h
    exact .sized (mt hn'.has_iff.mp h)
  | counting h =>
    rw [hn.has_iff] at h
    exact .counting (mt hn'.has_iff.mp h)
  | escaping hf => exact .escaping hf

/-- **The step lemma**: a call that is doomed stays so, whoever moves. -/
theorem Doomed.move (doomed : Doomed cfg s f) (one : Exclusive Frame.submitting s.agents)
    (count : CountExact s) (hj : s.agents[j]? = some f)
    (h : (server cfg).step s (.run k) = some s') :
    ∃ f', s'.agents[j]? = some f' ∧ Doomed cfg s' f' := by
  obtain ⟨n, hn⟩ := count.sized
  obtain ⟨g, g', m', hk, hmove, rfl⟩ := step_run h
  by_cases hjk : j = k
  · subst hjk
    obtain rfl := Option.some.inj (hj.symm.trans hk)
    refine ⟨g', getElem?_set_self hj, ?_⟩
    cases f with
    | cart c pc =>
      obtain ⟨pc', rfl, hcart⟩ := move_cart hmove
      rcases cartMove_cases hcart with hstep | ⟨_, rfl, rfl⟩
      · cases doomed with
        | cart hpc refused =>
          cases hstep with
          | enter _ => exact .cart rfl refused
          | throw _ => exact .escaping rfl
          | resize ht =>
            obtain ⟨⟨m, _, hm⟩, _⟩ := Table.checkSessionIdSize_ok hn ht
            refine .sized fun has => refused ((Table.admits_iff hn).mpr ⟨_, m, ht, hm, ?_⟩)
            exact hm.has_iff.mp has
          | _ => cases hpc
        | sized out =>
          cases hstep with
          | share _ => exact .counting out
        | counting out =>
          cases hstep with
          | increment ht =>
            obtain ⟨_, _, ht⟩ := bind_eq_ok.mp ht
            obtain ⟨_, hset, _⟩ := bind_eq_ok.mp ht
            refine absurd ?_ out
            rw [hn.has_iff, ← hn.counts]
            exact (Table.setEntry_isOk hset).1
        | escaping hf =>
          obtain rfl := of_decide_eq_true hf
          cases hstep
      · exact doomed.congr hn hn
    | order c pc =>
      obtain ⟨pc', rfl, horder⟩ := move_order hmove
      rcases orderMove_cases horder with hstep | ⟨_, rfl, rfl⟩
      · cases doomed with
        | order hpc refused =>
          cases hstep with
          | enter _ => exact .order rfl refused
          | throw _ => exact .escaping rfl
          | resize ht => exact absurd ((Table.resizes_iff hn).mpr ⟨_, ht⟩) refused
          | _ => cases hpc
        | escaping hf =>
          obtain rfl := of_decide_eq_true hf
          cases hstep
      · exact doomed.congr hn hn
  · have stays : (s.agents.set k g')[j]? = some f := (getElem?_set_other hjk).trans hj
    refine ⟨f, stays, ?_⟩
    rcases Bool.or_eq_true_iff.mp doomed.inHandler with hsubmits | hescapes
    · have hg : g.holdsTable = false := by
        rw [← Bool.not_eq_true]
        intro hg
        exact hjk (one.eq hj hk hsubmits (submitting_of_holdsTable hg))
      exact doomed.congr hn (sized_move hn hk hg h)
    · exact .escaping hescapes

end Doomed

end TcpServer
