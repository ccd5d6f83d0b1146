import TcpServer.Laws.Steps

/-!
# Room in the session table

The accesses to the two vectors are in range as long as every call that gets through
`CheckSessionIdSize` finds its session in them afterwards (`Placed`). The vectors only grow, so it is
enough that the call finds it then. `CheckSessionIdSize` sees to that for ids below 2^30 in vectors of
at least one and less than 2^31 entries: twice the id does not wrap, is more than the id, and keeps the
vectors below the range of the copy loop's `int`.
-/

namespace TcpServer

open Interleaving Transition

/-- Got through `CheckSessionIdSize`. -/
def CartPc.pastResize : CartPc → Bool
  | .called | .resizing | .threw => false
  | _ => true

def Frame.pastResize : Frame → Bool
  | .cart _ pc => pc.pastResize
  | .order _ pc => match pc with
    | .called | .resizing | .threw => false
    | _ => true

theorem pastResize_of_sharesTable {f : Frame} (h : f.sharesTable = true) : f.pastResize = true := by
  cases f with
  | cart c pc => cases pc <;> first | rfl | cases h
  | order c pc => cases pc <;> first | rfl | cases h

/-- The vectors have one length, and every call past `CheckSessionIdSize` has its session in them. -/
def Placed (s : ServerState) : Prop :=
  ∃ n, s.memory.table.Sized n ∧ ∀ (j : ℕ) (f : Frame), s.agents[j]? = some f →
    f.pastResize = true → f.sessionId.toNat < n

theorem Placed.has {s : ServerState} (h : Placed s) {j : ℕ} {f : Frame} (hj : s.agents[j]? = some f)
    (hf : f.pastResize = true) : s.memory.table.Has f.sessionId := by
  obtain ⟨n, hn, hplaced⟩ := h
  exact hn.has_iff.mpr (hplaced j f hj hf)

/-- The session of a call is in the vectors that `CheckSessionIdSize` leaves. -/
def FindsRoom (cfg : Config) (s : ServerState) (f : Frame) : Prop :=
  ∀ t m, s.memory.table.checkSessionIdSize cfg.alloc f.sessionId = .ok t → t.Sized m →
    f.sessionId.toNat < m

theorem Placed.start (cfg : Config) : Placed cfg.start :=
  ⟨_, Table.ofLength_sized _, fun _ _ hj => nomatch hj⟩

/-- Every step keeps the calls placed, if the one that resizes finds room. -/
theorem Placed.step {cfg : Config} {s s' : ServerState} {a : Action Frame} (inv : Placed s)
    (hroom : ∀ k f, a = .run k → s.agents[k]? = some f → f.holdsTable = true → FindsRoom cfg s f)
    (h : (server cfg).step s a = some s') : Placed s' := by
  obtain ⟨n, hn, hplaced⟩ := inv
  -- the others stay where they are, in vectors that are no shorter
  have others : ∀ {k : ℕ} {f' : Frame} {m : ℕ}, n ≤ m →
      (f'.pastResize = true → f'.sessionId.toNat < m) → ∀ (j : ℕ) (f : Frame),
      (s.agents.set k f')[j]? = some f → f.pastResize = true → f.sessionId.toNat < m := by
    intro k f' m hm hf' j f hj hf
    rcases getElem?_set_cases hj with ⟨_, rfl⟩ | ⟨_, hj⟩
    · exact hf' hf
    · exact Nat.lt_of_lt_of_le (hplaced j f hj hf) hm
  have started : ∀ (f' : Frame), f'.pastResize = false → ∀ (j : ℕ) (f : Frame),
      (s.agents ++ [f'])[j]? = some f → f.pastResize = true → f.sessionId.toNat < n := by
    intro f' hf' j f hj hf
    rcases getElem?_spawn_cases hj with hj | ⟨_, rfl⟩
    · exact hplaced j f hj hf
    · rw [hf'] at hf
      cases hf
  cases step_cases h with
  | callCart c => exact ⟨n, hn, started _ rfl⟩
  | callOrder c => exact ⟨n, hn, started _ rfl⟩
  | undefined _ _ => exact ⟨n, hn, hplaced⟩
  | cart hk hstep =>
    have own := hplaced _ _ hk
    cases hstep with
    | resize ht =>
      obtain ⟨⟨m, hnm, hm⟩, _⟩ := Table.checkSessionIdSize_ok hn ht
      exact ⟨m, hm, others hnm fun _ => hroom _ _ rfl hk rfl _ m ht hm⟩
    | increment ht =>
      exact ⟨n, (Table.updateCount_ok hn ht).1, others (le_refl n) fun _ => own rfl⟩
    | decrement ht =>
      exact ⟨n, (Table.updateCount_ok hn ht).1, others (le_refl n) fun _ => own rfl⟩
    | raise ht =>
      exact ⟨n, (Table.raiseFlag_ok hn ht).1, others (le_refl n) fun _ => own rfl⟩
    | _ => first
      | exact ⟨n, hn, others (le_refl n) fun _ => own rfl⟩
      | exact ⟨n, hn, others (le_refl n) fun e => absurd e Bool.false_ne_true⟩
  | order hk hstep =>
    have own := hplaced _ _ hk
    cases hstep with
    | resize ht =>
      obtain ⟨⟨m, hnm, hm⟩, _⟩ := Table.checkSessionIdSize_ok hn ht
      exact ⟨m, hm, others hnm fun _ => hroom _ _ rfl hk rfl _ m ht hm⟩
    | _ => first
      | exact ⟨n, hn, others (le_refl n) fun _ => own rfl⟩
      | exact ⟨n, hn, others (le_refl n) fun e => absurd e Bool.false_ne_true⟩

/-! ## Defined runs -/

section Defined

variable {cfg : Config} {s s' : ServerState}

theorem CartStep.undefined {c : CartCall} {pc pc' : CartPc} {m' : Memory}
    (h : CartStep cfg s c pc pc' m') : m'.undefined = s.memory.undefined := by
  cases h <;> rfl

theorem OrderStep.undefined {c : OrderCall} {pc pc' : OrderPc} {m' : Memory}
    (h : OrderStep cfg s c pc pc' m') : m'.undefined = s.memory.undefined := by
  cases h <;> rfl

/-- Among placed calls only `CheckSessionIdSize` can go wrong. -/
theorem defined_step {a : Action Frame} (placed : Placed s) (hdef : s.memory.undefined = false)
    (hresize : ∀ k f, a = .run k → s.agents[k]? = some f → f.holdsTable = true →
      (∃ t, s.memory.table.checkSessionIdSize cfg.alloc f.sessionId = .ok t) ∨
        s.memory.table.checkSessionIdSize cfg.alloc f.sessionId = .error .badAlloc)
    (h : (server cfg).step s a = some s') : s'.memory.undefined = false := by
  cases step_cases h with
  | callCart c => exact hdef
  | callOrder c => exact hdef
  | cart hk hstep => exact hstep.undefined.trans hdef
  | order hk hstep => exact hstep.undefined.trans hdef
  | undefined hk hfault =>
    cases hfault with
    | resize hf herr hbad =>
      rcases hresize _ _ rfl hk hf with ⟨t, ht⟩ | hthrow
      · exact absurd ht (herr t)
      · exact absurd hthrow hbad
    | access hf hhas => exact absurd (placed.has hk (pastResize_of_sharesTable hf)) hhas

/-- **Room**: where `CheckSessionIdSize` makes room for its session or throws, a step keeps the calls
placed and the memory defined. -/
theorem room_step {a : Action Frame} (placed : Placed s) (hdef : s.memory.undefined = false)
    (hresize : ∀ k f, a = .run k → s.agents[k]? = some f → f.holdsTable = true →
      (∃ t m, s.memory.table.checkSessionIdSize cfg.alloc f.sessionId = .ok t ∧ t.Sized m ∧
        f.sessionId.toNat < m) ∨
        s.memory.table.checkSessionIdSize cfg.alloc f.sessionId = .error .badAlloc)
    (h : (server cfg).step s a = some s') : Placed s' ∧ s'.memory.undefined = false := by
  constructor
  · apply placed.step _ h
    intro k f ha hk hf t m ht hm
    rcases hresize k f ha hk hf with ⟨t', m', hok, hm', hlt⟩ | hbad
    · obtain rfl := Except.ok.inj (hok.symm.trans ht)
      rwa [← hm'.bools.symm.trans hm.bools]
    · cases hbad.symm.trans ht
  · apply defined_step placed hdef _ h
    intro k f ha hk hf
    rcases hresize k f ha hk hf with ⟨t, _, hok, _⟩ | hbad
    · exact .inl ⟨t, hok⟩
    · exact .inr hbad

end Defined

end TcpServer
