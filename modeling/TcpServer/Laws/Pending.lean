import TcpServer.Laws.Counter
import TcpServer.Laws.Room

/-!
# Pending operations of small runs

A run is small when its session ids are below 2^30, its callbacks return, and fewer than 2^64
operations of a session are ever pending. In a small run of a server with at least one and less than
2^31 users no step is undefined, every count is the number of pending operations, and no wake-up is
lost (`pending_counter`).
-/

namespace TcpServer

open Interleaving Transition

/-- A session id below 2^30, and a callback that returns. -/
def SmallCall : Frame → Prop
  | .cart c _ => c.sessionId.toNat < 2 ^ 30 ∧ c.throws = false
  | .order c _ => c.sessionId.toNat < 2 ^ 30

instance : DecidablePred SmallCall
  | .cart c _ => inferInstanceAs (Decidable (_ ∧ c.throws = false))
  | .order c _ => inferInstanceAs (Decidable (c.sessionId.toNat < 2 ^ 30))

/-- The discipline of small runs. -/
abbrev SmallRun : ServerState → Action Frame → Prop := Rule (fun _ => SmallCall) RoomToCount

/-- Between the increment and the end of the task. -/
def CartPc.running : CartPc → Bool
  | .counted | .posting | .queued | .started | .locked | .admitted | .moved | .applied _
  | .settling | .decrementing | .testing | .opening | .leaving => true
  | _ => false

def CartPc.isEnded : CartPc → Bool
  | .ended => true
  | _ => false

/-- The count of each session is the number of its operations that have incremented it and not yet
decremented it, and its gate is open when none is between its increment and the end of its task but
one has ended. -/
structure CounterKept (s : ServerState) : Prop where
  defined : s.memory.undefined = false
  count : ∀ σ, (s.memory.table.count σ).toNat = s.carts CartPc.pending σ
  wakeUp : ∀ σ, s.carts CartPc.running σ = 0 → s.carts CartPc.isEnded σ ≠ 0 →
    s.memory.table.flag σ = true

/-- What small runs keep. -/
structure SmallState (s : ServerState) : Prop where
  calls : ∀ (j : ℕ) (f : Frame), s.agents[j]? = some f → SmallCall f
  table : ∃ n, s.memory.table.Sized n ∧ 0 < n ∧ n < 2 ^ 31
  placed : Placed s
  defined : s.memory.undefined = false

theorem carts_le {s : ServerState} {p q : CartPc → Bool} (h : ∀ pc, p pc = true → q pc = true)
    (σ : SessionId) : s.carts p σ ≤ s.carts q σ := by
  refine List.countP_mono_left fun f _ hf => ?_
  cases f with
  | order c pc => cases hf
  | cart c pc =>
    simp only [Frame.cartAt, Bool.and_eq_true] at hf ⊢
    exact ⟨hf.1, h pc hf.2⟩

/-- Nothing is abandoned where every callback returns. -/
theorem SmallState.isAbandoned {cfg : Config} {s : ServerState} (inv : SmallState s)
    (h : Reachable (serverMachine cfg) SmallRun s) (σ : SessionId) :
    s.carts CartPc.isAbandoned σ = 0 := by
  refine carts_isAbandoned_eq_zero (fun j c hj => ?_) σ
  cases (inv.calls j _ hj).2.symm.trans (throws_of_abandoned h hj)

/-- A state of a small run keeps its counters. -/
theorem SmallState.counterKept {cfg : Config} {s : ServerState} (inv : SmallState s)
    (h : Reachable (serverMachine cfg) SmallRun s) : CounterKept s where
  defined := inv.defined
  count σ := (countExact h).pending_eq (pendingBound h σ)
  wakeUp σ hrunning hended := by
    by_contra hshut
    have hpast : s.carts CartPc.pastIncrement σ ≠ 0 := by
      have := carts_le (s := s) (p := CartPc.isEnded) (q := CartPc.pastIncrement)
        (fun pc h => by cases pc <;> first | rfl | cases h) σ
      omega
    have hflight := awake h σ (Bool.eq_false_iff.mpr hshut) (inv.isAbandoned h σ) hpast
    have := carts_le (s := s) (p := CartPc.inFlight) (q := CartPc.running)
      (fun pc h => by cases pc <;> first | rfl | cases h) σ
    omega

/-! ## The steps of a small run -/

section Step

variable {cfg : Config} {s s' : ServerState} {a : Action Frame}

/-- Every step keeps the calls small. -/
theorem smallCalls_step (calls : ∀ (j : ℕ) (f : Frame), s.agents[j]? = some f → SmallCall f)
    (starts : ∀ f, a = .spawn f → SmallCall f) (h : (server cfg).step s a = some s') :
    ∀ (j : ℕ) (f : Frame), s'.agents[j]? = some f → SmallCall f := by
  intro j f hj
  cases step_cases h with
  | callCart c =>
    rcases getElem?_spawn_cases hj with hj | ⟨_, rfl⟩
    · exact calls j f hj
    · exact starts _ rfl
  | callOrder c =>
    rcases getElem?_spawn_cases hj with hj | ⟨_, rfl⟩
    · exact calls j f hj
    · exact starts _ rfl
  | cart hk _ =>
    have own := calls _ _ hk
    rcases getElem?_set_cases hj with ⟨_, rfl⟩ | ⟨_, hj⟩
    · exact own
    · exact calls j f hj
  | order hk _ =>
    have own := calls _ _ hk
    rcases getElem?_set_cases hj with ⟨_, rfl⟩ | ⟨_, hj⟩
    · exact own
    · exact calls j f hj
  | undefined _ _ => exact calls j f hj

theorem SmallCall.sessionId {f : Frame} (h : SmallCall f) : f.sessionId.toNat < 2 ^ 30 := by
  cases f with
  | cart c pc => exact h.1
  | order c pc => exact h

/-- Every step keeps the vectors small. -/
theorem smallTable_step (calls : ∀ (j : ℕ) (f : Frame), s.agents[j]? = some f → SmallCall f)
    (table : ∃ n, s.memory.table.Sized n ∧ 0 < n ∧ n < 2 ^ 31)
    (h : (server cfg).step s a = some s') :
    ∃ n, s'.memory.table.Sized n ∧ 0 < n ∧ n < 2 ^ 31 := by
  obtain ⟨n, hn, hpos, h31⟩ := table
  have resized : ∀ {k : ℕ} {f : Frame} {t : Table}, s.agents[k]? = some f →
      s.memory.table.checkSessionIdSize cfg.alloc f.sessionId = .ok t →
      ∃ n, t.Sized n ∧ 0 < n ∧ n < 2 ^ 31 := by
    intro k f t hk ht
    rcases Table.checkSessionIdSize_small cfg.alloc hn hpos h31 (calls k f hk).sessionId with
      hbad | ⟨t', m, hok, hm, hlt, hm31⟩
    · cases hbad.symm.trans ht
    · obtain rfl := Except.ok.inj (hok.symm.trans ht)
      exact ⟨m, hm, by omega, hm31⟩
  cases step_cases h with
  | callCart c => exact ⟨n, hn, hpos, h31⟩
  | callOrder c => exact ⟨n, hn, hpos, h31⟩
  | undefined _ _ => exact ⟨n, hn, hpos, h31⟩
  | cart hk hstep =>
    cases hstep with
    | resize ht => exact resized hk ht
    | increment ht => exact ⟨n, (Table.updateCount_ok hn ht).1, hpos, h31⟩
    | decrement ht => exact ⟨n, (Table.updateCount_ok hn ht).1, hpos, h31⟩
    | raise ht => exact ⟨n, (Table.raiseFlag_ok hn ht).1, hpos, h31⟩
    | _ => exact ⟨n, hn, hpos, h31⟩
  | order hk hstep =>
    cases hstep with
    | resize ht => exact resized hk ht
    | _ => exact ⟨n, hn, hpos, h31⟩

/-- **The step lemma** of small calls. -/
theorem SmallState.step_of (inv : SmallState s) (starts : ∀ f, a = .spawn f → SmallCall f)
    (h : (server cfg).step s a = some s') : SmallState s' := by
  obtain ⟨n, hn, hpos, h31⟩ := inv.table
  have room : Placed s' ∧ s'.memory.undefined = false := by
    apply room_step inv.placed inv.defined _ h
    intro k f _ hk _
    rcases Table.checkSessionIdSize_small cfg.alloc hn hpos h31 (inv.calls k f hk).sessionId with
      hbad | ⟨t, m, hok, hm, hlt, _⟩
    · exact .inr hbad
    · exact .inl ⟨t, m, hok, hm, hlt⟩
  exact ⟨smallCalls_step inv.calls starts h, smallTable_step inv.calls inv.table h, room.1, room.2⟩

theorem SmallState.step (inv : SmallState s) (hC : SmallRun s a)
    (h : (server cfg).step s a = some s') : SmallState s' := by
  refine inv.step_of (fun f ha => ?_) h
  subst ha
  exact hC

end Step

/-- **The pending counter and the wake-up.** In every state of a small run of a server with at least
one and less than 2^31 users. -/
theorem pending_counter (cfg : Config) (hpos : 1 ≤ cfg.maxUsers.toNat)
    (h31 : cfg.maxUsers.toNat < 2 ^ 31) {s : ServerState}
    (h : Reachable (serverMachine cfg) SmallRun s) : CounterKept s := by
  have inv : SmallState s := by
    refine reachable_invariant ?_ (fun s₁ a s₂ _ inv hC hs => inv.step hC hs) h
    exact ⟨fun j f hj => (nomatch hj), ⟨_, Table.ofLength_sized _, hpos, h31⟩, Placed.start cfg, rfl⟩
  exact inv.counterKept h

/-- A `Buy` that has ended, and one of a session that did not fit and is about to decrement. -/
theorem pending_counter_diner :
    ∃ s, (serverMachine .diner).runIf SmallRun Config.diner.start
        (.spawn (.cart (burgerFor 1) .called) :: moves 0 17 ++
          .spawn (.cart (burgerFor 9) .called) :: moves 1 12) = some s ∧ CounterKept s := by
  obtain ⟨s, hs⟩ := Option.isSome_iff_exists.mp (show ((serverMachine .diner).runIf SmallRun
    Config.diner.start (.spawn (.cart (burgerFor 1) .called) :: moves 0 17 ++
      .spawn (.cart (burgerFor 9) .called) :: moves 1 12)).isSome = true by decide)
  have reached := (Reachable.init rfl).leads (Machine.runIf_leads _ hs)
  exact ⟨s, hs, pending_counter .diner (by decide) (by decide) reached⟩

end TcpServer
