import Nightfall.RoundRobin.Membership

/-! The contract between `initialize` and `bootstrapDefaultProposer`. The ring has no
member yet, but `add_proposer` is open: it links the newcomer to the entry of the
zero address, and the bootstrap is refused from then on. -/

namespace Nightfall.RoundRobin

open Contract Revert Runs Function

variable (config : Config)

def readsNightfall (ring : State) (call : Call) : Action → Bool
  | .rotateProposer => true
  | .skipInactiveProposer => true
  | .removeProposer => decide (call.sender = ring.current.addr)
  | .addProposer _ => false
  | .withdraw _ => false

def wiredStep (wired : Bool) (ring : State) (call : Call) (action : Action) : Except String State := do
  require (wired = true ∨ readsNightfall ring call action = false) "call to non-contract"
  step config ring (call, action)

structure Early where
  ring : State
  wired : Bool

inductive EarlyMove where
  | call (call : Call) (action : Action)
  | setNightfall (sender : Address) (isContract : Bool)

def earlyStep (early : Early) : EarlyMove → Except String Early
  | .call call action => do
      let ring ← wiredStep config early.wired early.ring call action
      return { early with ring := ring }
  | .setNightfall sender isContract => do
      require (sender = config.owner) "Certified: caller is not the owner"
      return { early with wired := isContract }

def Early.initial (block : ℕ) : Early := ⟨initialState block, false⟩

def Leaderless (ring : State) : Prop := 0 < ring.proposerCount ∧ ring.current.addr = 0

def BootstrapKept (block : ℕ) (moves : List EarlyMove) : Prop :=
  (∀ call address url, call.sender = config.owner → call.value = config.stake →
    (run (earlyStep config) (.initial block) moves).ring.proposerUrls url = false →
    ∃ next, bootstrapDefaultProposer config call (run (earlyStep config) (.initial block) moves).ring
      address url = .ok next) ∧
  ∀ event ∈ trace (earlyStep config) (.initial block) moves, ¬ Leaderless event.after.ring

structure Untouched (ring : State) : Prop where
  entries : ∀ a, ring.proposers a = Proposer.empty
  current : ring.current = Proposer.empty
  count : ring.proposerCount = 0
  escrow : ring.escrow = 0

theorem untouched_initial (block : ℕ) : Untouched (initialState block) :=
  ⟨fun _ => rfl, rfl, rfl, rfl⟩

section

variable {config : Config} {call : Call} {ring next : State} (proposers : Address → Proposer)

theorem update_addr {key : Address} {entry : Proposer} (same : entry.addr = (proposers key).addr) (a : Address) :
    (update proposers key entry a).addr = (proposers a).addr := by
  by_cases here : a = key
  · rw [here, update_self, same]
  · rw [update_of_ne here]

theorem joinedProposers_addr (proposerUrl : String) (a : Address) :
    (ring.joinedProposers config call proposerUrl a).addr =
      if a = call.sender then call.sender else (ring.proposers a).addr := by
  have newcomer : (update ring.proposers call.sender ⟨config.stake, call.sender,
      proposerUrl, ring.current.addr, ring.current.previousAddr⟩ a).addr =
        if a = call.sender then call.sender else (ring.proposers a).addr := by
    by_cases here : a = call.sender
    · rw [here, update_self, if_pos rfl]
    · rw [update_of_ne here, if_neg here]
  simp only [State.joinedProposers]
  split
  · rw [update_addr, update_addr, update_addr, newcomer] <;> rfl
  · rw [update_addr, update_addr, newcomer] <;> rfl

variable (untouched : Untouched ring)
include untouched

theorem Untouched.joined_leaderless (proposerUrl : String) : Leaderless (ring.joined config call proposerUrl) := by
  refine ⟨Nat.succ_pos _, ?_⟩
  have nobody : ring.current.addr = 0 := by rw [untouched.current]; rfl
  change (ring.joinedProposers config call proposerUrl ring.current.addr).addr = 0
  rw [joinedProposers_addr, nobody, if_neg call.isAccount.symm, untouched.entries]
  rfl

theorem Untouched.no_removal (address : Address) : removeProposer config call ring address ≠ .ok next := by
  intro accepted
  obtain ⟨named, nonzero, _⟩ := removeProposer_eq_ok.mp accepted
  rw [untouched.entries] at named
  exact nonzero named.symm

theorem Untouched.no_rotation : rotateProposer config call ring ≠ .ok next := by
  intro accepted
  obtain ⟨_, _, charged, penalty, address, found, _⟩ := rotateProposer_eq_ok.mp accepted
  have positive : 0 < config.lazyPenalty := Nat.zero_lt_of_lt config.exitBelowLazy
  rcases penalizeIdle_eq_ok.mp penalty with ⟨_, rfl⟩ | ⟨_, penalty⟩
  · rw [untouched.count] at found
    cases found
  · obtain ⟨_, removal⟩ | ⟨enough, _⟩ := lazyPenalizeProposer_eq_ok.mp penalty
    · exact untouched.no_removal _ removal
    · rw [untouched.entries] at enough
      exact absurd enough (Nat.not_le.mpr positive)

theorem Untouched.step {action : Action} (accepted : step config ring (call, action) = .ok next) :
    (∃ proposerUrl, action = .addProposer proposerUrl ∧ Leaderless next) ∨ Untouched next := by
  cases action with
  | addProposer proposerUrl =>
    obtain ⟨_, rfl⟩ := addProposer_eq_ok.mp accepted
    exact Or.inl ⟨proposerUrl, rfl, untouched.joined_leaderless proposerUrl⟩
  | removeProposer => exact absurd (unpaid accepted) (untouched.no_removal _)
  | rotateProposer => exact absurd (unpaid accepted) untouched.no_rotation
  | skipInactiveProposer =>
    have several := (skipInactiveProposer_cases (unpaid accepted)).1
    rw [untouched.count] at several
    omega
  | withdraw amount =>
    obtain ⟨_, _, _, rfl⟩ := withdraw_eq_ok.mp (unpaid accepted)
    exact Or.inr ⟨untouched.entries, untouched.current, untouched.count, untouched.escrow⟩

theorem Untouched.bootstrap (fits : config.stake < 2 ^ 256) (isOwner : call.sender = config.owner)
    (paid : call.value = config.stake) (address : Address) {url : String} (unused : ring.proposerUrls url = false) :
    ∃ next, bootstrapDefaultProposer config call ring address url = .ok next := by
  simp only [bootstrapDefaultProposer, bind_eq_ok, require_eq_ok, checkedSum_eq_ok, pure_eq_ok]
  refine ⟨_, (), isOwner, (), untouched.count, (), paid, (), unused, _, ⟨?_, rfl⟩, rfl⟩
  rw [untouched.escrow, Nat.zero_add]
  exact fits

end

def EarlyMove.Joins (move : EarlyMove) : Prop := ∃ call url, move = .call call (.addProposer url)

theorem Untouched.earlyStep {early next : Early} {move : EarlyMove}
    (untouched : Untouched early.ring) (accepted : earlyStep config early move = .ok next) :
    (move.Joins ∧ Leaderless next.ring) ∨ (¬ move.Joins ∧ Untouched next.ring) := by
  cases move with
  | call call action =>
    simp only [RoundRobin.earlyStep, wiredStep, bind_eq_ok, pure_eq_ok] at accepted
    obtain ⟨ring, ⟨_, _, stepped⟩, rfl⟩ := accepted
    obtain ⟨url, rfl, leaderless⟩ | still := untouched.step stepped
    · exact Or.inl ⟨⟨call, url, rfl⟩, leaderless⟩
    · refine Or.inr ⟨?_, still⟩
      rintro ⟨other, url, same⟩
      obtain ⟨rfl, rfl⟩ := EarlyMove.call.inj same
      obtain ⟨_, rfl⟩ := addProposer_eq_ok.mp stepped
      exact absurd still.count (Nat.succ_ne_zero _)
  | setNightfall sender isContract =>
    simp only [RoundRobin.earlyStep, bind_eq_ok, pure_eq_ok] at accepted
    obtain ⟨_, _, rfl⟩ := accepted
    refine Or.inr ⟨?_, untouched⟩
    rintro ⟨call, url, same⟩
    cases same

/-- The bootstrap is safe from a run of early calls exactly when none of them registers a
proposer. -/
theorem bootstrap_kept_iff (fits : config.stake < 2 ^ 256) (block : ℕ) (moves : List EarlyMove) :
    BootstrapKept config block moves ↔
      ∀ event ∈ trace (earlyStep config) (.initial block) moves, ¬ event.action.Joins := by
  constructor
  · rintro ⟨_, led⟩
    have quiet := invariant_run (earlyStep config)
      (fun past early => Untouched early.ring ∧ ∀ event ∈ past, ¬ event.action.Joins) moves []
      (.initial block) ⟨untouched_initial block, fun _ member => by cases member⟩ ?_
    · simpa using quiet.2
    · rintro past event member ⟨untouched, before⟩ accepted
      obtain ⟨_, leaderless⟩ | ⟨stays, still⟩ := untouched.earlyStep config accepted
      · exact absurd leaderless (led event member)
      · refine ⟨still, fun other listed => ?_⟩
        obtain earlier | rfl := (List.mem_append.mp listed).imp_right List.mem_singleton.mp
        · exact before other earlier
        · exact stays
  · intro quiet
    have kept := invariant_run (earlyStep config)
      (fun past early => Untouched early.ring ∧ ∀ event ∈ past, ¬ Leaderless event.after.ring) moves
      [] (.initial block) ⟨untouched_initial block, fun _ member => by cases member⟩ ?_
    · refine ⟨?_, by simpa using kept.2⟩
      intro call address url isOwner paid unused
      exact kept.1.bootstrap fits isOwner paid address unused
    · rintro past event member ⟨untouched, before⟩ accepted
      obtain ⟨joins, _⟩ | ⟨_, still⟩ := untouched.earlyStep config accepted
      · exact absurd joins (quiet event member)
      · refine ⟨still, fun other listed => ?_⟩
        obtain earlier | rfl := (List.mem_append.mp listed).imp_right List.mem_singleton.mp
        · exact before other earlier
        · rintro ⟨some, _⟩
          rw [still.count] at some
          omega

theorem bootstrap_kept_iff_sample :
    ¬ BootstrapKept ringConfig 0 [.call (guestCall 10 1 0) (.addProposer "guest")] := by
  intro kept
  refine (bootstrap_kept_iff ringConfig (by decide) 0 _).mp kept
    ⟨.initial 0, .call (guestCall 10 1 0) (.addProposer "guest"), _⟩ List.mem_cons_self ?_
  exact ⟨guestCall 10 1 0, "guest", rfl⟩

/-- One registration before the bootstrap: a proposer is counted, nobody is current, and the
owner's bootstrap reverts. -/
theorem early_registration_blocks_bootstrap :
    let early := run (earlyStep ringConfig) (.initial 0) [.call (guestCall 10 1 0) (.addProposer "guest")]
    early.ring.proposerCount = 1 ∧ early.ring.current.addr = 0 ∧ early.ring.proposerUrls "owner" = false ∧
      bootstrapDefaultProposer ringConfig (ownerCall 10 2 0) early.ring ownerAddress "owner" =
        .error "Already bootstrapped" := by
  refine ⟨rfl, rfl, rfl, rfl⟩

end Nightfall.RoundRobin
