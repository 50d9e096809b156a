import Nightfall.RoundRobin.Accounting

/-! The inactivity clock against the chain it watches: L1 blocks pass, Nightfall accepts L2 blocks,
and `skip_inactive_proposer` compares the two. -/

namespace Nightfall.RoundRobin

open Contract Revert Runs Totals Nat

variable (config : Config)

/-- The contract on its chain. The last two fields are the observer's: when the last L2 block
was accepted and when the last skip succeeded, in both cases the bootstrap if there was none. -/
structure World where
  ring : State
  layer2BlockNumber : ℤ
  block : ℕ
  lastAcceptedAt : ℕ
  lastSkipAt : ℕ

/-- A call that can be mined next: block numbers do not decrease, it sees Nightfall's own
count of L2 blocks, and the balance that it pays into remains a machine word. -/
abbrev World.Admits (world : World) (call : Call) : Prop :=
  world.block ≤ call.block ∧ call.block < 2 ^ 256 ∧
    call.layer2BlockNumber = world.layer2BlockNumber ∧ world.ring.balance + call.value < 2 ^ 256

inductive Move where
  | acceptBlock (block : ℕ)
  | call (call : Call) (action : Action)

def advance (world : World) : Move → Except String World
  | .acceptBlock block => do
      require (world.block ≤ block ∧ block < 2 ^ 256) "no such L1 block"
      require (world.layer2BlockNumber + 1 < 2 ^ 255) "panic: arithmetic overflow"
      return { world with
        layer2BlockNumber := world.layer2BlockNumber + 1
        block := block
        lastAcceptedAt := block }
  | .call call action => do
      require (world.Admits call) "no such call"
      let ring ← step config world.ring (call, action)
      return { world with
        ring := ring
        block := call.block
        lastSkipAt := if action = .skipInactiveProposer then call.block else world.lastSkipAt }

def World.booted (call : Call) (block : ℕ) (address : Address) (url : String) : World where
  ring := bootstrapped config call block address url
  layer2BlockNumber := call.layer2BlockNumber
  block := call.block
  lastAcceptedAt := call.block
  lastSkipAt := call.block

section

variable {config} {world next : World} {call : Call}

theorem advance_acceptBlock_eq_ok {block : ℕ} : advance config world (.acceptBlock block) = .ok next ↔
      (world.block ≤ block ∧ block < 2 ^ 256) ∧ world.layer2BlockNumber + 1 < 2 ^ 255 ∧
        next = { world with
          layer2BlockNumber := world.layer2BlockNumber + 1
          block := block
          lastAcceptedAt := block } := by
  simp only [advance, bind_eq_ok, require_eq_ok, pure_eq_ok]
  constructor
  · rintro ⟨_, mined, _, fits, rfl⟩
    exact ⟨mined, fits, rfl⟩
  · rintro ⟨mined, fits, rfl⟩
    exact ⟨(), mined, (), fits, rfl⟩

theorem advance_call_eq_ok {action : Action} : advance config world (.call call action) = .ok next ↔
      world.Admits call ∧ ∃ ring, step config world.ring (call, action) = .ok ring ∧
        next = { world with
          ring := ring
          block := call.block
          lastSkipAt := if action = .skipInactiveProposer then call.block
            else world.lastSkipAt } := by
  simp only [advance, bind_eq_ok, require_eq_ok, pure_eq_ok]
  constructor
  · rintro ⟨_, admitted, ring, accepted, rfl⟩
    exact ⟨admitted, ring, accepted, rfl⟩
  · rintro ⟨admitted, ring, accepted, rfl⟩
    exact ⟨(), admitted, ring, accepted, rfl⟩

end

structure SameClock (before after : State) : Prop where
  proposedAt : after.lastProposedAt = before.lastProposedAt
  seen : after.lastSeenL2Block = before.lastSeenL2Block
  balance : after.balance = before.balance

variable {config} {call : Call}

section

variable {state next : State}

theorem removeProposer_sameClock {address : Address}
    (accepted : removeProposer config call state address = .ok next) : SameClock state next := by
  obtain ⟨_, _, ⟨_, _, _, _, rfl⟩ | ⟨_, _, rfl⟩⟩ := removeProposer_eq_ok.mp accepted <;> exact ⟨rfl, rfl, rfl⟩

theorem lazyPenalizeProposer_sameClock {address : Address}
    (accepted : lazyPenalizeProposer config call state address = .ok next) : SameClock state next := by
  rcases lazyPenalizeProposer_eq_ok.mp accepted with ⟨_, removal⟩ | ⟨_, _, rfl⟩
  · exact removeProposer_sameClock removal
  · exact ⟨rfl, rfl, rfl⟩

theorem rotateProposer_sameClock (accepted : rotateProposer config call state = .ok next) : SameClock state next := by
  obtain ⟨_, _, charged, penalty, address, _, rfl⟩ := rotateProposer_eq_ok.mp accepted
  rcases penalizeIdle_eq_ok.mp penalty with ⟨_, rfl⟩ | ⟨_, penalty⟩
  · exact ⟨rfl, rfl, rfl⟩
  · have kept := lazyPenalizeProposer_sameClock penalty
    exact ⟨kept.proposedAt, kept.seen, kept.balance⟩

theorem step_clock {action : Action} (accepted : step config state (call, action) = .ok next) :
    (action ≠ .skipInactiveProposer → next.lastProposedAt = state.lastProposedAt ∧
      next.lastSeenL2Block = state.lastSeenL2Block) ∧
    (action = .skipInactiveProposer → next.lastProposedAt = call.block ∧
      next.lastSeenL2Block = call.layer2BlockNumber) ∧ next.balance ≤ state.balance + call.value := by
  cases action with
  | addProposer proposerUrl =>
    obtain ⟨_, rfl⟩ := addProposer_eq_ok.mp accepted
    exact ⟨fun _ => ⟨rfl, rfl⟩, fun skips => (by cases skips), le_refl _⟩
  | removeProposer =>
    obtain ⟨proposedAt, seen, balance⟩ := removeProposer_sameClock (unpaid accepted)
    exact ⟨fun _ => ⟨proposedAt, seen⟩, fun skips => (by cases skips), by omega⟩
  | rotateProposer =>
    obtain ⟨proposedAt, seen, balance⟩ := rotateProposer_sameClock (unpaid accepted)
    exact ⟨fun _ => ⟨proposedAt, seen⟩, fun skips => (by cases skips), by omega⟩
  | skipInactiveProposer =>
    obtain ⟨_, block, seen, charged, penalty, rfl⟩ := skipInactiveProposer_cases (unpaid accepted)
    have kept : charged.balance = state.balance := (lazyPenalizeProposer_sameClock penalty).balance
    have skipped : (charged.skipped call state.current.addr).balance = charged.balance := by
      simp only [State.skipped]
      split <;> rfl
    exact ⟨fun other => absurd rfl other, fun _ => ⟨rfl, rfl⟩, by omega⟩
  | withdraw amount =>
    obtain ⟨_, _, _, rfl⟩ := withdraw_eq_ok.mp (unpaid accepted)
    refine ⟨fun _ => ⟨rfl, rfl⟩, fun skips => (by cases skips), ?_⟩
    change state.balance - amount ≤ state.balance + call.value
    omega

end

/-- What the clock knows: it was last set by the last skip, and it lags behind Nightfall
exactly if an L2 block was accepted since. -/
structure Timed (world : World) : Prop where
  wellFormed : ∃ rest, WellFormed world.ring rest
  settled : Settled world.ring
  balanceFits : world.ring.balance < 2 ^ 256
  blockFits : world.block < 2 ^ 256
  clock : world.ring.lastProposedAt = world.lastSkipAt
  skipPast : world.lastSkipAt ≤ world.block
  acceptedPast : world.lastAcceptedAt ≤ world.block
  seen : world.ring.lastSeenL2Block ≤ world.layer2BlockNumber
  upToDate : world.ring.lastSeenL2Block = world.layer2BlockNumber → world.lastAcceptedAt ≤ world.lastSkipAt

theorem timed_booted (block : ℕ) {address : Address} (nonzero : address ≠ 0) (url : String)
    (mined : call.block < 2 ^ 256) (stakeFits : config.stake < 2 ^ 256) :
    Timed (World.booted config call block address url) := by
  have accounts := accounts_bootstrapped config call block nonzero url
  exact ⟨accounts.wellFormed, accounts.settled, stakeFits, mined, rfl, le_refl _,
    le_refl _, Int.le_refl _, fun _ => le_refl _⟩

theorem Timed.advance {world next : World} (timed : Timed world) {move : Move}
    (accepted : advance config world move = .ok next) : Timed next := by
  have seen := timed.seen
  have clock := timed.clock
  have skipPast := timed.skipPast
  have acceptedPast := timed.acceptedPast
  cases move with
  | acceptBlock block =>
    obtain ⟨mined, _, rfl⟩ := advance_acceptBlock_eq_ok.mp accepted
    refine ⟨timed.wellFormed, timed.settled, timed.balanceFits, mined.2, clock, ?_, le_refl _, ?_, ?_⟩
    · exact le_trans skipPast mined.1
    · change world.ring.lastSeenL2Block ≤ world.layer2BlockNumber + 1
      omega
    · intro same
      change world.ring.lastSeenL2Block = world.layer2BlockNumber + 1 at same
      omega
  | call call action =>
    obtain ⟨⟨later, mined, same, fits⟩, ring, stepped, rfl⟩ := advance_call_eq_ok.mp accepted
    obtain ⟨rest, wellFormed⟩ := timed.wellFormed
    have settled := (timed.settled.step config wellFormed stepped).1
    obtain ⟨kept, reset, balance⟩ := step_clock stepped
    have balanceFits : ring.balance < 2 ^ 256 := lt_of_le_of_lt balance fits
    by_cases skips : action = .skipInactiveProposer
    · obtain ⟨proposedAt, sawL2⟩ := reset skips
      simp only [skips, if_true]
      refine ⟨wellFormed.step stepped, settled, balanceFits, mined, proposedAt,
        le_refl _, le_trans acceptedPast later, ?_, fun _ => le_trans acceptedPast later⟩
      rw [sawL2, same]
    · obtain ⟨proposedAt, sawL2⟩ := kept skips
      simp only [skips, if_false]
      refine ⟨wellFormed.step stepped, settled, balanceFits, mined, ?_,
        le_trans skipPast later, le_trans acceptedPast later, ?_, ?_⟩
      · exact proposedAt.trans clock
      · rw [sawL2]
        exact seen
      · intro upToDate
        rw [sawL2] at upToDate
        exact timed.upToDate upToDate

theorem lazyPenalize_current {state : State} {rest : List Address} (wellFormed : WellFormed state rest)
    (settled : Settled state) (several : 1 < state.proposerCount) (fits : state.balance < 2 ^ 256) :
    ∃ next, lazyPenalizeProposer config call state state.current.addr = .ok next := by
  have members := wellFormed.members
  have named := members.named state.current.addr List.mem_cons_self
  have nonzero : state.current.addr ≠ 0 := fun zero => members.nonzero (zero ▸ List.mem_cons_self)
  have staked := settled.staked
  have share := le_total Proposer.stake state.proposers state.current.addr
  have owed := le_total id state.pendingWithdraws state.current.addr
  have balanced := settled.balanced
  by_cases short : (state.proposers state.current.addr).stake < config.lazyPenalty
  · have charge := exitCharge_le config state state.current.addr
    have remaining : ((state.exited config call state.current.addr).proposers
        state.current.addr).stake = (state.proposers state.current.addr).stake -
          state.exitCharge config state.current.addr := by
      simp [State.exited, State.setStake]
    have removable : Removable (state.exited config call state.current.addr)
        state.current.addr := by
      refine ⟨?_, ?_, ?_⟩
      · rw [remaining]
        change _ ≤ state.escrow - state.exitCharge config state.current.addr
        omega
      · rw [remaining]
        change state.pendingWithdraws state.current.addr + _ < 2 ^ 256
        simp only [id_eq] at owed
        omega
      · change 1 ≤ state.proposerCount
        omega
    exact ⟨_, lazyPenalizeProposer_eq_ok.mpr (.inl ⟨short, removeProposer_eq_ok.mpr
      ⟨named, nonzero, .inl ⟨rfl, several, by omega, removable, rfl⟩⟩⟩)⟩
  · exact ⟨_, lazyPenalizeProposer_eq_ok.mpr (.inr ⟨by omega, by omega, rfl⟩)⟩

theorem skip_accepted {world next : World}
    (accepted : advance config world (.call call .skipInactiveProposer) = .ok next) :
    1 < world.ring.proposerCount ∧ world.layer2BlockNumber ≤ world.ring.lastSeenL2Block ∧
      world.ring.lastProposedAt + config.graceBlocks < 2 ^ 256 ∧
      world.ring.lastProposedAt + config.graceBlocks ≤ call.block := by
  have grace := config.grace
  obtain ⟨admitted, ring, stepped, _⟩ := advance_call_eq_ok.mp accepted
  obtain ⟨several, fits, due, _⟩ := skipInactiveProposer_eq_ok.mp (unpaid stepped)
  simp only [refreshInactivityState, admitted.2.2.1] at fits due
  split at due
  · change call.block + config.graceBlocks ≤ call.block at due
    omega
  · rename_i nothingNew
    rw [if_neg nothingNew] at fits
    exact ⟨several, by omega, fits, due⟩

theorem skip_succeeds_iff {world : World} (timed : Timed world) (several : 1 < world.ring.proposerCount)
    (admitted : world.Admits call) (free : call.value = 0) :
    (∃ next, advance config world (.call call .skipInactiveProposer) = .ok next) ↔
      world.layer2BlockNumber ≤ world.ring.lastSeenL2Block ∧
        world.ring.lastProposedAt + config.graceBlocks ≤ call.block := by
  constructor
  · rintro ⟨next, accepted⟩
    obtain ⟨_, nothingNew, _, due⟩ := skip_accepted accepted
    exact ⟨nothingNew, due⟩
  · rintro ⟨nothingNew, due⟩
    obtain ⟨rest, wellFormed⟩ := timed.wellFormed
    have refreshed : refreshInactivityState call world.ring = world.ring := by
      rw [refreshInactivityState, admitted.2.2.1, if_neg (by omega)]
    obtain ⟨charged, penalty⟩ := lazyPenalize_current wellFormed timed.settled several timed.balanceFits
    have skipped : RoundRobin.skipInactiveProposer config call world.ring = .ok _ := skipInactiveProposer_eq_ok.mpr
      ⟨several, by rw [refreshed]; omega, by rw [refreshed]; exact due, charged,
        by rw [refreshed]; exact penalty, rfl⟩
    have stepped : step config world.ring (call, .skipInactiveProposer) = .ok _ :=
      (bind_eq_ok _ _ _).mpr ⟨(), (require_eq_ok _ _ _).mpr free, skipped⟩
    exact ⟨_, advance_call_eq_ok.mpr ⟨admitted, _, stepped, rfl⟩⟩

theorem Timed.exists_call {world : World} (timed : Timed world) {block : ℕ} (later : world.block ≤ block)
    (mined : block < 2 ^ 256) : ∃ call : Call, world.Admits call ∧ call.value = 0 ∧ call.block = block :=
  ⟨ownerCall 0 block world.layer2BlockNumber, ⟨later, mined, rfl, timed.balanceFits⟩, rfl, rfl⟩

variable (config) in
def SkipRule (world : World) : Prop :=
  ∀ call : Call, world.Admits call → call.value = 0 → (world.lastAcceptedAt + config.graceBlocks ≤ call.block →
      ∃ next, advance config world (.call call .skipInactiveProposer) = .ok next) ∧
    (call.block < world.lastAcceptedAt + config.graceBlocks →
      ¬ ∃ next, advance config world (.call call .skipInactiveProposer) = .ok next)

section

variable {deployer owner : Call} {config : Config} {start booted : State}
  {stake lazyPenalty exitPenalty coolingBlocks rotationBlocks graceBlocks : ℕ}
  {address : Address} {url : String}
  (deployed : initializeContract deployer stake lazyPenalty exitPenalty coolingBlocks rotationBlocks
    graceBlocks = .ok (config, start))
  (nonzero : address ≠ 0) (seeded : bootstrapDefaultProposer config owner start address url = .ok booted)
include deployed nonzero seeded

theorem run_timed (mined : owner.block < 2 ^ 256) (moves : List Move) :
    Timed (run (advance config) ⟨booted, owner.layer2BlockNumber, owner.block, owner.block, owner.block⟩ moves) := by
  rw [initializeContract_eq_ok deployed] at seeded
  have stakeFits : config.stake < 2 ^ 256 := by
    simp only [bootstrapDefaultProposer, bind_eq_ok, checkedSum_eq_ok] at seeded
    obtain ⟨_, _, _, _, _, _, _, _, _, ⟨fits, _⟩, _⟩ := seeded
    exact lt_of_le_of_lt (le_add_left _ _) fits
  rw [bootstrapDefaultProposer_eq_ok seeded]
  exact invariant_run (advance config) (fun _ world => Timed world) moves [] _
    (timed_booted deployer.block nonzero url mined stakeFits)
    fun _ _ _ timed accepted => timed.advance accepted

/-- In a ring of two or more in which no skip was made after the last accepted L2 block, the
rule holds just when that L2 block is not newer than the clock; or no block number is late
enough for it to apply. -/
theorem skip_rule_iff (mined : owner.block < 2 ^ 256) (moves : List Move) :
    let world := run (advance config) ⟨booted, owner.layer2BlockNumber, owner.block, owner.block, owner.block⟩ moves
    1 < world.ring.proposerCount → world.lastSkipAt ≤ world.lastAcceptedAt → (SkipRule config world ↔
        world.layer2BlockNumber = world.ring.lastSeenL2Block ∨
          2 ^ 256 ≤ world.lastAcceptedAt + config.graceBlocks) := by
  intro world several noSkipSince
  have timed : Timed world := run_timed deployed nonzero seeded mined moves
  have seen := timed.seen
  have clock := timed.clock
  constructor
  · intro rule
    by_contra neither
    have blockFits := timed.blockFits
    obtain ⟨call, admitted, free, isAt⟩ := timed.exists_call
      (Nat.le_max_left world.block (world.lastAcceptedAt + config.graceBlocks))
      (Nat.max_lt.mpr ⟨blockFits, by omega⟩)
    have skips := (rule call admitted free).1 (isAt ▸ Nat.le_max_right _ _)
    have nothingNew := ((skip_succeeds_iff timed several admitted free).mp skips).1
    omega
  · intro either call admitted free
    rw [skip_succeeds_iff timed several admitted free]
    rcases either with upToDate | never
    · have accepted := timed.upToDate upToDate.symm
      have same : world.ring.lastProposedAt = world.lastAcceptedAt := by omega
      rw [same]
      exact ⟨fun late => ⟨by omega, late⟩, fun early both => by omega⟩
    · have blockFits := admitted.2.1
      refine ⟨fun late => absurd late (by omega), fun _ both => ?_⟩
      by_cases upToDate : world.ring.lastSeenL2Block = world.layer2BlockNumber
      · have accepted := timed.upToDate upToDate
        omega
      · omega

end

def ringWorld : World := ⟨ringStart, 0, 0, 0, 0⟩

def oneBlockAccepted : List Move :=
  [.call (guestCall 10 1 0) (.addProposer "guest"), .acceptBlock 2]

theorem skip_rule_iff_sample : 1 < (run (advance ringConfig) ringWorld oneBlockAccepted).ring.proposerCount ∧
      (SkipRule ringConfig (run (advance ringConfig) ringWorld oneBlockAccepted) ↔
        (run (advance ringConfig) ringWorld oneBlockAccepted).layer2BlockNumber =
            (run (advance ringConfig) ringWorld oneBlockAccepted).ring.lastSeenL2Block ∨
          2 ^ 256 ≤ (run (advance ringConfig) ringWorld oneBlockAccepted).lastAcceptedAt +
            ringConfig.graceBlocks) := by
  have several : 1 < (run (advance ringConfig) ringWorld oneBlockAccepted).ring.proposerCount := by
    decide +kernel
  exact ⟨several, skip_rule_iff ringConfig_deployed ownerAddress_ne_zero ringStart_seeded
    (by decide) oneBlockAccepted several (by decide +kernel)⟩

/-- However long nothing happens after that block, nobody can skip the proposer. -/
theorem skip_blocked_by_old_block : 1 < (run (advance ringConfig) ringWorld oneBlockAccepted).ring.proposerCount ∧
      (run (advance ringConfig) ringWorld oneBlockAccepted).lastSkipAt ≤
        (run (advance ringConfig) ringWorld oneBlockAccepted).lastAcceptedAt ∧
      ¬ SkipRule ringConfig (run (advance ringConfig) ringWorld oneBlockAccepted) := by
  refine ⟨by decide +kernel, by decide +kernel, ?_⟩
  intro rule
  obtain ⟨next, skipped⟩ := (rule (guestCall 0 1000 1) (by decide +kernel) rfl).1 (by decide +kernel)
  cases skipped

end Nightfall.RoundRobin
