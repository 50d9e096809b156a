import Nightfall.Library.Totals
import Nightfall.RoundRobin.Membership

/-! The money of the proposer contract. Escrow is the sum of the members' stakes;
what the contract holds beyond it is owed to proposers that left, or was charged
as a penalty. -/

namespace Nightfall.RoundRobin

open Contract Revert Runs Totals Function

variable (config : Config) (state : State) (address : Address)

abbrev Event := Runs.Event State (Call × Action)

structure Settled (state : State) : Prop where
  staked : state.escrow = total Proposer.stake state.proposers
  balanced : state.balance = state.escrow + total id state.pendingWithdraws + state.penalties

def holding (a : Address) : ℕ :=
  state.pendingWithdraws a + (state.proposers a).stake

theorem exitCharge_le : state.exitCharge config address ≤ (state.proposers address).stake := by
  simp only [State.exitCharge]
  split <;> omega

theorem total_setStake (charge : ℕ) (covered : charge ≤ (state.proposers address).stake) :
    total Proposer.stake (state.setStake address ((state.proposers address).stake - charge)) +
      charge = total Proposer.stake state.proposers := by
  have moved := total_update Proposer.stake state.proposers address
    { state.proposers address with stake := (state.proposers address).stake - charge }
  simp only [State.setStake] at moved ⊢
  omega

theorem setStake_stake_le (charge : ℕ) (a : Address) :
    (state.setStake address ((state.proposers address).stake - charge) a).stake ≤ (state.proposers a).stake := by
  simp only [State.setStake, update_apply]
  split
  · rename_i same
    subst same
    exact Nat.sub_le _ _
  · exact Nat.le_refl _

section

variable {config : Config} {call : Call} {state next : State}

theorem Settled.charge (settled : Settled state) {address : Address} {charge : ℕ}
    (covered : charge ≤ (state.proposers address).stake) (escrowed : charge ≤ state.escrow)
    (proposers : next.proposers = state.setStake address ((state.proposers address).stake - charge))
    (escrow : next.escrow = state.escrow - charge) (pending : next.pendingWithdraws = state.pendingWithdraws)
    (penalties : next.penalties = state.penalties + charge) (balance : next.balance = state.balance) :
    Settled next ∧ ∀ a, holding next a ≤ holding state a := by
  have moved := total_setStake state address charge covered
  have staked := settled.staked
  have balanced := settled.balanced
  refine ⟨⟨?_, ?_⟩, ?_⟩
  · rw [proposers, escrow]
    omega
  · rw [escrow, pending, penalties, balance]
    omega
  · intro a
    rw [holding, holding, proposers, pending]
    exact Nat.add_le_add_left (setStake_stake_le state address charge a) _

theorem Settled.removed (settled : Settled state) {address : Address}
    (removable : Removable state address) : Settled (state.removed address) := by
  have unlinked : total Proposer.stake (unlink state.proposers address) = total Proposer.stake state.proposers :=
    total_congr _ _ _ _ fun a => (unlink_other state.proposers address a).1
  have deleted := total_update Proposer.stake (unlink state.proposers address) address Proposer.empty
  have credited := total_update id state.pendingWithdraws address
    (state.pendingWithdraws address + (state.proposers address).stake)
  have staked := settled.staked
  have balanced := settled.balanced
  have covered := removable.covered
  rw [(unlink_other state.proposers address address).1, unlinked] at deleted
  simp only [Proposer.empty, id_eq] at deleted credited
  refine ⟨?_, ?_⟩
  · simp only [State.removed, Proposer.empty]
    omega
  · simp only [State.removed]
    omega

theorem holding_removed (address a : Address) : holding (state.removed address) a = holding state a := by
  simp only [holding, State.removed, update_apply]
  split
  · rename_i same
    subst same
    simp [Proposer.empty]
  · rw [(unlink_other state.proposers address a).1]

theorem Settled.removeProposer (settled : Settled state) {address : Address}
    (accepted : removeProposer config call state address = .ok next) :
    Settled next ∧ ∀ a, holding next a ≤ holding state a := by
  obtain ⟨_, _, ⟨_, _, escrowed, removable, rfl⟩ | ⟨_, removable, rfl⟩⟩ := removeProposer_eq_ok.mp accepted
  · have left : Settled (state.exited config call address) ∧ ∀ a, _ ≤ holding state a :=
      settled.charge (exitCharge_le config state address) escrowed rfl rfl rfl rfl rfl
    exact ⟨left.1.removed removable, fun a => (holding_removed address a).trans_le (left.2 a)⟩
  · exact ⟨settled.removed removable, fun a => (holding_removed address a).le⟩

theorem Settled.lazyPenalizeProposer (settled : Settled state) {address : Address}
    (accepted : lazyPenalizeProposer config call state address = .ok next) :
    Settled next ∧ ∀ a, holding next a ≤ holding state a := by
  rcases lazyPenalizeProposer_eq_ok.mp accepted with ⟨_, removal⟩ | ⟨covered, escrowed, rfl⟩
  · exact settled.removeProposer removal
  · exact settled.charge covered escrowed rfl rfl rfl rfl rfl

theorem Settled.rotateProposer (settled : Settled state) (accepted : rotateProposer config call state = .ok next) :
    Settled next ∧ ∀ a, holding next a ≤ holding state a := by
  obtain ⟨_, _, charged, penalty, address, _, rfl⟩ := rotateProposer_eq_ok.mp accepted
  have after : Settled charged ∧ ∀ a, holding charged a ≤ holding state a := by
    rcases penalizeIdle_eq_ok.mp penalty with ⟨_, rfl⟩ | ⟨_, penalty⟩
    · exact ⟨settled, fun _ => Nat.le_refl _⟩
    · exact settled.lazyPenalizeProposer penalty
  exact ⟨⟨after.1.staked, after.1.balanced⟩, after.2⟩

theorem Settled.skipInactiveProposer (settled : Settled state)
    (accepted : skipInactiveProposer config call state = .ok next) :
    Settled next ∧ ∀ a, holding next a ≤ holding state a := by
  obtain ⟨_, block, seen, charged, penalty, rfl⟩ := skipInactiveProposer_cases accepted
  have reset : Settled { state with lastProposedAt := block, lastSeenL2Block := seen } :=
    ⟨settled.staked, settled.balanced⟩
  obtain ⟨after, less⟩ := reset.lazyPenalizeProposer penalty
  simp only [State.skipped]
  split <;> exact ⟨⟨after.staked, after.balanced⟩, less⟩

theorem Settled.addProposer {rest : List Address} (wellFormed : WellFormed state rest) (settled : Settled state)
    {proposerUrl : String} (accepted : addProposer config call state proposerUrl = .ok next) :
    Settled next ∧ ∀ a, holding next a = holding state a + if a = call.sender then config.stake else 0 := by
  obtain ⟨may, rfl⟩ := addProposer_eq_ok.mp accepted
  have entries := @WellFormed.joined_entries config _ _ _ wellFormed proposerUrl may.newcomer
  have absent := wellFormed.members.outside call.sender (wellFormed.newcomer_not_mem may.newcomer)
  have unstaked : (state.proposers call.sender).stake = 0 := by rw [absent]; rfl
  have stakes : ∀ a, (state.joinedProposers config call proposerUrl a).stake =
      if a = call.sender then config.stake else (state.proposers a).stake := by
    intro a
    rw [entries]
    split <;> rfl
  have staked := settled.staked
  have balanced := settled.balanced
  have paid := may.paid
  refine ⟨⟨?_, ?_⟩, ?_⟩
  · have joined := total_congr Proposer.stake id (state.joinedProposers config call proposerUrl)
      (update (fun a => (state.proposers a).stake) call.sender config.stake) (by
        intro a
        rw [stakes, id_eq, update_apply])
    have added := total_update id (fun a => (state.proposers a).stake) call.sender config.stake
    have before := total_congr id Proposer.stake (fun a => (state.proposers a).stake) state.proposers fun _ => rfl
    simp only [id_eq] at added
    simp only [State.joined]
    omega
  · simp only [State.joined]
    omega
  · intro a
    simp only [holding, State.joined, stakes]
    split
    · rename_i same
      rw [same, unstaked]
      omega
    · omega

theorem Settled.withdraw (settled : Settled state) {amount : ℕ} (accepted : withdraw call state amount = .ok next) :
    Settled next ∧ ∀ a, holding next a + (if a = call.sender then amount else 0) = holding state a := by
  obtain ⟨owed, covered, _, rfl⟩ := withdraw_eq_ok.mp accepted
  have debited := total_update id state.pendingWithdraws call.sender (state.pendingWithdraws call.sender - amount)
  have balanced := settled.balanced
  simp only [id_eq] at debited
  refine ⟨⟨settled.staked, ?_⟩, ?_⟩
  · change state.balance - amount = state.escrow + total id (update
      state.pendingWithdraws call.sender (state.pendingWithdraws call.sender - amount)) + state.penalties
    omega
  · intro a
    simp only [holding, update_apply]
    split
    · rename_i same
      rw [same]
      omega
    · omega

end

def paidOut (a : Address) (event : Event) : ℕ :=
  match event.action with
  | (call, .withdraw amount) => if a = call.sender then amount else 0
  | _ => 0

def paidIn (a : Address) (event : Event) : ℕ :=
  match event.action with
  | (call, .addProposer _) => if a = call.sender then config.stake else 0
  | _ => 0

structure Accounts (config : Config) (first : Address) (past : List Event) (state : State) : Prop where
  wellFormed : ∃ rest, WellFormed state rest
  settled : Settled state
  once : ∀ a, (past.map (paidOut a)).sum + holding state a ≤
    (past.map (paidIn config a)).sum + if a = first then config.stake else 0

theorem accounts_bootstrapped (call : Call) (block : ℕ) {address : Address} (nonzero : address ≠ 0) (url : String) :
    Accounts config address [] (bootstrapped config call block address url) := by
  have seeded := total_update Proposer.stake (fun _ : Address => Proposer.empty) address
    ⟨config.stake, address, url, address, address⟩
  have unstaked : total Proposer.stake (fun _ : Address => Proposer.empty) = 0 :=
    total_eq_zero _ _ fun _ => rfl
  have nothing : total id (fun _ : Address => 0) = 0 := total_eq_zero _ _ fun _ => rfl
  have staked : config.stake = total Proposer.stake (bootstrapped config call block address url).proposers := by
    change config.stake = total Proposer.stake (update (fun _ => Proposer.empty) address _)
    simp only [Proposer.empty] at seeded unstaked ⊢
    omega
  refine ⟨⟨[], wellFormed_bootstrapped block nonzero url⟩, ⟨staked, ?_⟩, ?_⟩
  · change config.stake = config.stake + total id (fun _ : Address => 0) + 0
    omega
  · intro a
    simp only [holding, bootstrapped, initialState, update_apply]
    split <;> simp [Proposer.empty]

theorem Settled.step {before after : State} {rest : List Address}
    (settled : Settled before) (wellFormed : WellFormed before rest) {request : Call × Action}
    (accepted : step config before request = .ok after) :
    Settled after ∧ ∀ a, paidOut a ⟨before, request, after⟩ + holding after a ≤
      holding before a + paidIn config a ⟨before, request, after⟩ := by
  obtain ⟨call, action⟩ := request
  have quiet : (Settled after ∧ ∀ a, holding after a ≤ holding before a) →
      Settled after ∧ ∀ a, 0 + holding after a ≤ holding before a + 0 := by
    rintro ⟨afterSettled, less⟩
    refine ⟨afterSettled, ?_⟩
    intro a
    have := less a
    omega
  cases action with
  | addProposer proposerUrl =>
    obtain ⟨afterSettled, joined⟩ := settled.addProposer wellFormed accepted
    refine ⟨afterSettled, ?_⟩
    intro a
    simp only [joined, paidOut, paidIn]
    omega
  | removeProposer => exact quiet (settled.removeProposer (unpaid accepted))
  | rotateProposer => exact quiet (settled.rotateProposer (unpaid accepted))
  | skipInactiveProposer => exact quiet (settled.skipInactiveProposer (unpaid accepted))
  | withdraw amount =>
    obtain ⟨afterSettled, paid⟩ := settled.withdraw (unpaid accepted)
    refine ⟨afterSettled, ?_⟩
    intro a
    have now := paid a
    simp only [paidOut, paidIn]
    omega

theorem accounts_step (first : Address) (past : List Event) (event : Event)
    (accounts : Accounts config first past event.before)
    (accepted : step config event.before event.action = .ok event.after) :
    Accounts config first (past ++ [event]) event.after := by
  obtain ⟨rest, wellFormed⟩ := accounts.wellFormed
  obtain ⟨afterSettled, moved⟩ := accounts.settled.step config wellFormed accepted
  refine ⟨wellFormed.step accepted, afterSettled, ?_⟩
  intro a
  have was := accounts.once a
  have now : paidOut a event + _ ≤ _ + paidIn config a event := moved a
  simp only [List.map_append, List.map_cons, List.map_nil, List.sum_append, List.sum_cons, List.sum_nil]
  omega

section

variable {deployer owner : Call} {config : Config} {start booted : State}
  {stake lazyPenalty exitPenalty coolingBlocks rotationBlocks graceBlocks : ℕ}
  {address : Address} {url : String}
  (deployed : initializeContract deployer stake lazyPenalty exitPenalty coolingBlocks rotationBlocks
    graceBlocks = .ok (config, start))
  (nonzero : address ≠ 0) (seeded : bootstrapDefaultProposer config owner start address url = .ok booted)
  (requests : List (Call × Action))
include deployed nonzero seeded

theorem run_accounts : Accounts config address (trace (step config) booted requests)
      (run (step config) booted requests) := by
  rw [initializeContract_eq_ok deployed] at seeded
  rw [bootstrapDefaultProposer_eq_ok seeded]
  exact invariant_run (step config) (Accounts config address) requests [] _
    (accounts_bootstrapped config owner deployer.block nonzero url)
    fun past event _ => accounts_step config address past event

/-- Escrow is the sum of the members' stakes, the balance is escrow, pending withdrawals and
penalties, so a withdrawal is always covered; and no address has been paid, or is still owed,
more than the stakes it paid in. -/
theorem stakes_accounted (requests : List (Call × Action)) : let past := trace (step config) booted requests
    let state := run (step config) booted requests
    (∃ rest, WellFormed state rest ∧ state.escrow =
      ((state.current.addr :: rest).map fun a => (state.proposers a).stake).sum) ∧
    state.balance = state.escrow + ∑ a, state.pendingWithdraws a + state.penalties ∧
    (∀ call amount, call.value = 0 → call.acceptsPayment = true → amount ≤ state.pendingWithdraws call.sender →
        ∃ next, step config state (call, .withdraw amount) = .ok next) ∧
    ∀ a, (past.map (paidOut a)).sum + state.pendingWithdraws a + (state.proposers a).stake ≤
      (past.map (paidIn config a)).sum + if a = address then config.stake else 0 := by
  intro past state
  have accounts : Accounts config address past state := run_accounts deployed nonzero seeded requests
  obtain ⟨rest, wellFormed⟩ := accounts.wellFormed
  have balanced := accounts.settled.balanced
  refine ⟨⟨rest, wellFormed, ?_⟩, balanced, ?_, ?_⟩
  · rw [accounts.settled.staked]
    refine total_eq_sum Proposer.stake state.proposers _ wellFormed.members.ring.once ?_
    intro a absent
    rw [wellFormed.members.outside a absent]
    rfl
  · intro call amount free accepts owed
    have share := le_total id state.pendingWithdraws call.sender
    have covered : amount ≤ state.balance := by
      simp only [id_eq] at share
      omega
    have paid := withdraw_eq_ok.mpr ⟨owed, covered, accepts, rfl⟩
    exact ⟨_, (bind_eq_ok _ _ _).mpr ⟨(), (require_eq_ok _ _ _).mpr free, paid⟩⟩
  · intro a
    have once := accounts.once a
    simp only [holding] at once
    omega

end

/-- In the run in which the owner is penalised, leaves and takes the rest of its stake. -/
theorem stakes_accounted_sample : (run (step ringConfig) ringStart guestTakesOver).penalties = 4 ∧
      (run (step ringConfig) ringStart guestTakesOver).balance =
        (run (step ringConfig) ringStart guestTakesOver).escrow +
          ∑ a, (run (step ringConfig) ringStart guestTakesOver).pendingWithdraws a + 4 := by
  have charged : (run (step ringConfig) ringStart guestTakesOver).penalties = 4 := by
    decide +kernel
  obtain ⟨_, balanced, _⟩ := stakes_accounted ringConfig_deployed ownerAddress_ne_zero
    ringStart_seeded guestTakesOver
  exact ⟨charged, balanced⟩

end Nightfall.RoundRobin
