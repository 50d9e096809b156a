import Nightfall.Contract.Types

/-! The proposer contract `RoundRobin`: the ring of staked proposers kept in a mapping, a cached
copy of the current one, rotation, penalties, exits and the inactivity clock. -/

namespace Nightfall.RoundRobin

open Contract Revert Function

variable (config : Config) (call : Call) (state : State) (address : Address) (proposerUrl : String)
  (proposers : Address → Proposer)

def checkedSum (left right : ℕ) : Except String ℕ := do
  require (left + right < 2 ^ 256) "panic: arithmetic overflow"
  return left + right

def checkedDifference (left right : ℕ) : Except String ℕ := do
  require (right ≤ left) "panic: arithmetic underflow"
  return left - right

/-- What `initialize` accepts and stores. -/
structure Config where
  owner : Address
  stake : ℕ
  lazyPenalty : ℕ
  exitPenalty : ℕ
  cooldownBlocks : ℕ
  rotationBlocks : ℕ
  graceBlocks : ℕ
  cooling : 0 < cooldownBlocks
  lazyCovered : lazyPenalty ≤ stake
  exitBelowLazy : exitPenalty < lazyPenalty
  grace : 0 < graceBlocks ∧ graceBlocks < rotationBlocks

structure Proposer where
  stake : ℕ
  addr : Address
  url : String
  nextAddr : Address
  previousAddr : Address
deriving DecidableEq

def Proposer.empty : Proposer := ⟨0, 0, "", 0, 0⟩

structure State where
  proposers : Address → Proposer
  pendingWithdraws : Address → ℕ
  proposerUrls : String → Bool
  lastExitBlock : Address → ℕ
  current : Proposer
  startL1Block : ℕ
  startL2Block : ℤ
  proposerCount : ℕ
  escrow : ℕ
  lastProposedAt : ℕ
  lastSeenL2Block : ℤ
  balance : ℕ
  /-- All penalties charged so far. The contract does not store this; nothing reads it. -/
  penalties : ℕ

/-- What one call sees: who sends it and what with, the L1 block it is mined in, and
Nightfall's `layer2_block_number` at that point. No account has the address zero. -/
structure Call where
  sender : Address
  isAccount : sender ≠ 0
  value : ℕ
  block : ℕ
  layer2BlockNumber : ℤ
  x509Check : Bool
  isSanctioned : Bool
  acceptsPayment : Bool

def finalizationBlocks : ℕ := 64

def initialState (block : ℕ) : State where
  proposers := fun _ => Proposer.empty
  pendingWithdraws := fun _ => 0
  proposerUrls := fun _ => false
  lastExitBlock := fun _ => 0
  current := Proposer.empty
  startL1Block := 0
  startL2Block := 0
  proposerCount := 0
  escrow := 0
  lastProposedAt := block
  lastSeenL2Block := 0
  balance := 0
  penalties := 0

def initializeContract (stake lazyPenalty exitPenalty coolingBlocks rotationBlocks
    graceBlocks : ℕ) : Except String (Config × State) :=
  if cooling : 0 < coolingBlocks then
    if lazyCovered : lazyPenalty ≤ stake then
      if exitBelowLazy : exitPenalty < lazyPenalty then
        if grace : 0 < graceBlocks ∧ graceBlocks < rotationBlocks then
          .ok (⟨call.sender, stake, lazyPenalty, exitPenalty, coolingBlocks, rotationBlocks,
            graceBlocks, cooling, lazyCovered, exitBelowLazy, grace⟩, initialState call.block)
        else .error "Grace blocks must be > 0 and less than rotation blocks"
      else .error "LazyPenalty should be more than  exit penalty"
    else .error "Stake should be more than lazy penalty"
  else .error "Cooling blocks must be > 0"

def bootstrapDefaultProposer
    (defaultProposerAddress : Address) (defaultProposerUrl : String) : Except String State := do
  require (call.sender = config.owner) "Certified: caller is not the owner"
  require (state.proposerCount = 0) "Already bootstrapped"
  require (call.value = config.stake) "You have not paid the correct staking amount during deployment"
  require (state.proposerUrls defaultProposerUrl = false) "URL already in use"
  let current : Proposer := ⟨config.stake, defaultProposerAddress, defaultProposerUrl,
    defaultProposerAddress, defaultProposerAddress⟩
  let escrow ← checkedSum state.escrow config.stake
  return { state with
    current := current
    escrow := escrow
    proposers := update state.proposers defaultProposerAddress current
    proposerUrls := update state.proposerUrls defaultProposerUrl true
    proposerCount := 1
    startL1Block := call.block
    startL2Block := call.layer2BlockNumber
    lastSeenL2Block := call.layer2BlockNumber
    lastProposedAt := call.block
    balance := state.balance + call.value }

/-- The part of `_remove_proposer` for the current proposer: it is charged for the exit
and the next one takes over. -/
def exitCurrent : Except String State := do
  require (1 < state.proposerCount) "Cannot deregister the only active proposer"
  let remainingStake := (state.proposers address).stake
  let penalty := if remainingStake < config.exitPenalty then remainingStake else config.exitPenalty
  let escrow ← checkedDifference state.escrow penalty
  let proposers := update state.proposers address
    { state.proposers address with stake := remainingStake - penalty }
  return { state with
    proposers := proposers
    escrow := escrow
    penalties := state.penalties + penalty
    current := proposers state.current.nextAddr
    startL1Block := call.block
    startL2Block := call.layer2BlockNumber
    lastExitBlock := update state.lastExitBlock address call.block }

def endTurn : Except String State :=
  if address = state.current.addr then exitCurrent config call state address else .ok state

def unlink (address : Address) : Address → Proposer :=
  let next := (proposers address).nextAddr
  let previous := (proposers address).previousAddr
  let proposers := update proposers next
    { proposers next with previousAddr := previous }
  update proposers previous { proposers previous with nextAddr := next }

def removeProposer : Except String State := do
  require ((state.proposers address).addr = address) "Proposer does not exist"
  require (address ≠ 0) "The proposer address cannot be the zero address"
  let state ← endTurn config call state address
  let proposers := unlink state.proposers address
  let escrow ← checkedDifference state.escrow (proposers address).stake
  let pending ← checkedSum (state.pendingWithdraws address) (proposers address).stake
  let proposerUrls := update state.proposerUrls (proposers address).url false
  let proposers := update proposers address Proposer.empty
  let proposerCount ← checkedDifference state.proposerCount 1
  return { state with
    proposers := proposers
    escrow := escrow
    pendingWithdraws := update state.pendingWithdraws address pending
    proposerUrls := proposerUrls
    proposerCount := proposerCount
    current := proposers state.current.addr }

def lazyPenalizeProposer : Except String State :=
  if (state.proposers address).stake < config.lazyPenalty then
    removeProposer config call state address
  else do
    let stake ← checkedDifference (state.proposers address).stake config.lazyPenalty
    require (config.lazyPenalty ≤ state.escrow) "escrow underflow"
    let escrow ← checkedDifference state.escrow config.lazyPenalty
    return { state with
      proposers := update state.proposers address
        { state.proposers address with stake := stake }
      escrow := escrow
      penalties := state.penalties + config.lazyPenalty }

def canRotate : Except String Bool := do
  let rotation ← checkedSum state.startL1Block config.rotationBlocks
  let final ← checkedSum rotation finalizationBlocks
  return decide (final ≤ call.block)

/-- The search loop of `rotate_proposer`, for at most the given number of rounds. -/
def findEligible (proposers : Address → Proposer) (eligibilityFloor : ℕ) : ℕ → Address → Option Address
  | 0, _ => none
  | rounds + 1, nextProposer =>
    if eligibilityFloor ≤ (proposers nextProposer).stake then some nextProposer
    else findEligible proposers eligibilityFloor rounds (proposers nextProposer).nextAddr

def State.startTurn (call : Call) (address : Address) : State :=
  { state with
    current := state.proposers address
    startL1Block := call.block
    startL2Block := call.layer2BlockNumber }

/-- The penalty of `rotate_proposer`, for a turn in which no L2 block was accepted. -/
def penalizeIdle : Except String State :=
  if call.layer2BlockNumber = state.startL2Block then
    lazyPenalizeProposer config call state state.current.addr
  else .ok state

def rotateProposer : Except String State := do
  let ready ← canRotate config call state
  require (ready = true) "It is not time to rotate the proposer"
  let state ← penalizeIdle config call state
  match findEligible state.proposers config.lazyPenalty state.proposerCount state.current.nextAddr with
  | none => .error "RoundRobin: No eligible proposers with sufficient stake"
  | some address => return state.startTurn call address

def requireCooldown : Except String Unit :=
  if state.lastExitBlock call.sender ≠ 0 then do
    let cooled ← checkedSum (state.lastExitBlock call.sender) config.cooldownBlocks
    require (cooled < call.block) "Cooldown period not met"
  else pure ()

def addProposer : Except String State := do
  require (call.x509Check = true) "Certified: not authorised by X509"
  require (call.isSanctioned = false) "Certified: address is sanctioned"
  requireCooldown config call state
  require (call.value = config.stake) "You have not paid the correct staking amount during registration"
  require ((state.proposers call.sender).addr = 0) "You are already a proposer"
  require (state.proposerUrls proposerUrl = false) "This proposer URL is already in use"
  let escrow ← checkedSum state.escrow config.stake
  let currentAddress := state.current.addr
  let previousAddress := state.current.previousAddr
  let nextAddress := state.current.nextAddr
  let proposers := update state.proposers call.sender
    ⟨config.stake, call.sender, proposerUrl, currentAddress, previousAddress⟩
  let proposers := update proposers currentAddress
    { proposers currentAddress with previousAddr := call.sender }
  let proposers := update proposers previousAddress
    { proposers previousAddress with nextAddr := call.sender }
  let proposers := if nextAddress = currentAddress then
      update proposers currentAddress
        { proposers currentAddress with nextAddr := call.sender }
    else proposers
  let proposerCount ← checkedSum state.proposerCount 1
  return { state with
    proposers := proposers
    escrow := escrow
    proposerUrls := update state.proposerUrls proposerUrl true
    current := proposers currentAddress
    proposerCount := proposerCount
    balance := state.balance + call.value }

def withdraw (call : Call) (state : State) (amount : ℕ) : Except String State := do
  let withdrawable := state.pendingWithdraws call.sender
  require (amount ≤ withdrawable) "Amount exceeds balance. You are trying to withdraw more than you have"
  let pending ← checkedDifference (state.pendingWithdraws call.sender) amount
  require (amount ≤ state.balance ∧ call.acceptsPayment = true) "transfer failed"
  return { state with
    pendingWithdraws := update state.pendingWithdraws call.sender pending
    balance := state.balance - amount }

def refreshInactivityState : State :=
  if state.lastSeenL2Block < call.layer2BlockNumber then
    { state with lastSeenL2Block := call.layer2BlockNumber, lastProposedAt := call.block }
  else state

def skipInactiveProposer : Except String State := do
  require (1 < state.proposerCount) "Cannot skip single proposer"
  require (0 < config.graceBlocks ∧ config.graceBlocks < config.rotationBlocks)
    "Grace blocks not configured properly"
  let state := refreshInactivityState call state
  let deadline ← checkedSum state.lastProposedAt config.graceBlocks
  require (deadline ≤ call.block) "Proposer not yet inactive"
  let offender := state.current.addr
  let state ← lazyPenalizeProposer config call state offender
  let state := if (state.proposers offender).addr ≠ 0 then
      state.startTurn call state.current.nextAddr
    else state
  return { state with
    lastProposedAt := call.block
    lastSeenL2Block := call.layer2BlockNumber }

def listFrom (proposers : Address → Proposer) : ℕ → Proposer → List Proposer
  | 0, _ => []
  | count + 1, proposer => proposer :: listFrom proposers count (proposers proposer.nextAddr)

def getProposers : Except String (List Proposer) :=
  if state.proposerCount = 0 then .error "panic: array out-of-bounds"
  else .ok (listFrom state.proposers state.proposerCount state.current)

inductive Action where
  | addProposer (proposerUrl : String)
  | removeProposer
  | rotateProposer
  | skipInactiveProposer
  | withdraw (amount : ℕ)
deriving DecidableEq

def step (request : Call × Action) : Except String State :=
  match request with
  | (call, .addProposer proposerUrl) => addProposer config call state proposerUrl
  | (call, .removeProposer) => do
      require (call.value = 0) "not payable"
      removeProposer config call state call.sender
  | (call, .rotateProposer) => do
      require (call.value = 0) "not payable"
      rotateProposer config call state
  | (call, .skipInactiveProposer) => do
      require (call.value = 0) "not payable"
      skipInactiveProposer config call state
  | (call, .withdraw amount) => do
      require (call.value = 0) "not payable"
      withdraw call state amount

theorem unpaid {call : Call} {result : Except String State} {next : State}
    (accepted : (do require (call.value = 0) "not payable"; result) = .ok next) : result = .ok next := by
  obtain ⟨_, _, accepted⟩ := (bind_eq_ok _ _ _).mp accepted
  exact accepted

@[simp] theorem checkedSum_eq_ok (left right sum : ℕ) :
    checkedSum left right = .ok sum ↔ left + right < 2 ^ 256 ∧ left + right = sum := by
  simp only [checkedSum, bind_eq_ok, require_eq_ok, pure_eq_ok, exists_const]

@[simp] theorem checkedDifference_eq_ok (left right difference : ℕ) :
    checkedDifference left right = .ok difference ↔ right ≤ left ∧ left - right = difference := by
  simp only [checkedDifference, bind_eq_ok, require_eq_ok, pure_eq_ok, exists_const]

def State.exitCharge : ℕ :=
  if (state.proposers address).stake < config.exitPenalty then (state.proposers address).stake
  else config.exitPenalty

def State.setStake (stake : ℕ) : Address → Proposer :=
  update state.proposers address { state.proposers address with stake := stake }

def State.exited : State :=
  { state with
    proposers := state.setStake address ((state.proposers address).stake - state.exitCharge config address)
    escrow := state.escrow - state.exitCharge config address
    penalties := state.penalties + state.exitCharge config address
    current := state.setStake address
      ((state.proposers address).stake - state.exitCharge config address) state.current.nextAddr
    startL1Block := call.block
    startL2Block := call.layer2BlockNumber
    lastExitBlock := update state.lastExitBlock address call.block }

def State.removed : State :=
  let proposers := update (unlink state.proposers address) address Proposer.empty
  { state with
    proposers := proposers
    escrow := state.escrow - (state.proposers address).stake
    pendingWithdraws := update state.pendingWithdraws address
      (state.pendingWithdraws address + (state.proposers address).stake)
    proposerUrls := update state.proposerUrls (state.proposers address).url false
    proposerCount := state.proposerCount - 1
    current := proposers state.current.addr }

def State.penalized : State :=
  { state with
    proposers := state.setStake address ((state.proposers address).stake - config.lazyPenalty)
    escrow := state.escrow - config.lazyPenalty
    penalties := state.penalties + config.lazyPenalty }

def State.joinedProposers : Address → Proposer :=
  let currentAddress := state.current.addr
  let previousAddress := state.current.previousAddr
  let proposers := update state.proposers call.sender
    ⟨config.stake, call.sender, proposerUrl, currentAddress, previousAddress⟩
  let proposers := update proposers currentAddress
    { proposers currentAddress with previousAddr := call.sender }
  let proposers := update proposers previousAddress
    { proposers previousAddress with nextAddr := call.sender }
  if state.current.nextAddr = currentAddress then
    update proposers currentAddress
      { proposers currentAddress with nextAddr := call.sender }
  else proposers

def State.joined : State :=
  { state with
    proposers := state.joinedProposers config call proposerUrl
    escrow := state.escrow + config.stake
    proposerUrls := update state.proposerUrls proposerUrl true
    current := state.joinedProposers config call proposerUrl state.current.addr
    proposerCount := state.proposerCount + 1
    balance := state.balance + call.value }

structure MayJoin (config : Config) (call : Call) (state : State) (proposerUrl : String) : Prop where
  authorised : call.x509Check = true
  notSanctioned : call.isSanctioned = false
  cooled : state.lastExitBlock call.sender ≠ 0 → state.lastExitBlock call.sender + config.cooldownBlocks < 2 ^ 256 ∧
      state.lastExitBlock call.sender + config.cooldownBlocks < call.block
  paid : call.value = config.stake
  newcomer : (state.proposers call.sender).addr = 0
  urlFree : state.proposerUrls proposerUrl = false
  escrowFits : state.escrow + config.stake < 2 ^ 256
  countFits : state.proposerCount + 1 < 2 ^ 256

def State.skipped (offender : Address) : State :=
  let state := if (state.proposers offender).addr ≠ 0 then
      state.startTurn call state.current.nextAddr
    else state
  { state with
    lastProposedAt := call.block
    lastSeenL2Block := call.layer2BlockNumber }

theorem unlink_other (address other : Address) : (unlink proposers address other).stake = (proposers other).stake ∧
      (unlink proposers address other).addr = (proposers other).addr ∧
      (unlink proposers address other).url = (proposers other).url := by
  simp only [unlink, update_apply]
  split <;> split <;> simp_all

variable {config call state address proposerUrl} {next : State}

theorem exitCurrent_eq_ok : exitCurrent config call state address = .ok next ↔ 1 < state.proposerCount ∧
      state.exitCharge config address ≤ state.escrow ∧ next = state.exited config call address := by
  simp only [exitCurrent, bind_eq_ok, require_eq_ok, checkedDifference_eq_ok, pure_eq_ok]
  constructor
  · rintro ⟨_, several, escrow, ⟨covered, rfl⟩, rfl⟩
    exact ⟨several, covered, rfl⟩
  · rintro ⟨several, covered, rfl⟩
    exact ⟨(), several, _, ⟨covered, rfl⟩, rfl⟩

@[mk_iff] structure Removable (state : State) (address : Address) : Prop where
  covered : (state.proposers address).stake ≤ state.escrow
  fits : state.pendingWithdraws address + (state.proposers address).stake < 2 ^ 256
  counted : 1 ≤ state.proposerCount

theorem removeProposer_eq_ok : removeProposer config call state address = .ok next ↔
    (state.proposers address).addr = address ∧ address ≠ 0 ∧
      ((address = state.current.addr ∧ 1 < state.proposerCount ∧ state.exitCharge config address ≤ state.escrow ∧
          Removable (state.exited config call address) address ∧
          next = (state.exited config call address).removed address) ∨
        (address ≠ state.current.addr ∧ Removable state address ∧ next = state.removed address)) := by
  have stake := fun left : State => (unlink_other left.proposers address address).1
  have url := fun left : State => (unlink_other left.proposers address address).2.2
  have removal : removeProposer config call state address = .ok next ↔ (state.proposers address).addr = address ∧
      address ≠ 0 ∧ ∃ left, endTurn config call state address = .ok left ∧ Removable left address ∧
        next = left.removed address := by
    simp [removeProposer, checkedSum_eq_ok, checkedDifference_eq_ok, stake, url, removable_iff,
      State.removed, and_assoc, @eq_comm _ next]
  rw [removal, endTurn]
  split <;> simp [exitCurrent_eq_ok, *, and_assoc]

theorem lazyPenalizeProposer_eq_ok : lazyPenalizeProposer config call state address = .ok next ↔
      ((state.proposers address).stake < config.lazyPenalty ∧ removeProposer config call state address = .ok next) ∨
      (config.lazyPenalty ≤ (state.proposers address).stake ∧ config.lazyPenalty ≤ state.escrow ∧
        next = state.penalized config address) := by
  unfold lazyPenalizeProposer
  split <;> rename_i enough
  · simp [enough, enough.not_ge]
  · simp [checkedDifference_eq_ok, enough, Nat.not_lt.mp enough, State.penalized, State.setStake, and_assoc,
      @eq_comm _ next]

theorem penalizeIdle_eq_ok : penalizeIdle config call state = .ok next ↔
    (call.layer2BlockNumber ≠ state.startL2Block ∧ next = state) ∨ (call.layer2BlockNumber = state.startL2Block ∧
      lazyPenalizeProposer config call state state.current.addr = .ok next) := by
  rw [penalizeIdle]
  split <;> simp [*, @eq_comm _ next]

theorem rotateProposer_eq_ok : rotateProposer config call state = .ok next ↔
      state.startL1Block + config.rotationBlocks + finalizationBlocks < 2 ^ 256 ∧
      state.startL1Block + config.rotationBlocks + finalizationBlocks ≤ call.block ∧
      ∃ charged, penalizeIdle config call state = .ok charged ∧ ∃ address,
        findEligible charged.proposers config.lazyPenalty charged.proposerCount
          charged.current.nextAddr = some address ∧ next = charged.startTurn call address := by
  simp [rotateProposer, canRotate, checkedSum_eq_ok, and_assoc]
  grind [pure_eq_ok]

theorem requireCooldown_eq_ok {result : Unit} :
    requireCooldown config call state = .ok result ↔ (state.lastExitBlock call.sender ≠ 0 →
        state.lastExitBlock call.sender + config.cooldownBlocks < 2 ^ 256 ∧
          state.lastExitBlock call.sender + config.cooldownBlocks < call.block) := by
  unfold requireCooldown
  split <;> simp [checkedSum_eq_ok, *]

theorem addProposer_eq_ok : addProposer config call state proposerUrl = .ok next ↔
      MayJoin config call state proposerUrl ∧ next = state.joined config call proposerUrl := by
  simp only [addProposer, bind_eq_ok, require_eq_ok, checkedSum_eq_ok, pure_eq_ok, requireCooldown_eq_ok]
  constructor
  · rintro ⟨_, authorised, _, notSanctioned, _, cooled, _, paid, _, newcomer, _, urlFree, _,
      ⟨escrowFits, rfl⟩, _, ⟨countFits, rfl⟩, rfl⟩
    exact ⟨⟨authorised, notSanctioned, cooled, paid, newcomer, urlFree, escrowFits, countFits⟩, rfl⟩
  · rintro ⟨may, rfl⟩
    exact ⟨(), may.authorised, (), may.notSanctioned, (), may.cooled, (), may.paid, (),
      may.newcomer, (), may.urlFree, _, ⟨may.escrowFits, rfl⟩, _, ⟨may.countFits, rfl⟩, rfl⟩

theorem withdraw_eq_ok {amount : ℕ} :
    withdraw call state amount = .ok next ↔ amount ≤ state.pendingWithdraws call.sender ∧ amount ≤ state.balance ∧
        call.acceptsPayment = true ∧ next = { state with
          pendingWithdraws := update state.pendingWithdraws call.sender
            (state.pendingWithdraws call.sender - amount)
          balance := state.balance - amount } := by
  simp only [withdraw, bind_eq_ok, require_eq_ok, checkedDifference_eq_ok, pure_eq_ok]
  constructor
  · rintro ⟨_, owed, _, ⟨_, rfl⟩, _, ⟨covered, accepts⟩, rfl⟩
    exact ⟨owed, covered, accepts, rfl⟩
  · rintro ⟨owed, covered, accepts, rfl⟩
    exact ⟨(), owed, _, ⟨owed, rfl⟩, (), ⟨covered, accepts⟩, rfl⟩

theorem skipInactiveProposer_eq_ok : skipInactiveProposer config call state = .ok next ↔ 1 < state.proposerCount ∧
      (refreshInactivityState call state).lastProposedAt + config.graceBlocks < 2 ^ 256 ∧
      (refreshInactivityState call state).lastProposedAt + config.graceBlocks ≤ call.block ∧
      ∃ charged, lazyPenalizeProposer config call (refreshInactivityState call state)
          state.current.addr = .ok charged ∧ next = charged.skipped call state.current.addr := by
  have offender : (refreshInactivityState call state).current = state.current := by
    simp only [refreshInactivityState]
    split <;> rfl
  simp [skipInactiveProposer, checkedSum_eq_ok, offender, config.grace, State.skipped, and_assoc, @eq_comm _ next]

theorem skipInactiveProposer_cases (accepted : skipInactiveProposer config call state = .ok next) :
    1 < state.proposerCount ∧ ∃ block seen charged, lazyPenalizeProposer config call
        { state with lastProposedAt := block, lastSeenL2Block := seen } state.current.addr = .ok charged ∧
      next = charged.skipped call state.current.addr := by
  obtain ⟨several, _, _, charged, penalty, isNext⟩ := skipInactiveProposer_eq_ok.mp accepted
  rw [refreshInactivityState] at penalty
  split at penalty <;> exact ⟨several, _, _, charged, penalty, isNext⟩

end Nightfall.RoundRobin
