import Nightfall.Contract.NovaVerifier

/-! The storage of the Nightfall contract, its initializer, and the escrow side: `escrow_funds` and
`descrow_funds`. -/

namespace Nightfall.Contract

open Revert Function

variable (env : Environment) (call : Call) (state : State)

structure Environment where
  chain : Chain
  self : Address
  router : ProofSystemRouter

def Environment.sha256AndShift (inputs : ByteString) : Word :=
  env.chain.sha256 inputs >>> 4

/-- A call of a token contract with its arguments. The first of ERC3525 moves a token with all that it
holds, the second a part of its value. -/
inductive TokenCall where
  | erc20 (sender recipient : Address) (value : Word)
  | erc721 (sender recipient : Address) (tokenId : Word)
  | erc1155 (sender recipient : Address) (tokenId value : Word)
  | erc3525 (sender recipient : Address) (tokenId : Word)
  | erc3525Value (tokenId : Word) (recipient : Address) (value : Word)
  deriving DecidableEq

inductive Transfer where
  | native (recipient : Address) (amount : Word)
  | token (ercAddress : Address) (made : TokenCall)
  deriving DecidableEq

/-- What one call sees of the accounts around the contract. `tokenCall` is the
token contract's answer, `none` when it reverts. -/
structure Call where
  sender : Address
  value : Word
  x509Check : Bool
  isSanctioned : Bool
  currentProposer : Address
  slotOf : Address → Word → Option Word
  tokenCall : Address → TokenCall → Option Bool
  acceptsPayment : Bool

/-- `transfers` is not stored by the contract: it lists what the escrow side has asked others to move. -/
structure State where
  feeBinding : Word → DepositFeeState
  withdrawalIncluded : Word → Nat
  tokenIdMapping : Word → TokenIdValue
  slotIdMapping : Word → SlotIdValue
  layer2BlockNumber : Word
  commitmentRoot : Word
  nullifierRoot : Word
  historicRootsRoot : Word
  feeId : Word
  balance : Nat
  transfers : List Transfer

def Environment.computedFeeId : Word :=
  env.chain.keccak256 (abiEncode [addressWord env.self, 0]) >>> 4

def Environment.initializeState (initialNullifierRoot initialCommitmentRoot
    initialHistoricRootsRoot initialLayer2BlockNumber : Word) : State where
  feeBinding := fun _ => ⟨0, 0, 0⟩
  withdrawalIncluded := fun _ => 0
  tokenIdMapping := update (fun _ => ⟨0, 0, .erc20⟩) env.computedFeeId ⟨env.self, 0, .feeToken⟩
  slotIdMapping := update (fun _ => ⟨0, 0, .erc20⟩) env.computedFeeId ⟨env.self, 0, .feeToken⟩
  layer2BlockNumber := initialLayer2BlockNumber
  commitmentRoot := initialCommitmentRoot
  nullifierRoot := initialNullifierRoot
  historicRootsRoot := initialHistoricRootsRoot
  feeId := env.computedFeeId
  balance := 0
  transfers := []

def onlyCertified : Except String Unit := do
  require (call.x509Check = true) "Certified: not authorised by X509"
  require (call.isSanctioned = false) "Certified: address is sanctioned"

def callToken (ercAddress : Address) (made : TokenCall) : Except String (Bool × State) :=
  match call.tokenCall ercAddress made with
  | none => .error "token call reverted"
  | some answer => .ok (answer, { state with transfers := state.transfers ++ [.token ercAddress made] })

def payNative (amount : Word) (message : String) : Except String State := do
  require (amount.toNat ≤ state.balance ∧ call.acceptsPayment = true) message
  return { state with balance := state.balance - amount.toNat }

def transferIn (ercAddress : Address) (tokenType : TokenType) (tokenId value : Word) : Except String State := do
  match tokenType with
  | .erc3525 =>
    let (_, state) ← callToken call state ercAddress (.erc3525 call.sender env.self tokenId)
    return state
  | .erc1155 =>
    let (_, state) ← callToken call state ercAddress (.erc1155 call.sender env.self tokenId value)
    return state
  | .erc721 =>
    require (value = 0) "ERC721 tokens should have a value of zero"
    let (_, state) ← callToken call state ercAddress (.erc721 call.sender env.self tokenId)
    return state
  | .erc20 =>
    require (tokenId = 0) "ERC20 tokens should have a tokenId of 0"
    let (transferred, state) ← callToken call state ercAddress (.erc20 call.sender env.self value)
    require (transferred = true) "ERC20 transfer failed"
    return state
  | .feeToken => .error "escrowFundsError"

def nativeSlot (ercAddress : Address) (tokenId : Word) (tokenType : TokenType) : Except String Word :=
  if tokenType = .erc3525 then
    match call.slotOf ercAddress tokenId with
    | none => .error "token call reverted"
    | some slotId => .ok slotId
  else .ok tokenId

def bindDeposit (key fee : Word) (message : String) : Except String State := do
  require ((state.feeBinding key).escrowed = 0) message
  return { state with feeBinding := update state.feeBinding key ⟨fee, 1, 0⟩ }

def escrowFunds (fee : Word) (ercAddress : Address) (tokenId value secretHash : Word) (tokenType : TokenType) :
    Except String State := do
  onlyCertified call
  let nfTokenId := env.sha256AndShift (abiEncode [addressWord ercAddress, tokenId])
  let nativeSlotId ← nativeSlot call ercAddress tokenId tokenType
  let nfSlotId := if tokenType = .erc3525 then
      env.chain.keccak256 (abiEncode [addressWord ercAddress, nativeSlotId]) >>> 4
    else nfTokenId
  let state := { state with
    tokenIdMapping := update state.tokenIdMapping nfTokenId ⟨ercAddress, tokenId, tokenType⟩
    slotIdMapping := update state.slotIdMapping nfSlotId ⟨ercAddress, nativeSlotId, tokenType⟩
    balance := state.balance + call.value.toNat }
  let valueCommitment : DepositCommitment := ⟨nfTokenId, nfSlotId, value, secretHash⟩
  let key := env.sha256AndShift valueCommitment.encode
  let state ← bindDeposit state key fee "Funds have already been escrowed for this Deposit"
  let state ← transferIn env call state ercAddress tokenType tokenId value
  let doubleFee ← checkedDouble fee
  require (call.value = fee ∨ doubleFee ≤ call.value) "Invalid msg.value for fee or top-up"
  if doubleFee < call.value then
    let depositFeeCommitment : DepositCommitment :=
      ⟨state.feeId, state.feeId, call.value - doubleFee, secretHash⟩
    let depositFeeKey := env.sha256AndShift depositFeeCommitment.encode
    bindDeposit state depositFeeKey fee "Funds have already been escrowed for this fee Deposit"
  else return state

def descrowFunds (withdrawal : WithdrawData) (tokenType : TokenType) : Except String State := do
  onlyCertified call
  let state := { state with balance := state.balance + call.value.toNat }
  let key := env.chain.keccak256 withdrawal.encode
  require (state.withdrawalIncluded key = 1)
    "Either no funds are available to withdraw, or they are already withdrawn"
  let original := state.tokenIdMapping withdrawal.nfTokenId
  let cleared := { state with
    withdrawalIncluded := update state.withdrawalIncluded key 0 }
  if original.ercAddress = (0 : Address) then
    let paid ← payNative call cleared withdrawal.value "Could not withdraw fee"
    return { paid with transfers := paid.transfers ++ [.native withdrawal.recipientAddress withdrawal.value] }
  else
    match tokenType with
    | .erc721 =>
      require (withdrawal.value = 0) "ERC721 tokens should have a value of zero"
      let (_, state) ← callToken call cleared original.ercAddress
        (.erc721 env.self withdrawal.recipientAddress original.tokenId)
      return state
    | .erc20 =>
      require (original.tokenId = (0 : Word)) "ERC20 tokens should have a tokenId of 0"
      let (transferred, state) ← callToken call cleared original.ercAddress
        (.erc20 env.self withdrawal.recipientAddress withdrawal.value)
      require (transferred = true) "ERC20 Descrow-fund failed"
      return state
    | .erc3525 =>
      let (_, state) ← callToken call cleared original.ercAddress
        (.erc3525Value original.tokenId withdrawal.recipientAddress withdrawal.value)
      return state
    | .erc1155 =>
      let (_, state) ← callToken call cleared original.ercAddress
        (.erc1155 env.self withdrawal.recipientAddress original.tokenId withdrawal.value)
      return state
    | .feeToken => return cleared

def BindsFresh (before after : Word → DepositFeeState) : Prop :=
  ∀ key, after key = before key ∨ ((before key).escrowed = 0 ∧ ∃ fee, after key = ⟨fee, 1, 0⟩)

theorem BindsFresh.refl (binding : Word → DepositFeeState) : BindsFresh binding binding :=
  fun _ => Or.inl rfl

theorem BindsFresh.trans {first second third : Word → DepositFeeState} (earlier : BindsFresh first second)
    (later : BindsFresh second third) : BindsFresh first third := by
  intro key
  rcases later key with same | ⟨free, fee, bound⟩
  · rw [same]
    exact earlier key
  · rcases earlier key with unchanged | ⟨_, otherFee, taken⟩
    · rw [unchanged] at free
      exact Or.inr ⟨free, fee, bound⟩
    · simp [taken] at free

theorem bindDeposit_bindsFresh {state next : State} {key fee : Word} {message : String}
    (bound : bindDeposit state key fee message = .ok next) : BindsFresh state.feeBinding next.feeBinding := by
  simp only [bindDeposit, bind_eq_ok, require_eq_ok, pure_eq_ok] at bound
  obtain ⟨_, free, same⟩ := bound
  subst same
  intro other
  by_cases isKey : other = key
  · subst isKey
    exact Or.inr ⟨free, fee, by simp⟩
  · exact Or.inl (by simp [isKey])

variable (env : Environment) {call : Call} {state next : State} {tokenType : TokenType}

omit env in
theorem callToken_eq_ok {ercAddress : Address} {made : TokenCall} {answer : Bool} :
    callToken call state ercAddress made = .ok (answer, next) ↔ call.tokenCall ercAddress made = some answer ∧
      { state with transfers := state.transfers ++ [.token ercAddress made] } = next := by
  rw [callToken]
  cases call.tokenCall ercAddress made <;> simp

theorem transferIn_eq_ok {ercAddress : Address} {tokenId value : Word}
    (transferred : transferIn env call state ercAddress tokenType tokenId value = .ok next) :
    ∃ made, next = { state with transfers := state.transfers ++ [.token ercAddress made] } ∧
      (tokenType = .erc20 ∧ tokenId = 0 ∧ made = .erc20 call.sender env.self value ∨
        tokenType = .erc721 ∧ value = 0 ∧ made = .erc721 call.sender env.self tokenId ∨
        tokenType = .erc1155 ∧ made = .erc1155 call.sender env.self tokenId value ∨
        tokenType = .erc3525 ∧ made = .erc3525 call.sender env.self tokenId) := by
  cases tokenType with
  | erc20 =>
    simp only [transferIn, bind_eq_ok, require_eq_ok, pure_eq_ok, Prod.exists, callToken_eq_ok] at transferred
    obtain ⟨_, native, _, _, ⟨_, rfl⟩, _, _, rfl⟩ := transferred
    exact ⟨_, rfl, .inl ⟨rfl, native, rfl⟩⟩
  | erc721 =>
    simp only [transferIn, bind_eq_ok, require_eq_ok, pure_eq_ok, Prod.exists, callToken_eq_ok] at transferred
    obtain ⟨_, none, _, _, ⟨_, rfl⟩, rfl⟩ := transferred
    exact ⟨_, rfl, .inr (.inl ⟨rfl, none, rfl⟩)⟩
  | erc1155 =>
    simp only [transferIn, bind_eq_ok, pure_eq_ok, Prod.exists, callToken_eq_ok] at transferred
    obtain ⟨_, _, ⟨_, rfl⟩, rfl⟩ := transferred
    exact ⟨_, rfl, .inr (.inr (.inl ⟨rfl, rfl⟩))⟩
  | erc3525 =>
    simp only [transferIn, bind_eq_ok, pure_eq_ok, Prod.exists, callToken_eq_ok] at transferred
    obtain ⟨_, _, ⟨_, rfl⟩, rfl⟩ := transferred
    exact ⟨_, rfl, .inr (.inr (.inr ⟨rfl, rfl⟩))⟩
  | feeToken => cases transferred

theorem escrowFunds_changes {fee : Word} {ercAddress : Address} {tokenId value secretHash : Word}
    (escrowed : escrowFunds env call state fee ercAddress tokenId value secretHash tokenType = .ok next) :
    ∃ tokens slots binding transfers, BindsFresh state.feeBinding binding ∧
      next = { state with
        tokenIdMapping := tokens, slotIdMapping := slots, feeBinding := binding, transfers := transfers
        balance := state.balance + call.value.toNat } := by
  simp only [escrowFunds, bind_eq_ok, require_eq_ok] at escrowed
  obtain ⟨_, _, _, _, _, bound, _, transferred, _, _, _, _, topUp⟩ := escrowed
  have valueFresh := bindDeposit_bindsFresh bound
  simp only [bindDeposit, bind_eq_ok, require_eq_ok, pure_eq_ok] at bound
  obtain ⟨_, _, rfl⟩ := bound
  obtain ⟨made, rfl, _⟩ := transferIn_eq_ok env transferred
  split at topUp
  · have topUpFresh := bindDeposit_bindsFresh topUp
    have fresh := valueFresh.trans topUpFresh
    simp only [bindDeposit, bind_eq_ok, require_eq_ok, pure_eq_ok] at topUp
    obtain ⟨_, _, rfl⟩ := topUp
    exact ⟨_, _, _, _, fresh, rfl⟩
  · obtain rfl := (pure_eq_ok _ _).mp topUp
    exact ⟨_, _, _, _, valueFresh, rfl⟩

theorem descrowFunds_changes {withdrawal : WithdrawData}
    (descrowed : descrowFunds env call state withdrawal tokenType = .ok next) :
    state.withdrawalIncluded (env.chain.keccak256 withdrawal.encode) = 1 ∧ ∃ balance transfers, next = { state with
        balance := balance, transfers := transfers
        withdrawalIncluded := update state.withdrawalIncluded (env.chain.keccak256 withdrawal.encode) 0 } := by
  simp only [descrowFunds, bind_eq_ok, require_eq_ok] at descrowed
  obtain ⟨_, _, _, included, descrowed⟩ := descrowed
  refine ⟨included, ?_⟩
  split at descrowed
  · simp only [payNative, bind_eq_ok, require_eq_ok, pure_eq_ok] at descrowed
    obtain ⟨_, ⟨_, _, rfl⟩, rfl⟩ := descrowed
    exact ⟨_, _, rfl⟩
  · refine ⟨state.balance + call.value.toNat, ?_⟩
    split at descrowed <;>
      simp only [bind_eq_ok, pure_eq_ok, require_eq_ok, Prod.exists, callToken_eq_ok] at descrowed
    · obtain ⟨_, _, _, _, ⟨_, rfl⟩, rfl⟩ := descrowed
      exact ⟨_, rfl⟩
    · obtain ⟨_, _, _, _, ⟨_, rfl⟩, _, _, rfl⟩ := descrowed
      exact ⟨_, rfl⟩
    · obtain ⟨_, _, ⟨_, rfl⟩, rfl⟩ := descrowed
      exact ⟨_, rfl⟩
    · obtain ⟨_, _, ⟨_, rfl⟩, rfl⟩ := descrowed
      exact ⟨_, rfl⟩
    · exact ⟨_, descrowed.symm⟩

end Nightfall.Contract
