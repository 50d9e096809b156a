import Nightfall.Contract.Calldata
import Nightfall.Contract.State
import Nightfall.Library.Merkle
import Nightfall.Library.Runs

/-! `propose_block`: the transaction hash tree, the public inputs of the rollup
proof, the dispatch loop over raw calldata, and the contract as a machine whose
calls are `escrow_funds`, `descrow_funds` and `propose_block`. -/

namespace Nightfall.Contract

open Revert List

variable (env : Environment) (blk : Block) (ledger : Ledger) (state : State)

def hashTransaction (transaction : OnChainTransaction) : Word :=
  env.sha256AndShift (abiEncode (transaction.commitments.toList ++
    transaction.nullifiers.toList ++ transaction.publicData.toList))

def hashLevel (half : Nat) (hashes : List Word) : List Word :=
  (range half).foldl (fun hashes i =>
    hashes.set i (env.sha256AndShift (abiEncode [hashes.getD (i <<< 1) 0, hashes.getD ((i <<< 1) + 1) 0]))) hashes

def hashTree (env : Environment) (length : Nat) (hashes : List Word) : List Word :=
  if 1 < length then hashTree env (length / 2) (hashLevel env (length / 2) hashes) else hashes
termination_by length

def scalarField : Nat :=
  21888242871839275222246405745257275088548364400416034343698204186575808495617

def splitToLowHigh (value : Word) : List Word :=
  [value &&& ((1 <<< 248) - 1), value >>> 248]

def proofWord (proof : ByteString) (start : Nat) : Except String Word := do
  require (start + 32 ≤ proof.length) "slice out of bounds"
  return BitVec.ofNat 256 (Bytes.beNat ((proof.drop start).take 32))

def plonkPublicInputs (blk : Block) (publicHash feeSum : Word) (accumulators : List Word) : List Word :=
  [feeSum, publicHash, state.commitmentRoot, blk.commitmentsRoot, state.nullifierRoot,
    blk.nullifierRoot, state.historicRootsRoot, blk.commitmentsRootRoot] ++ accumulators.flatMap splitToLowHigh

def novaPublicInputs : List Word :=
  [blk.commitmentsRoot, blk.nullifierRoot, blk.commitmentsRootRoot, BitVec.ofNat 256 blk.transactions.length]

def feeSum (transactions : List OnChainTransaction) : Except String Word :=
  transactions.foldlM (fun sum transaction => checkedAdd sum transaction.fee) 0

def verifyRollupProof (blk : Block) (publicHash : Word) : Except String (Bool × Word) :=
  match blk.rollupProof with
  | [] => .error "panic: array out-of-bounds"
  | id :: _ =>
    if id = 1 then do
      let feeSum ← proofWord blk.rollupProof 1
      let accumulators ← (range 8).mapM fun i => proofWord blk.rollupProof (33 + 32 * i)
      let publicInputs := plonkPublicInputs state blk publicHash feeSum accumulators
      let computed := (env.sha256AndShift (abiEncode publicInputs)).toNat % scalarField
      let valid ← env.router.verify env.chain blk.rollupProof
        [BitVec.ofNat 256 computed, BitVec.ofNat 256 blk.transactions.length]
      return (valid, feeSum)
    else if id = 2 ∨ id = 3 then do
      let feeSum ← feeSum blk.transactions
      let valid ← env.router.verify env.chain blk.rollupProof (novaPublicInputs blk)
      return (valid, feeSum)
    else .error "Unknown proof system ID"

structure Ledger where
  feeBinding : Word → DepositFeeState
  withdrawalIncluded : Word → Nat
  totalFee : Word

def redeemWord (publicData : Word) : Except String Ledger :=
  if publicData = 0 then return ledger
  else do
    let totalFee ← checkedAdd ledger.totalFee (ledger.feeBinding publicData).fee
    require ((ledger.feeBinding publicData).escrowed = 1 ∧ (ledger.feeBinding publicData).redeemed = 0)
      "Deposit either has not been escrowed or has already been redeemed"
    return { ledger with
      feeBinding := Function.update ledger.feeBinding publicData
        { ledger.feeBinding publicData with redeemed := 1 }
      totalFee := totalFee }

def OnChainTransaction.withdrawData (transaction : OnChainTransaction) : WithdrawData where
  nfTokenId := transaction.publicData.get 0
  recipientAddress := (transaction.publicData.get 1).setWidth 160
  value := transaction.publicData.get 2
  withdrawFundSalt := transaction.nullifiers.get 0

def recordWithdrawal (transaction : OnChainTransaction) : Except String Ledger := do
  let key := env.chain.keccak256 transaction.withdrawData.encode
  require (ledger.withdrawalIncluded key = 0) "Funds have already withdrawn"
  return { ledger with withdrawalIncluded := Function.update ledger.withdrawalIncluded key 1 }

def Block.transaction (blk : Block) (i : Nat) : Except String OnChainTransaction :=
  match blk.transactions[i]? with
  | none => .error "panic: array out-of-bounds"
  | some transaction => .ok transaction

def dispatch (i : Nat) : Except String Ledger :=
  if transactionLoad blk.calldata i 0xC0 = 0 then
    if transactionLoad blk.calldata i 0x140 = 0 then return ledger
    else (range 4).foldlM (fun ledger j =>
      redeemWord ledger (transactionLoad blk.calldata i (0x20 + (0x120 + j * 0x20)))) ledger
  else if transactionLoad blk.calldata i 0x40 = 0 ∧ transactionLoad blk.calldata i 0xC0 ≠ 0 then do
    let transaction ← blk.transaction i
    recordWithdrawal env ledger transaction
  else return ledger

def maxInt256 : Word := BitVec.ofNat 256 (2 ^ 255 - 1)

def proposeBlock (call : Call) (state : State) (blk : Block) : Except String State := do
  require (call.value = 0) "not payable"
  onlyCertified call
  require (call.currentProposer = call.sender) "Only the current proposer can propose a block"
  require (blk.blockNumber = state.layer2BlockNumber) "Nightfall: block number mismatch"
  -- the compiler's accessors refuse a calldata array of 2^64 or more elements
  require (blk.transactions.length < 2 ^ 64) "calldata array too long"
  let length := (transactionsLength blk.calldata).toNat
  require (length = 64 ∨ length = 256) "Nightfall: block_transactions_length must be 64 or 256"
  let hashes ← (range length).mapM fun i => hashTransaction env <$> blk.transaction i
  let publicHash := (hashTree env length hashes).getD 0 0
  let (verified, totalFee) ← verifyRollupProof env state blk publicHash
  require (verified = true) "Rollup proof verification failed"
  let ledger ← (range length).foldlM (dispatch env blk) ⟨state.feeBinding, state.withdrawalIncluded, totalFee⟩
  let state := { state with
    feeBinding := ledger.feeBinding
    withdrawalIncluded := ledger.withdrawalIncluded
    commitmentRoot := blk.commitmentsRoot
    nullifierRoot := blk.nullifierRoot
    historicRootsRoot := blk.commitmentsRootRoot }
  let state ← payNative call state ledger.totalFee "Failed to transfer the fee to the proposer"
  require (state.layer2BlockNumber ≠ maxInt256) "panic: arithmetic overflow"
  return { state with layer2BlockNumber := state.layer2BlockNumber + 1 }

inductive Action where
  | escrowFunds (call : Call) (fee : Word) (ercAddress : Address)
      (tokenId value secretHash : Word) (tokenType : TokenType)
  | descrowFunds (call : Call) (withdrawal : WithdrawData) (tokenType : TokenType)
  | proposeBlock (call : Call) (blk : Block)

def step : Action → Except String State
  | .escrowFunds call fee ercAddress tokenId value secretHash tokenType =>
    escrowFunds env call state fee ercAddress tokenId value secretHash tokenType
  | .descrowFunds call withdrawal tokenType => descrowFunds env call state withdrawal tokenType
  | .proposeBlock call blk => proposeBlock env call state blk

abbrev Event := Runs.Event State Action

def handleTransaction (transaction : OnChainTransaction) : Except String Ledger :=
  if transaction.nullifiers.get 0 = 0 then
    if transaction.publicData.get 0 = 0 then return ledger
    else transaction.publicData.toList.foldlM redeemWord ledger
  else if transaction.commitments.get 0 = 0 then recordWithdrawal env ledger transaction
  else return ledger

theorem dispatch_eq_handle (i : Nat)
    (transaction : OnChainTransaction) (found : blk.transactions[i]? = some transaction) :
    dispatch env blk ledger i = handleTransaction env ledger transaction := by
  have dummyWord : transactionLoad blk.calldata i 0x140 = transaction.publicData.get 0 :=
    transactionLoad_publicData found (j := 0) (by omega)
  have words : ∀ ledger j data, transaction.publicData.toList[j]? = some data →
      redeemWord ledger (transactionLoad blk.calldata i (0x20 + (0x120 + j * 0x20))) = redeemWord ledger data := by
    intro ledger j data at_j
    have bound : j < 4 := by
      have := (List.getElem?_eq_some_iff.mp at_j).1
      simpa using this
    rw [transactionLoad_publicData found bound]
    simp only [Vector.getElem?_toList, Vector.getElem?_eq_getElem bound, Option.some.injEq] at at_j
    rw [at_j]
  have redeemed := foldlM_range transaction.publicData.toList (fun ledger j =>
    redeemWord ledger (transactionLoad blk.calldata i (0x20 + (0x120 + j * 0x20)))) redeemWord
    words ledger
  rw [show transaction.publicData.toList.length = 4 by simp] at redeemed
  simp only [dispatch, handleTransaction, transactionLoad_nullifier found,
    transactionLoad_commitment found, dummyWord, redeemed, Block.transaction, found]
  split
  · rfl
  · rename_i spends
    simp only [ne_eq, spends, not_false_eq_true, and_true, bind, Except.bind]

/-- The raw reads give the words that are decoded and hashed, so these classify the transaction. -/
theorem calldata_reads_decoded (fits : blk.transactions.length < 2 ^ 256) {i : Nat}
    {transaction : OnChainTransaction} (found : blk.transactions[i]? = some transaction) :
    (transactionsLength blk.calldata).toNat = blk.transactions.length ∧ blk.transaction i = .ok transaction ∧
    transactionLoad blk.calldata i 0xC0 = transaction.nullifiers.get 0 ∧
    transactionLoad blk.calldata i 0x40 = transaction.commitments.get 0 ∧
    transactionLoad blk.calldata i 0x140 = transaction.publicData.get 0 ∧
    (∀ j : Fin 4, transactionLoad blk.calldata i (0x20 + (0x120 + j * 0x20)) = transaction.publicData.get j) ∧
    ∀ env ledger, dispatch env blk ledger i = handleTransaction env ledger transaction := by
  refine ⟨?_, ?_, transactionLoad_nullifier found, transactionLoad_commitment found,
    transactionLoad_publicData found (j := 0) (by omega), fun j => transactionLoad_publicData found j.isLt,
    fun env ledger => dispatch_eq_handle env blk ledger i transaction found⟩
  · rw [transactionsLength_calldata, BitVec.toNat_ofNat, Nat.mod_eq_of_lt fits]
  · rw [Block.transaction, found]

theorem calldata_reads_decoded_two :
    let blk : Block := ⟨1, 2, 3, [⟨4, #v[5, 0, 0, 0], #v[6, 0, 0, 0], #v[7, 8, 9, 10]⟩,
      ⟨0, #v[11, 0, 0, 0], #v[0, 0, 0, 0], #v[12, 0, 0, 13]⟩], [2], 14⟩
    blk.transactions.length = 2 ∧ transactionLoad blk.calldata 1 0x40 = 11 ∧
      transactionLoad blk.calldata 1 (0x20 + (0x120 + 3 * 0x20)) = 13 := by
  intro blk
  obtain ⟨length, -, -, commitment, -, publicData, -⟩ := calldata_reads_decoded blk (by decide) (i := 1) rfl
  exact ⟨rfl, commitment, publicData 3⟩

def blockHash : Word :=
  (hashTree env blk.transactions.length (blk.transactions.map (hashTransaction env))).getD 0 0

structure Admitted (call : Call) (state : State) (blk : Block) : Prop where
  notPayable : call.value = 0
  certified : onlyCertified call = .ok ()
  proposer : call.currentProposer = call.sender
  number : blk.blockNumber = state.layer2BlockNumber
  size : blk.transactions.length = 64 ∨ blk.transactions.length = 256
  accepts : call.acceptsPayment = true
  notLast : state.layer2BlockNumber ≠ maxInt256

def afterBlock (blk : Block) (ledger : Ledger) : State :=
  { state with
    feeBinding := ledger.feeBinding
    withdrawalIncluded := ledger.withdrawalIncluded
    commitmentRoot := blk.commitmentsRoot
    nullifierRoot := blk.nullifierRoot
    historicRootsRoot := blk.commitmentsRootRoot
    balance := state.balance - ledger.totalFee.toNat
    layer2BlockNumber := state.layer2BlockNumber + 1 }

theorem transactionsLength_toNat (bound : blk.transactions.length < 2 ^ 64) :
    (transactionsLength blk.calldata).toNat = blk.transactions.length := by
  rw [transactionsLength_calldata, BitVec.toNat_ofNat]
  omega

theorem hashes_eq : ((range blk.transactions.length).mapM fun i => hashTransaction env <$> blk.transaction i) =
      .ok (blk.transactions.map (hashTransaction env)) := by
  apply mapM_range
  intro i transaction found
  simp [Block.transaction, found]

theorem proposeBlock_eq_ok (call : Call) (state next : State) (blk : Block) :
    proposeBlock env call state blk = .ok next ↔ Admitted call state blk ∧ ∃ totalFee ledger,
        verifyRollupProof env state blk (blockHash env blk) = .ok (true, totalFee) ∧
        blk.transactions.foldlM (handleTransaction env)
          ⟨state.feeBinding, state.withdrawalIncluded, totalFee⟩ = .ok ledger ∧
        ledger.totalFee.toNat ≤ state.balance ∧ next = afterBlock state blk ledger := by
  have loop := foldlM_range blk.transactions (dispatch env blk) (handleTransaction env)
    (fun ledger i transaction => dispatch_eq_handle env blk ledger i transaction)
  simp only [proposeBlock, bind_eq_ok, require_eq_ok, payNative, pure_eq_ok]
  constructor
  · rintro ⟨_, notPayable, _, certified, _, proposer, _, number, _, bound, _, size, hashes, hashed,
      ⟨verified, totalFee⟩, rollup, _, valid, ledger, dispatched, _, ⟨_, ⟨covered, accepts⟩, paid⟩, _, notLast, same⟩
    rw [transactionsLength_toNat blk bound] at size hashed rollup dispatched
    rw [hashes_eq, Except.ok.injEq] at hashed
    subst hashed paid valid same
    rw [loop] at dispatched
    exact ⟨⟨notPayable, certified, proposer, number, size, accepts, notLast⟩, totalFee, ledger,
      rollup, dispatched, covered, rfl⟩
  · rintro ⟨admitted, totalFee, ledger, rollup, dispatched, covered, same⟩
    have bound : blk.transactions.length < 2 ^ 64 := by
      rcases admitted.size with small | large <;> omega
    rw [transactionsLength_toNat blk bound, hashes_eq]
    refine ⟨(), admitted.notPayable, (), admitted.certified, (), admitted.proposer, (),
      admitted.number, (), bound, (), admitted.size, _, rfl, (true, totalFee), rollup, (), rfl,
      ledger, ?_, _, ⟨(), ⟨covered, admitted.accepts⟩, rfl⟩, (), admitted.notLast, ?_⟩
    · rw [loop]
      exact dispatched
    · rw [same]
      rfl

def pairHash (left right : Word) : Word :=
  env.sha256AndShift (abiEncode [left, right])

theorem hashLevel_spec (half : Nat) (hashes : List Word) (fits : half ≤ hashes.length) :
    (hashLevel env half hashes).length = hashes.length ∧ ∀ i, (hashLevel env half hashes).getD i 0 =
        if i < half then pairHash env (hashes.getD (2 * i) 0) (hashes.getD (2 * i + 1) 0)
        else hashes.getD i 0 := by
  induction half with
  | zero => simp [hashLevel]
  | succ half ih =>
    obtain ⟨length, entries⟩ := ih (by omega)
    have written : hashLevel env (half + 1) hashes = (hashLevel env half hashes).set half
        (pairHash env ((hashLevel env half hashes).getD (2 * half) 0)
          ((hashLevel env half hashes).getD (2 * half + 1) 0)) := by
      simp [hashLevel, range_succ, pairHash, Nat.shiftLeft_eq, Nat.mul_comm half 2]
    rw [written, entries, entries, if_neg (by omega), if_neg (by omega)]
    refine ⟨by simp [length], ?_⟩
    intro i
    rcases Nat.lt_trichotomy i half with before | same | after
    · rw [getD_eq_getElem?_getD, getElem?_set_ne (by omega), ← getD_eq_getElem?_getD,
        entries, if_pos before, if_pos (by omega)]
    · subst same
      rw [getD_eq_getElem?_getD, getElem?_set_self (by omega), if_pos (by omega)]
      rfl
    · rw [getD_eq_getElem?_getD, getElem?_set_ne (by omega), ← getD_eq_getElem?_getD,
        entries, if_neg (by omega), if_neg (by omega)]

theorem hashTree_root (height : Nat) (hashes : List Word) (fits : 2 ^ height ≤ hashes.length) :
    (hashTree env (2 ^ height) hashes).getD 0 0 =
      Merkle.levelRoot (pairHash env) height fun i => hashes.getD i 0 := by
  induction height generalizing hashes with
  | zero =>
    rw [hashTree, if_neg (by simp)]
    rfl
  | succ height ih =>
    have positive := Nat.two_pow_pos height
    obtain ⟨length, entries⟩ := hashLevel_spec env (2 ^ height) hashes (by omega)
    rw [hashTree, Nat.pow_succ, if_pos (by omega), Nat.mul_div_cancel _ (by omega), ih _ (by omega), Merkle.levelRoot]
    apply Merkle.levelRoot_congr
    intro i below
    rw [entries, if_pos below]

end Nightfall.Contract
