import Nightfall.Contract.Deposits
import Nightfall.Library.Totals

/-! Who pays for deposit fees. Every open key keeps its fee in the contract, and
every top-up its deposit; the dispatch loop moves the fee of a redeemed key into
the payment to the proposer, so that payment is covered. -/

namespace Nightfall.Contract

open Revert Runs Totals

def DepositFeeState.openFee (deposit : DepositFeeState) : ℕ :=
  if deposit.escrowed = 1 ∧ deposit.redeemed = 0 then deposit.fee.toNat else 0

noncomputable def openFees (binding : Word → DepositFeeState) : ℕ := total DepositFeeState.openFee binding

/-- What `escrow_funds` turns into a fee-token deposit: the value beyond twice the fee. -/
def depositFee (event : Event) : ℕ :=
  match event.action with
  | .escrowFunds call fee _ _ _ _ _ => call.value.toNat - 2 * fee.toNat
  | _ => 0

def depositFees (past : List Event) : ℕ := (past.map depositFee).sum

theorem depositFees_concat (past : List Event) (event : Event) :
    depositFees (past ++ [event]) = depositFees past + depositFee event := by
  simp [depositFees]

variable {state next : State} {fee : Word} {call : Call} {ercAddress : Address}
  {tokenType : TokenType} {ledger : Ledger} {past : List Event}

theorem bindDeposit_openFees {key : Word} {message : String} (bound : bindDeposit state key fee message = .ok next) :
    openFees next.feeBinding = openFees state.feeBinding + fee.toNat ∧ next.balance = state.balance := by
  simp only [bindDeposit, bind_eq_ok, require_eq_ok, pure_eq_ok] at bound
  obtain ⟨_, free, same⟩ := bound
  subst same
  have moved := total_update DepositFeeState.openFee state.feeBinding key ⟨fee, 1, 0⟩
  simp only [DepositFeeState.openFee, free, zero_ne_one, false_and, if_false, and_self, if_true, add_zero] at moved
  exact ⟨moved, rfl⟩

theorem checkedDouble_eq_ok {value double : Word} (doubled : checkedDouble value = .ok double) :
    double.toNat = 2 * value.toNat := by
  simp only [checkedDouble, bind_eq_ok, require_eq_ok, pure_eq_ok] at doubled
  obtain ⟨_, fits, same⟩ := doubled
  rw [← same, BitVec.toNat_mul]
  exact Nat.mod_eq_of_lt fits

theorem escrowFunds_openFees (env : Environment) {tokenId value secretHash : Word}
    (escrowed : escrowFunds env call state fee ercAddress tokenId value secretHash tokenType = .ok next) :
    next.balance = state.balance + call.value.toNat ∧ openFees next.feeBinding + (call.value.toNat - 2 * fee.toNat) ≤
        openFees state.feeBinding + call.value.toNat := by
  simp only [escrowFunds, bind_eq_ok, require_eq_ok] at escrowed
  obtain ⟨_, _, _, _, valueBound, bound, _, transferred, double, doubled, _, paid, topUp⟩ := escrowed
  obtain ⟨valueFee, balance⟩ := bindDeposit_openFees bound
  obtain ⟨_, rfl, _⟩ := transferIn_eq_ok env transferred
  change openFees valueBound.feeBinding = openFees state.feeBinding + fee.toNat at valueFee
  have twice := checkedDouble_eq_ok doubled
  have enough : call.value.toNat = fee.toNat ∨ double.toNat ≤ call.value.toNat :=
    paid.imp (congrArg BitVec.toNat) id
  split at topUp
  · rename_i more
    have exceeds : double.toNat < call.value.toNat := more
    obtain ⟨topUpFee, kept⟩ := bindDeposit_openFees topUp
    dsimp only at topUpFee
    exact ⟨kept.trans balance, by omega⟩
  · rename_i exact_
    rw [pure_eq_ok] at topUp
    subst topUp
    refine ⟨balance, ?_⟩
    dsimp only
    omega

theorem checkedAdd_eq_ok {left right sum : Word} (added : checkedAdd left right = .ok sum) :
    sum.toNat = left.toNat + right.toNat := by
  simp only [checkedAdd, bind_eq_ok, require_eq_ok, pure_eq_ok] at added
  obtain ⟨_, fits, same⟩ := added
  rw [← same, BitVec.toNat_add]
  exact Nat.mod_eq_of_lt fits

theorem redeemWord_openFees {next : Ledger} {word : Word} (redeemed : redeemWord ledger word = .ok next) :
    openFees next.feeBinding + next.totalFee.toNat = openFees ledger.feeBinding + ledger.totalFee.toNat := by
  simp only [redeemWord] at redeemed
  split at redeemed
  · rw [pure_eq_ok] at redeemed
    rw [redeemed]
  · simp only [bind_eq_ok, require_eq_ok, pure_eq_ok] at redeemed
    obtain ⟨sum, added, _, pending, same⟩ := redeemed
    subst same
    have moved := total_update DepositFeeState.openFee ledger.feeBinding word
      ⟨(ledger.feeBinding word).fee, (ledger.feeBinding word).escrowed, 1⟩
    have held : (ledger.feeBinding word).openFee = (ledger.feeBinding word).fee.toNat :=
      if_pos pending
    have released : (DepositFeeState.mk (ledger.feeBinding word).fee
        (ledger.feeBinding word).escrowed 1).openFee = 0 := if_neg fun both => one_ne_zero both.2
    simp only [openFees, checkedAdd_eq_ok added]
    omega

theorem handleTransaction_openFees (env : Environment) {next : Ledger} {transaction : OnChainTransaction}
    (handled : handleTransaction env ledger transaction = .ok next) :
    openFees next.feeBinding + next.totalFee.toNat = openFees ledger.feeBinding + ledger.totalFee.toNat := by
  simp only [handleTransaction] at handled
  split at handled
  · split at handled
    · rw [pure_eq_ok] at handled
      rw [handled]
    · exact foldlM_keeps (fun current => openFees current.feeBinding + current.totalFee.toNat)
        (fun _ _ _ => redeemWord_openFees) _ ledger next handled
  · split at handled
    · simp only [recordWithdrawal, bind_eq_ok, require_eq_ok, pure_eq_ok] at handled
      obtain ⟨_, _, same⟩ := handled
      rw [← same]
    · rw [pure_eq_ok] at handled
      rw [handled]

theorem dispatched_openFees (env : Environment) {transactions : List OnChainTransaction} {result : Ledger}
    (dispatched : transactions.foldlM (handleTransaction env) ledger = .ok result) :
    openFees result.feeBinding + result.totalFee.toNat = openFees ledger.feeBinding + ledger.totalFee.toNat :=
  foldlM_keeps (fun current => openFees current.feeBinding + current.totalFee.toNat)
    (fun _ _ _ => handleTransaction_openFees env) transactions ledger result dispatched

def FeeFree (env : Environment) (state : State) (blk : Block) : Prop :=
  ∀ totalFee, verifyRollupProof env state blk (blockHash env blk) = .ok (true, totalFee) → totalFee = 0

def Funded (past : List Event) (state : State) : Prop :=
  openFees state.feeBinding + depositFees past ≤ state.balance

theorem funded_initial (env : Environment) (nullifierRoot commitmentRoot historicRootsRoot blockNumber : Word) :
    Funded [] (env.initializeState nullifierRoot commitmentRoot historicRootsRoot blockNumber) := by
  have closed : openFees (fun _ => ⟨0, 0, 0⟩) = 0 := total_eq_zero _ _ fun _ => rfl
  exact le_of_eq (congrArg (· + 0) closed)

section

variable (env : Environment) (funded : Funded past state)
include env funded

theorem funded_escrow {tokenId value secretHash : Word}
    (escrowed : escrowFunds env call state fee ercAddress tokenId value secretHash tokenType = .ok next) :
    Funded (past ++ [⟨state, .escrowFunds call fee ercAddress tokenId value secretHash tokenType, next⟩]) next := by
  obtain ⟨balance, split⟩ := escrowFunds_openFees env escrowed
  simp only [Funded, depositFees_concat, depositFee] at funded ⊢
  omega

theorem payment_covered {blk : Block}
    (dispatched : blk.transactions.foldlM (handleTransaction env) ⟨state.feeBinding, state.withdrawalIncluded, 0⟩ =
      .ok ledger) :
    openFees ledger.feeBinding + depositFees past + ledger.totalFee.toNat ≤ state.balance := by
  have moved : openFees ledger.feeBinding + ledger.totalFee.toNat = openFees state.feeBinding + 0 :=
    dispatched_openFees env dispatched
  simp only [Funded] at funded
  omega

theorem funded_propose {blk : Block} (feeFree : FeeFree env state blk)
    (accepted : proposeBlock env call state blk = .ok next) :
    Funded (past ++ [⟨state, .proposeBlock call blk, next⟩]) next := by
  rw [proposeBlock_eq_ok] at accepted
  obtain ⟨_, totalFee, ledger, verified, dispatched, _, same⟩ := accepted
  have free := feeFree totalFee verified
  subst free same
  have covered := payment_covered env funded dispatched
  simp only [Funded, depositFees_concat, depositFee, afterBlock]
  omega

end

section

variable (env : Environment) (nullifierRoot commitmentRoot historicRootsRoot blockNumber : Word)
  (actions : List Action)

/-- In a run of escrows and of blocks whose own transactions pay no fee, the balance covers
the open fees and all top-ups, and therefore every payment of redeemed deposit fees. -/
theorem deposit_fees_covered (noDescrow : ∀ event ∈ trace (step env)
      (env.initializeState nullifierRoot commitmentRoot historicRootsRoot blockNumber) actions,
      ∀ call withdrawal tokenType, event.action ≠ .descrowFunds call withdrawal tokenType)
    (feeFree : ∀ event ∈ trace (step env)
      (env.initializeState nullifierRoot commitmentRoot historicRootsRoot blockNumber) actions,
      ∀ call blk, event.action = .proposeBlock call blk → FeeFree env event.before blk) :
    let past := trace (step env)
      (env.initializeState nullifierRoot commitmentRoot historicRootsRoot blockNumber) actions
    let state := run (step env)
      (env.initializeState nullifierRoot commitmentRoot historicRootsRoot blockNumber) actions
    openFees state.feeBinding + depositFees past ≤ state.balance ∧ ∀ call blk ledger, Admitted call state blk →
        verifyRollupProof env state blk (blockHash env blk) = .ok (true, 0) →
        blk.transactions.foldlM (handleTransaction env)
          ⟨state.feeBinding, state.withdrawalIncluded, 0⟩ = .ok ledger →
        proposeBlock env call state blk = .ok (afterBlock state blk ledger) := by
  intro past state
  have funded : Funded past state := by
    refine invariant_run (step env) Funded actions [] _
      (funded_initial env nullifierRoot commitmentRoot historicRootsRoot blockNumber) ?_
    rintro past ⟨before, action, after⟩ member funded stepped
    cases action with
    | escrowFunds call fee ercAddress tokenId value secretHash tokenType =>
      exact funded_escrow env funded stepped
    | descrowFunds call withdrawal tokenType =>
      exact absurd rfl (noDescrow _ member call withdrawal tokenType)
    | proposeBlock call blk =>
      exact funded_propose env funded (feeFree _ member call blk rfl) stepped
  refine ⟨funded, ?_⟩
  intro call blk ledger admitted verified dispatched
  have covered := payment_covered env funded dispatched
  rw [proposeBlock_eq_ok]
  exact ⟨admitted, 0, ledger, verified, dispatched, by omega, rfl⟩

end

theorem sampleBlock_feeFree (state : State) (number : Word) :
    FeeFree sampleEnvironment state (sampleBlock number) := by
  intro totalFee verified
  rw [verifyRollupProof_nova _ _ (Or.inl rfl)] at verified
  have none : feeSum (sampleBlock number).transactions = .ok 0 := by
    simp only [sampleBlock]
    decide +kernel
  rw [none, Except.ok.injEq] at verified
  exact verified.1.symm

def fundedRun : List Action :=
  [.escrowFunds { sampleCall with value := 7, tokenCall := fun _ _ => some true } 2 99 0 50 8 .erc20,
    .proposeBlock sampleCall (sampleBlock 0)]

theorem deposit_fees_covered_sample : depositFees (trace (step sampleEnvironment) sampleState fundedRun) = 3 ∧
      openFees (run (step sampleEnvironment) sampleState fundedRun).feeBinding + 3 ≤
        (run (step sampleEnvironment) sampleState fundedRun).balance := by
  have three : depositFees (trace (step sampleEnvironment) sampleState fundedRun) = 3 := by
    decide +kernel
  have covered := deposit_fees_covered sampleEnvironment 0 0 0 0 fundedRun (by
    intro event member call withdrawal tokenType
    have listed := (mem_trace _ _ _ event member).1
    rcases List.mem_pair.mp listed with called | called <;> simp [called]) (by
    intro event member call blk called
    have listed := (mem_trace _ _ _ event member).1
    rw [called] at listed
    rcases List.mem_pair.mp listed with other | same
    · cases other
    · rw [(Action.proposeBlock.inj same).2]
      exact sampleBlock_feeFree event.before 0)
  refine ⟨three, ?_⟩
  have balanced := covered.1
  rw [show depositFees (trace (step sampleEnvironment)
    (sampleEnvironment.initializeState 0 0 0 0) fundedRun) = 3 from three] at balanced
  exact balanced

/-- What the calls of `escrow_funds` do to the holdings of a token contract that keeps to its standard. -/
inductive TokenCall.Executed : TokenCall → (Word → Address → ℕ) → (Word → Address → ℕ) → Prop where
  | erc20 {sender recipient : Address} {value : Word} {before after : Word → Address → ℕ}
      (sent : after 0 sender + value.toNat = before 0 sender)
      (received : after 0 recipient = before 0 recipient + value.toNat) :
      Executed (.erc20 sender recipient value) before after
  | erc721 {sender recipient : Address} {tokenId : Word} {before after : Word → Address → ℕ}
      (single : before tokenId sender = 1) (sent : after tokenId sender = 0)
      (received : after tokenId recipient = before tokenId recipient + 1) :
      Executed (.erc721 sender recipient tokenId) before after
  | erc1155 {sender recipient : Address} {tokenId value : Word} {before after : Word → Address → ℕ}
      (sent : after tokenId sender + value.toNat = before tokenId sender)
      (received : after tokenId recipient = before tokenId recipient + value.toNat) :
      Executed (.erc1155 sender recipient tokenId value) before after
  | erc3525 {sender recipient : Address} {tokenId : Word} {before after : Word → Address → ℕ}
      (sent : after tokenId sender = 0)
      (received : after tokenId recipient = before tokenId recipient + before tokenId sender) :
      Executed (.erc3525 sender recipient tokenId) before after

theorem escrow_value_moved_iff (env : Environment) {call : Call} {state next : State} {tokenType : TokenType}
    {ercAddress : Address} {fee tokenId value secretHash : Word}
    (escrowed : escrowFunds env call state fee ercAddress tokenId value secretHash tokenType = .ok next) :
    (∃ nfSlotId, (next.feeBinding (env.sha256AndShift (DepositCommitment.encode
      ⟨env.sha256AndShift (abiEncode [addressWord ercAddress, tokenId]), nfSlotId, value, secretHash⟩))).escrowed = 1) ∧
    ∃ made, next.transfers = state.transfers ++ [.token ercAddress made] ∧
      ∀ before after : Word → Address → ℕ, made.Executed before after →
        (after tokenId call.sender + value.toNat = before tokenId call.sender ∧
            after tokenId env.self = before tokenId env.self + value.toNat ↔
          tokenType = .erc20 ∨ tokenType = .erc1155 ∨
            tokenType = .erc3525 ∧ value.toNat = before tokenId call.sender) := by
  simp only [escrowFunds, bind_eq_ok, require_eq_ok] at escrowed
  obtain ⟨_, _, slot, _, valueBound, bound, _, transferred, _, _, _, _, topUp⟩ := escrowed
  simp only [bindDeposit, bind_eq_ok, require_eq_ok, pure_eq_ok] at bound
  obtain ⟨_, _, rfl⟩ := bound
  obtain ⟨made, rfl, isCall⟩ := transferIn_eq_ok env transferred
  refine ⟨⟨if tokenType = .erc3525 then env.chain.keccak256 (abiEncode [addressWord ercAddress, slot]) >>> 4
      else env.sha256AndShift (abiEncode [addressWord ercAddress, tokenId]), ?_⟩, made, ?_,
        fun before after executed => ?_⟩
  · split at topUp
    · -- the second key was free, so it is another one
      rcases bindDeposit_bindsFresh topUp _ with same | ⟨_, _, taken⟩
      · rw [same]
        simp
      · rw [taken]
    · obtain rfl := (pure_eq_ok _ _).mp topUp
      simp
  · split at topUp
    · simp only [bindDeposit, bind_eq_ok, require_eq_ok, pure_eq_ok] at topUp
      obtain ⟨_, _, rfl⟩ := topUp
      rfl
    · obtain rfl := (pure_eq_ok _ _).mp topUp
      rfl
  · rcases isCall with ⟨rfl, rfl, rfl⟩ | ⟨rfl, rfl, rfl⟩ | ⟨rfl, rfl⟩ | ⟨rfl, rfl⟩
    · cases executed with
      | erc20 sent received => simpa using ⟨sent, received⟩
    · cases executed with
      | erc721 single sent received =>
        simp
        omega
    · cases executed with
      | erc1155 sent received => simpa using ⟨sent, received⟩
    · cases executed with
      | erc3525 sent received =>
        simp
        omega

theorem escrow_value_moved_iff_erc20 : let before : Word → Address → ℕ := fun _ a => if a = 11 then 60 else 0
    let after : Word → Address → ℕ := fun _ a => if a = 11 then 10 else 50
    ∃ next, escrowFunds sampleEnvironment { sampleCall with tokenCall := fun _ _ => some true } sampleState 0 99 0 50 8
        .erc20 = .ok next ∧ next.transfers = [.token 99 (.erc20 11 5 50)] ∧
      (TokenCall.erc20 11 5 50).Executed before after ∧ after 0 11 + 50 = before 0 11 ∧
        after 0 5 = before 0 5 + 50 := by
  intro before after
  have executed : (TokenCall.erc20 11 5 50).Executed before after := .erc20 (by decide) (by decide)
  obtain ⟨next, escrowed, isTransfer⟩ : ∃ next, escrowFunds sampleEnvironment
      { sampleCall with tokenCall := fun _ _ => some true } sampleState 0 99 0 50 8 .erc20 = .ok next ∧
        next.transfers = [.token 99 (.erc20 11 5 50)] := ⟨_, rfl, rfl⟩
  obtain ⟨_, made, isMade, moved⟩ := escrow_value_moved_iff sampleEnvironment escrowed
  obtain rfl : TokenCall.erc20 11 5 50 = made := by
    rw [isTransfer] at isMade
    simpa [sampleState, Environment.initializeState] using isMade
  exact ⟨next, escrowed, isTransfer, executed, (moved before after executed).mpr (.inl rfl)⟩

/-- The deposit of an ERC3525 token of value 1 is recorded at 1000. -/
theorem escrow_value_overstated : ∃ next, ∃ before after : Word → Address → ℕ,
    escrowFunds sampleEnvironment { sampleCall with slotOf := fun _ _ => some 6, tokenCall := fun _ _ => some true }
      sampleState 0 99 7 1000 8 .erc3525 = .ok next ∧ next.transfers = [.token 99 (.erc3525 11 5 7)] ∧
    (TokenCall.erc3525 11 5 7).Executed before after ∧
      before 7 11 = 1 ∧ after 7 11 = 0 ∧ after 7 5 = before 7 5 + 1 :=
  ⟨_, fun _ a => if a = 11 then 1 else 0, fun _ a => if a = 11 then 0 else 1, rfl, rfl,
    .erc3525 (by decide) (by decide), by decide⟩

end Nightfall.Contract
