import Nightfall.Contract.Deposits

/-! Withdrawals over whole runs. An accepted block records each withdrawal under
the hash of its data, and `descrow_funds` clears the record before it pays. The call
that pays is chosen by the type that the caller passes, not by the stored one. -/

namespace Nightfall.Contract

open Revert Runs List Function

/-- The transfer of the recorded asset to the recipient. -/
def owed (env : Environment) (state : State) (withdrawal : WithdrawData) : Transfer :=
  let original := state.tokenIdMapping withdrawal.nfTokenId
  match original.tokenType with
  | .feeToken => .native withdrawal.recipientAddress withdrawal.value
  | .erc20 => .token original.ercAddress (.erc20 env.self withdrawal.recipientAddress withdrawal.value)
  | .erc721 => .token original.ercAddress (.erc721 env.self withdrawal.recipientAddress original.tokenId)
  | .erc1155 => .token original.ercAddress
      (.erc1155 env.self withdrawal.recipientAddress original.tokenId withdrawal.value)
  | .erc3525 => .token original.ercAddress
      (.erc3525Value original.tokenId withdrawal.recipientAddress withdrawal.value)

def Mapped (state : State) (nfTokenId : Word) : Prop :=
  (state.tokenIdMapping nfTokenId).ercAddress ≠ 0

variable {state : State} {withdrawal : WithdrawData}

theorem descrowFunds_pays (env : Environment) {call : Call} {next : State} {tokenType : TokenType}
    (mapped : Mapped state withdrawal.nfTokenId)
    (descrowed : descrowFunds env call state withdrawal tokenType = .ok next) :
    next.transfers = state.transfers ++ [owed env state withdrawal] ↔
      tokenType = (state.tokenIdMapping withdrawal.nfTokenId).tokenType ∧ tokenType ≠ .feeToken := by
  simp only [Mapped] at mapped
  simp only [descrowFunds, bind_eq_ok, require_eq_ok, if_neg mapped] at descrowed
  obtain ⟨_, _, _, _, descrowed⟩ := descrowed
  simp only [owed]
  generalize (state.tokenIdMapping withdrawal.nfTokenId).tokenType = stored
  cases tokenType <;>
    simp only [bind_eq_ok, pure_eq_ok, require_eq_ok, Prod.exists, callToken_eq_ok] at descrowed
  case erc721 =>
    obtain ⟨_, _, _, _, ⟨_, rfl⟩, rfl⟩ := descrowed
    cases stored <;> simp
  case erc20 =>
    obtain ⟨_, _, _, _, ⟨_, rfl⟩, _, _, rfl⟩ := descrowed
    cases stored <;> simp
  case erc3525 | erc1155 =>
    obtain ⟨_, _, ⟨_, rfl⟩, rfl⟩ := descrowed
    cases stored <;> simp
  case feeToken =>
    subst descrowed
    cases stored <;> simp

def OnChainTransaction.records (transaction : OnChainTransaction) : List WithdrawData :=
  if transaction.nullifiers.get 0 = 0 then []
  else if transaction.commitments.get 0 = 0 then [transaction.withdrawData] else []

def recorded (event : Event) : List WithdrawData :=
  match event.action with
  | .proposeBlock _ blk => blk.transactions.flatMap OnChainTransaction.records
  | _ => []

def claimed (event : Event) : List WithdrawData :=
  match event.action with
  | .descrowFunds _ withdrawal _ => [withdrawal]
  | _ => []

def withdrawalKey (env : Environment) (withdrawal : WithdrawData) : Word :=
  env.chain.keccak256 withdrawal.encode

def CollisionFree (env : Environment) (withdrawals : List WithdrawData) : Prop :=
  ∀ first ∈ withdrawals, ∀ second ∈ withdrawals, withdrawalKey env first = withdrawalKey env second → first = second

theorem descrowFunds_consumes (env : Environment) {call : Call} {next : State} {tokenType : TokenType}
    (descrowed : descrowFunds env call state withdrawal tokenType = .ok next) :
    state.withdrawalIncluded (withdrawalKey env withdrawal) = 1 ∧
      next.withdrawalIncluded = update state.withdrawalIncluded (withdrawalKey env withdrawal) 0 := by
  obtain ⟨included, _, _, rfl⟩ := descrowFunds_changes env descrowed
  exact ⟨included, rfl⟩

theorem descrowFunds_feeToken (env : Environment) (call : Call) (certified : onlyCertified call = .ok ())
    (included : state.withdrawalIncluded (withdrawalKey env withdrawal) = 1)
    (mapped : Mapped state withdrawal.nfTokenId) :
    descrowFunds env call state withdrawal .feeToken = .ok { state with
      balance := state.balance + call.value.toNat
      withdrawalIncluded :=
        update state.withdrawalIncluded (withdrawalKey env withdrawal) 0 } := by
  simp only [withdrawalKey, Mapped] at included mapped
  simp only [descrowFunds, certified, included, require, withdrawalKey, bind, Except.bind, if_true, if_neg mapped]
  rfl

section

variable (env : Environment) {all : List WithdrawData} (distinct : CollisionFree env all)

include distinct

theorem update_at_key (mapping : Word → Nat) {withdrawal other : WithdrawData}
    (member : withdrawal ∈ all) (otherMember : other ∈ all) (value : Nat) :
    update mapping (withdrawalKey env other) value (withdrawalKey env withdrawal) =
      if withdrawal = other then value else mapping (withdrawalKey env withdrawal) := by
  by_cases same : withdrawal = other
  · rw [same, update_self, if_pos rfl]
  · rw [if_neg same, update_of_ne fun keys =>
      same (distinct withdrawal member other otherMember keys)]

theorem handleTransaction_records {ledger next : Ledger} {transaction : OnChainTransaction}
    (listed : ∀ withdrawal ∈ transaction.records, withdrawal ∈ all)
    (handled : handleTransaction env ledger transaction = .ok next) {withdrawal : WithdrawData}
    (member : withdrawal ∈ all) : next.withdrawalIncluded (withdrawalKey env withdrawal) =
      ledger.withdrawalIncluded (withdrawalKey env withdrawal) + transaction.records.count withdrawal := by
  simp only [handleTransaction] at handled
  split at handled
  · rename_i deposit
    have none : transaction.records = [] := if_pos deposit
    rw [none, count_nil, Nat.add_zero]
    split at handled
    · rw [pure_eq_ok] at handled
      rw [handled]
    · apply congrFun
      refine foldlM_keeps Ledger.withdrawalIncluded ?_ _ ledger next handled
      intro state word after redeemed
      simp only [redeemWord] at redeemed
      split at redeemed
      · rw [(pure_eq_ok _ _).mp redeemed]
      · simp only [bind_eq_ok, require_eq_ok, pure_eq_ok] at redeemed
        obtain ⟨_, _, _, _, rfl⟩ := redeemed
        rfl
  · rename_i spends
    split at handled
    · rename_i withdraws
      have one : transaction.records = [transaction.withdrawData] := by
        rw [OnChainTransaction.records, if_neg spends, if_pos withdraws]
      simp only [recordWithdrawal, bind_eq_ok, require_eq_ok, pure_eq_ok] at handled
      obtain ⟨_, free, same⟩ := handled
      have written := update_at_key env distinct ledger.withdrawalIncluded member
        (listed transaction.withdrawData (by simp [one])) 1
      rw [one, ← same, count_singleton]
      by_cases isIt : withdrawal = transaction.withdrawData
      · rw [if_pos isIt] at written
        rw [isIt]
        simp [withdrawalKey, free]
      · rw [if_neg isIt] at written
        rw [if_neg (by simpa using Ne.symm isIt)]
        exact written
    · rename_i transfers
      have none : transaction.records = [] := by
        rw [OnChainTransaction.records, if_neg spends, if_neg transfers]
      rw [pure_eq_ok] at handled
      rw [none, count_nil, Nat.add_zero, handled]

theorem dispatched_records (transactions : List OnChainTransaction) :
    ∀ ledger result : Ledger, transactions.foldlM (handleTransaction env) ledger = .ok result →
      (∀ withdrawal ∈ transactions.flatMap OnChainTransaction.records, withdrawal ∈ all) →
      ∀ withdrawal ∈ all, result.withdrawalIncluded (withdrawalKey env withdrawal) =
        ledger.withdrawalIncluded (withdrawalKey env withdrawal) +
          (transactions.flatMap OnChainTransaction.records).count withdrawal := by
  apply foldlM_relates
  · simp
  · intro transaction rest ledger next result first ih listed withdrawal member
    rw [flatMap_cons] at listed ⊢
    have here := handleTransaction_records env distinct
      (fun withdrawal inside => listed withdrawal (mem_append_left _ inside)) first member
    rw [ih (fun withdrawal inside => listed withdrawal (mem_append_right _ inside)) withdrawal member, here,
      count_append, Nat.add_assoc]

def Balanced (env : Environment) (all : List WithdrawData) (past : List Event) (state : State) : Prop :=
  ∀ withdrawal ∈ all, state.withdrawalIncluded (withdrawalKey env withdrawal) +
    (past.flatMap claimed).count withdrawal = (past.flatMap recorded).count withdrawal

theorem balanced_step {past : List Event} {state next : State} {action : Action}
    (listed : ∀ withdrawal ∈ recorded ⟨state, action, next⟩ ++ claimed ⟨state, action, next⟩, withdrawal ∈ all)
    (balanced : Balanced env all past state) (stepped : step env state action = .ok next) :
    Balanced env all (past ++ [⟨state, action, next⟩]) next := by
  intro withdrawal member
  have before := balanced withdrawal member
  simp only [flatMap_append, flatMap_singleton, count_append]
  cases action with
  | escrowFunds call fee ercAddress tokenId value secretHash tokenType =>
    obtain ⟨_, _, _, _, _, rfl⟩ := escrowFunds_changes env stepped
    simpa [recorded, claimed] using before
  | descrowFunds call other tokenType =>
    obtain ⟨included, cleared⟩ := descrowFunds_consumes env stepped
    have written := update_at_key env distinct state.withdrawalIncluded member (listed other (by simp [claimed])) 0
    simp only [cleared, written, recorded, claimed, count_nil, count_singleton, Nat.add_zero]
    by_cases isIt : withdrawal = other
    · subst isIt
      simp only [beq_self_eq_true, if_true]
      omega
    · rw [if_neg isIt, if_neg (by simpa using Ne.symm isIt)]
      exact before
  | proposeBlock call blk =>
    rw [step, proposeBlock_eq_ok] at stepped
    obtain ⟨_, totalFee, ledger, _, dispatched, _, same⟩ := stepped
    have raised := dispatched_records env distinct blk.transactions _ ledger dispatched
      (fun withdrawal inside => listed withdrawal (mem_append_left _ inside)) withdrawal member
    have after : next.withdrawalIncluded = ledger.withdrawalIncluded := by rw [same]; rfl
    simp only [after, raised, recorded, claimed, count_nil, Nat.add_zero]
    omega

end

/-- Every successful claim of a mapped token pays what is owed and consumes its record,
and at no point have there been more claims of a withdrawal than records of it. -/
structure WithdrawalsPaid (env : Environment) (run : List Event) : Prop where
  paid : ∀ event ∈ run, ∀ call withdrawal tokenType, event.action = .descrowFunds call withdrawal tokenType →
    Mapped event.before withdrawal.nfTokenId →
    event.after.transfers = event.before.transfers ++ [owed env event.before withdrawal]
  consumed : ∀ event ∈ run, ∀ call withdrawal tokenType, event.action = .descrowFunds call withdrawal tokenType →
    event.before.withdrawalIncluded (withdrawalKey env withdrawal) = 1 ∧
      event.after.withdrawalIncluded (withdrawalKey env withdrawal) = 0
  once : ∀ earlier later, run = earlier ++ later → ∀ withdrawal,
    (earlier.flatMap claimed).count withdrawal ≤ (earlier.flatMap recorded).count withdrawal

section

variable (env : Environment) (nullifierRoot commitmentRoot historicRootsRoot blockNumber : Word)
  (actions : List Action)

/-- The claims of a run pay their records exactly when each of them passes the stored type
and none is for the fee token. -/
theorem withdrawals_paid_iff (distinct : CollisionFree env ((trace (step env)
      (env.initializeState nullifierRoot commitmentRoot historicRootsRoot blockNumber)
      actions).flatMap fun event => recorded event ++ claimed event)) :
    WithdrawalsPaid env (trace (step env)
      (env.initializeState nullifierRoot commitmentRoot historicRootsRoot blockNumber) actions) ↔
    ∀ event ∈ trace (step env)
      (env.initializeState nullifierRoot commitmentRoot historicRootsRoot blockNumber) actions,
      ∀ call withdrawal tokenType, event.action = .descrowFunds call withdrawal tokenType →
      Mapped event.before withdrawal.nfTokenId →
      tokenType = (event.before.tokenIdMapping withdrawal.nfTokenId).tokenType ∧ tokenType ≠ .feeToken := by
  have pays : ∀ event ∈ trace (step env)
      (env.initializeState nullifierRoot commitmentRoot historicRootsRoot blockNumber) actions,
      ∀ call withdrawal tokenType, event.action = .descrowFunds call withdrawal tokenType →
      descrowFunds env call event.before withdrawal tokenType = .ok event.after := by
    intro event member call withdrawal tokenType called
    have descrowed := (mem_trace (step env) _ actions event member).2
    rwa [called] at descrowed
  constructor
  · intro sound event member call withdrawal tokenType called mapped
    exact (descrowFunds_pays env mapped (pays event member call withdrawal tokenType called)).mp
      (sound.paid event member call withdrawal tokenType called mapped)
  · intro typed
    refine ⟨?_, ?_, ?_⟩
    · intro event member call withdrawal tokenType called mapped
      exact (descrowFunds_pays env mapped (pays event member call withdrawal tokenType called)).mpr
        (typed event member call withdrawal tokenType called mapped)
    · intro event member call withdrawal tokenType called
      obtain ⟨included, cleared⟩ := descrowFunds_consumes env (pays event member call withdrawal tokenType called)
      exact ⟨included, by rw [cleared, update_self]⟩
    · intro earlier later split withdrawal
      by_cases ever : withdrawal ∈ earlier.flatMap claimed
      · obtain ⟨event, member, inside⟩ := mem_flatMap.mp ever
        have inRun : event ∈ trace (step env)
            (env.initializeState nullifierRoot commitmentRoot historicRootsRoot blockNumber)
            actions := by
          rw [split]
          exact mem_append_left _ member
        obtain ⟨reached, balanced, _⟩ := invariant_prefix (step env) (Balanced env _) actions _
          (fun _ _ => rfl) (fun past event member => balanced_step env distinct fun other listed =>
            mem_flatMap.mpr ⟨event, member, listed⟩) earlier later split
        have account := balanced withdrawal (mem_flatMap.mpr ⟨event, inRun, mem_append_right _ inside⟩)
        omega
      · rw [count_eq_zero_of_not_mem ever]
        exact Nat.zero_le _

end

def feeWithdrawal : OnChainTransaction :=
  ⟨0, Vector.replicate 4 0, #v[9, 0, 0, 0], #v[sampleState.feeId, 42, 1000, 0]⟩

def feeWithdrawalBlock : Block :=
  { sampleBlock 0 with transactions := feeWithdrawal :: List.replicate 63 dummyTransaction }

def feeWithdrawalLedger : Ledger :=
  ⟨sampleState.feeBinding, update sampleState.withdrawalIncluded
    (withdrawalKey sampleEnvironment feeWithdrawal.withdrawData) 1, 0⟩

def feeWithdrawalState : State := afterBlock sampleState feeWithdrawalBlock feeWithdrawalLedger

theorem feeWithdrawalBlock_accepted :
    proposeBlock sampleEnvironment sampleCall sampleState feeWithdrawalBlock = .ok feeWithdrawalState :=
  firstBlock_accepted rfl (by decide +kernel) rfl (by decide)

def feeClaim (tokenType : TokenType) : Action :=
  .descrowFunds sampleCall feeWithdrawal.withdrawData tokenType

def feeClaimedState : State :=
  { feeWithdrawalState with
    withdrawalIncluded := update feeWithdrawalState.withdrawalIncluded
      (withdrawalKey sampleEnvironment feeWithdrawal.withdrawData) 0 }

theorem feeToken_mapped : Mapped feeWithdrawalState feeWithdrawal.withdrawData.nfTokenId := by
  simp only [Mapped]
  decide +kernel

theorem feeClaim_accepted : descrowFunds sampleEnvironment sampleCall feeWithdrawalState feeWithdrawal.withdrawData
    .feeToken = .ok feeClaimedState := by
  have included : feeWithdrawalState.withdrawalIncluded
      (withdrawalKey sampleEnvironment feeWithdrawal.withdrawData) = 1 := by
    simp [feeWithdrawalState, afterBlock, feeWithdrawalLedger]
  have claimed := descrowFunds_feeToken sampleEnvironment sampleCall rfl included feeToken_mapped
  exact claimed

theorem feeClaim_trace : trace (step sampleEnvironment) sampleState
        [.proposeBlock sampleCall feeWithdrawalBlock, feeClaim .feeToken] =
      [⟨sampleState, .proposeBlock sampleCall feeWithdrawalBlock, feeWithdrawalState⟩,
        ⟨feeWithdrawalState, feeClaim .feeToken, feeClaimedState⟩] := by
  have proposed : step sampleEnvironment sampleState
      (.proposeBlock sampleCall feeWithdrawalBlock) = .ok feeWithdrawalState :=
    feeWithdrawalBlock_accepted
  have descrowed : step sampleEnvironment feeWithdrawalState (feeClaim .feeToken) = .ok feeClaimedState :=
    feeClaim_accepted
  rw [trace_cons_ok _ proposed, trace_cons_ok _ descrowed, trace]

/-- A recorded withdrawal of 1000 units of the fee token is consumed and pays nothing. -/
theorem fee_withdrawal_unpaid : ¬ WithdrawalsPaid sampleEnvironment (trace (step sampleEnvironment) sampleState
      [.proposeBlock sampleCall feeWithdrawalBlock, feeClaim .feeToken]) := by
  intro sound
  rw [feeClaim_trace] at sound
  have paid := sound.paid _ (mem_cons_of_mem _ mem_cons_self) sampleCall
    feeWithdrawal.withdrawData .feeToken rfl feeToken_mapped
  exact ((descrowFunds_pays sampleEnvironment feeToken_mapped feeClaim_accepted).mp paid).2 rfl

/-- Block and claim list the same withdrawal, so the condition applies and fails. -/
theorem withdrawals_paid_iff_sample : WithdrawalsPaid sampleEnvironment (trace (step sampleEnvironment) sampleState
      [.proposeBlock sampleCall feeWithdrawalBlock, feeClaim .feeToken]) ↔
    ∀ event ∈ trace (step sampleEnvironment) sampleState
      [.proposeBlock sampleCall feeWithdrawalBlock, feeClaim .feeToken],
      ∀ call withdrawal tokenType, event.action = .descrowFunds call withdrawal tokenType →
      Mapped event.before withdrawal.nfTokenId →
      tokenType = (event.before.tokenIdMapping withdrawal.nfTokenId).tokenType ∧ tokenType ≠ .feeToken := by
  apply withdrawals_paid_iff sampleEnvironment 0 0 0 0
  have only : ∀ withdrawal ∈ (trace (step sampleEnvironment) sampleState
      [.proposeBlock sampleCall feeWithdrawalBlock, feeClaim .feeToken]).flatMap
        (fun event => recorded event ++ claimed event), withdrawal = feeWithdrawal.withdrawData := by
    decide +kernel
  intro first firstMember second secondMember _
  rw [only first firstMember, only second secondMember]

end Nightfall.Contract
