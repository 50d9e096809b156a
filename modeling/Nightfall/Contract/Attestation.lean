import Mathlib.Data.List.Nodup
import Nightfall.Contract.ProposeBlock

/-! What an attested Nova proof authorises. -/

namespace Nightfall.Contract

open Revert Runs List

variable (transaction : OnChainTransaction)

def Block.IsNova (blk : Block) : Prop :=
  blk.rollupProof.head? = some 2 ∨ blk.rollupProof.head? = some 3

instance (blk : Block) : Decidable blk.IsNova := inferInstanceAs (Decidable (_ ∨ _))

variable {blk : Block} {call : Call} {state : State} {transactions : List OnChainTransaction}

theorem isNova_cases (nova : blk.IsNova) : ∃ id proof, blk.rollupProof = id :: proof ∧ (id = 2 ∨ id = 3) := by
  cases tagged : blk.rollupProof with
  | nil => simp [Block.IsNova, tagged] at nova
  | cons id proof => exact ⟨id, proof, rfl, by simpa [Block.IsNova, tagged] using nova⟩

theorem verifyRollupProof_nova (env : Environment) (state : State)
    (nova : blk.IsNova) (publicHash fee : Word) (valid : Bool) :
    verifyRollupProof env state blk publicHash = .ok (valid, fee) ↔ feeSum blk.transactions = .ok fee ∧
        env.router.verify env.chain blk.rollupProof (novaPublicInputs blk) = .ok valid := by
  obtain ⟨id, proof, tagged, twoOrThree⟩ := isNova_cases nova
  have notPlonk : id ≠ 1 := by
    rcases twoOrThree with rfl | rfl <;> decide
  cases valid <;> simp [verifyRollupProof, tagged, notPlonk, twoOrThree, and_comm]

structure SameDispatch (left right : OnChainTransaction) : Prop where
  nullifier : left.nullifiers.get 0 = right.nullifiers.get 0
  commitment : left.commitments.get 0 = 0 ↔ right.commitments.get 0 = 0
  publicData : left.publicData = right.publicData

theorem handleTransaction_sameDispatch (env : Environment) (ledger : Ledger) {left right : OnChainTransaction}
    (same : SameDispatch left right) : handleTransaction env ledger left = handleTransaction env ledger right := by
  have withdrawal : left.withdrawData = right.withdrawData := by
    simp only [OnChainTransaction.withdrawData, same.nullifier, same.publicData]
  by_cases zero : right.commitments.get 0 = 0
  · simp only [handleTransaction, recordWithdrawal, withdrawal, same.nullifier, same.publicData,
      if_pos zero, if_pos (same.commitment.mpr zero)]
  · simp only [handleTransaction, same.nullifier, same.publicData, if_neg zero,
      if_neg (fun leftZero => zero (same.commitment.mp leftZero))]

theorem proposeBlock_substituted (env : Environment) {next : State}
    (nova : blk.IsNova) (accepted : proposeBlock env call state blk = .ok next)
    (same : List.Forall₂ SameDispatch blk.transactions transactions)
    (fees : feeSum transactions = feeSum blk.transactions) :
    proposeBlock env call state { blk with transactions := transactions } = .ok next := by
  have length := same.length_eq
  have otherNova : Block.IsNova { blk with transactions := transactions } := nova
  rw [proposeBlock_eq_ok] at accepted ⊢
  obtain ⟨admitted, totalFee, ledger, verified, dispatched, covered, result⟩ := accepted
  rw [verifyRollupProof_nova env state nova] at verified
  refine ⟨⟨admitted.notPayable, admitted.certified, admitted.proposer, admitted.number,
    length ▸ admitted.size, admitted.accepts, admitted.notLast⟩, totalFee, ledger, ?_, ?_, covered, result⟩
  · rw [verifyRollupProof_nova env state otherNova]
    refine ⟨fees.trans verified.1, ?_⟩
    have inputs : novaPublicInputs { blk with transactions := transactions } = novaPublicInputs blk := by
      simp [novaPublicInputs, length]
    rw [inputs]
    exact verified.2
  · rw [← foldlM_forall₂ same fun ledger _ _ pair => handleTransaction_sameDispatch env ledger pair]
    exact dispatched

def OnChainTransaction.withOtherCommitment : OnChainTransaction :=
  { transaction with commitments := transaction.commitments.set 3 (transaction.commitments.get 3 + 1) }

theorem withOtherCommitment_ne : transaction.withOtherCommitment ≠ transaction := by
  intro same
  have other : transaction.withOtherCommitment.commitments.get 3 = transaction.commitments.get 3 + 1 :=
    Vector.getElem_set_self _
  rw [same] at other
  bv_omega

theorem withOtherCommitment_sameDispatch : SameDispatch transaction transaction.withOtherCommitment := by
  have first : transaction.withOtherCommitment.commitments.get 0 = transaction.commitments.get 0 :=
    Vector.getElem_set_ne (by decide) (by decide) (by decide)
  exact ⟨rfl, by rw [first], rfl⟩

structure Skipped (transaction : OnChainTransaction) : Prop where
  deposit : transaction.nullifiers.get 0 = 0
  dummy : transaction.publicData.get 0 = 0
  free : transaction.fee = 0

theorem foldlM_skipped (env : Environment) (ledger : Ledger)
    (skipped : ∀ transaction ∈ transactions, Skipped transaction) :
    transactions.foldlM (handleTransaction env) ledger = .ok ledger := by
  apply foldlM_fixed
  intro transaction member
  simp only [handleTransaction, if_pos (skipped transaction member).deposit,
    if_pos (skipped transaction member).dummy]
  rfl

theorem feeSum_skipped (skipped : ∀ transaction ∈ transactions, Skipped transaction) :
    feeSum transactions = .ok 0 := by
  apply foldlM_fixed
  intro transaction member
  rw [(skipped transaction member).free]
  rfl

theorem proposeBlock_skipped (env : Environment) (call : Call) (state : State) (blk : Block)
    (nova : blk.IsNova) (admitted : Admitted call state blk)
    (verified : env.router.verify env.chain blk.rollupProof (novaPublicInputs blk) = .ok true)
    (skipped : ∀ transaction ∈ blk.transactions, Skipped transaction) :
    proposeBlock env call state blk = .ok (afterBlock state blk ⟨state.feeBinding, state.withdrawalIncluded, 0⟩) := by
  rw [proposeBlock_eq_ok]
  refine ⟨admitted, 0, _, ?_, foldlM_skipped env _ skipped, by simp, rfl⟩
  rw [verifyRollupProof_nova env state nova]
  exact ⟨feeSum_skipped skipped, verified⟩

def dummyTransaction : OnChainTransaction :=
  ⟨0, Vector.replicate 4 0, Vector.replicate 4 0, Vector.replicate 4 0⟩

theorem dummies_skipped (count : ℕ) : ∀ transaction ∈ replicate count dummyTransaction, Skipped transaction := by
  intro transaction member
  rw [(mem_replicate.mp member).2]
  exact ⟨rfl, rfl, rfl⟩

/-- The block that submits the proof of `blk` once more, from a state at `number`. -/
def Block.replay (blk : Block) (number : Word) : Block :=
  { blk with
    transactions := replicate blk.transactions.length dummyTransaction
    blockNumber := number }

theorem proposeBlock_replay (env : Environment) {next : State}
    (nova : blk.IsNova) (accepted : proposeBlock env call state blk = .ok next) (later : State)
    (notLast : later.layer2BlockNumber ≠ maxInt256) :
    proposeBlock env call later (blk.replay later.layer2BlockNumber) =
      .ok (afterBlock later blk ⟨later.feeBinding, later.withdrawalIncluded, 0⟩) := by
  rw [proposeBlock_eq_ok] at accepted
  obtain ⟨admitted, totalFee, ledger, verified, _⟩ := accepted
  rw [verifyRollupProof_nova env state nova] at verified
  have inputs : novaPublicInputs (blk.replay later.layer2BlockNumber) = novaPublicInputs blk := by
    simp [novaPublicInputs, Block.replay]
  exact proposeBlock_skipped env call later (blk.replay later.layer2BlockNumber) nova
    ⟨admitted.notPayable, admitted.certified, admitted.proposer, rfl,
      by simpa [Block.replay] using admitted.size, admitted.accepts, notLast⟩
    (by rw [inputs]; exact verified.2) (dummies_skipped _)

def novaProofOf (event : Event) : Option ByteString :=
  match event.action with
  | .proposeBlock _ blk => if blk.IsNova then some blk.rollupProof else none
  | _ => none

def novaRootsOf (event : Event) : Option (Word × Word × Word) :=
  match event.action with
  | .proposeBlock _ blk =>
    if blk.IsNova then some (blk.commitmentsRoot, blk.nullifierRoot, blk.commitmentsRootRoot)
    else none
  | _ => none

def envelopeRoots (blob : ByteString) : Word × Word × Word :=
  match parseProof blob.tail with
  | some (proof, _) => (proof.commitmentsRoot, proof.nullifiersRoot, proof.historicRootRoot)
  | none => (0, 0, 0)

theorem envelopeRoots_accepted (env : Environment) (deployment : env.router.NovaDeployment) {next : State}
    (nova : blk.IsNova) (accepted : proposeBlock env call state blk = .ok next) :
    envelopeRoots blk.rollupProof = (blk.commitmentsRoot, blk.nullifierRoot, blk.commitmentsRootRoot) := by
  rw [proposeBlock_eq_ok] at accepted
  obtain ⟨_, totalFee, ledger, verified, _⟩ := accepted
  rw [verifyRollupProof_nova env state nova] at verified
  obtain ⟨id, proof, tagged, twoOrThree⟩ := isNova_cases nova
  have checked := verified.2
  rw [tagged] at checked
  obtain ⟨novaProof, cursor, parsed, first, second, third⟩ :=
    router_verify_roots env.chain env.router deployment id proof twoOrThree _ checked
  simp only [novaPublicInputs, getElem?_cons_zero, getElem?_cons_succ, Option.some.injEq] at first second third
  simp [envelopeRoots, tagged, parsed, first, second, third]

theorem novaRootsOf_accepted (env : Environment) (deployment : env.router.NovaDeployment)
    (event : Event) (accepted : step env event.before event.action = .ok event.after) :
    novaRootsOf event = (novaProofOf event).map envelopeRoots := by
  cases called : event.action with
  | escrowFunds | descrowFunds => simp [novaRootsOf, novaProofOf, called]
  | proposeBlock call blk =>
    rw [called] at accepted
    by_cases nova : blk.IsNova
    · simp [novaRootsOf, novaProofOf, called, nova, envelopeRoots_accepted env deployment nova accepted]
    · simp [novaRootsOf, novaProofOf, called, nova]

def sampleSignature : ByteString := replicate 65 7

def sampleKeccak (bytes : ByteString) : Word := BitVec.ofNat 256 (Bytes.beNat bytes % (2 ^ 256 - 189))

def sampleLength (length : Nat) : ByteString := (Bytes.beBytes 8 length).reverse

def sampleProof : ByteString :=
  2 :: (sampleLength 64 ++ replicate 64 0 ++ sampleLength 32 ++ wordBytes 1 ++
    sampleLength 32 ++ wordBytes 2 ++ sampleLength 32 ++ wordBytes 3 ++ sampleLength 64 ++ sampleSignature)

def sampleDigest (chain : Chain) : Word :=
  toEthSignedMessageHash chain (chain.keccak256
    (attestPreimage chain 77 ⟨replicate 64 0, 1, 2, 3, 64⟩ [1, 2, 3, 64]))

def sampleHashes : Chain where
  sha256 := sampleKeccak
  keccak256 := sampleKeccak
  chainId := 1
  tryRecover := fun _ _ => none
  g1Add := fun _ _ => none
  hashToG2 := fun _ _ => none
  pairing := fun _ => none

def sampleChain : Chain :=
  { sampleHashes with
    tryRecover := fun digest signature =>
      if digest = sampleDigest sampleHashes ∧ signature = sampleSignature then some 99 else none }

def sampleRouter : ProofSystemRouter where
  verifiers := fun id => if id = 2 then some (.novaRollup ⟨77, true, 99⟩) else none
  disabled := fun _ => false

theorem sampleRouter_deployment : sampleRouter.NovaDeployment := by
  constructor
  · intro verifier registered
    simp only [sampleRouter, if_true, Option.some.injEq] at registered
    exact ⟨_, registered.symm⟩
  · intro verifier registered
    simp [sampleRouter, show (3 : UInt8) ≠ 2 by decide] at registered

def sampleEnvironment : Environment := ⟨sampleChain, 5, sampleRouter⟩

def sampleCall : Call := ⟨11, 0, true, false, 11, fun _ _ => none, fun _ _ => none, true⟩

def sampleState : State := sampleEnvironment.initializeState 0 0 0 0

def sampleBlock (number : Word) : Block :=
  ⟨1, 2, 3, replicate 64 dummyTransaction, sampleProof, number⟩

theorem sampleProof_verified : sampleRouter.verify sampleChain sampleProof [1, 2, 3, 64] = .ok true := by
  decide +kernel

def sampleAfter (state : State) : State :=
  afterBlock state (sampleBlock state.layer2BlockNumber) ⟨state.feeBinding, state.withdrawalIncluded, 0⟩

theorem sampleBlock_accepted (state : State) (number : Word)
    (current : number = state.layer2BlockNumber) (notLast : state.layer2BlockNumber ≠ maxInt256) :
    proposeBlock sampleEnvironment sampleCall state (sampleBlock number) = .ok (sampleAfter state) := by
  subst current
  apply proposeBlock_skipped
  · exact Or.inl rfl
  · exact ⟨rfl, rfl, rfl, rfl, Or.inl rfl, rfl, notLast⟩
  · exact sampleProof_verified
  · exact dummies_skipped 64

theorem firstBlock_accepted {state : State} {first : OnChainTransaction} {fee : Word} {ledger : Ledger}
    (number : state.layer2BlockNumber = 0) (fees : feeSum (first :: replicate 63 dummyTransaction) = .ok fee)
    (recorded : handleTransaction sampleEnvironment
      ⟨state.feeBinding, state.withdrawalIncluded, fee⟩ first = .ok ledger)
    (covered : ledger.totalFee.toNat ≤ state.balance) :
    let blk := { sampleBlock 0 with transactions := first :: replicate 63 dummyTransaction }
    proposeBlock sampleEnvironment sampleCall state blk = .ok (afterBlock state blk ledger) := by
  intro blk
  rw [proposeBlock_eq_ok]
  refine ⟨⟨rfl, rfl, rfl, number.symm, Or.inl rfl, rfl, by rw [number]; decide⟩, fee, ledger, ?_, ?_, covered, rfl⟩
  · rw [verifyRollupProof_nova _ _ (Or.inl rfl)]
    exact ⟨fees, sampleProof_verified⟩
  · simp only [blk, foldlM_cons, recorded]
    exact foldlM_skipped _ _ (dummies_skipped 63)

def forgedWithdrawal : OnChainTransaction :=
  ⟨1, Vector.replicate 4 0, #v[7, 0, 0, 0], #v[21, 42, 1000, 0]⟩

def forgedBlock : Block :=
  { sampleBlock 0 with transactions := forgedWithdrawal :: replicate 63 dummyTransaction }

def fundedState : State := { sampleState with balance := 1 }

def forgedLedger : Ledger :=
  ⟨fundedState.feeBinding, Function.update fundedState.withdrawalIncluded
    (sampleKeccak forgedWithdrawal.withdrawData.encode) 1, 1⟩

theorem forgedBlock_accepted : proposeBlock sampleEnvironment sampleCall fundedState forgedBlock =
      .ok (afterBlock fundedState forgedBlock forgedLedger) :=
  firstBlock_accepted rfl (by decide +kernel) rfl (by decide)

/-- No Nova proof is bound to the transactions it is submitted with. -/
theorem nova_proof_reusable (env : Environment) (call : Call) (state next : State) (blk : Block) (nova : blk.IsNova)
    (accepted : proposeBlock env call state blk = .ok next) : ∃ other : Block, other.rollupProof = blk.rollupProof ∧
      proposeBlock env call state other = .ok next ∧ other.transactions ≠ blk.transactions := by
  have admitted := ((proposeBlock_eq_ok env call state next blk).mp accepted).1
  cases listed : blk.transactions with
  | nil =>
    have size := admitted.size
    simp [listed] at size
  | cons first rest =>
    refine ⟨{ blk with transactions := first.withOtherCommitment :: rest }, rfl, ?_, ?_⟩
    · apply proposeBlock_substituted env nova accepted
      · rw [listed]
        exact List.Forall₂.cons (withOtherCommitment_sameDispatch first)
          (forall₂_same.mpr fun _ _ => ⟨rfl, Iff.rfl, rfl⟩)
      · rw [listed]
        rfl
    · intro same
      exact withOtherCommitment_ne first (cons.inj same).1

theorem nova_proof_reusable_sample :
    ∃ other : Block, other.rollupProof = sampleProof ∧ proposeBlock sampleEnvironment sampleCall sampleState other =
        .ok (sampleAfter sampleState) ∧ other.transactions ≠ replicate 64 dummyTransaction :=
  nova_proof_reusable sampleEnvironment sampleCall sampleState _ (sampleBlock 0) (Or.inl rfl)
    (sampleBlock_accepted sampleState 0 rfl (by decide))

/-- With the proof of 64 dummies, a withdrawal of 1000 units and a fee go through. -/
theorem forged_withdrawal_accepted :
    ∃ honestNext forgedNext, (sampleBlock 0).IsNova ∧ forgedBlock.rollupProof = (sampleBlock 0).rollupProof ∧
      proposeBlock sampleEnvironment sampleCall fundedState (sampleBlock 0) = .ok honestNext ∧
      proposeBlock sampleEnvironment sampleCall fundedState forgedBlock = .ok forgedNext ∧
      forgedBlock.transactions ≠ (sampleBlock 0).transactions ∧
      feeSum forgedBlock.transactions ≠ feeSum (sampleBlock 0).transactions :=
  ⟨_, _, Or.inl rfl, rfl, sampleBlock_accepted fundedState 0 rfl (by decide), forgedBlock_accepted,
    by decide +kernel, by decide +kernel⟩

/-- In a run whose Nova blocks install pairwise different roots, no proof is
accepted twice. Nothing else stands in the way: every accepted Nova proof can be
submitted again from any later state. -/
theorem nova_proofs_once (env : Environment) (deployment : env.router.NovaDeployment) (start : State)
    (actions : List Action) : (((trace (step env) start actions).filterMap novaRootsOf).Nodup →
      ((trace (step env) start actions).filterMap novaProofOf).Nodup) ∧
    ∀ event ∈ trace (step env) start actions, ∀ call blk, event.action = .proposeBlock call blk → blk.IsNova →
      ∀ later : State, later.layer2BlockNumber ≠ maxInt256 → ∃ replayed next, replayed.rollupProof = blk.rollupProof ∧
          step env later (.proposeBlock call replayed) = .ok next := by
  constructor
  · intro fresh
    have roots : (trace (step env) start actions).filterMap novaRootsOf =
        ((trace (step env) start actions).filterMap novaProofOf).map envelopeRoots := by
      rw [map_filterMap]
      apply filterMap_congr
      intro event member
      exact novaRootsOf_accepted env deployment event  (mem_trace (step env) start actions event member).2
    rw [roots] at fresh
    exact List.Nodup.of_map envelopeRoots fresh
  · intro event member call blk called nova later notLast
    have accepted := (mem_trace (step env) start actions event member).2
    rw [called] at accepted
    exact ⟨blk.replay later.layer2BlockNumber, _, rfl, proposeBlock_replay env nova accepted later notLast⟩

theorem nova_proofs_once_sample : (((trace (step sampleEnvironment) sampleState
        [.proposeBlock sampleCall (sampleBlock 0)]).filterMap novaRootsOf).Nodup →
      ((trace (step sampleEnvironment) sampleState
        [.proposeBlock sampleCall (sampleBlock 0)]).filterMap novaProofOf).Nodup) ∧
    ∃ replayed next, replayed.rollupProof = sampleProof ∧
      step sampleEnvironment fundedState (.proposeBlock sampleCall replayed) = .ok next := by
  obtain ⟨once, again⟩ := nova_proofs_once sampleEnvironment sampleRouter_deployment sampleState
    [.proposeBlock sampleCall (sampleBlock 0)]
  refine ⟨once, ?_⟩
  have accepted : step sampleEnvironment sampleState (.proposeBlock sampleCall (sampleBlock 0)) =
      .ok (sampleAfter sampleState) := sampleBlock_accepted sampleState 0 rfl (by decide)
  rw [trace_cons_ok _ accepted] at again
  exact again _ mem_cons_self sampleCall (sampleBlock 0) rfl (Or.inl rfl) fundedState (by decide)

theorem nova_proof_accepted_twice : ∃ first second : State, trace (step sampleEnvironment) sampleState
          [.proposeBlock sampleCall (sampleBlock 0), .proposeBlock sampleCall (sampleBlock 1)] =
        [⟨sampleState, .proposeBlock sampleCall (sampleBlock 0), first⟩,
          ⟨first, .proposeBlock sampleCall (sampleBlock 1), second⟩] ∧
      sampleState.layer2BlockNumber ≠ first.layer2BlockNumber ∧
      (sampleBlock 0).IsNova ∧ (sampleBlock 1).rollupProof = (sampleBlock 0).rollupProof := by
  have firstAccepted : step sampleEnvironment sampleState
      (.proposeBlock sampleCall (sampleBlock 0)) = .ok (sampleAfter sampleState) :=
    sampleBlock_accepted sampleState 0 rfl (by decide)
  have secondAccepted : step sampleEnvironment (sampleAfter sampleState)
      (.proposeBlock sampleCall (sampleBlock 1)) = .ok (sampleAfter (sampleAfter sampleState)) :=
    sampleBlock_accepted (sampleAfter sampleState) 1 (by decide) (by decide)
  refine ⟨sampleAfter sampleState, sampleAfter (sampleAfter sampleState), ?_, by decide, Or.inl rfl, rfl⟩
  rw [trace_cons_ok _ firstAccepted, trace_cons_ok _ secondAccepted, trace]

end Nightfall.Contract
