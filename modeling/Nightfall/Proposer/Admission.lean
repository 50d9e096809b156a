import Nightfall.Proposer.BlockData
import Nightfall.Proposer.Trees

/-! The mempool of the proposer: what a client transaction or a deposit has to pass to be stored, and
what the next selection finds there. -/

namespace Nightfall.Proposer

open Store MerkleTrees IndexedTree Revert List

/-- What a client transaction holds besides the fields that the selection reads. -/
structure Spending (P : Type) where
  historicCommitmentRoot : Fr254
  nullifiers : Fin 4 → Fr254
  proof : P

inductive TxLifecycle
  | mempool
  | selected (blockL2 : ℕ)
  | cancelled
  | dropped
deriving DecidableEq

structure ClientTransactionWithMetaData (P H : Type) where
  clientTransaction : ClientTransaction (Spending P)
  lifecycle : TxLifecycle
  hash : H

structure TransactionsDb (P H : Type) where
  transactions : List (ClientTransactionWithMetaData P H)
  deposits : List DepositDataWithFee
  trees : Trees Fr254

inductive ClientTransactionError (E : Type)
  | transactionAlreadyExists
  | wrongProof
  | proofDidNotVerify (error : E)
  | hashGenerationFailed
  | couldNotStoreTransaction
  | duplicateNullifier
  | nullifiersAllZero
  /-- An `expect` on an answer of the database. -/
  | panicked

local instance orderFr254 : LinearOrder Fr254 := LinearOrder.lift' ZMod.val (ZMod.val_injective _)

structure Intake (P H E : Type) where
  hash : Fr254 → Fr254 → Fr254 → Fr254
  findOne : FindOne Fr254
  verify : ClientTransaction (Spending P) → Except E Bool
  digest : ClientTransaction (Spending P) → Option H
  depositDigest : DepositDataWithFee → Option H
  poseidonHash : List Fr254 → Fr254

section

variable {P H E : Type} [DecidableEq H] (intake : Intake P H E)

def checkProof (tx : ClientTransaction (Spending P)) : Except (ClientTransactionError E) Unit :=
  match intake.verify tx with
  | .ok true => .ok ()
  | .ok false => .error .wrongProof
  | .error error => .error (.proofDidNotVerify error)

def findTransaction (key : H) (db : TransactionsDb P H) : Option (ClientTransactionWithMetaData P H) :=
  db.transactions.find? fun stored => stored.hash = key ∧ stored.lifecycle = .mempool

/-- A root that is not found is only logged. -/
def lookUpRoot (db : TransactionsDb P H) (spending : Spending P) : Except (ClientTransactionError E) Unit :=
  if ∀ i, spending.nullifiers i = 0 then .ok ()
  else
    match ((isHistoricRoot intake.findOne spending.historicCommitmentRoot).run db.trees).1 with
    | .ok _ => .ok ()
    | .error _ => .error .panicked

def checkUnspent (db : TransactionsDb P H) (nullifier : Fr254) : Except (ClientTransactionError E) Unit :=
  if nullifier = 0 then .ok ()
  else
    match ((getNonMembershipProof intake.hash nullifier).run db.trees.nullifiers).1 with
    | .ok _ => .ok ()
    | .error (.returned _) => .error .duplicateNullifier
    | .error .panicked => .error .panicked

def processNightfallClientTransaction (inserted : Bool) (db : TransactionsDb P H)
    (tx : ClientTransaction (Spending P)) : Except (ClientTransactionError E) (TransactionsDb P H) := do
  checkProof intake tx
  let key ← (intake.digest tx).elim (.error .hashGenerationFailed) .ok
  if (findTransaction key db).isSome then .error .transactionAlreadyExists
  else do
    lookUpRoot intake db tx.proof
    (finRange 4).forM fun i => checkUnspent intake db (tx.proof.nullifiers i)
    if tx.proof.nullifiers 0 = 0 then .error .nullifiersAllZero
    else if inserted then .ok { db with transactions := db.transactions ++ [⟨tx, .mempool, key⟩] }
    else .error .couldNotStoreTransaction

/-- The earlier deposit is looked for among the client transactions, whose documents are no deposits. -/
def processDepositTransaction (inserted : Bool) (db : TransactionsDb P H) (deposit : DepositDataWithFee) :
    Except (ClientTransactionError E) (TransactionsDb P H) :=
  if (intake.depositDigest deposit).any fun key => db.transactions.any (·.hash = key) then .error .panicked
  else if inserted then .ok { db with deposits := db.deposits ++ [deposit] }
  else .error .couldNotStoreTransaction

def removeMempoolDeposits (used deposits : List DepositDataWithFee) : List DepositDataWithFee :=
  deposits.filter fun deposit => !used.any fun other =>
    other.depositData.secretHash = deposit.depositData.secretHash ∧
      other.depositData.nfSlotId = deposit.depositData.nfSlotId

def TransactionsDb.mempool (db : TransactionsDb P H) (commitmentsOnchain : List Fr254) : Mempool (Spending P) :=
  ⟨db.deposits, (db.transactions.filter (·.lifecycle = .mempool)).map (·.clientTransaction), commitmentsOnchain⟩

inductive MempoolStep (P H : Type)
  | submit (inserted : Bool) (tx : ClientTransaction (Spending P))
  | deliver (inserted : Bool) (deposit : DepositDataWithFee)
  | prepare (iteration : Iteration (Spending P)) (commitmentsOnchain : List Fr254) (blockSize currentBlockNumber : ℕ)
  /-- Transactions are selected, restored, cancelled or dropped. -/
  | relabel (lifecycle : ClientTransactionWithMetaData P H → TxLifecycle)
  | trees (trees : Trees Fr254)

def TransactionsDb.step (db : TransactionsDb P H) : MempoolStep P H → TransactionsDb P H
  | .submit inserted tx => (processNightfallClientTransaction intake inserted db tx).toOption.getD db
  | .deliver inserted deposit => (processDepositTransaction intake inserted db deposit).toOption.getD db
  | .prepare iteration commitmentsOnchain blockSize currentBlockNumber =>
    let mempool := db.mempool commitmentsOnchain
    let stale := db.deposits.filter fun deposit => !depositPending intake.poseidonHash mempool deposit
    match prepareBlockData intake.poseidonHash iteration mempool blockSize currentBlockNumber with
    | .ok (groups, _) =>
      { db with deposits := removeMempoolDeposits groups.flatten (removeMempoolDeposits stale db.deposits) }
    | .error _ => { db with deposits := removeMempoolDeposits stale db.deposits }
  | .relabel lifecycle => { db with transactions := db.transactions.map fun stored =>
      { stored with lifecycle := lifecycle stored } }
  | .trees trees => { db with trees := trees }

def runMempool (trees : Trees Fr254) (steps : List (MempoolStep P H)) : TransactionsDb P H :=
  steps.foldl (TransactionsDb.step intake) ⟨[], [], trees⟩

variable {intake} {db later : TransactionsDb P H} {tx : ClientTransaction (Spending P)} {inserted : Bool}

omit [DecidableEq H] in
theorem checkUnspent_ok {nullifier : Fr254} (passed : checkUnspent intake db nullifier = .ok ())
    (nonzero : nullifier ≠ 0) : ∀ leaf ∈ db.trees.nullifiers.leaves, leaf.value ≠ nullifier := by
  intro leaf member isValue
  have refused : (getNonMembershipProof intake.hash nullifier).run db.trees.nullifiers =
      (.error (.returned .leafExists), db.trees.nullifiers) := by
    rw [getNonMembershipProof, if_neg nonzero, getLeaf, Program.reads_bind,
      if_pos (by simpa using ⟨leaf, member, isValue⟩), Program.fail_run]
  simp [checkUnspent, nonzero, refused] at passed

theorem processNightfallClientTransaction_ok
    (stored : processNightfallClientTransaction intake inserted db tx = .ok later) :
    ∃ key, intake.verify tx = .ok true ∧ intake.digest tx = some key ∧ findTransaction key db = none ∧
      (∀ i, tx.proof.nullifiers i ≠ 0 → ∀ leaf ∈ db.trees.nullifiers.leaves, leaf.value ≠ tx.proof.nullifiers i) ∧
      tx.proof.nullifiers 0 ≠ 0 ∧ later = { db with transactions := db.transactions ++ [⟨tx, .mempool, key⟩] } := by
  simp only [processNightfallClientTransaction, bind_eq_ok, checkProof] at stored
  obtain ⟨_, verified, key, isKey, stored⟩ := stored
  split at stored
  · cases stored
  · rename_i absent
    simp only [bind_eq_ok, forM_eq_ok] at stored
    obtain ⟨_, _, _, unspent, stored⟩ := stored
    refine ⟨key, ?_, ?_, by simpa using absent, fun i nonzero => checkUnspent_ok (unspent i (by simp)) nonzero, ?_⟩
    · split at verified <;> simp_all
    · cases isDigest : intake.digest tx <;> simp_all
    · split at stored
      · cases stored
      · split at stored <;> simp_all

theorem processDepositTransaction_ok {deposit : DepositDataWithFee}
    (stored : processDepositTransaction intake inserted db deposit = .ok later) :
    later = { db with deposits := db.deposits ++ [deposit] } := by
  grind [processDepositTransaction]

def MempoolStep.delivers : MempoolStep P H → List DepositDataWithFee
  | .deliver _ deposit => [deposit]
  | _ => []

variable (intake) in
structure TransactionsDb.Sound (delivered : List DepositDataWithFee) (db : TransactionsDb P H) : Prop where
  keyed : ∀ stored ∈ db.transactions, intake.digest stored.clientTransaction = some stored.hash
  deposits : db.deposits.Sublist delivered

theorem TransactionsDb.Sound.step {delivered : List DepositDataWithFee} (sound : db.Sound intake delivered)
    (taken : MempoolStep P H) : (db.step intake taken).Sound intake (delivered ++ taken.delivers) := by
  have kept := sound.deposits.trans (sublist_append_left delivered taken.delivers)
  cases taken with
  | submit inserted tx =>
    rw [TransactionsDb.step]
    cases isRun : processNightfallClientTransaction intake inserted db tx with
    | error => exact ⟨sound.keyed, kept⟩
    | ok later =>
      obtain ⟨key, -, isKey, -, -, -, rfl⟩ := processNightfallClientTransaction_ok isRun
      exact ⟨forall_mem_append.mpr ⟨sound.keyed, by simpa using isKey⟩, kept⟩
  | deliver inserted deposit =>
    rw [TransactionsDb.step]
    cases isRun : processDepositTransaction intake inserted db deposit with
    | error => exact ⟨sound.keyed, kept⟩
    | ok later =>
      obtain rfl := processDepositTransaction_ok isRun
      exact ⟨sound.keyed, sound.deposits.append_right [deposit]⟩
  | prepare iteration commitmentsOnchain blockSize now =>
    rw [TransactionsDb.step]
    split
    · exact ⟨sound.keyed, (filter_sublist.trans filter_sublist).trans kept⟩
    · exact ⟨sound.keyed, filter_sublist.trans kept⟩
  | relabel lifecycle => exact ⟨by simpa [TransactionsDb.step] using sound.keyed, kept⟩
  | trees trees => exact ⟨sound.keyed, kept⟩

theorem runMempool_sound (trees : Trees Fr254) (steps : List (MempoolStep P H)) :
    (runMempool intake trees steps).Sound intake (steps.flatMap MempoolStep.delivers) := by
  induction steps using reverseRecOn with
  | nil => exact ⟨by simp [runMempool], .slnil⟩
  | append_singleton steps taken ih => simpa [runMempool] using ih.step taken

/-- The root is a leaf of the historic root tree. -/
def IsHistoricLeaf (historic : MutableDb Fr254) (root : Fr254) : Prop :=
  ∃ metadata index, historic.metadata = some metadata ∧ historic.nodes index = some root ∧
    2 ^ (metadata.treeHeight + metadata.subTreeHeight) ≤ index + 1 ∧
    index + 1 < 2 ^ (metadata.treeHeight + metadata.subTreeHeight + 1)

variable (intake) in
/-- What an admitted transaction is meant to satisfy. -/
structure Admissible (db : TransactionsDb P H) (tx : ClientTransaction (Spending P)) : Prop where
  verified : intake.verify tx = .ok true
  firstNonzero : tx.proof.nullifiers 0 ≠ 0
  unspent : ∀ i, tx.proof.nullifiers i ≠ 0 → ∀ leaf ∈ db.trees.nullifiers.leaves, leaf.value ≠ tx.proof.nullifiers i
  knownRoot : IsHistoricLeaf db.trees.historic tx.proof.historicCommitmentRoot
  notPending : ∀ stored ∈ db.transactions, stored.clientTransaction = tx → stored.lifecycle ≠ .mempool
  notSelected : ∀ stored ∈ db.transactions, stored.clientTransaction = tx → ∀ block, stored.lifecycle ≠ .selected block

/-- Neither the root nor the copies that are selected for a block are tested. -/
theorem admitted_iff {trees : Trees Fr254} {steps : List (MempoolStep P H)} (isDb : runMempool intake trees steps = db)
    (stored : processNightfallClientTransaction intake inserted db tx = .ok later) :
    Admissible intake db tx ↔ IsHistoricLeaf db.trees.historic tx.proof.historicCommitmentRoot ∧
      ∀ other ∈ db.transactions, other.clientTransaction = tx → ∀ block, other.lifecycle ≠ .selected block := by
  obtain ⟨key, verified, isKey, absent, unspent, nonzero, -⟩ := processNightfallClientTransaction_ok stored
  refine ⟨fun admissible => ⟨admissible.knownRoot, admissible.notSelected⟩, fun ⟨known, unselected⟩ =>
    ⟨verified, nonzero, unspent, known, fun other member isCopy pending => ?_, unselected⟩⟩
  subst isDb
  have isHash := (runMempool_sound trees steps).keyed other member
  rw [isCopy, isKey] at isHash
  simp only [findTransaction, find?_eq_none, decide_eq_true_eq] at absent
  exact absent other member ⟨(Option.some.inj isHash).symm, pending⟩

def depositCommitment (poseidonHash : List Fr254 → Fr254) (deposit : DepositDataWithFee) : Fr254 :=
  poseidonHash [deposit.depositData.nfTokenId, deposit.depositData.nfSlotId, deposit.depositData.value, 0, 1,
    deposit.depositData.secretHash]

/-- While no commitment is delivered twice, the mempool holds none twice and no selection takes one twice. -/
theorem deposits_once {trees : Trees Fr254} {steps : List (MempoolStep P H)} (isDb : runMempool intake trees steps = db)
    (once : ((steps.flatMap MempoolStep.delivers).map (depositCommitment intake.poseidonHash)).Nodup) :
    (db.deposits.map (depositCommitment intake.poseidonHash)).Nodup ∧
      ∀ iteration commitmentsOnchain blockSize now groups txs, prepareBlockData intake.poseidonHash
          iteration (db.mempool commitmentsOnchain) blockSize now = .ok (groups, txs) →
        ((groups.flatten.map (depositCommitment intake.poseidonHash)).filter
          (· ≠ depositCommitment intake.poseidonHash .default)).Nodup := by
  subst isDb
  have held := ((@runMempool_sound _ _ _ _ intake trees steps).deposits.map
    (depositCommitment intake.poseidonHash)).nodup once
  refine ⟨held, fun _ _ _ _ groups txs prepared => ?_⟩
  obtain ⟨-, padding, kept, permuted, inside⟩ := prepareBlockData_deposits prepared
  refine ((permuted.map _).filter _).nodup_iff.mp (((inside.map _).filter _).nodup ?_)
  simpa [TransactionsDb.mempool] using (held.sublist (filter_sublist.map _)).filter _

def nonzeroNullifiers (tx : ClientTransaction (Spending P)) : List Fr254 :=
  ((finRange 4).map tx.proof.nullifiers).filter (· ≠ 0)

/-- The nullifiers of a block can be inserted: none twice, and none that the tree has. -/
structure Unconflicted (db : TransactionsDb P H) (txs : List (ClientTransaction (Spending P))) : Prop where
  distinct : (txs.flatMap nonzeroNullifiers).Nodup
  unspent : ∀ nullifier ∈ txs.flatMap nonzeroNullifiers, ∀ leaf ∈ db.trees.nullifiers.leaves, leaf.value ≠ nullifier

omit [DecidableEq H] in
theorem Unconflicted.subperm {txs others : List (ClientTransaction (Spending P))}
    (unconflicted : Unconflicted db others)
    (drawn : txs.Subperm others) : Unconflicted db txs := by
  obtain ⟨kept, permuted, inside⟩ := drawn
  have same := permuted.flatMap_right nonzeroNullifiers
  have fewer := inside.flatMap nonzeroNullifiers
  exact ⟨same.nodup_iff.mp (unconflicted.distinct.sublist fewer), fun nullifier member =>
    unconflicted.unspent nullifier (fewer.subset (same.mem_iff.mpr member))⟩

omit [DecidableEq H] in
/-- Whatever deposits are pending and whatever fits into the block, the selected transactions do not conflict,
exactly when the pending transactions without a link and the matched pairs do not. -/
theorem selected_disjoint_iff (intake : Intake P H E) (db : TransactionsDb P H) {iteration : Iteration (Spending P)}
    (lawful : iteration.Lawful) (commitmentsOnchain : List Fr254) (now : ℕ) :
    (∀ deposits blockSize groups txs, prepareBlockData intake.poseidonHash iteration
        (TransactionsDb.mempool { db with deposits := deposits } commitmentsOnchain) blockSize now =
          .ok (groups, txs) → Unconflicted db txs) ↔
      Unconflicted db ((db.mempool commitmentsOnchain).selectable iteration now) := by
  constructor
  · intro every
    by_cases none : (db.mempool commitmentsOnchain).selectable iteration now = []
    · rw [none]
      exact ⟨nodup_nil, by simp⟩
    · let mempool := TransactionsDb.mempool { db with deposits := [] } commitmentsOnchain
      obtain ⟨blockSize, txs, prepared, all⟩ := @prepareBlockData_all _ intake.poseidonHash _ mempool _ lawful rfl none
      exact (every [] blockSize [] txs prepared).subperm all.symm.subperm
  · intro unconflicted deposits blockSize groups txs prepared
    have drawn := prepareBlockData_drawn prepared
    exact unconflicted.subperm drawn

/-- The removal goes by secret hash and slot id, so it is exact when no deposit that should stay shares both with
one that goes. -/
theorem prepare_removes_iff (intake : Intake P H E) (db : TransactionsDb P H) (iteration : Iteration (Spending P))
    (commitmentsOnchain : List Fr254) (blockSize now : ℕ) :
    let mempool := db.mempool commitmentsOnchain
    let pending := depositPending intake.poseidonHash mempool
    let groups := ((prepareBlockData intake.poseidonHash iteration mempool blockSize now).toOption.map
      Prod.fst).getD []
    (∀ deposit, deposit ∈ (db.step intake (.prepare iteration commitmentsOnchain blockSize now)).deposits ↔
      deposit ∈ db.deposits ∧ pending deposit = true ∧ deposit ∉ groups.flatten) ↔
    ∀ deposit ∈ db.deposits, pending deposit = true → deposit ∉ groups.flatten →
      ∀ other, other ∈ db.deposits ∧ pending other = false ∨ other ∈ groups.flatten →
        other.depositData.secretHash = deposit.depositData.secretHash →
          other.depositData.nfSlotId ≠ deposit.depositData.nfSlotId := by
  intro mempool pending groups
  have left : (db.step intake (.prepare iteration commitmentsOnchain blockSize now)).deposits =
      removeMempoolDeposits groups.flatten (removeMempoolDeposits (db.deposits.filter (!pending ·)) db.deposits) := by
    rw [TransactionsDb.step]
    cases isOk : prepareBlockData intake.poseidonHash iteration mempool blockSize now with
    | ok _ => simp [mempool, pending, groups, isOk, Except.toOption]
    | error _ => simp [mempool, pending, groups, isOk, Except.toOption, removeMempoolDeposits]
  simp only [left, removeMempoolDeposits, mem_filter, Bool.not_eq_true', any_eq_false, decide_eq_true_eq, not_and]
  constructor
  · rintro exact deposit member isPending outside other (stale | selected) secret
    · exact ((exact deposit).mpr ⟨member, isPending, outside⟩).1.2 other stale secret
    · exact ((exact deposit).mpr ⟨member, isPending, outside⟩).2 other selected secret
  · intro apart deposit
    constructor
    · rintro ⟨⟨member, noStale⟩, noSelected⟩
      refine ⟨member, ?_, fun selected => noSelected deposit selected rfl rfl⟩
      by_contra stale
      exact noStale deposit ⟨member, by simpa using stale⟩ rfl rfl
    · rintro ⟨member, isPending, outside⟩
      have differs := apart deposit member isPending outside
      exact ⟨⟨member, fun other stale => differs other (.inl stale)⟩,
        fun other selected => differs other (.inr selected)⟩

end

section

def sampleIntake : Intake Unit ℕ Unit where
  hash _ _ _ := 0
  findOne nodes value := if nodes (2 ^ 32 - 1) = some value then some (2 ^ 32 - 1) else none
  verify _ := .ok true
  digest tx := some tx.fee.val
  depositDigest _ := none
  poseidonHash inputs := inputs.sum

def sampleTrees (root : Fr254) : Trees Fr254 :=
  ⟨.empty, ⟨⟨some ⟨29, 3, 1, 0⟩, fun _ => none, fun _ => none⟩, [.default]⟩,
    ⟨some ⟨32, 0, 1, 0⟩, fun _ => none, fun index => if index = 2 ^ 32 - 1 then some root else none⟩⟩

def sampleSpend (fee nullifier : Fr254) : ClientTransaction (Spending Unit) :=
  ⟨fee, fun _ => 0, 0, 0, 0, 5, fun i => if i = 0 then nullifier else 0, ()⟩

def sampleDeposit : DepositDataWithFee := ⟨1, ⟨2, 0, 3, 4⟩⟩

theorem admitted_iff_sample : Admissible sampleIntake ⟨[], [], sampleTrees 5⟩ (sampleSpend 1 1) :=
  (@admitted_iff _ _ _ _ sampleIntake ⟨[], [], sampleTrees 5⟩ _ _ true (sampleTrees 5) [] rfl rfl).mpr
    ⟨⟨_, 2 ^ 32 - 1, rfl, rfl, by decide, by decide⟩, by simp⟩

/-- A transaction on an unknown root, admitted again while it is selected for a block. -/
theorem admitted_unknown_again :
    ∃ steps later, processNightfallClientTransaction sampleIntake true (runMempool sampleIntake (sampleTrees 0) steps)
        (sampleSpend 1 1) = .ok later ∧
      ¬IsHistoricLeaf (runMempool sampleIntake (sampleTrees 0) steps).trees.historic 5 ∧
      ⟨sampleSpend 1 1, .selected 3, 1⟩ ∈ (runMempool sampleIntake (sampleTrees 0) steps).transactions := by
  refine ⟨[.submit true (sampleSpend 1 1), .relabel fun _ => .selected 3], _, rfl, ?_, mem_singleton_self _⟩
  rintro ⟨metadata, index, -, isRoot, -⟩
  change (if index = 2 ^ 32 - 1 then some 0 else none) = some (5 : Fr254) at isRoot
  split at isRoot
  · exact absurd (Option.some.inj isRoot) (by decide)
  · cases isRoot

theorem deposits_prepared {deposits group : List DepositDataWithFee}
    (sorted : deposits.Pairwise fun a b => decide (b.fee.val ≤ a.fee.val)) (one : groupDeposits deposits = [group]) :
    prepareBlockData sampleIntake.poseidonHash ⟨id, id⟩ (⟨deposits, [], []⟩ : Mempool (Spending Unit)) 64 5 =
      .ok ([group], []) := by
  have pending : deposits.filter (depositPending sampleIntake.poseidonHash
      (⟨deposits, [], []⟩ : Mempool (Spending Unit))) = deposits := by
    simp [depositPending]
  refine prepareBlockData_ranked [⟨some group, none, (group.map (·.fee)).sum, 1⟩] ?_ (by simp) ?_ rfl
  · simp only [pending, candidates, mergeSort_of_pairwise sorted, one]
    rfl
  · simp only [pending]
    cases deposits with
    | nil => cases one
    | cons => rfl

def laterDeposits : List DepositDataWithFee := [⟨3, ⟨2, 0, 3, 5⟩⟩, ⟨2, ⟨2, 0, 3, 6⟩⟩]

/-- A deposit that is prepared and removed, then two more. -/
theorem deposits_once_sample : (laterDeposits.map (depositCommitment sampleIntake.poseidonHash)).Nodup ∧
      (((groupDeposits laterDeposits).flatten.map (depositCommitment sampleIntake.poseidonHash)).filter
        (· ≠ depositCommitment sampleIntake.poseidonHash .default)).Nodup := by
  let steps : List (MempoolStep Unit ℕ) := [.deliver true sampleDeposit, .prepare ⟨id, id⟩ [] 64 5] ++
    laterDeposits.map (.deliver true)
  have isDb : runMempool sampleIntake (sampleTrees 0) steps = ⟨[], laterDeposits, sampleTrees 0⟩ := by
    have prepared : prepareBlockData sampleIntake.poseidonHash ⟨id, id⟩ (TransactionsDb.mempool
        (⟨[], [sampleDeposit], sampleTrees 0⟩ : TransactionsDb Unit ℕ) []) 64 5 = .ok _ :=
      deposits_prepared (pairwise_singleton _ _) rfl
    have removed : TransactionsDb.step sampleIntake ⟨[], [sampleDeposit], sampleTrees 0⟩
        (.prepare ⟨id, id⟩ [] 64 5) = ⟨[], [], sampleTrees 0⟩ := by
      simp only [TransactionsDb.step, prepared]
      rfl
    change foldl (TransactionsDb.step sampleIntake) (TransactionsDb.step sampleIntake
      ⟨[], [sampleDeposit], sampleTrees 0⟩ (.prepare ⟨id, id⟩ [] 64 5)) (laterDeposits.map (.deliver true)) = _
    rw [removed]
    rfl
  have once := deposits_once isDb (by decide)
  exact ⟨once.1, once.2 _ _ _ _ _ _ (deposits_prepared (by decide) rfl)⟩

/-- One event delivered twice. -/
theorem deposits_twice :
    prepareBlockData sampleIntake.poseidonHash ⟨id, id⟩ ((runMempool sampleIntake (sampleTrees 0)
        [.deliver true sampleDeposit, .deliver true sampleDeposit]).mempool []) 64 5 =
      .ok ([[sampleDeposit, sampleDeposit, .default, .default]], []) :=
  deposits_prepared (by decide) rfl

theorem sampleSpends_prepared (first second : Fr254) :
    prepareBlockData sampleIntake.poseidonHash ⟨id, id⟩ ⟨[], [sampleSpend 2 first, sampleSpend 1 second], []⟩ 64 5 =
      .ok ([], [sampleSpend 2 first, sampleSpend 1 second]) := by
  refine prepareBlockData_ranked
    [⟨none, some [sampleSpend 2 first], 2, 1⟩, ⟨none, some [sampleSpend 1 second], 1, 1⟩] ?_
    (pairwise_pair.mpr rfl) rfl rfl
  change candidates [] _ = _
  simp only [candidates, mergeSort_nil]
  rfl

theorem selected_disjoint_two : Unconflicted
      (runMempool sampleIntake (sampleTrees 0) [.submit true (sampleSpend 2 1), .submit true (sampleSpend 1 2)])
      [sampleSpend 2 1, sampleSpend 1 2] := by
  refine (selected_disjoint_iff sampleIntake _ ⟨fun _ => .refl _, fun _ => .refl _⟩ [] 5).mpr ?_ [] 64 _ _
    (sampleSpends_prepared 1 2)
  change Unconflicted _ [sampleSpend 2 1, sampleSpend 1 2]
  have published : [sampleSpend 2 1, sampleSpend 1 2].flatMap nonzeroNullifiers = [1, 2] := by decide
  constructor
  · rw [published]
    decide
  · rw [published]
    change ∀ nullifier ∈ [1, 2], ∀ leaf ∈ [IndexedLeaf.default], leaf.value ≠ nullifier
    simp [IndexedLeaf.default]
    decide

/-- Two transactions that spend one commitment. -/
theorem selected_conflict :
    prepareBlockData sampleIntake.poseidonHash ⟨id, id⟩ ((runMempool sampleIntake (sampleTrees 0)
        [.submit true (sampleSpend 2 1), .submit true (sampleSpend 1 1)]).mempool []) 64 5 =
      .ok ([], [sampleSpend 2 1, sampleSpend 1 1]) ∧ 1 ∈ nonzeroNullifiers (sampleSpend 2 1) ∧
      1 ∈ nonzeroNullifiers (sampleSpend 1 1) :=
  ⟨sampleSpends_prepared 1 1, by decide, by decide⟩

/-- Five deposits with one secret hash and slot, each of another token. -/
def fiveDeposits : List DepositDataWithFee := [5, 4, 3, 2, 1].map fun fee => ⟨fee, ⟨fee, 0, 7, 4⟩⟩

/-- Four are selected and five removed. -/
theorem prepare_removes_fifth : let db : TransactionsDb Unit ℕ := ⟨[], fiveDeposits, sampleTrees 0⟩
    prepareBlockData sampleIntake.poseidonHash ⟨id, id⟩ (db.mempool []) 1 5 = .ok ([fiveDeposits.take 4], []) ∧
      (db.step sampleIntake (.prepare ⟨id, id⟩ [] 1 5)).deposits = [] := by
  intro db
  refine (and_iff_left_of_imp fun prepared => ?_).mpr ?_
  · simp only [TransactionsDb.step, prepared]
    decide
  · refine prepareBlockData_ranked [⟨some (fiveDeposits.take 4), none, 14, 1⟩,
      ⟨some [⟨1, ⟨1, 0, 7, 4⟩⟩, .default, .default, .default], none, 1, 1⟩] ?_ (by decide) rfl rfl
    rw [candidates, mergeSort_of_pairwise (by decide)]
    rfl

end

end Nightfall.Proposer
