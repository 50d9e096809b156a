import Nightfall.Proposer.Following
import Nightfall.Proposer.ProveBlock

/-! `make_block` with the Nova engine: the leaves that `prepare_state_transition` inserts into the trees
of the proposer are those of the transactions in the block, padding included. -/

namespace Nightfall.Proposer.Proving

open Store Store.Program Checkpoints MerkleTrees MutableTree IndexedTree List

inductive BlockAssemblyError where
  | provingError (message : String)
  | configError (message : String)
  | rollup (error : RollupProofError)

section

variable {F I : Type} [LinearOrder F] [Zero F] [NatCast F] [ToString F] (configured : ℕ)
  (deposits : List (PublicInputs F)) (clients : List (ClientTransaction F))

def newCommitments : List F :=
  (deposits.flatMap fun inputs => ofFn inputs.commitments) ++
    clients.flatMap fun transaction => ofFn transaction.commitments

def insertNullifiers : List F :=
  (deposits.flatMap fun inputs => ofFn inputs.nullifiers) ++
    clients.flatMap fun transaction => ofFn transaction.nullifiers

def resize (length : ℕ) (values : List F) : List F := values.take length ++ replicate (length - values.length) 0

def padded (values : List F) : List F :=
  if values.length < blockSizeOr64 configured * 4 then resize (blockSizeOr64 configured * 4) values else values

def jfCommitments : List F :=
  let steps := max (newCommitments deposits clients).length (insertNullifiers deposits clients).length
  padded configured (resize steps (newCommitments deposits clients))

def jfNullifiers : List F :=
  let steps := max (newCommitments deposits clients).length (insertNullifiers deposits clients).length
  padded configured (resize steps (insertNullifiers deposits clients))

def inDatabase {σ α : Type} (context : String) (program : Program Failure σ α) : Program RollupProofError σ α :=
  mapError (fun _ => .databaseError context) program

def firstRepeat : ℕ → List F → List F → Option (ℕ × F)
  | _, _, [] => none
  | index, seen, value :: rest =>
    if value = 0 then firstRepeat (index + 1) seen rest
    else if value ∈ seen then some (index, value)
    else firstRepeat (index + 1) (value :: seen) rest

def firstSpent (prior : List F) : ℕ → List F → Option (ℕ × F)
  | _, [] => none
  | index, value :: rest =>
    if value ≠ 0 ∧ value ∈ prior then some (index, value) else firstSpent prior (index + 1) rest

def refuse {σ : Type} (message : ℕ → F → String) : Option (ℕ × F) → Program RollupProofError σ Unit
  | none => pure ()
  | some (index, value) => fail (.parameterError (message index value))

def priorNullifiers (trees : Trees F) : List F :=
  (trees.nullifiers.leaves.map IndexedLeaf.value).filter fun value => value ≠ 0

def prepareStateTransition (hash : F → F → F → F) (treeHash : F → F → F) (findOne : FindOne F)
    (witness : List F → List F → List F → I) (configured : ℕ) (deposits : List (PublicInputs F))
    (clients : List (ClientTransaction F)) : Program RollupProofError (Trees F) (I × F × F × F) :=
  let commitments := newCommitments deposits clients
  let nullifiers := insertNullifiers deposits clients
  if max commitments.length nullifiers.length = 0 then
    fail (.parameterError "Cannot prepare state transition: block contains no transactions")
  else do
    let prior ← reads fun trees => .ok (priorNullifiers trees)
    let _ ← inDatabase "DB error batch-inserting commitments" (onCommitments
        (MutableTree.batchInsertWithCircuitInfo treeHash findOne (jfCommitments configured deposits clients)))
    let _ ← inDatabase "DB error batch-inserting nullifiers" (onNullifiers
        (batchInsertNullifiersWithCircuitInfo hash treeHash findOne (jfNullifiers configured deposits clients)))
    refuse (fun index value => s!"Duplicate nullifier at index {index} in current block: {value}")
      (firstRepeat 0 [] nullifiers)
    refuse (fun index value => s!"Nullifier at index {index} already spent in prior block: {value}")
      (firstSpent prior 0 nullifiers)
    let commitmentsRoot ← inDatabase "DB error getting commitment root" (onCommitments getRoot)
    let nullifiersRoot ← inDatabase "DB error getting nullifier root" (onNullifiers (onTree getRoot))
    let historicRootRoot ← inDatabase "DB error appending historic root"
      (appendHistoricCommitmentRoot treeHash commitmentsRoot false)
    pure (witness commitments nullifiers prior, commitmentsRoot, nullifiersRoot, historicRootRoot)

end

section

variable {F I D : Type} [LinearOrder F] [Zero F] [NatCast F] [ToString F]
  (createDepositProof : (Fin 4 → D) → Except String (PublicInputs F))

def toArray : List D → Option (Fin 4 → D)
  | [a, b, c, d] => some ![a, b, c, d]
  | _ => none

end

section

variable {F I D : Type} {configured : ℕ} {requiresPadding : Bool} {deposits : List (PublicInputs F)}
  {clients : List (ClientTransaction F)}

variable [Zero F]

variable {createDepositProof : (Fin 4 → D) → Except String (PublicInputs F)} {groups : List (List D)}

end

section

variable {F I D : Type} [LinearOrder F] [Zero F] [NatCast F] [ToString F] {hash : F → F → F → F} {treeHash : F → F → F}
  {findOne : FindOne F} {witness : List F → List F → List F → I} {configured : ℕ} {deposits : List (PublicInputs F)}
  {clients : List (ClientTransaction F)} {trees later : Trees F}

end

end Nightfall.Proposer.Proving
