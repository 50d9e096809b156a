import Nightfall.Library.Bytes
import Nightfall.Nova.CommitmentTree
import Nightfall.Nova.NullifierInvariant
import Nightfall.Nova.StepCircuit

/-! The witness builder `build_rollup_circuits`: a fresh commitment tree and nullifier tree, the
prior nullifiers inserted in the order of their bytes, then one step circuit for each pair. -/

namespace Nightfall.Nova

open R1cs Merkle NovaIndexedLeaf

def neptuneTreeDepth : ℕ := 32

/-- The inputs, with the lengths that `new` asserts. -/
structure RollupWitnessInputs (F : Type) where
  commitments : List F
  nullifiers : List F
  historicRoot : F
  priorNullifiers : List F
  sameLength : commitments.length = nullifiers.length

structure RollupWitness (F : Type) where
  circuits : List (RollupStepCircuit F)
  newCommitmentsRoot : F
  newNullifiersRoot : F
  preNullifiersRoot : F

inductive BuilderPanic (F : Type) where
  | priorNullifier (error : IMTError F)
  | nonInclusion (nullifier : F) (txIndex : ℕ) (error : IMTError F)
  | insertion (error : IMTError F)
  | pathLength

structure BuilderState (F : Type) where
  commitTree : NeptuneCommitmentTree F
  nullImt : NeptuneIMT F
  circuits : List (RollupStepCircuit F)

structure NullifierStep (F : Type) where
  witness : ImtNonInclusionWitness F
  root : F
  insertion : ImtInsertionWitness F
  nullImt : NeptuneIMT F

instance StepWitness.decidableFits {F : Type} (witness : StepWitness F) (merkleDepth : ℕ) :
    Decidable (witness.Fits merkleDepth) :=
  decidable_of_iff
    (witness.commitmentPath.length = merkleDepth ∧ witness.nullifierWitness.path.length = merkleDepth ∧
      witness.nullifierInsertion.updatedLowPath.length = merkleDepth ∧
      witness.nullifierInsertion.newLeafPath.length = merkleDepth)
    ⟨fun lengths => ⟨lengths.1, lengths.2.1, lengths.2.2.1, lengths.2.2.2⟩,
      fun fits => ⟨fits.commitment, fits.low, fits.updatedLow, fits.newLeaf⟩⟩

section

variable {p : ℕ} [Fact p.Prime]

def toRepr (x : ZMod p) : List UInt8 := Bytes.leBytes 32 x.val

def sortPrior (prior : List (ZMod p)) : List (ZMod p) :=
  (prior.filter fun v => v ≠ 0).mergeSort fun a b => toRepr a ≤ toRepr b

variable (poseidon : Poseidon (ZMod p))

def insertPrior (imt : NeptuneIMT (ZMod p)) (nullifier : ZMod p) :
    Except (BuilderPanic (ZMod p)) (NeptuneIMT (ZMod p)) :=
  match imt.insertNullifier poseidon nullifier with
  | (.ok _, next) => .ok next
  | (.error error, _) => .error (.priorNullifier error)

def hydrate (imt : NeptuneIMT (ZMod p)) (prior : List (ZMod p)) :
    Except (BuilderPanic (ZMod p)) (NeptuneIMT (ZMod p)) :=
  if prior.isEmpty then .ok imt else (sortPrior prior).foldlM (insertPrior poseidon) imt

def nullifierStep (imt : NeptuneIMT (ZMod p)) (txIndex : ℕ) (nullifier : ZMod p) :
    Except (BuilderPanic (ZMod p)) (NullifierStep (ZMod p)) :=
  if nullifier = 0 then
    let path := imt.inclusionPath poseidon 0
    .ok ⟨⟨0, 0, 0, 0, path⟩, imt.root poseidon, ⟨0, path, path⟩, imt⟩
  else match imt.getNonInclusionWitness poseidon nullifier with
    | .error error => .error (.nonInclusion nullifier txIndex error)
    | .ok (lowLeaf, witness) =>
      match imt.insertNullifier poseidon nullifier with
      | (.error error, _) => .error (.insertion error)
      | (.ok _, next) =>
        let newLeafIndex := next.nextInsertIndex - 1
        .ok ⟨witness, next.root poseidon, ⟨newLeafIndex, next.inclusionPath poseidon lowLeaf.index,
          next.inclusionPath poseidon newLeafIndex⟩, next⟩

def processPair (historicRoot : ZMod p) (state : BuilderState (ZMod p)) (pair : ZMod p × ZMod p) :
    Except (BuilderPanic (ZMod p)) (BuilderState (ZMod p)) :=
  if pair.2 = 0 ∧ pair.1 = 0 then
    .ok { state with circuits := state.circuits ++ [.paddingWithDepth neptuneTreeDepth] }
  else
    let appended := state.commitTree.append poseidon pair.1
    match nullifierStep poseidon state.nullImt state.circuits.length pair.2 with
    | .error panic => .error panic
    | .ok step =>
      if fits : StepWitness.Fits ⟨appended.1.1, step.root, historicRoot, pair.1, appended.1.2,
          step.witness, step.insertion, false⟩ neptuneTreeDepth then
        .ok ⟨appended.2, step.nullImt, state.circuits ++ [.newReal neptuneTreeDepth appended.1.1
          step.root historicRoot pair.1 appended.1.2 step.witness step.insertion fits]⟩
      else .error .pathLength

def buildRollupCircuits (inputs : RollupWitnessInputs (ZMod p)) :
    Except (BuilderPanic (ZMod p)) (RollupWitness (ZMod p)) := do
  let nullImt ← hydrate poseidon (.new poseidon neptuneTreeDepth .new) inputs.priorNullifiers
  let state ← (inputs.commitments.zip inputs.nullifiers).foldlM (processPair poseidon inputs.historicRoot)
    ⟨.new poseidon neptuneTreeDepth .new, nullImt, []⟩
  pure ⟨state.circuits, state.commitTree.root poseidon, state.nullImt.root poseidon, nullImt.root poseidon⟩

end

end Nightfall.Nova
