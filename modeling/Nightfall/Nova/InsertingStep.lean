import Nightfall.Nova.IndexedLeaves
import Nightfall.Nova.StepCircuit

/-! A step whose paths are read off the leaves of the trees behind its roots. -/

namespace Nightfall.Nova

open R1cs Merkle NovaIndexedLeaf

variable {p : ℕ} [Fact p.Prime]

structure StepLeaves (p : ℕ) where
  commitments : ℕ → ZMod p
  nullifiers : ℕ → ZMod p
  newNullifiers : ℕ → ZMod p

structure StepInsertion (p : ℕ) where
  position : ℕ
  low : NovaIndexedLeaf (ZMod p)
  nullifier : ZMod p
  index : ℕ

variable (poseidon : Poseidon (ZMod p)) (depth : ℕ) (leaves : StepLeaves p) (step : StepInsertion p)

def insertingWitness (historicRoot : ZMod p) : StepWitness (ZMod p) where
  newCommitmentsRoot := levels poseidon.hash2 depth leaves.commitments 0
  newNullifiersRoot := levels poseidon.hash2 depth leaves.newNullifiers 0
  newHistoricRoot := historicRoot
  commitment := leaves.commitments step.position
  commitmentPath := opening poseidon.hash2 depth leaves.commitments step.position
  nullifierWitness := ⟨step.nullifier, step.low.value, step.low.nextIndex, step.low.nextValue,
    opening poseidon.hash2 depth leaves.nullifiers step.low.index⟩
  nullifierInsertion := ⟨step.index, opening poseidon.hash2 depth leaves.newNullifiers step.low.index,
    opening poseidon.hash2 depth leaves.newNullifiers step.index⟩
  isPadding := false

theorem insertingWitness_fits (historicRoot : ZMod p) :
    (insertingWitness poseidon depth leaves step historicRoot).Fits depth :=
  ⟨opening_length _ _ _ _, opening_length _ _ _ _, opening_length _ _ _ _, opening_length _ _ _ _⟩

structure StepLeaves.Holds (leaves : StepLeaves p) (poseidon : Poseidon (ZMod p)) (depth : ℕ)
    (step : StepInsertion p) : Prop where
  position : step.position < 2 ^ depth
  lowIndex : step.low.index < 2 ^ depth
  index : step.index < 2 ^ depth
  low : leaves.nullifiers step.low.index = step.low.hash poseidon
  newLow : leaves.newNullifiers step.low.index = (step.low.repointed step.nullifier step.index).hash poseidon
  new : leaves.newNullifiers step.index = (step.low.successor step.nullifier step.index).hash poseidon

variable {poseidon depth leaves step}

theorem insertingWitness_checked (held : leaves.Holds poseidon depth step) {historicRoot : ZMod p}
    {z : RollupState (ZMod p)} {rangeBits : ℕ} (count : z.txCount = step.position)
    (isRoot : z.nullifiersRoot = levels poseidon.hash2 depth leaves.nullifiers 0)
    (nonzero : step.nullifier ≠ 0) (above : LessThan step.low.value step.nullifier rangeBits)
    (below : step.low.nextValue ≠ 0 → LessThan step.nullifier step.low.nextValue rangeBits) :
    (insertingWitness poseidon depth leaves step historicRoot).Checked poseidon z rangeBits where
  commitment := fun _ => computeRoot_opening_inside poseidon.hash2 held.position rfl
  commitmentIndex := fun _ => by
    rw [count, insertingWitness, pathIndex_opening, Nat.mod_eq_of_lt held.position]
  nonInclusion := fun _ => ⟨by
    rw [isRoot]
    exact computeRoot_opening_inside poseidon.hash2 held.lowIndex held.low, above, below⟩
  insertion := fun _ => ⟨computeRoot_opening_inside poseidon.hash2 held.lowIndex held.newLow,
    computeRoot_opening_inside poseidon.hash2 held.index held.new⟩
  insertionIndex := fun _ => by
    rw [insertingWitness, pathIndex_opening, Nat.mod_eq_of_lt held.index]
  padCommitments := fun padding => by simp [insertingWitness] at padding
  padNullifiers := fun idle => by simp [StepWitness.spends, insertingWitness, nonzero] at idle
  padHistoric := fun padding => by simp [insertingWitness] at padding

variable (poseidon depth leaves step)

def insertingCircuit (historicRoot : ZMod p) (rangeBits : ℕ) : RollupStepCircuit (ZMod p) where
  toStepWitness := insertingWitness poseidon depth leaves step historicRoot
  merkleDepth := depth
  rangeBits := rangeBits
  fits := insertingWitness_fits poseidon depth leaves step historicRoot

variable {poseidon depth leaves step}

theorem insertingCircuit_satisfying (held : leaves.Holds poseidon depth step) (historicRoot : ZMod p)
    {z : RollupState (ZMod p)} {rangeBits : ℕ} (count : z.txCount = step.position)
    (isRoot : z.nullifiersRoot = levels poseidon.hash2 depth leaves.nullifiers 0) (nonzero : step.nullifier ≠ 0)
    (some : 0 < rangeBits) (room : 2 ^ (depth + 1) ≤ p) (above : LessThan step.low.value step.nullifier rangeBits)
    (below : step.low.nextValue ≠ 0 → LessThan step.nullifier step.low.nextValue rangeBits) :
    (insertingCircuit poseidon depth leaves step historicRoot rangeBits).Satisfying poseidon z
      (insertingWitness poseidon depth leaves step historicRoot)
      ((insertingWitness poseidon depth leaves step historicRoot).next z) :=
  satisfying_of_checked (insertingCircuit poseidon depth leaves step historicRoot rangeBits) some room
    (insertingWitness_checked held count isRoot nonzero above below)

end Nightfall.Nova
