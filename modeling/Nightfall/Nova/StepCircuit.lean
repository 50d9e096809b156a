import Nightfall.Field
import Nightfall.Nova.Gadgets

/-! One step of the Nova rollup: the circuit `RollupStepCircuit::synthesize`. -/

namespace Nightfall.Nova

open R1cs Merkle

def defaultRangeBits : ℕ := 254

/-- The state vector `z`, in this order. -/
structure RollupState (F : Type) where
  commitmentsRoot : F
  nullifiersRoot : F
  historicRoot : F
  txCount : F
  nullifierCount : F
deriving DecidableEq

structure StepWitness (F : Type) where
  newCommitmentsRoot : F
  newNullifiersRoot : F
  newHistoricRoot : F
  commitment : F
  commitmentPath : List (MerklePathHop F)
  nullifierWitness : ImtNonInclusionWitness F
  nullifierInsertion : ImtInsertionWitness F
  isPadding : Bool

/-- The four lengths that `synthesize` asserts. -/
structure StepWitness.Fits {F : Type} (witness : StepWitness F) (merkleDepth : ℕ) : Prop where
  commitment : witness.commitmentPath.length = merkleDepth
  low : witness.nullifierWitness.path.length = merkleDepth
  updatedLow : witness.nullifierInsertion.updatedLowPath.length = merkleDepth
  newLeaf : witness.nullifierInsertion.newLeafPath.length = merkleDepth

structure RollupStepCircuit (F : Type) extends StepWitness F where
  merkleDepth : ℕ
  rangeBits : ℕ
  fits : toStepWitness.Fits merkleDepth

structure StepVariables (F : Type) where
  isPadding : Boolean F
  newCommitmentsRoot : F
  newNullifiersRoot : F
  newHistoricRoot : F
  commitment : F
  commitmentPath : List (AllocatedMerkleHop F)
  nullifier : AllocatedImtNonInclusion F
  insertion : AllocatedImtInsertion F

namespace RollupStepCircuit

section

variable {F : Type} [Zero F] (merkleDepth : ℕ)

def zeroPath : List (MerklePathHop F) :=
  List.replicate merkleDepth ⟨0, false⟩

def paddingWitness : StepWitness F where
  newCommitmentsRoot := 0
  newNullifiersRoot := 0
  newHistoricRoot := 0
  commitment := 0
  commitmentPath := zeroPath merkleDepth
  nullifierWitness := ⟨0, 0, 0, 0, zeroPath merkleDepth⟩
  nullifierInsertion := ⟨0, zeroPath merkleDepth, zeroPath merkleDepth⟩
  isPadding := true

theorem paddingWitness_fits : (paddingWitness merkleDepth : StepWitness F).Fits merkleDepth :=
  ⟨List.length_replicate, List.length_replicate, List.length_replicate, List.length_replicate⟩

def paddingWithDepth : RollupStepCircuit F where
  toStepWitness := paddingWitness merkleDepth
  merkleDepth := merkleDepth
  rangeBits := defaultRangeBits
  fits := paddingWitness_fits merkleDepth

def newReal (newCommitmentsRoot newNullifiersRoot newHistoricRoot commitment : F)
    (commitmentPath : List (MerklePathHop F)) (nullifierWitness : ImtNonInclusionWitness F)
    (nullifierInsertion : ImtInsertionWitness F)
    (fits : StepWitness.Fits ⟨newCommitmentsRoot, newNullifiersRoot, newHistoricRoot, commitment,
      commitmentPath, nullifierWitness, nullifierInsertion, false⟩ merkleDepth) :
    RollupStepCircuit F where
  newCommitmentsRoot := newCommitmentsRoot
  newNullifiersRoot := newNullifiersRoot
  newHistoricRoot := newHistoricRoot
  commitment := commitment
  commitmentPath := commitmentPath
  nullifierWitness := nullifierWitness
  nullifierInsertion := nullifierInsertion
  isPadding := false
  merkleDepth := merkleDepth
  rangeBits := defaultRangeBits
  fits := fits

end

variable {p : ℕ} [Fact p.Prime]

def padFallback {F : Type} (circuit : RollupStepCircuit F) (real fallback : F) : F :=
  if circuit.isPadding then fallback else real

def allocate (circuit : RollupStepCircuit (ZMod p)) (z : RollupState (ZMod p)) :
    Synthesis (ZMod p) (StepVariables (ZMod p)) := do
  let isPadding ← allocBit circuit.isPadding
  let newCommitmentsRoot ← alloc (circuit.padFallback circuit.newCommitmentsRoot z.commitmentsRoot)
  let newNullifiersRoot ← alloc (circuit.padFallback circuit.newNullifiersRoot z.nullifiersRoot)
  let newHistoricRoot ← alloc (circuit.padFallback circuit.newHistoricRoot z.historicRoot)
  let commitment ← alloc circuit.commitment
  let commitmentPath ← circuit.commitmentPath.mapM AllocatedMerkleHop.alloc
  let nullifier ← AllocatedImtNonInclusion.alloc circuit.nullifierWitness
  let insertion ← AllocatedImtInsertion.alloc circuit.nullifierInsertion
  pure ⟨.is isPadding, newCommitmentsRoot, newNullifiersRoot, newHistoricRoot, commitment,
    commitmentPath, nullifier, insertion⟩

def constrain (poseidon : Poseidon (ZMod p)) (circuit : RollupStepCircuit (ZMod p)) (wires : StepVariables (ZMod p))
    (z : RollupState (ZMod p)) : Synthesis (ZMod p) (RollupState (ZMod p)) := do
  let enabled := wires.isPadding.not
  verifyMerkleInclusionCircuit poseidon wires.commitment wires.commitmentPath wires.newCommitmentsRoot enabled
  enforcePathIndex wires.commitmentPath z.txCount enabled
  let nullifierIsZero ← isZero wires.nullifier.nullifier
  let nullifierEnabled ← enabled.and nullifierIsZero.not
  verifyImtNonInclusionCircuit poseidon wires.nullifier z.nullifiersRoot circuit.rangeBits nullifierEnabled
  verifyImtInsertionCircuit poseidon wires.nullifier wires.insertion
    wires.newNullifiersRoot (circuit.merkleDepth + 1) nullifierEnabled
  enforcePathIndex wires.insertion.newLeafPath wires.insertion.newLeafIndex nullifierEnabled
  conditionalAssertEqual wires.isPadding wires.newCommitmentsRoot z.commitmentsRoot
  conditionalAssertEqual nullifierEnabled.not wires.newNullifiersRoot z.nullifiersRoot
  conditionalAssertEqual wires.isPadding wires.newHistoricRoot z.historicRoot
  let newTxCount ← alloc (z.txCount + if circuit.isPadding then 0 else 1)
  enforce (newTxCount - z.txCount) 1 enabled.lc
  let newNullifierCount ← alloc (z.nullifierCount + if nullifierEnabled.value then 1 else 0)
  enforce (newNullifierCount - z.nullifierCount) 1 nullifierEnabled.lc
  pure ⟨wires.newCommitmentsRoot, wires.newNullifiersRoot, wires.newHistoricRoot, newTxCount, newNullifierCount⟩

def synthesize (poseidon : Poseidon (ZMod p)) (circuit : RollupStepCircuit (ZMod p))
    (z : RollupState (ZMod p)) : Synthesis (ZMod p) (RollupState (ZMod p)) := do
  let wires ← circuit.allocate z
  circuit.constrain poseidon wires z

end RollupStepCircuit

section

variable {p : ℕ} [Fact p.Prime] (poseidon : Poseidon (ZMod p)) (circuit : RollupStepCircuit (ZMod p))
  (z : RollupState (ZMod p)) (witness : StepWitness (ZMod p))

def StepWitness.wires : StepVariables (ZMod p) :=
  ⟨.is (bit witness.isPadding), witness.newCommitmentsRoot, witness.newNullifiersRoot,
    witness.newHistoricRoot, witness.commitment, witness.commitmentPath.map allocatedHop,
    witness.nullifierWitness.allocated, witness.nullifierInsertion.allocated⟩

def RollupStepCircuit.Satisfying (assigned : StepWitness (ZMod p)) (zOut : RollupState (ZMod p)) : Prop :=
  Reaches (circuit.allocate z) assigned.wires ∧ Reaches (circuit.constrain poseidon assigned.wires z) zOut

theorem reaches_allocate (outcome : StepVariables (ZMod p)) :
    Reaches (circuit.allocate z) outcome ↔ ∃ assigned : StepWitness (ZMod p),
        assigned.Fits circuit.merkleDepth ∧ outcome = assigned.wires := by
  simp only [RollupStepCircuit.allocate, reaches_bind, reaches_alloc, true_and, reaches_allocBit,
    reaches_allocPath, reaches_allocNonInclusion, reaches_allocInsertion, reaches_pure]
  constructor
  · rintro ⟨_, ⟨isPadding, rfl⟩, newCommitmentsRoot, newNullifiersRoot, newHistoricRoot, commitment,
      _, ⟨commitmentPath, commitmentFits, rfl⟩, _, ⟨nullifier, nullifierFits, rfl⟩, _,
      ⟨insertion, lowFits, leafFits, rfl⟩, rfl⟩
    refine ⟨⟨newCommitmentsRoot, newNullifiersRoot, newHistoricRoot, commitment, commitmentPath,
      nullifier, insertion, isPadding⟩, ?_, rfl⟩
    exact ⟨commitmentFits.trans circuit.fits.commitment, nullifierFits.trans circuit.fits.low,
      lowFits.trans circuit.fits.updatedLow, leafFits.trans circuit.fits.newLeaf⟩
  · rintro ⟨assigned, fits, rfl⟩
    exact ⟨_, ⟨assigned.isPadding, rfl⟩, assigned.newCommitmentsRoot, assigned.newNullifiersRoot,
      assigned.newHistoricRoot, assigned.commitment, _,
      ⟨assigned.commitmentPath, fits.commitment.trans circuit.fits.commitment.symm, rfl⟩, _,
      ⟨assigned.nullifierWitness, fits.low.trans circuit.fits.low.symm, rfl⟩, _,
      ⟨assigned.nullifierInsertion, fits.updatedLow.trans circuit.fits.updatedLow.symm,
        fits.newLeaf.trans circuit.fits.newLeaf.symm, rfl⟩, rfl⟩

theorem reaches_synthesize (zOut : RollupState (ZMod p)) : Reaches (circuit.synthesize poseidon z) zOut ↔
    ∃ assigned, circuit.Satisfying poseidon z assigned zOut := by
  rw [RollupStepCircuit.synthesize, reaches_bind]
  constructor
  · rintro ⟨wires, allocated, constrained⟩
    obtain ⟨assigned, _, rfl⟩ := (reaches_allocate circuit z wires).mp allocated
    exact ⟨assigned, allocated, constrained⟩
  · rintro ⟨assigned, allocated, constrained⟩
    exact ⟨assigned.wires, allocated, constrained⟩

theorem RollupStepCircuit.Satisfying.fits {poseidon : Poseidon (ZMod p)} {circuit : RollupStepCircuit (ZMod p)}
    {z : RollupState (ZMod p)} {assigned : StepWitness (ZMod p)} {zOut : RollupState (ZMod p)}
    (satisfied : circuit.Satisfying poseidon z assigned zOut) : assigned.Fits circuit.merkleDepth := by
  obtain ⟨other, fits, same⟩ := (reaches_allocate circuit z _).mp satisfied.1
  have commitment := congrArg (fun wires => wires.commitmentPath.length) same
  have low := congrArg (fun wires => wires.nullifier.path.length) same
  have updatedLow := congrArg (fun wires => wires.insertion.updatedLowPath.length) same
  have newLeaf := congrArg (fun wires => wires.insertion.newLeafPath.length) same
  simp only [StepWitness.wires, ImtNonInclusionWitness.allocated, ImtInsertionWitness.allocated,
    List.length_map] at commitment low updatedLow newLeaf
  exact ⟨commitment.trans fits.commitment, low.trans fits.low, updatedLow.trans fits.updatedLow,
    newLeaf.trans fits.newLeaf⟩

def StepWitness.spends : Bool :=
  !witness.isPadding && !decide (witness.nullifierWitness.nullifier = 0)

def StepWitness.next (z : RollupState (ZMod p)) : RollupState (ZMod p) :=
  ⟨witness.newCommitmentsRoot, witness.newNullifiersRoot, witness.newHistoricRoot,
    z.txCount + bit (!witness.isPadding), z.nullifierCount + bit witness.spends⟩

structure StepWitness.Checked (witness : StepWitness (ZMod p)) (z : RollupState (ZMod p)) (rangeBits : ℕ) : Prop where
  commitment : witness.isPadding = false → computeRoot poseidon.hash2 witness.commitment witness.commitmentPath =
      witness.newCommitmentsRoot
  commitmentIndex : witness.isPadding = false → z.txCount = (pathIndex witness.commitmentPath : ZMod p)
  nonInclusion : witness.spends = true → NonInclusion poseidon witness.nullifierWitness z.nullifiersRoot rangeBits
  insertion : witness.spends = true →
    Insertion poseidon witness.nullifierWitness witness.nullifierInsertion witness.newNullifiersRoot
  insertionIndex : witness.spends = true → witness.nullifierInsertion.newLeafIndex =
      (pathIndex witness.nullifierInsertion.newLeafPath : ZMod p)
  padCommitments : witness.isPadding = true → witness.newCommitmentsRoot = z.commitmentsRoot
  padNullifiers : witness.spends = false → witness.newNullifiersRoot = z.nullifiersRoot
  padHistoric : witness.isPadding = true → witness.newHistoricRoot = z.historicRoot

theorem lc_isPadding : witness.wires.isPadding.lc = bit witness.isPadding := rfl

theorem lc_enabled : witness.wires.isPadding.not.lc = bit (!witness.isPadding) := by
  rw [Boolean.lc_not, lc_isPadding, bit_not]

theorem lc_nonzero : (Boolean.is (bit (decide (witness.wires.nullifier.nullifier = 0)) : ZMod p)).not.lc =
      bit (!decide (witness.nullifierWitness.nullifier = 0)) := by
  rw [Boolean.lc_not, Boolean.lc, bit_not]
  rfl

theorem counted_iff {flag : Boolean (ZMod p)} {on : Bool} (isOn : flag.lc = bit on) (next count : ZMod p) :
    (next - count) * 1 = flag.lc ↔ next = count + bit on := by
  rw [mul_one, isOn, sub_eq_iff_eq_add']

theorem forces_constrain : Forces (circuit.constrain poseidon witness.wires z) (witness.next z)
    (witness.Checked poseidon z circuit.rangeBits)
    (witness.isPadding = circuit.isPadding ∧ witness.Fits circuit.merkleDepth ∧ 0 < circuit.rangeBits ∧
      2 ^ (circuit.merkleDepth + 1) ≤ p ∧ witness.Checked poseidon z circuit.rangeBits) := by
  have enabledOn := lc_enabled witness
  have spendsOn : (honest (witness.wires.isPadding.not.and
      (Boolean.is (bit (decide (witness.wires.nullifier.nullifier = 0)) : ZMod p)).not)).lc = bit witness.spends :=
    Boolean.lc_honest_and enabledOn (lc_nonzero witness)
  have idleOn := Boolean.lc_not (honest (witness.wires.isPadding.not.and
    (Boolean.is (bit (decide (witness.wires.nullifier.nullifier = 0)) : ZMod p)).not))
  rw [spendsOn, bit_not] at idleOn
  refine Forces.mono (.bind (forces_verifyMerkleInclusionCircuit enabledOn _ _ _)
    (.bind (forces_enforcePathIndex enabledOn _ _) (.andThen (forces_isZero _)
    (.andThen (Boolean.forces_and enabledOn (lc_nonzero witness))
    (.bind (forces_verifyImtNonInclusionCircuit spendsOn) (.bind (forces_verifyImtInsertionCircuit spendsOn)
    (.bind (forces_enforcePathIndex spendsOn _ _)
    (.bind (forces_conditionalAssertEqual (lc_isPadding witness) _ _)
    (.bind (forces_conditionalAssertEqual idleOn _ _)
    (.bind (forces_conditionalAssertEqual (lc_isPadding witness) _ _)
    (forces_alloc (fun count => { witness.next z with txCount := count })
      (z.txCount + bit !witness.isPadding) (fun newTxCount => .bind (forces_enforce _ _ _)
    (forces_alloc (fun count => { witness.next z with txCount := newTxCount, nullifierCount := count })
      (z.nullifierCount + bit witness.spends) (fun _ => .bind (forces_enforce _ _ _) (forces_pure _)) ?_))
    ?_))))))))))) ?_ ?_
  · exact fun count met => (counted_iff spendsOn _ _).mp met.1
  · exact fun count met => (counted_iff enabledOn _ _).mp met.1
  · rintro ⟨commitment, commitmentIndex, nonInclusion, insertion, insertionIndex, padCommitments, padNullifiers,
      padHistoric, _⟩
    simp only [Bool.not_eq_true'] at commitment commitmentIndex padNullifiers
    exact ⟨commitment, commitmentIndex, nonInclusion, insertion, insertionIndex, padCommitments, padNullifiers,
      padHistoric⟩
  · rintro ⟨samePadding, fits, some, room, checked⟩
    refine ⟨?_, ?_, ⟨some, checked.nonInclusion⟩, ⟨Nat.succ_pos _, room, fun spends => ⟨checked.insertion spends, ?_⟩⟩,
      checked.insertionIndex, checked.padCommitments, ?_, checked.padHistoric, ?_,
      (counted_iff enabledOn _ _).mpr rfl, ?_, (counted_iff spendsOn _ _).mpr rfl, trivial⟩
    · rw [Bool.not_eq_true']
      exact checked.commitment
    · rw [Bool.not_eq_true']
      exact checked.commitmentIndex
    · have below := pathIndex_lt witness.nullifierInsertion.newLeafPath
      rw [fits.newLeaf] at below
      rw [checked.insertionIndex spends, ZMod.val_natCast_of_lt (by omega)]
      omega
    · rw [Bool.not_eq_true']
      exact checked.padNullifiers
    · rw [samePadding]
      cases circuit.isPadding <;> rfl
    · rw [Boolean.value_of_lc spendsOn]
      rfl

theorem checked_of_satisfying {poseidon : Poseidon (ZMod p)} {circuit : RollupStepCircuit (ZMod p)}
    {z : RollupState (ZMod p)} {assigned : StepWitness (ZMod p)} {zOut : RollupState (ZMod p)}
    (satisfied : circuit.Satisfying poseidon z assigned zOut) :
    assigned.Checked poseidon z circuit.rangeBits ∧ zOut = assigned.next z :=
  ((forces_constrain poseidon circuit z assigned).sound satisfied.2).symm

def RollupStepCircuit.assigned : StepWitness (ZMod p) where
  newCommitmentsRoot := circuit.padFallback circuit.newCommitmentsRoot z.commitmentsRoot
  newNullifiersRoot := circuit.padFallback circuit.newNullifiersRoot z.nullifiersRoot
  newHistoricRoot := circuit.padFallback circuit.newHistoricRoot z.historicRoot
  commitment := circuit.commitment
  commitmentPath := circuit.commitmentPath
  nullifierWitness := circuit.nullifierWitness
  nullifierInsertion := circuit.nullifierInsertion
  isPadding := circuit.isPadding

theorem padding_checked (depth : ℕ) :
    ((RollupStepCircuit.paddingWithDepth depth).assigned z).Checked poseidon z defaultRangeBits where
  commitment := nofun
  commitmentIndex := nofun
  nonInclusion := nofun
  insertion := nofun
  insertionIndex := nofun
  padCommitments := fun _ => rfl
  padNullifiers := fun _ => rfl
  padHistoric := fun _ => rfl

theorem padding_next (depth : ℕ) : ((RollupStepCircuit.paddingWithDepth depth).assigned z).next z = z := by
  change RollupState.mk z.commitmentsRoot z.nullifiersRoot z.historicRoot (z.txCount + 0) (z.nullifierCount + 0) = z
  rw [add_zero, add_zero]

theorem honest_allocate : honest (circuit.allocate z) = (circuit.assigned z).wires := by
  simp only [RollupStepCircuit.allocate, honest_bind, honest_alloc, honest_allocBit, honest_mapM,
    honest_allocHop, honest_allocNonInclusion, honest_allocInsertion, honest_pure]
  rfl

theorem holds_allocate : Holds (circuit.allocate z) := by
  simp only [RollupStepCircuit.allocate, holds_bind, holds_alloc, holds_allocBit, holds_mapM,
    holds_allocHop, holds_allocNonInclusion, holds_allocInsertion, holds_pure, implies_true, and_self]

variable {poseidon z} (some : 0 < circuit.rangeBits) (room : 2 ^ (circuit.merkleDepth + 1) ≤ p)
  (checked : (circuit.assigned z).Checked poseidon z circuit.rangeBits)

include some room checked

theorem complete_constrain : Holds (circuit.constrain poseidon (circuit.assigned z).wires z) ∧
    honest (circuit.constrain poseidon (circuit.assigned z).wires z) = (circuit.assigned z).next z :=
  (forces_constrain poseidon circuit z (circuit.assigned z)).complete ⟨rfl,
    ⟨circuit.fits.commitment, circuit.fits.low, circuit.fits.updatedLow, circuit.fits.newLeaf⟩, some, room, checked⟩

theorem complete_synthesize : Holds (circuit.synthesize poseidon z) ∧
    honest (circuit.synthesize poseidon z) = (circuit.assigned z).next z := by
  obtain ⟨holds, isNext⟩ := complete_constrain circuit some room checked
  rw [RollupStepCircuit.synthesize, holds_bind, honest_bind, honest_allocate]
  exact ⟨⟨holds_allocate circuit z, holds⟩, isNext⟩

theorem satisfying_of_checked :
    circuit.Satisfying poseidon z (circuit.assigned z) ((circuit.assigned z).next z) := by
  obtain ⟨holds, isNext⟩ := complete_constrain circuit some room checked
  exact ⟨reaches_of_holds (holds_allocate circuit z) (honest_allocate circuit z), reaches_of_holds holds isNext⟩

end

end Nightfall.Nova
