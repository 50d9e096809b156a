import Nightfall.Contract.ProposeBlock
import Nightfall.Plonk.Delivery

/-! The rollup circuits of a block of 64, from `rollup_circuit_checks.rs`, and the block they are
proved for. -/

namespace Nightfall.Plonk

open Contract (Environment Word)

abbrev Fq254 := ZMod 21888242871839275222246405745257275088696311157297823662689037894645226208583

def fieldWord (x : Fr254) : Word := BitVec.ofNat 256 x.val

/-- The sha gadgets of the circuit library: `full_shifted_sha256_hash` of two variables, and
`full_shifted_sha256_hash_with_bit` of a list of them and a bit. -/
structure ShaGadget where
  pair : Fr254 → Fr254 → Fr254
  withBit : List Fr254 → Bool → Fr254

/-- The gadgets compute the contract's shifted hash of the variables' words; the bit becomes the
top bit of the last word. -/
structure ShaGadget.Computes (sha : ShaGadget) (env : Environment) : Prop where
  pair : ∀ left right, fieldWord (sha.pair left right) = Contract.pairHash env (fieldWord left) (fieldWord right)
  withBit : ∀ front last bit, fieldWord (sha.withBit (front ++ [last]) bit) =
    env.sha256AndShift (Contract.abiEncode (front.map fieldWord ++
      [BitVec.ofNat 256 (last.val + if bit then 2 ^ 255 else 0)]))

/-- What `base_grumpkin_checks` enforces on the words of one client proof. -/
structure SeparatorGates (words : List Fr254) : Prop where
  tag : words[0]? = some publicInputsTag
  fee : words[1]? = some 1
  root : words[3]? = some 1
  commitments : words[5]? = some 4
  nullifiers : words[10]? = some 4
  secrets : words[15]? = some 5
  swap : words.length = 21 ∨ (words.length = 27 ∧ words[21]? = some 1 ∧ words[23]? = some 1 ∧ words[25]? = some 1)

structure ContractFields where
  fee : Fr254
  root : Fr254
  commitments : List Fr254
  nullifiers : List Fr254
  secrets : List Fr254

def contractFields (words : List Fr254) : ContractFields where
  fee := words.getD 2 0
  root := words.getD 4 0
  commitments := (words.drop 6).take 4
  nullifiers := (words.drop 11).take 4
  secrets := (words.drop 16).take 5

def transactionSha (sha : ShaGadget) (fields : ContractFields) : Fr254 :=
  sha.withBit (fields.commitments ++ fields.nullifiers ++ fields.secrets.take 4)
    (decide (fields.secrets.getD 4 0 = 1))

structure InsertionGadget where
  Info : Type
  oldRoot : Info → Fr254
  newRoot : Info → Fr254
  Verified : Info → Prop

structure RollupWires where
  startRootComm : Fr254
  endRootComm : Fr254
  startRootNull : Fr254
  endRootNull : Fr254
  feeSum : Fr254
  sha : Fr254

structure MergedWires where
  startRootComm : Fr254
  endRootComm : Fr254
  startRootNull : Fr254
  endRootNull : Fr254
  feeSum : Fq254
  shaOne : Fr254
  shaTwo : Fr254

structure BaseHalf (commitments nullifiers : InsertionGadget) where
  leafRoots : Fin 2 → Fr254
  rootProofs : Fin 2 → List (Merkle.PathElement Fr254)
  historicRoots : Fin 2 → Fr254
  commitmentInfo : commitments.Info
  nullifierInfo : nullifiers.Info

/-- `words` enter `base_grumpkin_checks` and `fields` enter `base_bn254_checks`. -/
structure Base (commitments nullifiers : InsertionGadget) where
  words : Fin 4 → List Fr254
  fields : Fin 4 → ContractFields
  halves : Fin 2 → BaseHalf commitments nullifiers

section

variable (sha : ShaGadget) (hash : Fr254 → Fr254 → Fr254) {commitments nullifiers : InsertionGadget}

/-- `base_bn254_extra_checks` for one half. -/
structure BaseHalf.Gates (half : BaseHalf commitments nullifiers) : Prop where
  membership : ∀ i, Merkle.computeRoot hash (half.leafRoots i) (half.rootProofs i) = half.historicRoots i
  commitmentInsertion : commitments.Verified half.commitmentInfo
  nullifierInsertion : nullifiers.Verified half.nullifierInfo

structure Base.Gates (base : Base commitments nullifiers) : Prop where
  separators : ∀ i, SeparatorGates (base.words i)
  halves : ∀ i, (base.halves i).Gates hash
  commitmentChain : commitments.oldRoot (base.halves 1).commitmentInfo =
    commitments.newRoot (base.halves 0).commitmentInfo
  nullifierChain : nullifiers.oldRoot (base.halves 1).nullifierInfo = nullifiers.newRoot (base.halves 0).nullifierInfo

def Base.wires (base : Base commitments nullifiers) : RollupWires where
  startRootComm := commitments.oldRoot (base.halves 0).commitmentInfo
  endRootComm := commitments.newRoot (base.halves 1).commitmentInfo
  startRootNull := nullifiers.oldRoot (base.halves 0).nullifierInfo
  endRootNull := nullifiers.newRoot (base.halves 1).nullifierInfo
  feeSum := 0 + (base.fields 0).fee + (base.fields 1).fee + (base.fields 2).fee + (base.fields 3).fee
  sha := sha.pair (sha.pair (transactionSha sha (base.fields 0)) (transactionSha sha (base.fields 1)))
    (sha.pair (transactionSha sha (base.fields 2)) (transactionSha sha (base.fields 3)))

section

variable (inputs : RollupWires × RollupWires)

/-- What `grumpkin_merge_circuit_checks` returns for the outputs of two proofs. -/
def grumpkinMerge : MergedWires :=
  ⟨inputs.1.startRootComm, inputs.2.endRootComm, inputs.1.startRootNull, inputs.2.endRootNull,
    (inputs.1.feeSum.val : ℕ) + (inputs.2.feeSum.val : ℕ), inputs.1.sha, inputs.2.sha⟩

def RootsMeet : Prop :=
  inputs.1.endRootComm = inputs.2.startRootComm ∧ inputs.1.endRootNull = inputs.2.startRootNull

end

section

variable (inputs : MergedWires × MergedWires)

def mergedSha : Fr254 :=
  sha.pair (sha.pair inputs.1.shaOne inputs.1.shaTwo) (sha.pair inputs.2.shaOne inputs.2.shaTwo)

def mergedFee : Fr254 := (inputs.1.feeSum.val : ℕ) + (inputs.2.feeSum.val : ℕ)

/-- What `bn254_merge_circuit_checks` returns for the outputs of two proofs. -/
def bn254Merge : RollupWires :=
  ⟨inputs.1.startRootComm, inputs.2.endRootComm, inputs.1.startRootNull, inputs.2.endRootNull,
    mergedFee inputs, mergedSha sha inputs⟩

/-- The root gates of `bn254_merge_circuit_checks` and of the decider. -/
def MergedRootsMeet : Prop :=
  inputs.1.endRootComm = inputs.2.startRootComm ∧ inputs.1.endRootNull = inputs.2.startRootNull

end

/-- The inputs of the circuits of each layer: 16 base circuits, 8 merges in Grumpkin, 4 in BN254,
2 in Grumpkin and the decider. -/
structure Rollup (commitments nullifiers : InsertionGadget) where
  bases : ℕ → Base commitments nullifiers
  first : ℕ → RollupWires × RollupWires
  second : ℕ → MergedWires × MergedWires
  third : ℕ → RollupWires × RollupWires
  decider : MergedWires × MergedWires
  historicRootProof : List (Merkle.PathElement Fr254)
  oldHistoricRoot : Fr254

variable (rollup : Rollup commitments nullifiers)

/-- The wiring of `RecursiveProver`, which is not part of this repository: every circuit takes
what two neighbours of the layer below return. -/
structure Rollup.Wired : Prop where
  base : ∀ i j, (rollup.bases i).fields j = contractFields ((rollup.bases i).words j)
  first : ∀ i, rollup.first i = ((rollup.bases (2 * i)).wires sha, (rollup.bases (2 * i + 1)).wires sha)
  second : ∀ i, rollup.second i = (grumpkinMerge (rollup.first (2 * i)), grumpkinMerge (rollup.first (2 * i + 1)))
  third : ∀ i, rollup.third i = (bn254Merge sha (rollup.second (2 * i)), bn254Merge sha (rollup.second (2 * i + 1)))
  decider : rollup.decider = (grumpkinMerge (rollup.third 0), grumpkinMerge (rollup.third 1))

structure Rollup.Gates : Prop where
  bases : ∀ i < 16, (rollup.bases i).Gates hash
  first : ∀ i < 8, RootsMeet (rollup.first i)
  second : ∀ i < 4, MergedRootsMeet (rollup.second i)
  third : ∀ i < 2, RootsMeet (rollup.third i)
  decider : MergedRootsMeet rollup.decider
  oldHistoric : Merkle.computeRoot hash 0 rollup.historicRootProof = rollup.oldHistoricRoot

def Rollup.outputs : List Fr254 :=
  let (one, two) := rollup.decider
  [mergedFee rollup.decider, mergedSha sha rollup.decider, one.startRootComm, two.endRootComm,
    one.startRootNull, two.endRootNull, rollup.oldHistoricRoot,
    Merkle.computeRoot hash two.endRootComm rollup.historicRootProof]

def Rollup.clientWords (n : ℕ) : List Fr254 :=
  (rollup.bases (n / 4)).words (Fin.ofNat 4 n)

variable {sha rollup}

theorem Rollup.Wired.decider_sha (wired : rollup.Wired sha) : mergedSha sha rollup.decider =
    Merkle.levelRoot sha.pair 6 fun n => transactionSha sha (contractFields (rollup.clientWords n)) := by
  simp only [wired.decider, wired.third, wired.second, wired.first, mergedSha, grumpkinMerge, bn254Merge,
    Base.wires, wired.base]
  rfl

end

end Nightfall.Plonk
