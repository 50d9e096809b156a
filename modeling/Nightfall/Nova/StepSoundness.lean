import Nightfall.Nova.IndexedTrees
import Nightfall.Nova.InsertingStep

/-! Soundness of the Nova step against adversarial assignments: what the constraints say about the
trees behind the old and the new roots. -/

namespace Nightfall.Nova

open R1cs Merkle NovaIndexedLeaf Function Nat List

variable {p : ℕ} [Fact p.Prime] (witness : ImtNonInclusionWitness (ZMod p))

def ImtNonInclusionWitness.Brackets : Prop :=
  witness.lowValue.val < witness.nullifier.val ∧
    (witness.lowNextValue = 0 ∨ witness.nullifier.val < witness.lowNextValue.val)

def ImtNonInclusionWitness.lowTriple : ZMod p × ZMod p × ZMod p :=
  (witness.lowValue, witness.lowNextIndex, witness.lowNextValue)

theorem NonInclusion.brackets {poseidon : Poseidon (ZMod p)} {witness : ImtNonInclusionWitness (ZMod p)}
    {root : ZMod p} {numBits : ℕ} (checked : NonInclusion poseidon witness root numBits)
    (spare : 2 ^ (numBits + 1) ≤ p) : witness.Brackets := by
  refine ⟨checked.above.val_lt spare, ?_⟩
  by_cases zero : witness.lowNextValue = 0
  · exact Or.inl zero
  · exact Or.inr ((checked.below zero).val_lt spare)

theorem brackets_of_triple {witness : ImtNonInclusionWitness (ZMod p)} {low : NovaIndexedLeaf (ZMod p)}
    (isLow : low.triple = witness.lowTriple) (brackets : witness.Brackets) : low.Brackets witness.nullifier := by
  obtain ⟨isValue, _, isNext⟩ : low.value = witness.lowValue ∧ low.nextIndex = witness.lowNextIndex ∧
      low.nextValue = witness.lowNextValue := by
    simpa [triple, ImtNonInclusionWitness.lowTriple] using isLow
  rw [NovaIndexedLeaf.Brackets, isValue, isNext]
  exact brackets

theorem narrow_spares {rangeBits : ℕ} (narrow : rangeBits ≤ 252) : 2 ^ (rangeBits + 1) ≤ fr254Modulus := by
  calc 2 ^ (rangeBits + 1) ≤ 2 ^ 253 := Nat.pow_le_pow_right (by decide) (by omega)
    _ ≤ fr254Modulus := by decide

theorem lessThan_iff {a b : Fr254} {numBits : ℕ} (narrow : numBits ≤ 252) :
    LessThan a b numBits ↔ a.val < b.val ∧ b.val < 2 ^ numBits :=
  ⟨fun less => ⟨less.val_lt (narrow_spares narrow), less.right⟩, fun less => lessThan_of_val_lt less.1 less.2⟩

/-- Both comparisons of the step circuit decide the order of the integers. -/
theorem enforceLessThan_satisfiable (a b : Fr254) (numBits : ℕ) (some : 1 ≤ numBits) (narrow : numBits ≤ 252) :
    (Reaches (enforceLessThan a b numBits) () ↔ a.val < b.val ∧ b.val < 2 ^ numBits) ∧
      ∀ (enabled : Boolean Fr254) (flag : Bool), enabled.lc = R1cs.bit flag →
        (Reaches (conditionalEnforceLessThan a b numBits enabled) () ↔
          flag = false ∨ a.val < b.val ∧ b.val < 2 ^ numBits) := by
  refine ⟨?_, fun enabled flag isOn => ?_⟩
  · rw [(forces_enforceLessThan a b numBits).reaches_iff, eq_self, true_and]
    exact lessThan_iff narrow
  rw [(forces_conditionalEnforceLessThan a b numBits isOn).reaches_iff, eq_self, true_and]
  cases flag with
  | false => simpa using lessThan_zero_one some
  | true => simpa using lessThan_iff narrow

theorem enforceLessThan_satisfiable_sample :
    Reaches (enforceLessThan (2 : Fr254) 3 252) () ∧ ¬Reaches (enforceLessThan (-1 : Fr254) 0 252) () := by
  rw [(enforceLessThan_satisfiable 2 3 252 (by decide) (by decide)).1,
    (enforceLessThan_satisfiable (-1) 0 252 (by decide) (by decide)).1]
  decide

theorem spends_of_real {assigned : StepWitness (ZMod p)} (real : assigned.isPadding = false)
    (nonzero : assigned.nullifierWitness.nullifier ≠ 0) : assigned.spends = true := by
  simp [StepWitness.spends, real, nonzero]

def appendOnlyRoot (poseidon : Poseidon (ZMod p)) (depth : ℕ) (leaves : List (ZMod p)) : ZMod p :=
  levels poseidon.hash2 depth (fun i => leaves.getD i 0) 0

theorem appendOnlyRoot_concat (poseidon : Poseidon (ZMod p)) {depth : ℕ} {leaves : List (ZMod p)}
    (leaf : ZMod p) (room : leaves.length < 2 ^ depth) :
    appendOnlyRoot poseidon depth (leaves ++ [leaf]) = computeRoot poseidon.hash2 leaf
        (opening poseidon.hash2 depth (fun i => leaves.getD i 0) leaves.length) := by
  rw [computeRoot_opening, div_eq_of_lt room, appendOnlyRoot, getD_concat]

def StepWitness.commitmentNodes (assigned : StepWitness (ZMod p)) (poseidon : Poseidon (ZMod p))
    (depth : ℕ) (leaves : List (ZMod p)) : Set (ZMod p × ZMod p) :=
  (pathPairs poseidon.hash2 0 assigned.commitmentPath ∪ pairsBelow poseidon.hash2 depth (fun i => leaves.getD i 0)) ∪
    (pathPairs poseidon.hash2 assigned.commitment assigned.commitmentPath ∪
      pairsBelow poseidon.hash2 depth (fun i => (leaves ++ [assigned.commitment]).getD i 0))

section

variable {depth : ℕ} (poseidon : Poseidon Fr254) (tree : IndexedTree fr254Modulus depth)
  (step : StepInsertion fr254Modulus) (commitments : ℕ → Fr254)

def insertedLeaves : StepLeaves fr254Modulus where
  commitments := commitments
  nullifiers := tree.hashes poseidon
  newNullifiers := update
    (update (tree.hashes poseidon) step.low.index ((step.low.repointed step.nullifier step.index).hash poseidon))
    step.index ((step.low.successor step.nullifier step.index).hash poseidon)

structure StepInsertion.Possible (step : StepInsertion fr254Modulus) : Prop where
  low : step.low ∈ tree.leaves
  empty : step.index ∉ tree.leaves.map NovaIndexedLeaf.index
  index : step.index < 2 ^ depth
  position : step.position < 2 ^ depth
  nonzero : step.nullifier ≠ 0

variable {tree step}

theorem insertedLeaves_holds (possible : step.Possible tree) :
    (insertedLeaves poseidon tree step commitments).Holds poseidon depth step := by
  have different : step.low.index ≠ step.index := by
    intro same
    exact possible.empty (same ▸ mem_map_of_mem possible.low)
  refine ⟨possible.position, tree.inside step.low possible.low, possible.index, ?_, ?_, ?_⟩
  · exact tree.hashes_of_mem poseidon possible.low
  · exact (update_of_ne different _ _).trans (update_self _ _ _)
  · exact update_self _ _ _

theorem any_nullifier_accepted (possible : step.Possible tree)
    (room : 2 ^ (depth + 1) ≤ fr254Modulus) (historicRoot : Fr254) {z : RollupState Fr254}
    (count : z.txCount = step.position) (isRoot : z.nullifiersRoot = tree.root poseidon) :
    (insertingCircuit poseidon depth (insertedLeaves poseidon tree step commitments) step
        historicRoot defaultRangeBits).Satisfying poseidon z
      (insertingWitness poseidon depth (insertedLeaves poseidon tree step commitments) step historicRoot)
      ((insertingWitness poseidon depth (insertedLeaves poseidon tree step commitments) step
        historicRoot).next z) := by
  have wide : fr254Modulus.size ≤ defaultRangeBits := by decide +kernel
  exact insertingCircuit_satisfying (insertedLeaves_holds poseidon commitments possible) historicRoot
    count isRoot possible.nonzero (by decide) room (lessThan_of_size _ _ wide)
    fun _ => lessThan_of_size _ _ wide

end

section

def sampleStep : StepInsertion fr254Modulus := ⟨0, zeroLeaf, 3, 1⟩

theorem sampleStep_possible : sampleStep.Possible (zeroTree 1) :=
  ⟨by decide, by decide, by decide, by decide, by decide⟩

def sampleLeaves : StepLeaves fr254Modulus :=
  insertedLeaves samplePoseidon (zeroTree 1) sampleStep fun i => [9].getD i 0

def sampleCircuit (rangeBits : ℕ) : RollupStepCircuit Fr254 :=
  insertingCircuit samplePoseidon 1 sampleLeaves sampleStep 0 rangeBits

def sampleAssigned : StepWitness Fr254 := insertingWitness samplePoseidon 1 sampleLeaves sampleStep 0

def sampleState : RollupState Fr254 :=
  ⟨appendOnlyRoot samplePoseidon 1 [], (zeroTree 1).root samplePoseidon, 0, 0, 0⟩

theorem sample_holds : sampleLeaves.Holds samplePoseidon 1 sampleStep :=
  insertedLeaves_holds samplePoseidon (fun i => [9].getD i 0) sampleStep_possible

theorem sample_satisfying {rangeBits : ℕ} (wide : 252 ≤ rangeBits) :
    (sampleCircuit rangeBits).Satisfying samplePoseidon sampleState sampleAssigned
      (sampleAssigned.next sampleState) := by
  have count : sampleState.txCount = sampleStep.position := Nat.cast_zero.symm
  have isRoot : sampleState.nullifiersRoot = levels samplePoseidon.hash2 1 sampleLeaves.nullifiers 0 := rfl
  have fits : sampleStep.nullifier.val < 2 ^ rangeBits :=
    calc sampleStep.nullifier.val < 2 ^ 252 := by decide
      _ ≤ 2 ^ rangeBits := Nat.pow_le_pow_right (by decide) wide
  have above : LessThan sampleStep.low.value sampleStep.nullifier rangeBits :=
    lessThan_of_val_lt (by decide) fits
  exact insertingCircuit_satisfying sample_holds 0 count isRoot sampleStep_possible.nonzero
    (by omega) (by decide) above fun nonzero => absurd rfl nonzero

def sampleNodes : List (Fr254 × Fr254) := [(1, 0), (5, 0), (5, 4)]

def sampleTriples : List (Fr254 × Fr254 × Fr254) := [(0, 0, 0), (0, 1, 3), (3, 0, 0)]

theorem collisionFree_listed (nodes : List (Fr254 × Fr254)) (triples : List (Fr254 × Fr254 × Fr254))
    (nodup : (nodes.map fun pair => samplePoseidon.hash2 pair.1 pair.2).Nodup ∧
      (0 :: triples.map fun leaf => samplePoseidon.hash3 leaf.1 leaf.2.1 leaf.2.2).Nodup) :
    samplePoseidon.CollisionFree {pair | pair ∈ nodes} {leaf | leaf ∈ triples} where
  hash2 := fun _ first _ second => inj_on_of_nodup_map nodup.1 first second
  hash3 := fun _ first _ second => inj_on_of_nodup_map nodup.2.of_cons first second
  occupied := fun leaf member zero => (nodup_cons.mp nodup.2).1 (mem_map.mpr ⟨leaf, member, zero⟩)

theorem sample_collisionFree :
    samplePoseidon.CollisionFree {pair | pair ∈ sampleNodes} {leaf | leaf ∈ sampleTriples} :=
  collisionFree_listed _ _ (by decide +kernel)

theorem pairsBelow_one (hash : Fr254 → Fr254 → Fr254) (leaves : ℕ → Fr254) :
    pairsBelow hash 1 leaves = {(leaves 0, leaves 1)} := by
  ext pair
  simp [pairsBelow]

theorem sample_lowNodes : pathPairs samplePoseidon.hash2 (sampleAssigned.nullifierWitness.lowHash samplePoseidon)
        sampleAssigned.nullifierWitness.path ∪ (zeroTree 1).nodes samplePoseidon ⊆
      {pair | pair ∈ sampleNodes} := by
  have path : sampleAssigned.nullifierWitness.path = [⟨0, false⟩] := by decide +kernel
  have low : sampleAssigned.nullifierWitness.lowHash samplePoseidon = 1 := by decide +kernel
  have left : (zeroTree 1).hashes samplePoseidon 0 = 1 := by decide +kernel
  have right : (zeroTree 1).hashes samplePoseidon 1 = 0 := by decide +kernel
  rw [path, low, IndexedTree.nodes, pairsBelow_one, left, right]
  simp [pathPairs, PathElement.pair, sampleNodes]

theorem sample_lowTriples :
    {sampleAssigned.nullifierWitness.lowTriple} ∪ (zeroTree 1).triples ⊆ {leaf | leaf ∈ sampleTriples} := by
  rintro leaf (rfl | ⟨stored, member, rfl⟩)
  · exact mem_cons_self
  · obtain rfl := mem_singleton.mp member
    exact mem_cons_self

end

/-- The historic root of a real step is whatever the witness says. -/
theorem step_keeps_or_counts {poseidon : Poseidon (ZMod p)} {circuit : RollupStepCircuit (ZMod p)}
    {z zOut : RollupState (ZMod p)} {assigned : StepWitness (ZMod p)}
    (satisfied : circuit.Satisfying poseidon z assigned zOut) :
    (assigned.isPadding = true → zOut = z) ∧ (assigned.isPadding = false → zOut.txCount = z.txCount + 1 ∧
      zOut.nullifierCount = z.nullifierCount + (if assigned.nullifierWitness.nullifier ≠ 0 then 1 else 0) ∧
      (zOut.historicRoot = z.historicRoot ↔ assigned.newHistoricRoot = z.historicRoot)) := by
  obtain ⟨checked, rfl⟩ := checked_of_satisfying satisfied
  constructor
  · intro padding
    have idle : assigned.spends = false := by simp [StepWitness.spends, padding]
    rw [StepWitness.next, checked.padCommitments padding, checked.padNullifiers idle, checked.padHistoric padding,
      idle, padding]
    simp [R1cs.bit]
  · intro real
    simp [StepWitness.next, StepWitness.spends, real, R1cs.bit]

theorem step_keeps_or_counts_sample : (sampleAssigned.next sampleState).txCount = sampleState.txCount + 1 :=
  ((step_keeps_or_counts (sample_satisfying (show 252 ≤ defaultRangeBits by decide))).2 rfl).1

theorem historic_root_unbound : ∃ circuit z assigned zOut,
    RollupStepCircuit.Satisfying samplePoseidon circuit z assigned zOut ∧ assigned.isPadding = false ∧
      z.historicRoot = 0 ∧ zOut.historicRoot = 1 :=
  ⟨_, sampleState, _, _, any_nullifier_accepted samplePoseidon (fun _ => 0) sampleStep_possible (by decide) 1
    cast_zero.symm rfl, rfl, rfl, rfl⟩

def fiveLeaves : List (NovaIndexedLeaf Fr254) := [zeroLeaf.repointed 5 1, zeroLeaf.successor 5 1]

theorem fiveLeaves_indexed : Indexed fiveLeaves := by
  have before : Indexed ([] ++ zeroLeaf :: []) := zeroLeaf_indexed
  exact before.insert (zeroLeaf_brackets (by decide)) (by decide)

theorem fiveLeaves_inside : ∀ leaf ∈ fiveLeaves, leaf.index < 2 ^ 2 := by decide

def fiveTree : IndexedTree fr254Modulus 2 := ⟨fiveLeaves, fiveLeaves_indexed, fiveLeaves_inside⟩

section

variable {poseidon : Poseidon Fr254} {circuit : RollupStepCircuit Fr254} {z zOut : RollupState Fr254}
  {assigned : StepWitness Fr254}

theorem absent_of_narrow (satisfied : circuit.Satisfying poseidon z assigned zOut)
    (real : assigned.isPadding = false) (nonzero : assigned.nullifierWitness.nullifier ≠ 0)
    (tree : IndexedTree fr254Modulus circuit.merkleDepth) (isRoot : tree.root poseidon = z.nullifiersRoot)
    (collisionFree : poseidon.CollisionFree (pathPairs poseidon.hash2 (assigned.nullifierWitness.lowHash poseidon)
        assigned.nullifierWitness.path ∪ tree.nodes poseidon) ({assigned.nullifierWitness.lowTriple} ∪ tree.triples))
    (narrow : circuit.rangeBits ≤ 252) : assigned.nullifierWitness.nullifier ∉ tree.values := by
  obtain ⟨checked, _⟩ := checked_of_satisfying satisfied
  have nonInclusion := checked.nonInclusion (spends_of_real real nonzero)
  obtain ⟨low, member, isLow, _⟩ := tree.stored_of_opened
    assigned.nullifierWitness.lowTriple satisfied.fits.low collisionFree
    (nonInclusion.opened.trans isRoot.symm)
  exact tree.indexed.not_mem_of_brackets member
    (brackets_of_triple isLow (nonInclusion.brackets (narrow_spares narrow)))

def bigValue : Fr254 := 2 ^ 253 - 1

def bigLeaves : List (NovaIndexedLeaf Fr254) :=
  [zeroLeaf.repointed 5 1, (zeroLeaf.successor 5 1).repointed bigValue 2, (zeroLeaf.successor 5 1).successor bigValue 2]

theorem bigLeaves_indexed : Indexed bigLeaves := by
  have before : Indexed ([zeroLeaf.repointed 5 1] ++ zeroLeaf.successor 5 1 :: []) := fiveLeaves_indexed
  exact before.insert ⟨by decide +kernel, Or.inl rfl⟩ (by decide)

def bigTree : IndexedTree fr254Modulus 2 := ⟨bigLeaves, bigLeaves_indexed, by decide⟩

/-- Nullifier 5 against the last leaf of `bigTree`, whose value is larger. -/
def spendFiveBelow : StepInsertion fr254Modulus := ⟨0, (zeroLeaf.successor 5 1).successor bigValue 2, 5, 3⟩

theorem lessThan_bigValue {rangeBits : ℕ} (wide : 252 < rangeBits) : LessThan bigValue 5 rangeBits := by
  have bound : 2 ^ 253 ≤ 2 ^ rangeBits := Nat.pow_le_pow_right two_pos wide
  exact ⟨lt_of_lt_of_le (by decide +kernel) bound, lt_of_lt_of_le (by decide +kernel) bound,
    lt_of_lt_of_le (by decide +kernel) bound⟩

theorem bigTree_collisionFree : samplePoseidon.CollisionFree
    (pathPairs samplePoseidon.hash2 (spendFiveBelow.low.hash samplePoseidon)
      (opening samplePoseidon.hash2 2 (bigTree.hashes samplePoseidon) 2) ∪ bigTree.nodes samplePoseidon)
    ({spendFiveBelow.low.triple} ∪ bigTree.triples) := by
  have path : opening samplePoseidon.hash2 2 (bigTree.hashes samplePoseidon) 2 =
    [⟨0, false⟩, ⟨2 * bigValue + 23, true⟩] := by decide +kernel
  have free := collisionFree_listed [(7, bigValue + 8), (bigValue + 1, 0), (2 * bigValue + 23, bigValue + 1)]
    (bigLeaves.map NovaIndexedLeaf.triple) (by decide +kernel)
  apply free.mono
  · rw [path]
    rintro pair ((rfl | rfl | none) | ⟨i, inside, rfl⟩ | top)
    · decide +kernel
    · decide +kernel
    · exact absurd none (Set.notMem_empty _)
    · interval_cases i <;> decide +kernel
    · rw [pairsBelow_one] at top
      obtain rfl := top
      decide +kernel
  · rintro leaf (rfl | ⟨stored, member, rfl⟩)
    · exact mem_map_of_mem (by decide +kernel)
    · exact mem_map_of_mem member

/-- The claim of the circuit at one width of its comparisons. -/
def SpentOnce (rangeBits : ℕ) : Prop :=
  ∀ (poseidon : Poseidon Fr254) (circuit : RollupStepCircuit Fr254) (z zOut : RollupState Fr254)
    (assigned : StepWitness Fr254) (tree : IndexedTree fr254Modulus circuit.merkleDepth),
    circuit.rangeBits = rangeBits → circuit.Satisfying poseidon z assigned zOut → assigned.isPadding = false →
    assigned.nullifierWitness.nullifier ≠ 0 → tree.root poseidon = z.nullifiersRoot →
    poseidon.CollisionFree (pathPairs poseidon.hash2 (assigned.nullifierWitness.lowHash poseidon)
      assigned.nullifierWitness.path ∪ tree.nodes poseidon) ({assigned.nullifierWitness.lowTriple} ∪ tree.triples) →
    assigned.nullifierWitness.nullifier ∉ tree.values

theorem nullifier_absent_iff (rangeBits : ℕ) : SpentOnce rangeBits ↔ rangeBits ≤ 252 := by
  constructor
  · intro once
    by_contra wide
    rw [not_le] at wide
    have possible : spendFiveBelow.Possible bigTree :=
      ⟨by decide +kernel, by decide, by decide, by decide, by decide⟩
    have accepted := insertingCircuit_satisfying (insertedLeaves_holds samplePoseidon (fun _ => 0) possible) 0
      (z := ⟨0, bigTree.root samplePoseidon, 0, 0, 0⟩) cast_zero.symm rfl possible.nonzero
      (show 0 < rangeBits by omega) (by decide) (lessThan_bigValue wide) fun nonzero => absurd rfl nonzero
    have stored : spendFiveBelow.nullifier ∈ bigTree.values := by decide +kernel
    refine once samplePoseidon (insertingCircuit samplePoseidon 2 _ spendFiveBelow 0 rangeBits) _ _ _ bigTree rfl
      accepted rfl possible.nonzero rfl bigTree_collisionFree stored
  · intro narrow poseidon circuit z zOut assigned tree isWidth satisfied real nonzero isRoot collisionFree
    exact absent_of_narrow satisfied real nonzero tree isRoot collisionFree (isWidth ▸ narrow)

def spendFiveAgain : StepInsertion fr254Modulus := ⟨0, zeroLeaf.repointed 5 1, 5, 2⟩

theorem spent_nullifier_accepted :
    ∃ (circuit : Poseidon Fr254 → RollupStepCircuit Fr254) (z zOut : Poseidon Fr254 → RollupState Fr254)
      (assigned : Poseidon Fr254 → StepWitness Fr254)
      (tree : ∀ poseidon, IndexedTree fr254Modulus (circuit poseidon).merkleDepth), ∀ poseidon,
      (circuit poseidon).rangeBits = defaultRangeBits ∧
      (circuit poseidon).Satisfying poseidon (z poseidon) (assigned poseidon) (zOut poseidon) ∧
      (assigned poseidon).isPadding = false ∧ (assigned poseidon).nullifierWitness.nullifier ≠ 0 ∧
      (tree poseidon).root poseidon = (z poseidon).nullifiersRoot ∧
      (assigned poseidon).nullifierWitness.nullifier ∈ (tree poseidon).values := by
  have possible : spendFiveAgain.Possible fiveTree :=
    ⟨by decide, by decide, by decide, by decide, by decide⟩
  have stored : spendFiveAgain.nullifier ∈ fiveTree.values := by decide
  let circuit (poseidon : Poseidon Fr254) := insertingCircuit poseidon 2
    (insertedLeaves poseidon fiveTree spendFiveAgain fun _ => 0) spendFiveAgain 0 defaultRangeBits
  have accepted (poseidon : Poseidon Fr254) := any_nullifier_accepted poseidon (fun _ => 0) possible
    (by decide) 0 (z := ⟨0, fiveTree.root poseidon, 0, 0, 0⟩) cast_zero.symm rfl
  exact ⟨circuit, _, _, _, fun _ => fiveTree, fun poseidon =>
    ⟨rfl, accepted poseidon, rfl, possible.nonzero, rfl, stored⟩⟩

/-- The new root is that of the old leaves with the commitment behind them, exactly when the
path opens the empty leaf against the old root, which no constraint asks for. -/
theorem commitment_appended_iff (satisfied : circuit.Satisfying poseidon z assigned zOut)
    (real : assigned.isPadding = false) (capacity : 2 ^ circuit.merkleDepth < fr254Modulus) (leaves : List Fr254)
    (fits : leaves.length ≤ 2 ^ circuit.merkleDepth) (count : z.txCount = leaves.length)
    (isRoot : z.commitmentsRoot = appendOnlyRoot poseidon circuit.merkleDepth leaves)
    (injective : Set.InjOn (fun pair : Fr254 × Fr254 => poseidon.hash2 pair.1 pair.2)
      (assigned.commitmentNodes poseidon circuit.merkleDepth leaves)) :
    zOut.commitmentsRoot = appendOnlyRoot poseidon circuit.merkleDepth (leaves ++ [assigned.commitment]) ↔
      computeRoot poseidon.hash2 0 assigned.commitmentPath = z.commitmentsRoot := by
  obtain ⟨checked, rfl⟩ := checked_of_satisfying satisfied
  have length := satisfied.fits.commitment
  have isIndex : pathIndex assigned.commitmentPath = leaves.length := by
    have below := pathIndex_lt assigned.commitmentPath
    have same := (checked.commitmentIndex real).symm.trans count
    rw [length] at below
    rw [ZMod.natCast_eq_natCast_iff'] at same
    rwa [Nat.mod_eq_of_lt (by omega), Nat.mod_eq_of_lt (by omega)] at same
  have room : leaves.length < 2 ^ circuit.merkleDepth := by
    rw [← isIndex, ← length]
    exact pathIndex_lt _
  have isNew : (assigned.next z).commitmentsRoot =
      computeRoot poseidon.hash2 assigned.commitment assigned.commitmentPath :=
    (checked.commitment real).symm
  rw [isNew]
  constructor
  · intro appended
    have opens := opens_of_computeRoot poseidon.hash2 length (injective.mono Set.subset_union_right) appended
    rw [isIndex] at opens
    rw [opens.2, computeRoot_opening, Nat.div_eq_of_lt room, getD_concat, update_idem, isRoot, appendOnlyRoot]
    congr 1
    simp
  · intro opened
    have opens := opens_of_computeRoot poseidon.hash2 length
      (injective.mono Set.subset_union_left) (opened.trans isRoot)
    rw [isIndex] at opens
    rw [appendOnlyRoot_concat poseidon assigned.commitment room, ← opens.2]

def sampleNext : RollupState Fr254 := sampleAssigned.next sampleState

/-- Commitment 8 behind the 9 of the sample, and no nullifier. -/
def secondCircuit : RollupStepCircuit Fr254 :=
  .newReal 1 (appendOnlyRoot samplePoseidon 1 [9, 8]) sampleNext.nullifiersRoot 0 8 [⟨9, true⟩]
    ⟨0, 0, 0, 0, [⟨0, false⟩]⟩ ⟨0, [⟨0, false⟩], [⟨0, false⟩]⟩ ⟨rfl, rfl, rfl, rfl⟩

def secondAssigned : StepWitness Fr254 := secondCircuit.toStepWitness

theorem second_satisfying :
    secondCircuit.Satisfying samplePoseidon sampleNext secondAssigned (secondAssigned.next sampleNext) := by
  have idle : (secondCircuit.assigned sampleNext).spends = false := by decide +kernel
  have spends {claim : Prop} (spent : (secondCircuit.assigned sampleNext).spends = true) : claim :=
    absurd spent (by rw [idle]; decide)
  exact satisfying_of_checked secondCircuit (by decide) (by decide)
    { commitment := fun _ => rfl
      commitmentIndex := fun _ => by decide +kernel
      nonInclusion := spends
      insertion := spends
      insertionIndex := spends
      padCommitments := fun padding => absurd padding Bool.false_ne_true
      padNullifiers := fun _ => rfl
      padHistoric := fun _ => rfl }

theorem second_commitmentNodes : Set.InjOn (fun pair : Fr254 × Fr254 => samplePoseidon.hash2 pair.1 pair.2)
    (secondAssigned.commitmentNodes samplePoseidon 1 [9]) := by
  have nodup : ([(9, 0), (9, 8)].map fun pair : Fr254 × Fr254 =>
      samplePoseidon.hash2 pair.1 pair.2).Nodup := by decide +kernel
  have nodes : secondAssigned.commitmentNodes samplePoseidon 1 [9] ⊆
      {pair | pair ∈ ([(9, 0), (9, 8)] : List (Fr254 × Fr254))} := by
    rw [StepWitness.commitmentNodes, pairsBelow_one, pairsBelow_one]
    simp [secondAssigned, secondCircuit, RollupStepCircuit.newReal, pathPairs, PathElement.pair, Set.insert_subset_iff]
  exact fun _ first _ second => inj_on_of_nodup_map nodup (nodes first) (nodes second)

theorem commitment_appended_iff_sample :
    (secondAssigned.next sampleNext).commitmentsRoot = appendOnlyRoot samplePoseidon 1 ([9] ++ [8]) ↔
      computeRoot samplePoseidon.hash2 0 secondAssigned.commitmentPath = sampleNext.commitmentsRoot :=
  commitment_appended_iff second_satisfying rfl (show 2 ^ 1 < fr254Modulus by decide) [9] (by decide)
    (by decide +kernel) rfl second_commitmentNodes

def replaceSeven : StepInsertion fr254Modulus := ⟨1, zeroLeaf, 3, 1⟩

theorem earlier_commitment_replaced :
    ∃ (circuit : Poseidon Fr254 → RollupStepCircuit Fr254) (z zOut : Poseidon Fr254 → RollupState Fr254)
      (assigned : Poseidon Fr254 → StepWitness Fr254), ∀ poseidon,
      (circuit poseidon).Satisfying poseidon (z poseidon) (assigned poseidon) (zOut poseidon) ∧
      (assigned poseidon).isPadding = false ∧ (circuit poseidon).merkleDepth = 1 ∧
      (z poseidon).txCount = ([7] : List Fr254).length ∧
      (z poseidon).commitmentsRoot = appendOnlyRoot poseidon 1 [7] ∧ (assigned poseidon).commitment = 9 ∧
      (zOut poseidon).commitmentsRoot = appendOnlyRoot poseidon 1 [5, 9] ∧
      (Set.InjOn (fun pair : Fr254 × Fr254 => poseidon.hash2 pair.1 pair.2) {(5, 9), (7, 9)} →
        (zOut poseidon).commitmentsRoot ≠ appendOnlyRoot poseidon 1 [7, 9]) := by
  have possible : replaceSeven.Possible (zeroTree 1) :=
    ⟨by decide, by decide, by decide, by decide, by decide⟩
  have accepted (poseidon : Poseidon Fr254) := any_nullifier_accepted poseidon
    (fun i => [5, 9].getD i 0) possible (by decide) 0
    (z := ⟨appendOnlyRoot poseidon 1 [7], (zeroTree 1).root poseidon, 0, 1, 0⟩) cast_one.symm rfl
  refine ⟨_, _, _, _, fun poseidon =>
    ⟨accepted poseidon, rfl, rfl, cast_one.symm, rfl, rfl, rfl, ?_⟩⟩
  intro injective same
  have pair := injective (Or.inl rfl) (Or.inr rfl) same
  exact absurd (congrArg Prod.fst pair) (by decide)

section

variable (assigned) (poseidon)

def StepWitness.repointedHashes {depth : ℕ} (tree : IndexedTree fr254Modulus depth) : ℕ → Fr254 :=
  update (tree.hashes poseidon) (pathIndex assigned.nullifierWitness.path)
    (assigned.nullifierWitness.updatedLowHash poseidon assigned.nullifierInsertion.newLeafIndex)

def StepWitness.nullifierNodes {depth : ℕ} (tree : IndexedTree fr254Modulus depth) : Set (Fr254 × Fr254) :=
  (pathPairs poseidon.hash2 (assigned.nullifierWitness.lowHash poseidon)
      assigned.nullifierWitness.path ∪ tree.nodes poseidon) ∪
    ((pathPairs poseidon.hash2 0 assigned.nullifierInsertion.newLeafPath ∪
        pairsBelow poseidon.hash2 depth (assigned.repointedHashes poseidon tree)) ∪
      {pair | ∃ low index result, Inserts tree assigned.nullifierWitness.nullifier low index result ∧
        pair ∈ pathPairs poseidon.hash2 (assigned.nullifierWitness.newLeafHash poseidon)
          assigned.nullifierInsertion.newLeafPath ∪ result.nodes poseidon})

def StepWitness.nullifierTriples {depth : ℕ} (tree : IndexedTree fr254Modulus depth) : Set (Fr254 × Fr254 × Fr254) :=
  ({assigned.nullifierWitness.lowTriple} ∪ tree.triples) ∪
    ({(assigned.nullifierWitness.lowValue, assigned.nullifierInsertion.newLeafIndex,
        assigned.nullifierWitness.nullifier)} ∪
      {leaf | ∃ low index result, Inserts tree assigned.nullifierWitness.nullifier low index result ∧
        leaf ∈ {(assigned.nullifierWitness.nullifier, assigned.nullifierWitness.lowNextIndex,
          assigned.nullifierWitness.lowNextValue)} ∪ result.triples})

end

section

variable {tree : IndexedTree fr254Modulus circuit.merkleDepth}
variable {low : NovaIndexedLeaf Fr254}

theorem climb_repointed (member : low ∈ tree.leaves)
    (isIndex : low.index = pathIndex assigned.nullifierWitness.path)
    (isPath : assigned.nullifierWitness.path =
      opening poseidon.hash2 circuit.merkleDepth (tree.hashes poseidon) low.index) :
    computeRoot poseidon.hash2 (assigned.nullifierWitness.updatedLowHash poseidon
        assigned.nullifierInsertion.newLeafIndex) assigned.nullifierWitness.path =
      levels poseidon.hash2 circuit.merkleDepth (assigned.repointedHashes poseidon tree) 0 := by
  have climbed := computeRoot_opening poseidon.hash2 circuit.merkleDepth (tree.hashes poseidon)
    low.index (assigned.nullifierWitness.updatedLowHash poseidon assigned.nullifierInsertion.newLeafIndex)
  rw [← isPath, div_eq_of_lt (tree.inside low member)] at climbed
  rw [climbed, StepWitness.repointedHashes, ← isIndex]

omit circuit tree in
theorem updatedLowHash_eq {index : ℕ} (isLow : low.triple = assigned.nullifierWitness.lowTriple)
    (isNew : assigned.nullifierInsertion.newLeafIndex = index) :
    assigned.nullifierWitness.updatedLowHash poseidon assigned.nullifierInsertion.newLeafIndex =
      (low.repointed assigned.nullifierWitness.nullifier index).hash poseidon := by
  have isValue : low.value = assigned.nullifierWitness.lowValue := congrArg Prod.fst isLow
  rw [ImtNonInclusionWitness.updatedLowHash, isNew, ← isValue]
  rfl

theorem repointedHashes_eq (tree : IndexedTree fr254Modulus circuit.merkleDepth) (poseidon : Poseidon Fr254)
    {index : ℕ} (isLow : low.triple = assigned.nullifierWitness.lowTriple)
    (isIndex : low.index = pathIndex assigned.nullifierWitness.path)
    (isNew : assigned.nullifierInsertion.newLeafIndex = index) :
    assigned.repointedHashes poseidon tree = update (tree.hashes poseidon) low.index
        ((low.repointed assigned.nullifierWitness.nullifier index).hash poseidon) := by
  rw [StepWitness.repointedHashes, updatedLowHash_eq isLow isNew, isIndex]

theorem newLeafHash_eq (index : ℕ) (isLow : low.triple = assigned.nullifierWitness.lowTriple) :
    assigned.nullifierWitness.newLeafHash poseidon =
      (low.successor assigned.nullifierWitness.nullifier index).hash poseidon := by
  have isNextIndex : low.nextIndex = assigned.nullifierWitness.lowNextIndex :=
    congrArg (fun leaf => leaf.2.1) isLow
  have isNextValue : low.nextValue = assigned.nullifierWitness.lowNextValue :=
    congrArg (fun leaf => leaf.2.2) isLow
  rw [ImtNonInclusionWitness.newLeafHash, ← isNextIndex, ← isNextValue]
  rfl

/-- The new root is that of the tree with the nullifier inserted, exactly when the new leaf's path
opens an empty leaf against the old tree with only its low leaf repointed, which no
constraint asks for. -/
theorem nullifier_inserted_iff (satisfied : circuit.Satisfying poseidon z assigned zOut)
    (real : assigned.isPadding = false) (nonzero : assigned.nullifierWitness.nullifier ≠ 0)
    (narrow : circuit.rangeBits ≤ 252) (isRoot : tree.root poseidon = z.nullifiersRoot)
    (collisionFree : poseidon.CollisionFree (assigned.nullifierNodes poseidon tree)
      (assigned.nullifierTriples tree)) :
    (∃ low index result, Inserts tree assigned.nullifierWitness.nullifier low index result ∧
        zOut.nullifiersRoot = result.root poseidon) ↔
      computeRoot poseidon.hash2 0 assigned.nullifierInsertion.newLeafPath =
        computeRoot poseidon.hash2 (assigned.nullifierWitness.updatedLowHash poseidon
          assigned.nullifierInsertion.newLeafIndex) assigned.nullifierWitness.path := by
  obtain ⟨checked, rfl⟩ := checked_of_satisfying satisfied
  have spends := spends_of_real real nonzero
  have nonInclusion := checked.nonInclusion spends
  have length := satisfied.fits.newLeaf
  obtain ⟨low, member, isLow, isIndex, isPath⟩ := tree.stored_of_opened
    assigned.nullifierWitness.lowTriple satisfied.fits.low
    (collisionFree.mono Set.subset_union_left Set.subset_union_left)
    (nonInclusion.opened.trans isRoot.symm)
  have brackets := brackets_of_triple isLow (nonInclusion.brackets (narrow_spares narrow))
  have isNew := (checked.insertion spends).new
  have newIndex := checked.insertionIndex spends
  have repoints := repointedHashes_eq tree poseidon isLow isIndex newIndex
  rw [climb_repointed member isIndex isPath, repoints]
  obtain ⟨position, isPosition⟩ : ∃ n, pathIndex assigned.nullifierInsertion.newLeafPath = n :=
    ⟨_, rfl⟩
  rw [isPosition] at repoints newIndex ⊢
  constructor
  · rintro ⟨other, index, result, inserts, isResult⟩
    obtain rfl := tree.indexed.low_unique inserts.low_mem member inserts.brackets brackets
    obtain ⟨stored, storedMember, isStored, storedIndex, isOpening⟩ := result.stored_of_opened
      (assigned.nullifierWitness.nullifier, assigned.nullifierWitness.lowNextIndex,
        assigned.nullifierWitness.lowNextValue) length
      (collisionFree.mono (fun _ hashed => Or.inr (Or.inr ⟨_, _, _, inserts, hashed⟩))
        (fun _ hashed => Or.inr (Or.inr ⟨_, _, _, inserts, hashed⟩)))
      (isNew.trans isResult)
    obtain rfl := result.indexed.eq_of_value_eq storedMember inserts.successor_mem (congrArg Prod.fst isStored)
    obtain rfl : index = position := storedIndex.trans isPosition
    have free : tree.hashes poseidon index = 0 := leafHashes_of_free inserts.empty
    have different : index ≠ other.index := by
      rintro rfl
      exact inserts.empty (mem_map_of_mem member)
    rw [isOpening, computeRoot_opening, div_eq_of_lt (result.inside _ storedMember), inserts.hashes_eq poseidon]
    simp only [successor]
    rw [update_idem]
    congr 1
    rw [update_eq_self_iff, update_of_ne different, free]
  · intro opened
    rw [← repoints] at opened
    obtain ⟨isEmpty, isOpening⟩ := opens_of_computeRoot poseidon.hash2 length
      (collisionFree.hash2.mono fun _ hashed => Or.inr (Or.inl hashed)) opened
    rw [isPosition, repoints] at isEmpty isOpening
    have different : position ≠ low.index := by
      rintro rfl
      rw [update_self, ← updatedLowHash_eq isLow newIndex] at isEmpty
      exact collisionFree.occupied _ (Or.inr (Or.inl rfl)) isEmpty.symm
    rw [update_of_ne different] at isEmpty
    have empty : position ∉ tree.leaves.map NovaIndexedLeaf.index := by
      intro occupied
      obtain ⟨leaf, leafMember, rfl⟩ := mem_map.mp occupied
      rw [tree.hashes_of_mem poseidon leafMember] at isEmpty
      exact collisionFree.occupied leaf.triple (Or.inl (Or.inr ⟨leaf, leafMember, rfl⟩)) isEmpty.symm
    have inside : position < 2 ^ circuit.merkleDepth := by
      rw [← isPosition, ← length]
      exact pathIndex_lt _
    obtain ⟨result, inserts⟩ := exists_inserts member brackets empty inside
    refine ⟨low, position, result, inserts, isNew.symm.trans ?_⟩
    rw [isOpening, computeRoot_opening, div_eq_of_lt inside, newLeafHash_eq position isLow,
      IndexedTree.root, inserts.hashes_eq poseidon]

end

theorem inserts_zeroTree {low : NovaIndexedLeaf Fr254} {index : ℕ}
    {result : IndexedTree fr254Modulus 1} (inserts : Inserts (zeroTree 1) 3 low index result) :
    result.leaves = [zeroLeaf.repointed 3 1, zeroLeaf.successor 3 1] := by
  obtain ⟨before, after, isTree, isResult⟩ := inserts.splits
  have isIndex : index = 1 := by
    have inside := result.inside _ inserts.successor_mem
    have empty : index ≠ 0 := by
      rintro rfl
      exact inserts.empty (by decide)
    change index < 2 at inside
    omega
  cases before with
  | nil =>
    obtain ⟨rfl, rfl⟩ := cons.inj isTree
    rw [isResult, isIndex]
    rfl
  | cons first rest =>
    have lengths := congrArg length isTree
    simp [zeroTree] at lengths

theorem sample_nullifierNodes :
    sampleAssigned.nullifierNodes samplePoseidon (zeroTree 1) ⊆ {pair | pair ∈ sampleNodes} := by
  have path : sampleAssigned.nullifierInsertion.newLeafPath = [⟨5, true⟩] := by decide +kernel
  have low : sampleAssigned.repointedHashes samplePoseidon (zeroTree 1) 0 = 5 := by decide +kernel
  have empty : sampleAssigned.repointedHashes samplePoseidon (zeroTree 1) 1 = 0 := by decide +kernel
  have leaf : sampleAssigned.nullifierWitness.newLeafHash samplePoseidon = 4 := by decide +kernel
  have left : leafHashes samplePoseidon [zeroLeaf.repointed 3 1, zeroLeaf.successor 3 1] 0 = 5 := by
    decide +kernel
  have right : leafHashes samplePoseidon [zeroLeaf.repointed 3 1, zeroLeaf.successor 3 1] 1 = 4 := by
    decide +kernel
  rintro pair (old | (onPath | intermediate) | ⟨_, _, result, inserts, hashed⟩)
  · exact sample_lowNodes old
  · rw [path] at onPath
    simp_all [pathPairs, PathElement.pair, sampleNodes]
  · rw [pairsBelow_one, low, empty] at intermediate
    simp_all [sampleNodes]
  · rw [IndexedTree.nodes, pairsBelow_one, IndexedTree.hashes, inserts_zeroTree inserts, left, right,
      path, leaf] at hashed
    simp_all [pathPairs, PathElement.pair, sampleNodes]

theorem sample_nullifierTriples : sampleAssigned.nullifierTriples (zeroTree 1) ⊆ {leaf | leaf ∈ sampleTriples} := by
  have repointed : (sampleAssigned.nullifierWitness.lowValue, sampleAssigned.nullifierInsertion.newLeafIndex,
      sampleAssigned.nullifierWitness.nullifier) ∈ sampleTriples := by decide +kernel
  have leaf : (sampleAssigned.nullifierWitness.nullifier, sampleAssigned.nullifierWitness.lowNextIndex,
      sampleAssigned.nullifierWitness.lowNextValue) ∈ sampleTriples := by decide +kernel
  have left : (zeroLeaf.repointed 3 1).triple ∈ sampleTriples := by decide +kernel
  have right : (zeroLeaf.successor 3 1).triple ∈ sampleTriples := by decide +kernel
  rintro _ (old | rfl | ⟨_, _, result, inserts, rfl | ⟨stored, member, rfl⟩⟩)
  · exact sample_lowTriples old
  · exact repointed
  · exact leaf
  · rw [inserts_zeroTree inserts] at member
    rcases mem_pair.mp member with rfl | rfl
    · exact left
    · exact right

theorem nullifier_inserted_iff_sample :
    (∃ low index result, Inserts (zeroTree 1) sampleAssigned.nullifierWitness.nullifier low index
        result ∧ (sampleAssigned.next sampleState).nullifiersRoot = result.root samplePoseidon) ↔
      computeRoot samplePoseidon.hash2 0 sampleAssigned.nullifierInsertion.newLeafPath =
        computeRoot samplePoseidon.hash2 (sampleAssigned.nullifierWitness.updatedLowHash samplePoseidon
          sampleAssigned.nullifierInsertion.newLeafIndex) sampleAssigned.nullifierWitness.path :=
  nullifier_inserted_iff (sample_satisfying le_rfl) rfl sampleStep_possible.nonzero le_rfl rfl
    (sample_collisionFree.mono sample_nullifierNodes sample_nullifierTriples)

abbrev Steps := List (RollupStepCircuit Fr254 × StepWitness Fr254)

/-- Steps chained by any assignments that satisfy them. -/
def FoldsTo (poseidon : Poseidon Fr254) (zOut : RollupState Fr254) : Steps → RollupState Fr254 → Prop
  | [], z => z = zOut
  | step :: rest, z => ∃ next, step.1.Satisfying poseidon z step.2 next ∧ FoldsTo poseidon zOut rest next

def realSteps (steps : Steps) : List (StepWitness Fr254) :=
  (steps.map Prod.snd).filter fun assigned => !assigned.isPadding

/-- The real steps of a fold put their commitments at consecutive positions, and padding does not count. -/
theorem fold_positions {steps : Steps} (folds : FoldsTo poseidon zOut steps z)
    (shallow : ∀ step ∈ steps, step.1.merkleDepth ≤ 252) :
    (realSteps steps).map (fun assigned => pathIndex assigned.commitmentPath) =
        range' z.txCount.val (realSteps steps).length ∧
      zOut.txCount.val = z.txCount.val + (realSteps steps).length ∧
      zOut.nullifierCount = z.nullifierCount + ((realSteps steps).filter StepWitness.spends).length := by
  induction steps generalizing z with
  | nil =>
    obtain rfl := folds
    simp [realSteps]
  | cons step rest ih =>
    obtain ⟨_, satisfied, onward⟩ := folds
    obtain ⟨checked, rfl⟩ := checked_of_satisfying satisfied
    obtain ⟨flat, shallow⟩ := forall_mem_cons.mp shallow
    cases kind : step.2.isPadding with
    | true =>
      have idle : step.2.spends = false := by simp [StepWitness.spends, kind]
      simpa [realSteps, kind, StepWitness.next, idle, R1cs.bit] using ih onward shallow
    | false =>
      -- the path bounds the count, so that the next count does not wrap
      have below : pathIndex step.2.commitmentPath < 2 ^ 252 :=
        calc pathIndex step.2.commitmentPath < 2 ^ step.2.commitmentPath.length := pathIndex_lt _
          _ ≤ 2 ^ 252 := Nat.pow_le_pow_right two_pos (satisfied.fits.commitment.trans_le flat)
      have wide : 2 ^ 252 + 1 < fr254Modulus := by decide
      have isIndex : z.txCount.val = pathIndex step.2.commitmentPath := by
        rw [checked.commitmentIndex kind, ZMod.val_natCast_of_lt (by omega)]
      have counted : (step.2.next z).txCount.val = z.txCount.val + 1 := by
        have next : (step.2.next z).txCount = (pathIndex step.2.commitmentPath + 1 : ℕ) := by
          simp [StepWitness.next, kind, R1cs.bit, checked.commitmentIndex kind]
        rw [next, ZMod.val_natCast_of_lt (by omega), isIndex]
      obtain ⟨positions, transactions, nullifiers⟩ := ih onward shallow
      have isReal : realSteps (step :: rest) = step.2 :: realSteps rest := by simp [realSteps, kind]
      rw [isReal, map_cons, ← isIndex, positions, length_cons, range'_succ, transactions, nullifiers, counted]
      refine ⟨rfl, by omega, ?_⟩
      cases spends : step.2.spends <;> simp [StepWitness.next, spends, R1cs.bit]
      ring

def paddingStep : RollupStepCircuit Fr254 × StepWitness Fr254 :=
  (.paddingWithDepth 1, (RollupStepCircuit.paddingWithDepth 1).assigned sampleNext)

def sampleSteps : Steps :=
  [(sampleCircuit defaultRangeBits, sampleAssigned), paddingStep, (secondCircuit, secondAssigned)]

theorem fold_positions_sample :
    (realSteps sampleSteps).map (fun assigned => pathIndex assigned.commitmentPath) = [0, 1] ∧
      (secondAssigned.next sampleNext).txCount.val = 2 := by
  have padded := satisfying_of_checked (RollupStepCircuit.paddingWithDepth 1) (by decide) (by decide)
    (padding_checked samplePoseidon sampleNext 1)
  rw [padding_next] at padded
  have folds : FoldsTo samplePoseidon (secondAssigned.next sampleNext) sampleSteps sampleState :=
    ⟨_, sample_satisfying (by decide), _, padded, _, second_satisfying, rfl⟩
  obtain ⟨positions, count, _⟩ := fold_positions folds (by decide)
  exact ⟨positions, count⟩

end

def droppedHashes (poseidon : Poseidon Fr254) (i : ℕ) : Fr254 :=
  if i = 0 then ((zeroLeaf.repointed 5 1).repointed 3 2).hash poseidon
  else if i = 2 then ((zeroLeaf.repointed 5 1).successor 3 2).hash poseidon
  else 0

def spendThree : StepInsertion fr254Modulus := ⟨0, zeroLeaf.repointed 5 1, 3, 2⟩

theorem spent_nullifier_dropped :
    ∃ (circuit : Poseidon Fr254 → RollupStepCircuit Fr254) (z zOut : Poseidon Fr254 → RollupState Fr254)
      (assigned : Poseidon Fr254 → StepWitness Fr254)
      (tree : ∀ poseidon, IndexedTree fr254Modulus (circuit poseidon).merkleDepth), ∀ poseidon,
      (circuit poseidon).rangeBits = 252 ∧
      (circuit poseidon).Satisfying poseidon (z poseidon) (assigned poseidon) (zOut poseidon) ∧
      (assigned poseidon).isPadding = false ∧ (assigned poseidon).nullifierWitness.nullifier ≠ 0 ∧
      (tree poseidon).root poseidon = (z poseidon).nullifiersRoot ∧
      (zOut poseidon).nullifiersRoot =
        levels poseidon.hash2 (circuit poseidon).merkleDepth (droppedHashes poseidon) 0 ∧
      ∀ low index result, Inserts (tree poseidon) (assigned poseidon).nullifierWitness.nullifier low index result →
        poseidon.CollisionFree (pairsBelow poseidon.hash2 (circuit poseidon).merkleDepth
          (droppedHashes poseidon) ∪ result.nodes poseidon) result.triples →
        (zOut poseidon).nullifiersRoot ≠ result.root poseidon := by
  have above : LessThan spendThree.low.value spendThree.nullifier 252 :=
    lessThan_of_val_lt (by decide) (by decide)
  have below : LessThan spendThree.nullifier spendThree.low.nextValue 252 :=
    lessThan_of_val_lt (by decide) (by decide)
  have nonzero : spendThree.nullifier ≠ 0 := by decide
  let leaves (poseidon : Poseidon Fr254) : StepLeaves fr254Modulus :=
    ⟨fun _ => 0, fiveTree.hashes poseidon, droppedHashes poseidon⟩
  have held (poseidon : Poseidon Fr254) : (leaves poseidon).Holds poseidon 2 spendThree :=
    ⟨by decide, by decide, by decide, rfl, rfl, rfl⟩
  have accepted (poseidon : Poseidon Fr254) := insertingCircuit_satisfying (held poseidon) 0
    (z := ⟨0, fiveTree.root poseidon, 0, 0, 0⟩) cast_zero.symm rfl nonzero (by decide)
    (by decide) above fun _ => below
  refine ⟨fun poseidon => insertingCircuit poseidon 2 (leaves poseidon) spendThree 0 252, _, _, _,
    fun _ => fiveTree, fun poseidon => ⟨rfl, accepted poseidon, rfl, nonzero, rfl, rfl, ?_⟩⟩
  intro low index result inserts collisionFree same
  have emptied : droppedHashes poseidon 1 = result.hashes poseidon 1 :=
    leaves_of_root poseidon.hash2 collisionFree.hash2 same 1 (show 1 < 2 ^ 2 by decide)
  have five : zeroLeaf.successor 5 1 ∈ fiveTree.leaves := by decide
  obtain ⟨stored, member, isIndex⟩ := inserts.index_mem five
  have occupied := result.hashes_of_mem poseidon member
  rw [isIndex] at occupied
  exact collisionFree.occupied stored.triple ⟨stored, member, rfl⟩ (occupied.symm.trans emptied.symm)

end Nightfall.Nova
