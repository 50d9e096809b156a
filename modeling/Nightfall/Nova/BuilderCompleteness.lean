import Nightfall.Nova.Witness

/-! Completeness of the witness builder: on distinct new nullifiers it does not panic, the state
of its two trees follows the state of the circuits step by step, and every step is satisfied. -/

namespace Nightfall.Nova

open R1cs Merkle NovaIndexedLeaf NeptuneIMT List

variable {p : ℕ} [Fact p.Prime] {poseidon : Poseidon (ZMod p)}

def spentNullifiers (nullifiers : List (ZMod p)) : List (ZMod p) :=
  nullifiers.filter fun nullifier => nullifier ≠ 0

section

theorem insertPrior_stores {imt : NeptuneIMT (ZMod p)} {inserted : List (ZMod p)}
    {before after : List (NovaIndexedLeaf (ZMod p))} {low : NovaIndexedLeaf (ZMod p)} {x : ZMod p}
    (stores : Stores poseidon imt (before ++ low :: after) inserted) (brackets : low.Brackets x) :
    insertPrior poseidon imt x = .ok (imt.insertBehind poseidon low x) ∧
      Stores poseidon (imt.insertBehind poseidon low x) (before ++
        low.repointed x imt.nextInsertIndex :: low.successor x imt.nextInsertIndex :: after)
        (x :: inserted) := by
  obtain ⟨accepted, nextStores⟩ := stores.insert brackets
  exact ⟨by rw [insertPrior, accepted], nextStores⟩

theorem foldlM_insertPrior {values inserted : List (ZMod p)} (nonzero : 0 ∉ values)
    (fresh : (values ++ inserted).Nodup) {imt : NeptuneIMT (ZMod p)}
    {chain : List (NovaIndexedLeaf (ZMod p))} (stores : Stores poseidon imt chain inserted) :
    ∃ next chain, values.foldlM (insertPrior poseidon) imt = .ok next ∧ next.depth = imt.depth ∧
      Stores poseidon next chain (values.reverse ++ inserted) := by
  induction values generalizing inserted imt chain with
  | nil => exact ⟨imt, chain, rfl, rfl, stores⟩
  | cons x rest ih =>
    rw [mem_cons, not_or] at nonzero
    have later : (rest ++ x :: inserted).Nodup := (perm_middle.nodup_iff).mpr fresh
    have absent : x ∉ inserted := by
      intro stored
      exact (nodup_cons.mp fresh).1 (mem_append_right _ stored)
    obtain ⟨before, low, after, rfl, brackets⟩ := stores.exists_low (Ne.symm nonzero.1) absent
    obtain ⟨accepted, nextStores⟩ := insertPrior_stores stores brackets
    obtain ⟨next, chain, isNext, depth, final⟩ := ih nonzero.2 later nextStores
    refine ⟨next, chain, ?_, depth, ?_⟩
    · rw [foldlM_cons, accepted]
      exact isNext
    · rw [reverse_cons, append_assoc, singleton_append]
      exact final

theorem sortPrior_perm (prior : List (ZMod p)) : List.Perm (sortPrior prior) (spentNullifiers prior) :=
  mergeSort_perm _ _

theorem hydrate_eq (imt : NeptuneIMT (ZMod p)) (prior : List (ZMod p)) :
    hydrate poseidon imt prior = (sortPrior prior).foldlM (insertPrior poseidon) imt := by
  cases prior with
  | nil =>
    rw [hydrate, sortPrior, filter_nil, mergeSort_nil]
    rfl
  | cons first rest => rfl

theorem hydrate_stores {prior : List (ZMod p)} (distinct : (spentNullifiers prior).Nodup) (depth : ℕ) :
    ∃ next chain, hydrate poseidon (.new poseidon depth .new) prior = .ok next ∧
      next.depth = depth ∧ Stores poseidon next chain (sortPrior prior).reverse := by
  have nonzero : 0 ∉ sortPrior prior := by
    rw [(sortPrior_perm prior).mem_iff]
    simp [spentNullifiers]
  have fresh : (sortPrior prior ++ []).Nodup := by
    rwa [append_nil, (sortPrior_perm prior).nodup_iff]
  obtain ⟨next, chain, isNext, isDepth, stores⟩ :=
    foldlM_insertPrior nonzero fresh (new_stores depth)
  rw [append_nil] at stores
  exact ⟨next, chain, (hydrate_eq _ prior).trans isNext, isDepth, stores⟩

end

structure NullifierStep.Proves (poseidon : Poseidon (ZMod p)) (step : NullifierStep (ZMod p))
    (imt : NeptuneIMT (ZMod p)) (x : ZMod p) (rangeBits : ℕ) : Prop where
  nullifier : step.witness.nullifier = x
  root : step.root = step.nullImt.root poseidon
  depth : step.nullImt.depth = imt.depth
  low : step.witness.path.length = imt.depth
  updatedLow : step.insertion.updatedLowPath.length = imt.depth
  newLeaf : step.insertion.newLeafPath.length = imt.depth
  nonInclusion : x ≠ 0 → NonInclusion poseidon step.witness (imt.root poseidon) rangeBits
  insertion : x ≠ 0 → Insertion poseidon step.witness step.insertion step.root
  index : x ≠ 0 → step.insertion.newLeafIndex = (pathIndex step.insertion.newLeafPath : ZMod p)
  idle : x = 0 → step.root = imt.root poseidon

section

variable {imt : NeptuneIMT (ZMod p)} {chain : List (NovaIndexedLeaf (ZMod p))}
  {inserted : List (ZMod p)} {x : ZMod p} {rangeBits : ℕ}

theorem nullifierStep_zero (imt : NeptuneIMT (ZMod p)) (txIndex rangeBits : ℕ) :
    ∃ step, nullifierStep poseidon imt txIndex 0 = .ok step ∧ step.nullImt = imt ∧
      step.Proves poseidon imt 0 rangeBits := by
  have length := inclusionPath_length poseidon imt 0
  refine ⟨_, if_pos rfl, rfl, rfl, rfl, rfl, length, length, length, ?_, ?_, ?_, fun _ => rfl⟩
  · exact fun nonzero => (nonzero rfl).elim
  · exact fun nonzero => (nonzero rfl).elim
  · exact fun nonzero => (nonzero rfl).elim

theorem nullifierStep_insert (stores : Stores poseidon imt chain inserted)
    (room : inserted.length + 1 < 2 ^ imt.depth) (wide : p ≤ 2 ^ rangeBits) (nonzero : x ≠ 0) (absent : x ∉ inserted)
    (txIndex : ℕ) : ∃ step chain, nullifierStep poseidon imt txIndex x = .ok step ∧
      Stores poseidon step.nullImt chain (x :: inserted) ∧ step.Proves poseidon imt x rangeBits := by
  obtain ⟨before, low, after, rfl, brackets⟩ := stores.exists_low nonzero absent
  obtain ⟨accepted, nextStores⟩ := stores.insert brackets
  have member : low ∈ before ++ low :: after := by simp
  have isWitness := stores.consistent.getNonInclusionWitness_eq member brackets
  have isStep : nullifierStep poseidon imt txIndex x = .ok
      ⟨⟨x, low.value, low.nextIndex, low.nextValue, imt.inclusionPath poseidon low.index⟩,
        (imt.insertBehind poseidon low x).root poseidon,
        ⟨imt.nextInsertIndex, (imt.insertBehind poseidon low x).inclusionPath poseidon low.index,
          (imt.insertBehind poseidon low x).inclusionPath poseidon imt.nextInsertIndex⟩,
        imt.insertBehind poseidon low x⟩ := by
    rw [nullifierStep, if_neg nonzero, isWitness]
    simp only [accepted]
    rfl
  obtain ⟨opened, _⟩ := stores.opens (by omega) member
  have lowMember : low.repointed x imt.nextInsertIndex ∈ before ++
      low.repointed x imt.nextInsertIndex :: low.successor x imt.nextInsertIndex :: after := by simp
  have newMember : low.successor x imt.nextInsertIndex ∈ before ++
      low.repointed x imt.nextInsertIndex :: low.successor x imt.nextInsertIndex :: after := by simp
  obtain ⟨lowOpened, _⟩ := nextStores.opens room lowMember
  obtain ⟨newOpened, newIndex⟩ := nextStores.opens room newMember
  have fits : ∀ y : ZMod p, y.val < 2 ^ rangeBits := fun y => (ZMod.val_lt y).trans_le wide
  refine ⟨_, _, isStep, nextStores, rfl, rfl, rfl, inclusionPath_length _ _ _,
    inclusionPath_length _ _ _, inclusionPath_length _ _ _, ?_, ?_, ?_, fun isZero => (nonzero isZero).elim⟩
  · intro _
    refine ⟨opened, lessThan_of_val_lt brackets.1 (fits x), ?_⟩
    intro follows
    exact lessThan_of_val_lt (brackets.2.resolve_left follows) (fits _)
  · exact fun _ => ⟨lowOpened, newOpened⟩
  · intro _
    exact congrArg Nat.cast newIndex.symm

theorem nullifierStep_proves (stores : Stores poseidon imt chain inserted)
    (fresh : (spentNullifiers [x] ++ inserted).Nodup)
    (room : (spentNullifiers [x] ++ inserted).length < 2 ^ imt.depth) (wide : p ≤ 2 ^ rangeBits) (txIndex : ℕ) :
    ∃ step chain, nullifierStep poseidon imt txIndex x = .ok step ∧
      Stores poseidon step.nullImt chain (spentNullifiers [x] ++ inserted) ∧
      step.Proves poseidon imt x rangeBits := by
  by_cases isZero : x = 0
  · subst isZero
    obtain ⟨step, isStep, rfl, proves⟩ := @nullifierStep_zero p _ poseidon imt txIndex rangeBits
    refine ⟨step, chain, isStep, ?_, proves⟩
    simpa [spentNullifiers] using stores
  · have spent : spentNullifiers [x] = [x] := by simp [spentNullifiers, isZero]
    rw [spent, singleton_append] at fresh room ⊢
    exact nullifierStep_insert stores room wide isZero (nodup_cons.mp fresh).1 txIndex

end

section

variable {z : RollupState (ZMod p)}

theorem padding_step {depth : ℕ} (room : 2 ^ (depth + 1) ≤ p) (z : RollupState (ZMod p)) :
    Holds ((RollupStepCircuit.paddingWithDepth depth).synthesize poseidon z) ∧
      honest ((RollupStepCircuit.paddingWithDepth depth).synthesize poseidon z) = z := by
  obtain ⟨holds, isNext⟩ := complete_synthesize _ (by decide : 0 < defaultRangeBits) room
    (padding_checked poseidon z depth)
  exact ⟨holds, isNext.trans (padding_next z depth)⟩

structure BuilderState.Tracks (poseidon : Poseidon (ZMod p)) (state : BuilderState (ZMod p))
    (z : RollupState (ZMod p)) (commitments inserted : List (ZMod p)) : Prop where
  commitTree : state.commitTree.Consistent poseidon commitments
  commitDepth : state.commitTree.depth = neptuneTreeDepth
  nullImt : ∃ chain, Stores poseidon state.nullImt chain inserted
  nullDepth : state.nullImt.depth = neptuneTreeDepth
  commitmentsRoot : z.commitmentsRoot = state.commitTree.root poseidon
  nullifiersRoot : z.nullifiersRoot = state.nullImt.root poseidon
  txCount : z.txCount = (commitments.length : ZMod p)

def realCommitments (pairs : List (ZMod p × ZMod p)) : List (ZMod p) :=
  (pairs.filter fun pair => ¬(pair.2 = 0 ∧ pair.1 = 0)).map Prod.fst

variable {state : BuilderState (ZMod p)} {commitments inserted : List (ZMod p)}
  (tracks : state.Tracks poseidon z commitments inserted) {pair : ZMod p × ZMod p}
  (room : 2 ^ (neptuneTreeDepth + 1) ≤ p) (wide : p ≤ 2 ^ defaultRangeBits)

include tracks room

theorem newReal_step {commitment x : ZMod p} {step : NullifierStep (ZMod p)}
    (proves : step.Proves poseidon state.nullImt x defaultRangeBits)
    (inside : commitments.length < 2 ^ state.commitTree.depth)
    (fits : StepWitness.Fits ⟨(state.commitTree.append poseidon commitment).1.1, step.root,
      z.historicRoot, commitment, (state.commitTree.append poseidon commitment).1.2, step.witness,
      step.insertion, false⟩ neptuneTreeDepth) :
    Holds ((RollupStepCircuit.newReal _ _ _ _ _ _ _ _ fits).synthesize poseidon z) ∧
      honest ((RollupStepCircuit.newReal _ _ _ _ _ _ _ _ fits).synthesize poseidon z) =
        ⟨(state.commitTree.append poseidon commitment).1.1, step.root, z.historicRoot, z.txCount + 1,
          z.nullifierCount + (spentNullifiers [x]).length⟩ := by
  obtain ⟨opened, isIndex⟩ := tracks.commitTree.append_opens commitment inside
  have spends : ((RollupStepCircuit.newReal _ _ _ _ _ _ _ _ fits).assigned z).spends = !decide (x = 0) := by
    rw [← proves.nullifier]
    rfl
  have some : 0 < defaultRangeBits := by decide
  refine (complete_synthesize _ some room ⟨fun _ => opened, ?_, ?_, ?_, ?_, ?_, ?_, ?_⟩).imp_right
    fun isNext => isNext.trans ?_
  · intro _
    rw [tracks.txCount]
    exact congrArg Nat.cast isIndex.symm
  · rw [spends, tracks.nullifiersRoot]
    intro nonzero
    exact proves.nonInclusion (by simpa using nonzero)
  · rw [spends]
    intro nonzero
    exact proves.insertion (by simpa using nonzero)
  · rw [spends]
    intro nonzero
    exact proves.index (by simpa using nonzero)
  · intro padding
    cases padding
  · rw [spends, tracks.nullifiersRoot]
    intro isZero
    exact proves.idle (by simpa using isZero)
  · intro padding
    cases padding
  · rw [StepWitness.next, spends]
    congr 2
    by_cases isZero : x = 0
    · simp [spentNullifiers, isZero, bit]
    · simp [spentNullifiers, isZero, bit]

include wide

theorem processPair_tracks (commitRoom : (commitments ++ realCommitments [pair]).length ≤ 2 ^ neptuneTreeDepth)
    (fresh : (spentNullifiers [pair.2] ++ inserted).Nodup)
    (nullRoom : (spentNullifiers [pair.2] ++ inserted).length < 2 ^ neptuneTreeDepth) :
    ∃ next circuit, processPair poseidon z.historicRoot state pair = .ok next ∧
      next.circuits = state.circuits ++ [circuit] ∧ Holds (circuit.synthesize poseidon z) ∧
      next.Tracks poseidon (honest (circuit.synthesize poseidon z))
        (commitments ++ realCommitments [pair]) (spentNullifiers [pair.2] ++ inserted) ∧
      (honest (circuit.synthesize poseidon z)).historicRoot = z.historicRoot ∧
      (honest (circuit.synthesize poseidon z)).nullifierCount =
        z.nullifierCount + (spentNullifiers [pair.2]).length := by
  by_cases isPadding : pair.2 = 0 ∧ pair.1 = 0
  · have noCommitment : realCommitments [pair] = [] := by simp [realCommitments, isPadding]
    have noNullifier : spentNullifiers [pair.2] = [] := by simp [spentNullifiers, isPadding]
    obtain ⟨holds, same⟩ := @padding_step p _ poseidon _ room z
    refine ⟨_, .paddingWithDepth neptuneTreeDepth, if_pos isPadding, rfl, holds, ?_⟩
    rw [same, noCommitment, noNullifier, append_nil, nil_append]
    exact ⟨{ tracks with }, rfl, by simp⟩
  · have isReal : realCommitments [pair] = [pair.1] := by
      have kept : decide (¬(pair.2 = 0 ∧ pair.1 = 0)) = true := decide_eq_true isPadding
      simp only [realCommitments, filter_cons, kept, if_true, filter_nil, map_cons, map_nil]
    rw [isReal] at commitRoom ⊢
    have inside : commitments.length < 2 ^ state.commitTree.depth := by
      rw [length_append, length_singleton] at commitRoom
      rw [tracks.commitDepth]
      omega
    obtain ⟨chain, stores⟩ := tracks.nullImt
    obtain ⟨step, nextChain, isStep, nextStores, proves⟩ :=
      nullifierStep_proves stores fresh (by rw [tracks.nullDepth]; exact nullRoom) wide state.circuits.length
    obtain ⟨appended, returned⟩ := tracks.commitTree.append pair.1
    have fits : StepWitness.Fits ⟨(state.commitTree.append poseidon pair.1).1.1, step.root,
        z.historicRoot, pair.1, (state.commitTree.append poseidon pair.1).1.2, step.witness,
        step.insertion, false⟩ neptuneTreeDepth := by
      refine ⟨?_, proves.low.trans tracks.nullDepth, proves.updatedLow.trans tracks.nullDepth,
        proves.newLeaf.trans tracks.nullDepth⟩
      rw [returned, ← tracks.commitDepth]
      exact opening_length _ _ _ _
    obtain ⟨holds, isNext⟩ := newReal_step tracks room proves inside fits
    refine ⟨⟨(state.commitTree.append poseidon pair.1).2, step.nullImt, _⟩, _, ?_, rfl, holds, ?_⟩
    · rw [processPair, if_neg isPadding, isStep]
      exact dif_pos fits
    · rw [isNext]
      refine ⟨⟨appended, tracks.commitDepth, ⟨nextChain, nextStores⟩,
        proves.depth.trans tracks.nullDepth, congrArg Prod.fst returned, proves.root, ?_⟩, rfl, rfl⟩
      rw [tracks.txCount, length_append, length_singleton, Nat.cast_add, Nat.cast_one]

end

section

def Folds (poseidon : Poseidon (ZMod p)) :
    RollupState (ZMod p) → List (RollupStepCircuit (ZMod p)) → RollupState (ZMod p) → Prop
  | z, [], final => z = final
  | z, circuit :: rest, final => Holds (circuit.synthesize poseidon z) ∧
      Folds poseidon (honest (circuit.synthesize poseidon z)) rest final

theorem spentNullifiers_cons (x : ZMod p) (rest : List (ZMod p)) :
    spentNullifiers (x :: rest) = spentNullifiers [x] ++ spentNullifiers rest :=
  filter_append [x] rest

theorem spentNullifiers_reverse (x : ZMod p) : (spentNullifiers [x]).reverse = spentNullifiers [x] := by
  by_cases isZero : x = 0
  · simp [spentNullifiers, isZero]
  · simp [spentNullifiers, isZero]

theorem realCommitments_cons (pair : ZMod p × ZMod p) (rest : List (ZMod p × ZMod p)) :
    realCommitments (pair :: rest) = realCommitments [pair] ++ realCommitments rest := by
  rw [realCommitments, ← singleton_append, filter_append, map_append]
  rfl

variable (room : 2 ^ (neptuneTreeDepth + 1) ≤ p) (wide : p ≤ 2 ^ defaultRangeBits)

include room wide

theorem foldlM_processPair (pairs : List (ZMod p × ZMod p)) {state : BuilderState (ZMod p)} {z : RollupState (ZMod p)}
    {commitments inserted : List (ZMod p)} (tracks : state.Tracks poseidon z commitments inserted)
    (commitRoom : (commitments ++ realCommitments pairs).length ≤ 2 ^ neptuneTreeDepth)
    (fresh : (spentNullifiers (pairs.map Prod.snd) ++ inserted).Nodup)
    (nullRoom : (spentNullifiers (pairs.map Prod.snd) ++ inserted).length < 2 ^ neptuneTreeDepth) :
    ∃ final circuits zFinal, pairs.foldlM (processPair poseidon z.historicRoot) state = .ok final ∧
      final.circuits = state.circuits ++ circuits ∧ Folds poseidon z circuits zFinal ∧
      final.Tracks poseidon zFinal (commitments ++ realCommitments pairs)
        ((spentNullifiers (pairs.map Prod.snd)).reverse ++ inserted) ∧
      zFinal.historicRoot = z.historicRoot ∧
      zFinal.nullifierCount = z.nullifierCount + (spentNullifiers (pairs.map Prod.snd)).length := by
  induction pairs generalizing state z commitments inserted with
  | nil =>
    refine ⟨state, [], z, rfl, (append_nil _).symm, rfl, ?_, rfl, ?_⟩
    · simpa [realCommitments, spentNullifiers] using tracks
    · simp [spentNullifiers]
  | cons pair rest ih =>
    rw [map_cons, spentNullifiers_cons] at fresh nullRoom ⊢
    rw [realCommitments_cons, ← append_assoc] at commitRoom ⊢
    have commitFirst : (commitments ++ realCommitments [pair]).length ≤ 2 ^ neptuneTreeDepth := by
      rw [length_append] at commitRoom
      omega
    have order : List.Perm (spentNullifiers [pair.2] ++ spentNullifiers (rest.map Prod.snd) ++ inserted)
        (spentNullifiers (rest.map Prod.snd) ++ (spentNullifiers [pair.2] ++ inserted)) := by
      rw [← append_assoc]
      exact perm_append_comm.append_right inserted
    rw [order.nodup_iff] at fresh
    rw [order.length_eq] at nullRoom
    have freshFirst := (nodup_append.mp fresh).2.1
    have nullFirst : (spentNullifiers [pair.2] ++ inserted).length < 2 ^ neptuneTreeDepth := by
      rw [length_append] at nullRoom
      omega
    obtain ⟨next, circuit, isNext, circuitsNext, holds, tracksNext, historic, count⟩ :=
      processPair_tracks tracks room wide commitFirst freshFirst nullFirst
    obtain ⟨final, circuits, zFinal, isFinal, circuitsFinal, folds, tracksFinal, historicFinal,
      countFinal⟩ := ih tracksNext commitRoom fresh nullRoom
    rw [historic] at isFinal historicFinal
    refine ⟨final, circuit :: circuits, zFinal, ?_, ?_, ⟨holds, folds⟩, ?_, historicFinal, ?_⟩
    · rw [foldlM_cons, isNext]
      exact isFinal
    · rw [circuitsFinal, circuitsNext, append_assoc, singleton_append]
    · rw [reverse_append, spentNullifiers_reverse, append_assoc (spentNullifiers _).reverse]
      exact tracksFinal
    · rw [countFinal, count, length_append, Nat.cast_add, add_assoc]

end

section

structure RollupWitnessInputs.Valid (inputs : RollupWitnessInputs (ZMod p)) : Prop where
  fresh : (spentNullifiers inputs.nullifiers ++ spentNullifiers inputs.priorNullifiers).Nodup
  commitRoom : (realCommitments (inputs.commitments.zip inputs.nullifiers)).length ≤ 2 ^ neptuneTreeDepth
  nullRoom : (spentNullifiers inputs.nullifiers ++ spentNullifiers inputs.priorNullifiers).length <
    2 ^ neptuneTreeDepth

def RollupWitness.start (poseidon : Poseidon (ZMod p)) (inputs : RollupWitnessInputs (ZMod p))
    (witness : RollupWitness (ZMod p)) : RollupState (ZMod p) :=
  ⟨(NeptuneCommitmentTree.new poseidon neptuneTreeDepth .new).root poseidon,
    witness.preNullifiersRoot, inputs.historicRoot, 0, 0⟩

def RollupWitness.finish (inputs : RollupWitnessInputs (ZMod p))
    (witness : RollupWitness (ZMod p)) : RollupState (ZMod p) :=
  ⟨witness.newCommitmentsRoot, witness.newNullifiersRoot, inputs.historicRoot,
    (realCommitments (inputs.commitments.zip inputs.nullifiers)).length, (spentNullifiers inputs.nullifiers).length⟩

theorem exists_folds (room : 2 ^ (neptuneTreeDepth + 1) ≤ p) (wide : p ≤ 2 ^ defaultRangeBits)
    {inputs : RollupWitnessInputs (ZMod p)} (valid : inputs.Valid) :
    ∃ witness, buildRollupCircuits poseidon inputs = .ok witness ∧
      Folds poseidon (witness.start poseidon inputs) witness.circuits (witness.finish inputs) := by
  have isNullifiers : (inputs.commitments.zip inputs.nullifiers).map Prod.snd = inputs.nullifiers :=
    map_snd_zip inputs.sameLength.ge
  obtain ⟨before, chain, hydrated, depth, stores⟩ :=
    @hydrate_stores p _ poseidon _ (nodup_append.mp valid.fresh).2.1 neptuneTreeDepth
  have order : List.Perm (spentNullifiers inputs.nullifiers ++ (sortPrior inputs.priorNullifiers).reverse)
      (spentNullifiers inputs.nullifiers ++ spentNullifiers inputs.priorNullifiers) :=
    ((reverse_perm _).trans (sortPrior_perm _)).append_left _
  have fresh := order.nodup_iff.mpr valid.fresh
  have nullRoom := valid.nullRoom
  rw [← order.length_eq] at nullRoom
  have tracks : BuilderState.Tracks poseidon ⟨.new poseidon neptuneTreeDepth .new, before, []⟩
      ⟨(NeptuneCommitmentTree.new poseidon neptuneTreeDepth .new).root poseidon,
        before.root poseidon, inputs.historicRoot, 0, 0⟩ []
      (sortPrior inputs.priorNullifiers).reverse :=
    ⟨NeptuneCommitmentTree.new_consistent _, rfl, ⟨chain, stores⟩, depth, rfl, rfl, Nat.cast_zero.symm⟩
  rw [← isNullifiers] at fresh nullRoom
  obtain ⟨final, circuits, zFinal, isFinal, isCircuits, folds, tracksFinal, historic, count⟩ :=
    foldlM_processPair room wide _ tracks valid.commitRoom fresh nullRoom
  rw [isNullifiers] at count
  have built : buildRollupCircuits poseidon inputs = .ok ⟨final.circuits,
      final.commitTree.root poseidon, final.nullImt.root poseidon, before.root poseidon⟩ := by
    rw [buildRollupCircuits, hydrated]
    change Except.bind (List.foldlM _ _ _) _ = _
    rw [isFinal]
    rfl
  refine ⟨_, built, ?_⟩
  have isFinish : zFinal = ⟨final.commitTree.root poseidon, final.nullImt.root poseidon,
      inputs.historicRoot, (realCommitments (inputs.commitments.zip inputs.nullifiers)).length,
      (spentNullifiers inputs.nullifiers).length⟩ := by
    rw [zero_add] at count
    rw [← tracksFinal.commitmentsRoot, ← tracksFinal.nullifiersRoot, ← count]
    exact congrArg₂ (fun historicRoot txCount => RollupState.mk zFinal.commitmentsRoot
      zFinal.nullifiersRoot historicRoot txCount zFinal.nullifierCount) historic tracksFinal.txCount
  rw [isFinish] at folds
  rw [isCircuits]
  exact folds

/-- Every block with new nullifiers that the trees have room for is built without a panic, and its
circuits lead from the roots before it to the roots that the builder reports. -/
theorem buildRollupCircuits_complete (poseidon : Poseidon Fr254) (inputs : RollupWitnessInputs Fr254)
    (valid : inputs.Valid) : ∃ witness, buildRollupCircuits poseidon inputs = .ok witness ∧
      Folds poseidon (witness.start poseidon inputs) witness.circuits (witness.finish inputs) := by
  have room : 2 ^ (neptuneTreeDepth + 1) ≤ fr254Modulus := by decide
  have wide : fr254Modulus ≤ 2 ^ defaultRangeBits := by decide
  exact exists_folds room wide valid

def sampleBlock : RollupWitnessInputs Fr254 where
  commitments := [9, 7, 5, 0]
  nullifiers := [3, 0, 2, 0]
  historicRoot := 4
  priorNullifiers := [5]
  sameLength := rfl

theorem sampleBlock_valid : sampleBlock.Valid where
  fresh := by decide +kernel
  commitRoom := by decide +kernel
  nullRoom := by decide +kernel

theorem buildRollupCircuits_complete_sample : sampleBlock.Valid ∧
    ∃ witness, buildRollupCircuits samplePoseidon sampleBlock = .ok witness ∧
      Folds samplePoseidon (witness.start samplePoseidon sampleBlock) witness.circuits
        (witness.finish sampleBlock) :=
  ⟨sampleBlock_valid, buildRollupCircuits_complete samplePoseidon sampleBlock sampleBlock_valid⟩

end

end Nightfall.Nova
