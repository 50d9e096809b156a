import Nightfall.Nova.BuilderCompleteness

/-! From one block to the next. -/

namespace Nightfall.Nova

open R1cs Merkle NovaIndexedLeaf NeptuneIMT List Except

variable {p : ℕ} [Fact p.Prime] {poseidon : Poseidon (ZMod p)}

structure IndexedTree.HoldsInOrder {depth : ℕ} (tree : IndexedTree p depth) (values : List (ZMod p)) : Prop where
  stored : List.Perm tree.values (0 :: values)
  order : ∀ leaf ∈ tree.leaves, (0 :: values)[leaf.index]? = some leaf.value

section

variable {depth : ℕ} {tree next : IndexedTree p depth} {values nextValues : List (ZMod p)}

theorem IndexedTree.HoldsInOrder.leaf_at (holds : tree.HoldsInOrder values) {i : ℕ} {x : ZMod p}
    (isValue : (0 :: values)[i]? = some x) : ∃ leaf ∈ tree.leaves, leaf.index = i ∧ leaf.value = x := by
  have stored : x ∈ tree.values := holds.stored.mem_iff.mpr (mem_of_getElem? isValue)
  obtain ⟨leaf, member, rfl⟩ := mem_map.mp stored
  have nodup : (0 :: values).Nodup := holds.stored.nodup_iff.mp tree.indexed.values_nodup
  obtain ⟨inside, _⟩ := List.getElem?_eq_some_iff.mp isValue
  have isIndex := (List.getElem?_inj inside nodup).mp (isValue.trans (holds.order leaf member).symm)
  exact ⟨leaf, member, isIndex.symm, rfl⟩

section

variable (holds : tree.HoldsInOrder values) (nextHolds : next.HoldsInOrder nextValues)
  (free : poseidon.CollisionFree (tree.nodes poseidon ∪ next.nodes poseidon) (tree.triples ∪ next.triples))
  (same : tree.root poseidon = next.root poseidon)

include holds nextHolds free same

theorem IndexedTree.HoldsInOrder.same_value {i : ℕ} {x : ZMod p}
    (isValue : (0 :: values)[i]? = some x) : (0 :: nextValues)[i]? = some x := by
  obtain ⟨leaf, member, rfl, rfl⟩ := holds.leaf_at isValue
  have hashes := leaves_of_root poseidon.hash2 free.hash2 same leaf.index (tree.inside leaf member)
  have stored : leaf.triple ∈ tree.triples ∪ next.triples := Or.inl ⟨leaf, member, rfl⟩
  rw [tree.hashes_of_mem poseidon member] at hashes
  rcases leafHashes_cases poseidon next.leaves leaf.index with
    empty | ⟨other, otherMember, isIndex, isHash⟩
  · exact (free.occupied leaf.triple stored (hashes.trans empty)).elim
  · have triples : leaf.triple = other.triple :=
      free.hash3 stored (Or.inr ⟨other, otherMember, rfl⟩) (hashes.trans isHash)
    rw [← isIndex, nextHolds.order other otherMember]
    exact congrArg some (Prod.mk.inj triples).1.symm

theorem IndexedTree.HoldsInOrder.order_unique : values = nextValues := by
  have freeBack := free
  rw [Set.union_comm (tree.nodes poseidon), Set.union_comm tree.triples] at freeBack
  have lists : 0 :: values = 0 :: nextValues := by
    apply ext_getElem?
    intro i
    cases here : (0 :: values)[i]? with
    | some x => exact (holds.same_value nextHolds free same here).symm
    | none =>
      cases there : (0 :: nextValues)[i]? with
      | none => rfl
      | some x =>
        rw [nextHolds.same_value holds freeBack same.symm there] at here
        cases here
  exact (List.cons.inj lists).2

end

end

section

theorem NeptuneIMT.Stores.exists_tree {imt : NeptuneIMT (ZMod p)}
    {chain : List (NovaIndexedLeaf (ZMod p))} {inserted : List (ZMod p)}
    (stores : Stores poseidon imt chain inserted) (room : inserted.length < 2 ^ imt.depth) :
    ∃ tree : IndexedTree p imt.depth, tree.leaves = chain ∧ tree.HoldsInOrder inserted.reverse ∧
      imt.root poseidon = tree.root poseidon := by
  refine ⟨⟨chain, stores.consistent.indexed, fun leaf member => stores.index_lt room member⟩, rfl,
    ⟨?_, stores.order⟩, stores.consistent.root_eq⟩
  exact stores.values.trans ((reverse_perm inserted).symm.cons 0)

theorem exists_tree_of_insertions {values : List (ZMod p)} (nonzero : 0 ∉ values) (distinct : values.Nodup)
    {depth : ℕ} (room : values.length < 2 ^ depth) {imt : NeptuneIMT (ZMod p)}
    (run : values.foldlM (insertPrior poseidon) (.new poseidon depth .new) = .ok imt) :
    ∃ tree : IndexedTree p depth, tree.HoldsInOrder values ∧ imt.root poseidon = tree.root poseidon := by
  obtain ⟨reached, chain, isReached, isDepth, stores⟩ :=
    foldlM_insertPrior nonzero (by rwa [append_nil]) (new_stores depth)
  obtain rfl : reached = imt := ok.inj (isReached.symm.trans run)
  subst isDepth
  rw [append_nil] at stores
  obtain ⟨tree, _, holds, isRoot⟩ := stores.exists_tree (by rwa [length_reverse])
  rw [reverse_reverse] at holds
  exact ⟨tree, holds, isRoot⟩

end

section

theorem nullifierStep_inserts {imt : NeptuneIMT (ZMod p)} {txIndex : ℕ} {x : ZMod p}
    {step : NullifierStep (ZMod p)} (isStep : nullifierStep poseidon imt txIndex x = .ok step) :
    (spentNullifiers [x]).foldlM (insertPrior poseidon) imt = .ok step.nullImt := by
  rw [nullifierStep] at isStep
  by_cases isZero : x = 0
  · have spent : spentNullifiers [x] = [] := by simp [spentNullifiers, isZero]
    rw [if_pos isZero] at isStep
    obtain rfl := ok.inj isStep
    rw [spent]
    rfl
  · have spent : spentNullifiers [x] = [x] := by simp [spentNullifiers, isZero]
    rw [if_neg isZero] at isStep
    cases isWitness : imt.getNonInclusionWitness poseidon x with
    | error error =>
      rw [isWitness] at isStep
      cases isStep
    | ok witness =>
      rw [isWitness] at isStep
      rw [spent, foldlM_cons, insertPrior]
      rcases inserted : imt.insertNullifier poseidon x with ⟨_ | info, next⟩
      · simp only [inserted] at isStep
        cases isStep
      · simp only [inserted] at isStep
        obtain rfl := ok.inj isStep
        rfl

theorem processPair_inserts {historicRoot : ZMod p} {state next : BuilderState (ZMod p)}
    {pair : ZMod p × ZMod p} (isNext : processPair poseidon historicRoot state pair = .ok next) :
    (spentNullifiers [pair.2]).foldlM (insertPrior poseidon) state.nullImt = .ok next.nullImt := by
  rw [processPair] at isNext
  by_cases isPadding : pair.2 = 0 ∧ pair.1 = 0
  · have spent : spentNullifiers [pair.2] = [] := by simp [spentNullifiers, isPadding]
    rw [if_pos isPadding] at isNext
    obtain rfl := ok.inj isNext
    rw [spent]
    rfl
  · rw [if_neg isPadding] at isNext
    cases isStep : nullifierStep poseidon state.nullImt state.circuits.length pair.2 with
    | error panic =>
      simp only [isStep] at isNext
      cases isNext
    | ok step =>
      simp only [isStep] at isNext
      rw [nullifierStep_inserts isStep]
      split at isNext
      · obtain rfl := ok.inj isNext
        rfl
      · cases isNext

theorem foldlM_inserts {historicRoot : ZMod p} {pairs : List (ZMod p × ZMod p)} {state final : BuilderState (ZMod p)}
    (isFinal : pairs.foldlM (processPair poseidon historicRoot) state = .ok final) :
    (spentNullifiers (pairs.map Prod.snd)).foldlM (insertPrior poseidon) state.nullImt = .ok final.nullImt := by
  induction pairs generalizing state with
  | nil =>
    obtain rfl := ok.inj isFinal
    rfl
  | cons pair rest ih =>
    rw [foldlM_cons] at isFinal
    rw [map_cons, spentNullifiers_cons, foldlM_append]
    cases isNext : processPair poseidon historicRoot state pair with
    | error panic =>
      rw [isNext] at isFinal
      cases isFinal
    | ok next =>
      rw [isNext] at isFinal
      rw [processPair_inserts isNext]
      exact ih isFinal

theorem buildRollupCircuits_inserts {inputs : RollupWitnessInputs (ZMod p)}
    {witness : RollupWitness (ZMod p)} (built : buildRollupCircuits poseidon inputs = .ok witness) :
    ∃ before after : NeptuneIMT (ZMod p), (sortPrior inputs.priorNullifiers).foldlM (insertPrior poseidon)
        (.new poseidon neptuneTreeDepth .new) = .ok before ∧
      witness.preNullifiersRoot = before.root poseidon ∧
      (sortPrior inputs.priorNullifiers ++ spentNullifiers inputs.nullifiers).foldlM
        (insertPrior poseidon) (.new poseidon neptuneTreeDepth .new) = .ok after ∧
      witness.newNullifiersRoot = after.root poseidon := by
  have isNullifiers : (inputs.commitments.zip inputs.nullifiers).map Prod.snd = inputs.nullifiers :=
    map_snd_zip inputs.sameLength.ge
  rw [buildRollupCircuits, hydrate_eq] at built
  cases hydrated : (sortPrior inputs.priorNullifiers).foldlM (insertPrior poseidon)
      (.new poseidon neptuneTreeDepth .new) with
  | error panic =>
    rw [hydrated] at built
    cases built
  | ok before =>
    rw [hydrated] at built
    change Except.bind (List.foldlM _ _ _) _ = _ at built
    cases isFinal : (inputs.commitments.zip inputs.nullifiers).foldlM (processPair poseidon inputs.historicRoot)
        ⟨.new poseidon neptuneTreeDepth .new, before, []⟩ with
    | error panic =>
      rw [isFinal] at built
      cases built
    | ok final =>
      rw [isFinal] at built
      obtain rfl := Except.ok.inj built
      have inserts := foldlM_inserts isFinal
      rw [isNullifiers] at inserts
      refine ⟨before, final.nullImt, rfl, rfl, ?_, rfl⟩
      rw [foldlM_append, hydrated]
      exact inserts

end

section

variable {poseidon : Poseidon Fr254} {inputs next : RollupWitnessInputs Fr254}
  {witness nextWitness : RollupWitness Fr254}

/-- The root a block ends with is the root the next block starts from when the nullifiers of the
block come behind the prior ones, and in the same order, if all of them are sorted by their bytes;
without collisions, only then. -/
theorem next_block_root
    (fresh : (spentNullifiers inputs.nullifiers ++ spentNullifiers inputs.priorNullifiers).Nodup)
    (room : (spentNullifiers inputs.nullifiers ++ spentNullifiers inputs.priorNullifiers).length <
      2 ^ neptuneTreeDepth)
    (union : List.Perm (spentNullifiers next.priorNullifiers)
      (spentNullifiers inputs.nullifiers ++ spentNullifiers inputs.priorNullifiers))
    (built : buildRollupCircuits poseidon inputs = .ok witness)
    (nextBuilt : buildRollupCircuits poseidon next = .ok nextWitness) :
    ∃ tree nextTree : IndexedTree fr254Modulus neptuneTreeDepth,
      tree.HoldsInOrder (sortPrior inputs.priorNullifiers ++ spentNullifiers inputs.nullifiers) ∧
      nextTree.HoldsInOrder (sortPrior next.priorNullifiers) ∧ witness.newNullifiersRoot = tree.root poseidon ∧
      nextWitness.preNullifiersRoot = nextTree.root poseidon ∧
      (sortPrior inputs.priorNullifiers ++ spentNullifiers inputs.nullifiers = sortPrior next.priorNullifiers →
        witness.newNullifiersRoot = nextWitness.preNullifiersRoot) ∧
      (poseidon.CollisionFree (tree.nodes poseidon ∪ nextTree.nodes poseidon) (tree.triples ∪ nextTree.triples) →
        witness.newNullifiersRoot = nextWitness.preNullifiersRoot →
          sortPrior inputs.priorNullifiers ++ spentNullifiers inputs.nullifiers =
            sortPrior next.priorNullifiers) := by
  obtain ⟨_, after, _, _, run, isRoot⟩ := buildRollupCircuits_inserts built
  obtain ⟨before, _, nextRun, isNextRoot, _, _⟩ := buildRollupCircuits_inserts nextBuilt
  have order : List.Perm (sortPrior inputs.priorNullifiers ++ spentNullifiers inputs.nullifiers)
      (spentNullifiers inputs.nullifiers ++ spentNullifiers inputs.priorNullifiers) :=
    ((sortPrior_perm _).append_right _).trans perm_append_comm
  have nextOrder := (sortPrior_perm next.priorNullifiers).trans union
  have nonzero : 0 ∉ spentNullifiers inputs.nullifiers ++ spentNullifiers inputs.priorNullifiers := by
    simp [spentNullifiers]
  obtain ⟨tree, holds, isTree⟩ := exists_tree_of_insertions (by rwa [order.mem_iff])
    (order.nodup_iff.mpr fresh) (by rwa [order.length_eq]) run
  obtain ⟨nextTree, nextHolds, isNextTree⟩ := exists_tree_of_insertions (by rwa [nextOrder.mem_iff])
    (nextOrder.nodup_iff.mpr fresh) (by rwa [nextOrder.length_eq]) nextRun
  refine ⟨tree, nextTree, holds, nextHolds, isRoot.trans isTree, isNextRoot.trans isNextTree, ?_, ?_⟩
  · intro same
    rw [same] at run
    obtain rfl : after = before := ok.inj (run.symm.trans nextRun)
    rw [isRoot, isNextRoot]
  · intro free same
    rw [isRoot, isNextRoot, isTree, isNextTree] at same
    exact holds.order_unique nextHolds free same

section

def nullifierBlock (nullifiers prior : List Fr254) : RollupWitnessInputs Fr254 where
  commitments := nullifiers.map fun _ => 0
  nullifiers := nullifiers
  historicRoot := 0
  priorNullifiers := prior
  sameLength := length_map _

theorem nullifierBlock_built (poseidon : Poseidon Fr254) {nullifiers prior : List Fr254}
    (valid : (nullifierBlock nullifiers prior).Valid) :
    ∃ witness, buildRollupCircuits poseidon (nullifierBlock nullifiers prior) = .ok witness := by
  have room : 2 ^ (neptuneTreeDepth + 1) ≤ fr254Modulus := by decide
  have wide : fr254Modulus ≤ 2 ^ defaultRangeBits := by decide
  obtain ⟨witness, built, _⟩ := @exists_folds _ _ poseidon room wide _ valid
  exact ⟨witness, built⟩

theorem sortPrior_one_two : sortPrior ([1, 2] : List Fr254) = [1, 2] := by
  apply mergeSort_of_pairwise
  decide +kernel

theorem sortPrior_nil : sortPrior ([] : List Fr254) = [] := mergeSort_nil

theorem valid_one_two : (nullifierBlock [1, 2] []).Valid :=
  ⟨by decide +kernel, by decide +kernel, by decide +kernel⟩

theorem valid_two_one : (nullifierBlock [2, 1] []).Valid :=
  ⟨by decide +kernel, by decide +kernel, by decide +kernel⟩

theorem valid_after : (nullifierBlock [] [1, 2]).Valid :=
  ⟨by decide +kernel, by decide +kernel, by decide +kernel⟩

end

theorem next_block_root_one_two : ∃ witness nextWitness,
    buildRollupCircuits samplePoseidon (nullifierBlock [1, 2] []) = .ok witness ∧
    buildRollupCircuits samplePoseidon (nullifierBlock [] [1, 2]) = .ok nextWitness ∧
    witness.newNullifiersRoot = nextWitness.preNullifiersRoot := by
  obtain ⟨witness, built⟩ := nullifierBlock_built samplePoseidon valid_one_two
  obtain ⟨nextWitness, nextBuilt⟩ := nullifierBlock_built samplePoseidon valid_after
  have union : List.Perm (spentNullifiers (nullifierBlock [] [1, 2]).priorNullifiers)
      (spentNullifiers (nullifierBlock [1, 2] []).nullifiers ++
        spentNullifiers (nullifierBlock [1, 2] []).priorNullifiers) := by decide
  obtain ⟨_, _, _, _, _, _, continues, _⟩ :=
    next_block_root valid_one_two.fresh valid_one_two.nullRoom union built nextBuilt
  refine ⟨witness, nextWitness, built, nextBuilt, continues ?_⟩
  change sortPrior [] ++ spentNullifiers [1, 2] = sortPrior [1, 2]
  rw [sortPrior_nil, sortPrior_one_two]
  decide

section

def linearPoseidon : Poseidon Fr254 := ⟨fun a b => 2 * a + 3 * b, fun a b c => a + 2 * b + 4 * c + 1⟩

def oneBehindTwo : List (NovaIndexedLeaf Fr254) :=
  [⟨0, 0, (2 : ℕ), 1⟩, ⟨1, 2, (1 : ℕ), 2⟩, ⟨2, 1, 0, 0⟩]

def twoBehindOne : List (NovaIndexedLeaf Fr254) :=
  [⟨0, 0, (1 : ℕ), 1⟩, ⟨1, 1, (2 : ℕ), 2⟩, ⟨2, 2, 0, 0⟩]

def listedHashes (chain : List (NovaIndexedLeaf Fr254)) : List Fr254 :=
  (List.range 3).map (leafHashes linearPoseidon chain)

theorem nodes_injective : (((0, 0) :: (pairsListed linearPoseidon.hash2 0 32 (listedHashes oneBehindTwo) ++
      pairsListed linearPoseidon.hash2 0 32 (listedHashes twoBehindOne))).map
        fun pair => linearPoseidon.hash2 pair.1 pair.2).Nodup := by
  decide +kernel

theorem stores_pair (poseidon : Poseidon Fr254) (depth : ℕ) {first second : Fr254} (nonzero : first ≠ 0)
    {before after : List (NovaIndexedLeaf Fr254)} {low : NovaIndexedLeaf Fr254}
    (split : [zeroLeaf.repointed first 1, zeroLeaf.successor first 1] = before ++ low :: after)
    (brackets : low.Brackets second) :
    ∃ imt, [first, second].foldlM (insertPrior poseidon) (.new poseidon depth .new) = .ok imt ∧ imt.depth = depth ∧
      Stores poseidon imt (before ++ low.repointed second 2 :: low.successor second 2 :: after) [second, first] := by
  have empty : Stores poseidon (.new poseidon depth .new) ([] ++ zeroLeaf :: []) [] := new_stores depth
  obtain ⟨isFirst, stores⟩ := insertPrior_stores empty (zeroLeaf_brackets nonzero)
  change Stores poseidon _ [zeroLeaf.repointed first 1, zeroLeaf.successor first 1] [first] at stores
  rw [split] at stores
  obtain ⟨isSecond, both⟩ := insertPrior_stores stores brackets
  refine ⟨_, ?_, rfl, both⟩
  rw [foldlM_cons, isFirst]
  change List.foldlM (insertPrior poseidon) _ [second] = _
  rw [foldlM_cons, isSecond]
  rfl

theorem nodes_listed {tree : IndexedTree fr254Modulus neptuneTreeDepth} (small : ∀ leaf ∈ tree.leaves, leaf.index < 3) :
    tree.nodes linearPoseidon ⊆
      {pair | pair ∈ (0, 0) :: pairsListed linearPoseidon.hash2 0 32 (listedHashes tree.leaves)} := by
  have hashes : tree.hashes linearPoseidon = fun i => (listedHashes tree.leaves).getD i 0 := by
    funext i
    by_cases inside : i < 3
    · simp [listedHashes, IndexedTree.hashes, inside]
    · have free : i ∉ tree.leaves.map index := by
        intro taken
        obtain ⟨leaf, member, rfl⟩ := mem_map.mp taken
        exact inside (small leaf member)
      rw [IndexedTree.hashes, leafHashes_of_free free]
      simp [listedHashes, inside]
  rw [IndexedTree.nodes, hashes]
  exact pairsBelow_listed linearPoseidon.hash2 (by decide) _ _

def smallTriples : List (Fr254 × Fr254 × Fr254) :=
  [(0, (2 : ℕ), 1), (1, (1 : ℕ), 2), (2, 0, 0), (0, (1 : ℕ), 1), (1, (2 : ℕ), 2)]

theorem triples_injective : (smallTriples.map fun leaf => linearPoseidon.hash3 leaf.1 leaf.2.1 leaf.2.2).Nodup := by
  decide +kernel

theorem triples_occupied : 0 ∉ smallTriples.map fun leaf => linearPoseidon.hash3 leaf.1 leaf.2.1 leaf.2.2 := by
  decide +kernel

theorem linearPoseidon_free : linearPoseidon.CollisionFree
    {pair | pair ∈ (0, 0) :: (pairsListed linearPoseidon.hash2 0 32 (listedHashes oneBehindTwo) ++
      pairsListed linearPoseidon.hash2 0 32 (listedHashes twoBehindOne))} {leaf | leaf ∈ smallTriples} where
  hash2 _ first _ second same := inj_on_of_nodup_map nodes_injective first second same
  hash3 _ first _ second same := inj_on_of_nodup_map triples_injective first second same
  occupied leaf member isZero := triples_occupied (mem_map.mpr ⟨leaf, member, isZero⟩)

end

/-- A block that spends two before one: the next block does not start from the root it ended with,
though nothing collides. -/
theorem unsorted_block_root : ∃ witness nextWitness, ∃ tree nextTree : IndexedTree fr254Modulus neptuneTreeDepth,
      buildRollupCircuits linearPoseidon (nullifierBlock [2, 1] []) = .ok witness ∧
      buildRollupCircuits linearPoseidon (nullifierBlock [] [1, 2]) = .ok nextWitness ∧
      witness.newNullifiersRoot = tree.root linearPoseidon ∧
      nextWitness.preNullifiersRoot = nextTree.root linearPoseidon ∧
      linearPoseidon.CollisionFree (tree.nodes linearPoseidon ∪ nextTree.nodes linearPoseidon)
        (tree.triples ∪ nextTree.triples) ∧
      witness.newNullifiersRoot ≠ nextWitness.preNullifiersRoot := by
  obtain ⟨witness, built⟩ := nullifierBlock_built linearPoseidon valid_two_one
  obtain ⟨nextWitness, nextBuilt⟩ := nullifierBlock_built linearPoseidon valid_after
  obtain ⟨_, after, _, _, run, isRoot⟩ := buildRollupCircuits_inserts built
  obtain ⟨before, _, nextRun, isNextRoot, _, _⟩ := buildRollupCircuits_inserts nextBuilt
  have values : sortPrior [] ++ spentNullifiers [2, 1] = ([2, 1] : List Fr254) := by
    rw [sortPrior_nil]
    decide
  change (sortPrior [] ++ spentNullifiers [2, 1]).foldlM _ _ = _ at run
  change (sortPrior [1, 2]).foldlM _ _ = _ at nextRun
  rw [values] at run
  rw [sortPrior_one_two] at nextRun
  obtain ⟨imt, isImt, depth, stores⟩ := @stores_pair linearPoseidon neptuneTreeDepth 2 1 (by decide) []
    [⟨2, 1, 0, 0⟩] ⟨0, 0, (1 : ℕ), 2⟩ rfl ⟨by decide, Or.inr (by decide)⟩
  obtain ⟨nextImt, isNextImt, nextDepth, nextStores⟩ := @stores_pair linearPoseidon neptuneTreeDepth 1 2 (by decide)
    [⟨0, 0, (1 : ℕ), 1⟩] [] ⟨1, 1, 0, 0⟩ rfl ⟨by decide, Or.inl rfl⟩
  obtain rfl : after = imt := ok.inj (run.symm.trans isImt)
  obtain rfl : before = nextImt := ok.inj (nextRun.symm.trans isNextImt)
  have exists_tree := stores.exists_tree (by rw [depth]; decide)
  have exists_nextTree := nextStores.exists_tree (by rw [nextDepth]; decide)
  rw [depth] at exists_tree
  rw [nextDepth] at exists_nextTree
  obtain ⟨tree, isTree, holds, treeRoot⟩ := exists_tree
  obtain ⟨nextTree, isNextTree, nextHolds, nextTreeRoot⟩ := exists_nextTree
  change tree.leaves = oneBehindTwo at isTree
  change nextTree.leaves = twoBehindOne at isNextTree
  have nodes : tree.nodes linearPoseidon ⊆ _ := nodes_listed (by rw [isTree]; decide)
  have nextNodes : nextTree.nodes linearPoseidon ⊆ _ := nodes_listed (by rw [isNextTree]; decide)
  rw [isTree] at nodes
  rw [isNextTree] at nextNodes
  have free := linearPoseidon_free.mono
    (Set.union_subset (nodes.trans fun _ listed => cons_subset_cons _ (subset_append_left _ _) listed)
      (nextNodes.trans fun _ listed => cons_subset_cons _ (subset_append_right _ _) listed))
    (show tree.triples ∪ nextTree.triples ⊆ _ by
      rintro _ (⟨leaf, member, rfl⟩ | ⟨leaf, member, rfl⟩)
      · exact (show ∀ leaf ∈ oneBehindTwo, leaf.triple ∈ smallTriples by decide) leaf (isTree ▸ member)
      · exact (show ∀ leaf ∈ twoBehindOne, leaf.triple ∈ smallTriples by decide) leaf (isNextTree ▸ member))
  refine ⟨witness, nextWitness, tree, nextTree, built, nextBuilt, isRoot.trans treeRoot,
    isNextRoot.trans nextTreeRoot, free, ?_⟩
  intro same
  rw [isRoot, isNextRoot, treeRoot, nextTreeRoot] at same
  have orders := holds.order_unique nextHolds free same
  revert orders
  decide

end

end Nightfall.Nova
