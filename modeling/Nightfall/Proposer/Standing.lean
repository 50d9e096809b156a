import Nightfall.MerkleTrees.DryRun
import Nightfall.Proposer.Outcomes

/-! The trees of the proposer with all that is in them: what proving a block and appending it does, and
that both succeed while there is room and the nullifiers are new. -/

namespace Nightfall.Proposer

open Merkle Store Store.Program MerkleTrees MutableTree IndexedTree

variable {F : Type} [LinearOrder F] [Zero F] [NatCast F] [ToString F]

/-- What `prepare_state_transition` does to the trees, in every proving engine. -/
def prepareTrees (hash : F → F → F → F) (node : F → F → F) (findOne : FindOne F)
    (transactions : List (OnChainTransaction F)) : Program Failure (Trees F) (F × F × F) := do
  let _ ← onCommitments (MutableTree.batchInsertWithCircuitInfo node findOne (blockCommitments transactions))
  let _ ← onNullifiers (batchInsertNullifiersWithCircuitInfo hash node findOne (blockNullifiers transactions))
  let commitmentsRoot ← onCommitments getRoot
  let nullifiersRoot ← onNullifiers (onTree getRoot)
  let historicRootRoot ← appendHistoricCommitmentRoot node commitmentsRoot false
  pure (commitmentsRoot, nullifiersRoot, historicRootRoot)

variable {hash : F → F → F → F} {node : F → F → F} {isNova : Bool} {trees later : Trees F}
  {transactions : List (OnChainTransaction F)}

theorem prepareTrees_eq_ok {findOne : FindOne F} {roots : F × F × F} :
    (prepareTrees hash node findOne transactions).run trees = (.ok roots, later) ↔
      ∃ middle, (batchInsertLeaves hash node findOne (blockCommitments transactions)
          (blockNullifiers transactions)).run trees = (.ok (), middle) ∧
        middle.commitments.metadata.map TreeMetadata.root = some roots.1 ∧
        middle.nullifiers.tree.metadata.map TreeMetadata.root = some roots.2.1 ∧
        (appendHistoricCommitmentRoot node roots.1 false).run middle = (.ok roots.2.2, later) := by
  simp [-bind_pure_comp, prepareTrees, batchInsertLeaves, bind_eq_ok, onCommitments_getRoot_eq_ok,
    onNullifiers_getRoot_eq_ok]
  grind

omit [LinearOrder F] [NatCast F] [ToString F] in
theorem appendHistoricCommitmentRoot_parts {root value : F} {updateTree : Bool}
    (ran : (appendHistoricCommitmentRoot node root updateTree).run trees = (.ok value, later)) :
    ∃ result, (appendSubTrees node [root] updateTree).run trees.historic = (.ok result, later.historic) ∧
      result.1 = value ∧ later.commitments = trees.commitments ∧ later.nullifiers = trees.nullifiers := by
  obtain ⟨result, _, first, isLast⟩ := bind_eq_ok.mp ran
  cases isLast
  obtain ⟨db, isRun, rfl⟩ := zoom_eq_ok.mp first
  exact ⟨result, isRun, rfl, rfl, rfl⟩

theorem batchInsertLeaves_aligned (stocked : Stocked hash node isNova trees) {findOne : FindOne F}
    (ran : (batchInsertLeaves hash node findOne (blockCommitments transactions)
      (blockNullifiers transactions)).run trees = (.ok (), later)) :
    2 ^ subTreeHeight isNova ∣ (blockNullifiers transactions).length := by
  have sum := heights_sum isNova
  obtain ⟨⟨leaves, holds, fits⟩, -⟩ := stocked
  obtain ⟨_, _, first, -⟩ := bind_eq_ok.mp ran
  obtain ⟨db, inserted, rfl⟩ := zoom_eq_ok.mp first
  have whole := (batchInsert_ok holds (by omega) fits inserted).holds.aligned
  rw [List.length_append] at whole
  rw [blockNullifiers_length, ← blockCommitments_length]
  exact (Nat.dvd_add_right holds.aligned).mp whole

variable (hash node isNova) in
structure Standing (leaves : List F) (count : ℕ) (entries : List (Entry F)) (roots : List F) (trees : Trees F) :
    Prop where
  commitments : HoldsList node (treeHeight isNova) (subTreeHeight isNova) leaves trees.commitments
  nullifiers : Consistent hash node (treeHeight isNova) (subTreeHeight isNova) count entries trees.nullifiers
  historic : HoldsList node 32 0 roots trees.historic

variable (isNova) in
structure Insertable (transactions : List (OnChainTransaction F)) (leaves : List F) (count : ℕ)
    (entries : List (Entry F)) : Prop where
  aligned : 2 ^ subTreeHeight isNova ∣ transactions.length * 4
  commitments : leaves.length + transactions.length * 4 ≤ 2 ^ treeHeight isNova * 2 ^ subTreeHeight isNova
  nullifiers : count + transactions.length * 4 / 2 ^ subTreeHeight isNova ≤ 2 ^ treeHeight isNova
  fresh : ((entries ++ placed (count * 2 ^ subTreeHeight isNova) (blockNullifiers transactions)).map
    Entry.value).Nodup

omit [NatCast F] [ToString F] in
theorem Insertable.sized {leaves : List F} {count : ℕ} {entries : List (Entry F)}
    (insertable : Insertable isNova transactions leaves count entries) :
    2 ^ subTreeHeight isNova ∣ (blockCommitments transactions).length ∧
      2 ^ subTreeHeight isNova ∣ (blockNullifiers transactions).length ∧
      (leaves ++ blockCommitments transactions).length ≤ 2 ^ treeHeight isNova * 2 ^ subTreeHeight isNova ∧
      count + (blockNullifiers transactions).length / 2 ^ subTreeHeight isNova ≤ 2 ^ treeHeight isNova := by
  rw [List.length_append, blockCommitments_length, blockNullifiers_length]
  exact ⟨insertable.aligned, insertable.aligned, insertable.commitments, insertable.nullifiers⟩

section

variable {roots : List F}

omit [LinearOrder F] [NatCast F] [ToString F] in
theorem appendHistoricCommitmentRoot_appends (holds : HoldsList node 32 0 roots trees.historic)
    (room : roots.length < 2 ^ 32) (root : F) :
    ∃ value historic, (appendHistoricCommitmentRoot node root true).run trees =
        (.ok value, { trees with historic := historic }) ∧ HoldsList node 32 0 (roots ++ [root]) historic := by
  have fits : (roots ++ [root]).length ≤ 2 ^ 32 * 2 ^ 0 := by
    rw [List.length_append, List.length_singleton]
    omega
  obtain ⟨_, historic, appended, appends⟩ :=
    appendSubTrees_appends holds (by decide) (by rw [pow_zero]; exact one_dvd _) fits
  exact ⟨_, historic, bind_ok (onHistoric_ok appended), appends.holds⟩

omit [LinearOrder F] [NatCast F] [ToString F] in
theorem appendHistoricCommitmentRoot_dryRun (holds : HoldsList node 32 0 roots trees.historic)
    (room : roots.length < 2 ^ 32) (root : F) :
    ∃ cache, (appendHistoricCommitmentRoot node root false).run trees =
      (.ok (levels node 32 (fun i => (roots ++ [root]).getD i 0) 0),
        { trees with historic := { trees.historic with cache := cache } }) := by
  obtain ⟨count, isLength, held⟩ := holds
  rw [pow_zero, Nat.mul_one] at isLength
  have isTree := writeAt_list 0 roots [root]
  rw [isLength, ← Nat.mul_one count, ← pow_zero 2] at isTree
  obtain ⟨cache, ran, -⟩ := appendSubTrees_dryRun held (by decide) (by rw [pow_zero]; exact one_dvd _) rfl
    (List.cons_ne_nil _ _) (by rw [pow_zero, Nat.div_one, List.length_singleton]; omega) isTree.symm
  refine ⟨cache, ?_⟩
  rw [appendHistoricCommitmentRoot, bind_ok (onHistoric_ok ran), pure_run]

end

omit [ToString F] in
theorem standing_initialise (idle : node 0 0 = 0) :
    ∃ trees, (initialise hash node isNova).run .empty = (.ok (), trees) ∧
      Standing hash node isNova [] 1 [⟨0, 0⟩] [0] trees := by
  have sum := heights_sum isNova
  obtain ⟨committed, isNew, holds⟩ := @holds_new F _ node (treeHeight isNova) (subTreeHeight isNova) idle (by omega)
  obtain ⟨historic, isHistoric, holdsHistoric⟩ := @holds_new F _ node 32 0 idle (by decide)
  obtain ⟨nullified, isIndexed, consistent⟩ :=
    @newIndexedTree_run F _ _ _ hash node (treeHeight isNova) (subTreeHeight isNova) idle (by omega)
  have listed : HoldsList node 32 0 [] historic := ⟨0, rfl, holdsHistoric⟩
  obtain ⟨value, final, appended, held⟩ := @appendHistoricCommitmentRoot_appends F _ node
    ⟨committed, nullified, historic⟩ [] listed (by simp) 0
  refine ⟨⟨committed, nullified, final⟩, ?_, ⟨0, by simp, holds⟩, consistent, held⟩
  have first : (newCommitmentTree isNova).run (.empty : Trees F) = (.ok (), ⟨committed, .empty, .empty⟩) :=
    onCommitments_ok isNew
  have second : newHistoricRootTree.run (⟨committed, .empty, .empty⟩ : Trees F) =
      (.ok (), ⟨committed, .empty, historic⟩) := onHistoric_ok isHistoric
  have third : (newNullifierTree hash node isNova).run (⟨committed, .empty, historic⟩ : Trees F) =
      (.ok (), ⟨committed, nullified, historic⟩) := onNullifiers_ok isIndexed
  rw [initialise, bind_ok first, bind_ok second, bind_ok third, bind_ok appended, pure_run]

omit [ToString F] in
theorem Standing.root {leaves roots : List F} {count : ℕ} {entries : List (Entry F)}
    (standing : Standing hash node isNova leaves count entries roots trees) :
    ∃ root, trees.commitments.metadata.map TreeMetadata.root = some root :=
  ⟨_, congrArg (Option.map TreeMetadata.root) standing.commitments.metadata⟩

section

variable {leaves roots : List F} {count : ℕ} {entries : List (Entry F)} (least : ∀ x : F, 0 ≤ x)
include least

section

variable (standing : Standing hash node isNova leaves count entries roots trees)
  (insertable : Insertable isNova transactions leaves count entries)

include standing insertable

theorem Standing.appendLeaves :
    ∃ after, (Proposer.appendLeaves hash node (blockCommitments transactions) (blockNullifiers transactions)).run
        trees = (.ok (), after) ∧
      Standing hash node isNova (leaves ++ blockCommitments transactions)
        (count + (blockNullifiers transactions).length / 2 ^ subTreeHeight isNova)
        (entries ++ placed (count * 2 ^ subTreeHeight isNova) (blockNullifiers transactions)) roots after := by
  have sum := heights_sum isNova
  obtain ⟨alignedCommitments, aligned, room, space⟩ := insertable.sized
  obtain ⟨_, committed, appended, appends⟩ :=
    appendSubTrees_appends standing.commitments (by omega) alignedCommitments room
  obtain ⟨_, nullified, inserted, inserts⟩ := insertLeaves_inserts standing.nullifiers least (by omega)
    (placed_small (by omega) aligned space) insertable.fresh aligned fun _ => space
  exact ⟨_, appendLeaves_eq_ok.mpr ⟨_, _, _, _, appended, inserted, rfl⟩, appends.holds, inserts.consistent,
    standing.historic⟩

theorem Standing.rebuild (room : roots.length < 2 ^ 32) (root : F) :
    ∃ after, Rebuilt hash node transactions root trees after ∧
      Standing hash node isNova (leaves ++ blockCommitments transactions)
        (count + (blockNullifiers transactions).length / 2 ^ subTreeHeight isNova)
        (entries ++ placed (count * 2 ^ subTreeHeight isNova) (blockNullifiers transactions)) (roots ++ [root])
        after := by
  obtain ⟨middle, appended, held⟩ := standing.appendLeaves least insertable
  obtain ⟨value, historic, isHistoric, listed⟩ := appendHistoricCommitmentRoot_appends held.historic room root
  exact ⟨_, ⟨⟨middle, appended, value, isHistoric⟩, held.root⟩, held.commitments, held.nullifiers, listed⟩

theorem Standing.prepare (room : roots.length < 2 ^ 32) (findOne : FindOne F) : ∃ root committed nullified cache,
      root = levels node 32 (fun i => (leaves ++ blockCommitments transactions).getD i 0) 0 ∧
      (prepareTrees hash node findOne transactions).run trees =
        (.ok (root, levels node 32 (leafAt hash (entries ++ placed (count * 2 ^ subTreeHeight isNova)
            (blockNullifiers transactions))) 0, levels node 32 (fun i => (roots ++ [root]).getD i 0) 0),
          ⟨committed, nullified, { trees.historic with cache := cache }⟩) ∧
      HoldsList node (treeHeight isNova) (subTreeHeight isNova)
        (leaves ++ blockCommitments transactions) committed ∧
      Consistent hash node (treeHeight isNova) (subTreeHeight isNova)
        (count + (blockNullifiers transactions).length / 2 ^ subTreeHeight isNova)
        (entries ++ placed (count * 2 ^ subTreeHeight isNova) (blockNullifiers transactions)) nullified := by
  have sum := heights_sum isNova
  obtain ⟨alignedCommitments, aligned, fits, space⟩ := insertable.sized
  have inserts : ∃ infos db, (MutableTree.batchInsertWithCircuitInfo node findOne
      (blockCommitments transactions)).run trees.commitments = (.ok infos, db) ∧ _ :=
    batchInsert_appends standing.commitments (by omega) alignedCommitments fits
  obtain ⟨_, committed, appended, appends⟩ := inserts
  have nullifies : ∃ infos db, (batchInsertNullifiersWithCircuitInfo hash node findOne
      (blockNullifiers transactions)).run trees.nullifiers = (.ok infos, db) ∧ _ :=
    batchInsertNullifiers_inserts least (by omega) aligned standing.nullifiers insertable.fresh space
  obtain ⟨_, nullified, inserted, indexed⟩ := nullifies
  have isRoot := congrArg (Option.map TreeMetadata.root) appends.holds.metadata
  have isNullifiersRoot := congrArg (Option.map TreeMetadata.root) indexed.consistent.tree.metadata
  rw [sum] at isRoot isNullifiersRoot
  obtain ⟨cache, dryRun⟩ := @appendHistoricCommitmentRoot_dryRun F _ node
    ⟨committed, nullified, trees.historic⟩ roots standing.historic room
    (levels node 32 (fun i => (leaves ++ blockCommitments transactions).getD i 0) 0)
  refine ⟨_, committed, nullified, cache, rfl, ?_, appends.holds, indexed.consistent⟩
  refine prepareTrees_eq_ok.mpr ⟨_, ?_, isRoot, isNullifiersRoot, dryRun⟩
  have second := @onNullifiers_ok F _ _ { trees with commitments := committed } _ _ inserted
  rw [batchInsertLeaves, bind_ok (onCommitments_ok appended), bind_ok second, pure_run]

end

end

end Nightfall.Proposer
