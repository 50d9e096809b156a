import Nightfall.MerkleTrees.Batches

/-! The three trees of the proposer: how they are created, reset and read, and what the leaves of a
block do to them. -/

namespace Nightfall.Proposer

open Store Store.Program MerkleTrees MutableTree IndexedTree

structure Trees (F : Type) where
  commitments : MutableDb F
  nullifiers : IndexedDb F
  historic : MutableDb F

section

variable {F α : Type}

def Trees.empty : Trees F := ⟨.empty, .empty, .empty⟩

def onCommitments (program : Program Failure (MutableDb F) α) : Program Failure (Trees F) α :=
  zoom Trees.commitments (fun trees db => { trees with commitments := db }) program

def onNullifiers (program : Program Failure (IndexedDb F) α) : Program Failure (Trees F) α :=
  zoom Trees.nullifiers (fun trees db => { trees with nullifiers := db }) program

def onHistoric (program : Program Failure (MutableDb F) α) : Program Failure (Trees F) α :=
  zoom Trees.historic (fun trees db => { trees with historic := db }) program

variable {value : α} {trees : Trees F}

theorem onCommitments_ok {program : Program Failure (MutableDb F) α} {after : MutableDb F}
    (ran : program.run trees.commitments = (.ok value, after)) :
    (onCommitments program).run trees = (.ok value, { trees with commitments := after }) := zoom_ok ran

theorem onNullifiers_ok {program : Program Failure (IndexedDb F) α} {after : IndexedDb F}
    (ran : program.run trees.nullifiers = (.ok value, after)) :
    (onNullifiers program).run trees = (.ok value, { trees with nullifiers := after }) := zoom_ok ran

theorem onHistoric_ok {program : Program Failure (MutableDb F) α} {after : MutableDb F}
    (ran : program.run trees.historic = (.ok value, after)) :
    (onHistoric program).run trees = (.ok value, { trees with historic := after }) := zoom_ok ran

end

def treeHeight (isNova : Bool) : ℕ := if isNova then 32 else 29

def subTreeHeight (isNova : Bool) : ℕ := if isNova then 0 else 3

theorem heights_sum (isNova : Bool) : treeHeight isNova + subTreeHeight isNova = 32 := by
  cases isNova <;> rfl

section

variable {F : Type} [LinearOrder F] [Zero F] [NatCast F] [ToString F] (hash : F → F → F → F)
  (treeHash : F → F → F) (isNova : Bool)

def newCommitmentTree : Program Failure (Trees F) Unit :=
  onCommitments (newMutableTree (treeHeight isNova) (subTreeHeight isNova))

def newNullifierTree : Program Failure (Trees F) Unit :=
  onNullifiers (newIndexedTree hash treeHash (treeHeight isNova) (subTreeHeight isNova))

def newHistoricRootTree : Program Failure (Trees F) Unit := onHistoric (newMutableTree 32 0)

def appendHistoricCommitmentRoot (historicCommitmentRoot : F) (updateTree : Bool) : Program Failure (Trees F) F := do
  let result ← onHistoric (appendSubTrees treeHash [historicCommitmentRoot] updateTree)
  pure result.1

def isHistoricRoot (findOne : FindOne F) (leaf : F) : Program Failure (Trees F) Bool := onHistoric (isLeaf findOne leaf)

def initialise : Program Failure (Trees F) Unit := do
  newCommitmentTree isNova
  newHistoricRootTree
  newNullifierTree hash treeHash isNova
  let _ ← appendHistoricCommitmentRoot treeHash 0 true
  pure ()

def resetCommitmentTree : Program Failure (Trees F) Unit := do
  onCommitments resetMutableTree
  newCommitmentTree isNova

def resetNullifierTree : Program Failure (Trees F) Unit := do
  onNullifiers (onTree resetMutableTree)
  onNullifiers (writes fun db => { db with leaves := [] })
  newNullifierTree hash treeHash isNova

def resetHistoricRootTree : Program Failure (Trees F) Unit := do
  onHistoric resetMutableTree
  newHistoricRootTree

def appendLeaves (commitments nullifiers : List F) : Program Failure (Trees F) Unit := do
  let _ ← onCommitments (appendSubTrees treeHash commitments true)
  let _ ← onNullifiers (insertLeaves hash treeHash nullifiers)
  pure ()

def batchInsertLeaves (findOne : FindOne F) (commitments nullifiers : List F) : Program Failure (Trees F) Unit := do
  let _ ← onCommitments (MutableTree.batchInsertWithCircuitInfo treeHash findOne commitments)
  let _ ← onNullifiers (batchInsertNullifiersWithCircuitInfo hash treeHash findOne nullifiers)
  pure ()

variable {hash treeHash isNova} {trees later : Trees F} {commitments nullifiers : List F}

omit [ToString F] in
theorem initialise_eq_ok : (initialise hash treeHash isNova).run trees = (.ok (), later) ↔
    ∃ committed historic nullified root,
      (newMutableTree (treeHeight isNova) (subTreeHeight isNova)).run trees.commitments = (.ok (), committed) ∧
      (newMutableTree 32 0).run trees.historic = (.ok (), historic) ∧
      (newIndexedTree hash treeHash (treeHeight isNova) (subTreeHeight isNova)).run trees.nullifiers =
        (.ok (), nullified) ∧
      (appendHistoricCommitmentRoot treeHash 0 true).run ⟨committed, nullified, historic⟩ = (.ok root, later) := by
  simp [-bind_pure_comp, initialise, newCommitmentTree, newHistoricRootTree, newNullifierTree,
    onCommitments, onHistoric, onNullifiers, bind_eq_ok, zoom_eq_ok, Unique.exists_iff]

theorem appendLeaves_eq_ok : (appendLeaves hash treeHash commitments nullifiers).run trees = (.ok (), later) ↔
    ∃ result committed root nullified, (appendSubTrees treeHash commitments true).run trees.commitments =
        (.ok result, committed) ∧
      (insertLeaves hash treeHash nullifiers).run trees.nullifiers = (.ok root, nullified) ∧
      later = ⟨committed, nullified, trees.historic⟩ := by
  simp [-bind_pure_comp, appendLeaves, onCommitments, onNullifiers, bind_eq_ok, zoom_eq_ok]

end

section

variable {F : Type} [LinearOrder F] [Zero F] [NatCast F] [ToString F] {hash : F → F → F → F}
  {treeHash : F → F → F} {isNova : Bool} {trees later : Trees F}

variable (hash treeHash isNova) in
structure Stocked (trees : Trees F) : Prop where
  commitments : ∃ leaves, HoldsList treeHash (treeHeight isNova) (subTreeHeight isNova) leaves trees.commitments ∧
    leaves.length ≤ 2 ^ treeHeight isNova * 2 ^ subTreeHeight isNova
  nullifiers : ∃ count entries,
    Consistent hash treeHash (treeHeight isNova) (subTreeHeight isNova) count entries trees.nullifiers

variable (least : ∀ x : F, 0 ≤ x)
include least

variable (stocked : Stocked hash treeHash isNova trees) {commitments nullifiers : List F}
include stocked

theorem batchInsertLeaves_eq {findOne : FindOne F} (aligned : 2 ^ subTreeHeight isNova ∣ nullifiers.length)
    (ran : (batchInsertLeaves hash treeHash findOne commitments nullifiers).run trees = (.ok (), later)) :
    (Proposer.appendLeaves hash treeHash commitments nullifiers).run trees = (.ok (), later) := by
  have sum := heights_sum isNova
  obtain ⟨⟨leaves, holds, fits⟩, count, entries, consistent⟩ := stocked
  obtain ⟨_, _, first, ran⟩ := bind_eq_ok.mp ran
  obtain ⟨_, _, second, isLast⟩ := bind_eq_ok.mp ran
  cases isLast
  obtain ⟨after, appended, rfl⟩ := zoom_eq_ok.mp first
  obtain ⟨final, inserted, rfl⟩ := zoom_eq_ok.mp second
  have appends := batchInsert_ok holds (by omega) fits appended
  have inserts := batchInsertNullifiers_ok least (by omega) consistent aligned inserted
  have isAligned : 2 ^ subTreeHeight isNova ∣ commitments.length := by
    have whole := appends.holds.aligned
    rw [List.length_append] at whole
    exact (Nat.dvd_add_right holds.aligned).mp whole
  obtain ⟨_, other, isAppended, same⟩ := appendSubTrees_appends holds (by omega) isAligned appends.room
  rw [same.unique appends] at isAppended
  obtain ⟨_, _, isInserted, alike⟩ := insertLeaves_inserts consistent least (by omega)
    (placed_small (by omega) aligned inserts.consistent.counted) inserts.consistent.separate.values aligned
    fun _ => inserts.consistent.counted
  rw [alike.unique inserts] at isInserted
  exact appendLeaves_eq_ok.mpr ⟨_, _, _, _, isAppended, isInserted, rfl⟩

end

end Nightfall.Proposer
