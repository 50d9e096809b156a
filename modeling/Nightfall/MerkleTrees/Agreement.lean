import Nightfall.MerkleTrees.AppendOnly
import Nightfall.MerkleTrees.MutableMoves
import Nightfall.MerkleTrees.MutableRuns

/-! Three ways to the same roots: the append-only tree, the mutable tree, and a complete tree built
anew over all leaves so far. -/

namespace Nightfall.MerkleTrees

open Merkle Store Store.Program List MutableTree

variable {F : Type} [Zero F] (node : F → F → F)

/-- A call with `update_tree` set, which stores nothing unless it returns. -/
def AppendOnlyTree.perform (leaves : List F) : Program Failure (AppendOnlyDb F) F :=
  ⟨fun db =>
    match AppendOnlyTree.appendSubTrees node db leaves true with
    | .ok (root, later) => (.ok root, later)
    | .error failure => (.error failure, db)⟩

def padded (height : ℕ) (leaves : List F) : List F := leaves ++ replicate (2 ^ height - leaves.length) 0

def completeRoots (height : ℕ) : List F → List (List F) → Except Failure (List F)
  | _, [] => .ok []
  | leaves, batch :: rest => do
      let tree ← makeCompleteTree node height (padded height (leaves ++ batch))
      let root ← atIndex tree 0
      let roots ← completeRoots height (leaves ++ batch) rest
      pure (root :: roots)

section

variable {node}

omit node in
theorem padded_length {height : ℕ} {leaves : List F} (fits : leaves.length ≤ 2 ^ height) :
    (padded height leaves).length = 2 ^ height := by
  rw [padded, length_append, length_replicate, Nat.add_sub_cancel' fits]

omit node in
theorem padded_getD (height : ℕ) (leaves : List F) (i : ℕ) : (padded height leaves).getD i 0 = leaves.getD i 0 := by
  by_cases inside : i < leaves.length
  · rw [padded, getD_append _ _ _ _ inside]
  · rw [padded, getD_append_right _ _ _ _ (not_lt.mp inside), getD_eq_default leaves _ (not_lt.mp inside),
      getD_eq_getElem?_getD, getElem?_replicate]
    split <;> rfl

theorem completeRoots_cons {height : ℕ} (low : height < 63) {leaves batch : List F} {rest : List (List F)}
    (fits : (leaves ++ batch).length ≤ 2 ^ height) {roots : List F}
    (isRoots : completeRoots node height (leaves ++ batch) rest = .ok roots) :
    completeRoots node height leaves (batch :: rest) =
      .ok (levels node height (fun i => (leaves ++ batch).getD i 0) 0 :: roots) := by
  obtain ⟨tree, isTree, nodes⟩ := @makeCompleteTree_eq F _ node _ _ low (padded_length fits).le
  have isRoot : tree[0]? = some (levels node height (fun i => (leaves ++ batch).getD i 0) 0) := by
    have first := nodes 0 (Nat.zero_le _) 0 Nat.one_pos
    simp only [padded_getD] at first
    exact first
  simp only [completeRoots, isTree, bind, Except.bind, atIndex_eq isRoot, isRoots]
  rfl

end

section

variable {node} {top sub : ℕ} {leaves : List F}

theorem AppendOnlyTree.perform_run (idle : node 0 0 = 0) (low : top + sub ≤ 62)
    {db : AppendOnlyDb F} (represents : Represents node top sub leaves db)
    {batch : List F} (aligned : 2 ^ sub ∣ batch.length)
    (room : (leaves ++ batch).length < 2 ^ top * 2 ^ sub) :
    ∃ later, (AppendOnlyTree.perform node batch).run db =
        (.ok (levels node (top + sub) (fun i => (leaves ++ batch).getD i 0) 0), later) ∧
      Represents node top sub (leaves ++ batch) later := by
  obtain ⟨later, isLater, represented⟩ :=
    AppendOnlyTree.appendSubTrees_ok idle (show top + sub < 63 by omega) represents aligned room
  refine ⟨later, ?_, represented⟩
  simp only [AppendOnlyTree.perform, isLater, Nat.add_comm sub]

def MutableTree.HoldsList (node : F → F → F) (top sub : ℕ) (leaves : List F) (db : MutableDb F) : Prop :=
  ∃ count, leaves.length = count * 2 ^ sub ∧ Holds node top sub count (fun i => leaves.getD i 0) db

variable (node) in
structure MutableTree.Appends (top sub : ℕ) (leaves batch : List F) (db later : MutableDb F) : Prop where
  holds : HoldsList node top sub (leaves ++ batch) later
  room : (leaves ++ batch).length ≤ 2 ^ top * 2 ^ sub
  moves : Moves node (top + sub) (AppendTouches top sub (leaves.length / 2 ^ sub)
      ((leaves ++ batch).length / 2 ^ sub))
    (fun i => leaves.getD i 0) (fun i => (leaves ++ batch).getD i 0) db.nodes later.nodes

theorem MutableTree.appendSubTrees_appends {db : MutableDb F} {batch : List F}
    (holds : HoldsList node top sub leaves db)
    (low : top + sub ≤ 62) (aligned : 2 ^ sub ∣ batch.length)
    (room : (leaves ++ batch).length ≤ 2 ^ top * 2 ^ sub) :
    ∃ leafCount later, (appendSubTrees node batch true).run db =
        (.ok (levels node (top + sub) (fun i => (leaves ++ batch).getD i 0) 0, leafCount), later) ∧
      Appends node top sub leaves batch db later := by
  obtain ⟨count, isLength, held⟩ := holds
  have positive := Nat.two_pow_pos sub
  have isTotal : (leaves ++ batch).length = (count + batch.length / 2 ^ sub) * 2 ^ sub := by
    rw [length_append, isLength, Nat.add_mul, Nat.div_mul_cancel aligned]
  have isTree := writeAt_list 0 leaves batch
  rw [isLength] at isTree
  rw [isTotal] at room
  obtain ⟨later, ran, after, moves⟩ := appendSubTrees_moves held low aligned rfl
    (Nat.le_of_mul_le_mul_right room positive) isTree.symm
  refine ⟨_, later, ran, ⟨_, isTotal, after⟩, isTotal ▸ room, ?_⟩
  rwa [isTotal, Nat.mul_div_cancel _ positive, isLength, Nat.mul_div_cancel _ positive]

theorem MutableTree.perform_run (low : top + sub ≤ 62) {db : MutableDb F}
    (holds : HoldsList node top sub leaves db) {batch : List F}
    (aligned : 2 ^ sub ∣ batch.length)
    (room : (leaves ++ batch).length ≤ 2 ^ top * 2 ^ sub) :
    ∃ later, (MutableTree.perform node (.appendSubTrees batch)).run db =
        (.ok (levels node (top + sub) (fun i => (leaves ++ batch).getD i 0) 0), later) ∧
      HoldsList node top sub (leaves ++ batch) later := by
  obtain ⟨_, later, ran, appends⟩ := appendSubTrees_appends holds low aligned room
  refine ⟨later, ?_, appends.holds⟩
  rw [perform, bind_ok ran, pure_run]

theorem runs_from (idle : node 0 0 = 0) (low : top + sub ≤ 62) {batches : List (List F)}
    (aligned : ∀ batch ∈ batches, 2 ^ sub ∣ batch.length)
    (room : (leaves ++ batches.flatten).length < 2 ^ top * 2 ^ sub) {appendDb : AppendOnlyDb F}
    (represents : AppendOnlyTree.Represents node top sub leaves appendDb)
    {mutableDb : MutableDb F} (holds : MutableTree.HoldsList node top sub leaves mutableDb) :
    ∃ roots appended mutated, completeRoots node (top + sub) leaves batches = .ok roots ∧
      (batches.mapM (AppendOnlyTree.perform node)).run appendDb = (.ok roots, appended) ∧
      (batches.mapM fun batch => MutableTree.perform node (.appendSubTrees batch)).run mutableDb =
        (.ok roots, mutated) ∧
      AppendOnlyTree.Represents node top sub (leaves ++ batches.flatten) appended := by
  induction batches generalizing leaves appendDb mutableDb with
  | nil =>
    rw [flatten_nil, append_nil]
    exact ⟨[], appendDb, mutableDb, rfl, rfl, rfl, represents⟩
  | cons batch rest ih =>
    rw [flatten_cons, ← append_assoc] at room ⊢
    have alignedBatch := aligned batch mem_cons_self
    have fits : (leaves ++ batch).length < 2 ^ top * 2 ^ sub := by
      rw [length_append] at room
      omega
    obtain ⟨appendedDb, appends, represented⟩ :=
      AppendOnlyTree.perform_run idle low represents alignedBatch fits
    obtain ⟨mutatedDb, mutates, held⟩ := MutableTree.perform_run low holds alignedBatch fits.le
    obtain ⟨roots, appended, mutated, isComplete, isAppended, isMutated, last⟩ :=
      ih (fun other member => aligned other (mem_cons_of_mem _ member)) room represented held
    have complete := completeRoots_cons (show top + sub < 63 by omega)
      (by rw [Nat.pow_add]; exact fits.le) isComplete
    refine ⟨_, appended, mutated, complete, ?_, ?_, last⟩
    · rw [mapM_cons, bind_ok appends, bind_ok isAppended, pure_run]
    · rw [mapM_cons, bind_ok mutates, bind_ok isMutated, pure_run]

end

theorem trees_agree {node : F → F → F} (idle : node 0 0 = 0) {top sub : ℕ}
    (low : top + sub ≤ 62) {batches : List (List F)}
    (aligned : ∀ batch ∈ batches, 2 ^ sub ∣ batch.length)
    (room : batches.flatten.length < 2 ^ top * 2 ^ sub) : ∃ start roots appended mutated,
      AppendOnlyTree.newAppendOnlyTree top sub ⟨none, none⟩ = .ok start ∧
      (batches.mapM (AppendOnlyTree.perform node)).run start = (.ok roots, appended) ∧
      completeRoots node (top + sub) [] batches = .ok roots ∧
      (do MutableTree.newMutableTree top sub
          batches.mapM fun batch => MutableTree.perform node (.appendSubTrees batch)).run .empty =
        (.ok roots, mutated) ∧
      ∀ batch, 2 ^ sub ∣ batch.length → 2 ^ top * 2 ^ sub < batches.flatten.length + batch.length →
        (AppendOnlyTree.perform node batch).run appended = (.error (.returned .treeIsFull), appended) := by
  obtain ⟨start, isStart, represents⟩ :=
    @AppendOnlyTree.represents_new F _ node top sub idle (by omega)
  obtain ⟨mutableDb, isNew, holds⟩ :=
    @MutableTree.holds_new F _ node top sub idle (by omega)
  have held : MutableTree.HoldsList node top sub [] mutableDb :=
    ⟨0, (Nat.zero_mul _).symm, holds⟩
  obtain ⟨roots, appended, mutated, isComplete, isAppended, isMutated, represented⟩ :=
    runs_from idle low aligned room represents held
  refine ⟨start, roots, appended, mutated, isStart, isAppended, isComplete, ?_, ?_⟩
  · rw [bind_ok isNew, isMutated]
  · intro batch isAligned beyond
    have full := AppendOnlyTree.appendSubTrees_full (by omega) represented room.le isAligned
      (by rw [nil_append, length_append]; exact beyond) true
    simp only [AppendOnlyTree.perform, full]

theorem trees_agree_three : ∃ start roots appended, AppendOnlyTree.newAppendOnlyTree 2 0 ⟨none, none⟩ = .ok start ∧
      ([[1, 2], [3]].mapM (AppendOnlyTree.perform toyNode)).run start = (.ok roots, appended) ∧
      completeRoots toyNode 2 [] [[1, 2], [3]] = .ok roots ∧
      (AppendOnlyTree.perform toyNode [4, 5]).run appended = (.error (.returned .treeIsFull), appended) := by
  obtain ⟨start, roots, appended, -, isStart, isAppended, isComplete, -, full⟩ :=
    @trees_agree ℕ _ toyNode rfl 2 0 (by decide) [[1, 2], [3]] (by simp) (by decide)
  exact ⟨start, roots, appended, isStart, isAppended, isComplete, full [4, 5] (by simp) (by decide)⟩

/-- The leaf for the last place of a tree with two. -/
theorem appendOnly_last_panics : ∃ start, AppendOnlyTree.newAppendOnlyTree 1 0 ⟨none, none⟩ = .ok start ∧
      (([[1], [2]].mapM (AppendOnlyTree.perform toyNode)).run start).1 = .error .panicked := by
  exact ⟨_, rfl, rfl⟩

end Nightfall.MerkleTrees
