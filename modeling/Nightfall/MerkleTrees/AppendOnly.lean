import Mathlib.Data.Nat.Factorization.Basic
import Nightfall.MerkleTrees.Helpers

/-! The append-only tree: `new_append_only_tree` and `append_sub_trees`, which keeps the frontier
of complete left subtrees instead of the nodes. -/

namespace Nightfall.MerkleTrees

open Merkle Function List

structure AppendOnlyDb (F : Type) where
  metadata : Option (TreeMetadata F)
  frontier : Option (List F)

namespace AppendOnlyTree

variable {F : Type} [Zero F] (treeHash node : F → F → F)

def newAppendOnlyTree (treeHeight subTreeHeight : ℕ) (db : AppendOnlyDb F) : Except Failure (AppendOnlyDb F) :=
  if 64 ≤ treeHeight ∨ 64 ≤ subTreeHeight then
    .error (.returned (.error "tree_height or sub_tree_height too large to represent safely"))
  else if 64 ≤ treeHeight + subTreeHeight then
    .error (.returned (.error "combined tree height is too large"))
  else if db.metadata.isSome ∨ db.frontier.isSome then .error (.returned .databaseError)
  else .ok ⟨some ⟨treeHeight, subTreeHeight, 0, 0⟩, some (replicate treeHeight 0)⟩

def pathUp (frontier : List F) : ℕ → F → List Directions → Except Failure (List F)
  | _, _, [] => .ok []
  | level, hash, direction :: rest => do
      let hash ← match direction with
        | .hashWithThisNodeOnLeft => do
            let left ← atIndex frontier level
            pure (treeHash left hash)
        | .hashWithThisNodeOnRight => pure (treeHash hash 0)
      let path ← pathUp frontier (level + 1) hash rest
      pure (hash :: path)

structure Progress (F : Type) where
  frontier : List F
  subTreeCount : ℕ
  root : F

def setIndex (frontier : List F) (index : ℕ) (value : F) : Except Failure (List F) :=
  if index < frontier.length then .ok (frontier.set index value) else .error .panicked

def addSubTree (treeHeight subTreeHeight : ℕ) (progress : Progress F) (leafBatch : List F) :
    Except Failure (Progress F) := do
  let subTree ← makeCompleteTree treeHash subTreeHeight leafBatch
  let subTreeRoot ← atIndex subTree 0
  let above ← pathUp treeHash progress.frontier 0 subTreeRoot (indexToDirections progress.subTreeCount treeHeight)
  let path := subTreeRoot :: above
  let index ← getFrontierIndex progress.subTreeCount
  let p ← atIndex path index
  let frontier ← setIndex progress.frontier index p
  pure ⟨frontier, progress.subTreeCount + 1, path.getLastD 0⟩

def appendSubTrees (db : AppendOnlyDb F) (leaves : List F) (updateTree : Bool) :
    Except Failure (F × AppendOnlyDb F) :=
  match db.metadata with
  | none => .error (.returned .treeNotFound)
  | some metadata =>
    match db.frontier with
    | none => .error (.returned .itemNotFound)
    | some frontier => do
      let subTreeCapacity ← okOr (pow2Usize metadata.subTreeHeight)
        "sub_tree_capacity too large to compute capacity safely"
      if leaves.length % subTreeCapacity ≠ 0 then .error (.returned .incorrectBatchSize)
      else if leaves.isEmpty then .ok (metadata.root, db)
      else do
        let newSubTrees := leaves.length / subTreeCapacity
        let capacitySubtrees ← okOr (pow2U64 metadata.treeHeight) "tree_height to large to compute capacity safely"
        if ((checkedAdd metadata.subTreeCount newSubTrees).map
            fun total => decide (capacitySubtrees < total)).getD true then
          .error (.returned .treeIsFull)
        else if frontier.length ≠ metadata.treeHeight then .error (.returned .serializationError)
        else do
          let progress ← (chunks subTreeCapacity leaves).foldlM
            (addSubTree treeHash metadata.treeHeight metadata.subTreeHeight)
            ⟨frontier, metadata.subTreeCount, 0⟩
          let updated : AppendOnlyDb F :=
            ⟨some { metadata with subTreeCount := progress.subTreeCount, root := progress.root },
              some progress.frontier⟩
          pure (progress.root, if updateTree then updated else db)

section

structure Frontal (treeHeight : ℕ) (roots : ℕ → F) (count : ℕ) (frontier : List F) : Prop where
  length : frontier.length = treeHeight
  left : ∀ level < treeHeight, count / 2 ^ level % 2 = 1 →
    frontier[level]? = some (levels node level roots (count / 2 ^ level - 1))
  beyond : ∀ i ≥ count, roots i = 0

variable {node} {top sub count : ℕ} {roots : ℕ → F} {frontier : List F}

theorem frontal_new (top : ℕ) (empty : ∀ i, roots i = 0) : Frontal node top roots 0 (replicate top 0) where
  length := length_replicate
  left := by
    intro level _ odd
    rw [Nat.zero_div] at odd
    omega
  beyond := fun i _ => empty i

variable {level exponent : ℕ} {rest : List Directions} {progress : Progress F} {leafBatch : List F} {updated : ℕ → F}

theorem pathUp_eq (idle : node 0 0 = 0) (frontal : Frontal node top roots count frontier)
    (root : F) {remaining : ℕ} (inside : level + remaining ≤ top) :
    pathUp node frontier level (levels node level (update roots count root) (count / 2 ^ level))
        ((range' level remaining).map fun i =>
          if count >>> i &&& 1 = 0 then .hashWithThisNodeOnRight else .hashWithThisNodeOnLeft) =
      .ok ((range' (level + 1) remaining).map fun i =>
        levels node i (update roots count root) (count / 2 ^ i)) := by
  induction remaining generalizing level with
  | zero => rfl
  | succ remaining ih =>
    have half : count / 2 ^ (level + 1) = count / 2 ^ level / 2 := by
      rw [Nat.pow_succ, Nat.div_div_eq_div_mul]
    have digit : (count >>> level &&& 1) = count / 2 ^ level % 2 := by
      rw [Nat.and_one_is_mod, Nat.shiftRight_eq_div_pow]
    have next := @ih (level + 1) (by omega)
    rw [levels_succ] at next
    rw [range'_succ, range'_succ, map_cons, map_cons, levels_succ, digit]
    by_cases odd : count / 2 ^ level % 2 = 1
    · have isLeft : 2 * (count / 2 ^ (level + 1)) = count / 2 ^ level - 1 := by omega
      have isRight : 2 * (count / 2 ^ (level + 1)) + 1 = count / 2 ^ level := by omega
      have aside : count / 2 ^ level - 1 ≠ count / 2 ^ level := by omega
      rw [isRight, isLeft, levels_update_of_ne node roots root aside] at next ⊢
      rw [if_neg (by omega)]
      simp only [pathUp, atIndex_eq (frontal.left level (by omega) odd), bind, Except.bind, next, pure, Except.pure]
    · have isLeft : 2 * (count / 2 ^ (level + 1)) = count / 2 ^ level := by omega
      have empty : levels node level (update roots count root) (count / 2 ^ level + 1) = 0 := by
        rw [levels_update_of_ne node roots root (by omega)]
        apply levels_empty node idle
        intro j under
        apply frontal.beyond
        by_contra before
        have atMost := Nat.div_le_div_right (c := 2 ^ level) (Nat.le_of_not_ge before)
        omega
      rw [isLeft, empty] at next ⊢
      rw [if_pos (by omega)]
      simp only [pathUp, next, bind, Except.bind, pure, Except.pure]

theorem succ_div_two_pow {half : ℕ} (isCount : count + 1 = 2 ^ exponent * (2 * half + 1)) :
    count / 2 ^ exponent = 2 * half ∧ (count + 1) / 2 ^ exponent = 2 * half + 1 ∧
      (∀ level < exponent, (count + 1) / 2 ^ level % 2 = 0) ∧
      ∀ level > exponent, (count + 1) / 2 ^ level = count / 2 ^ level := by
  have positive := Nat.two_pow_pos exponent
  refine ⟨?_, ?_, ?_, ?_⟩
  · rw [Nat.div_eq_iff positive]
    rw [Nat.mul_add, Nat.mul_one] at isCount
    have commuted := Nat.mul_comm (2 * half) (2 ^ exponent)
    omega
  · rw [isCount, Nat.mul_div_cancel_left _ positive]
  · intro level below
    obtain ⟨more, rfl⟩ : ∃ more, exponent = level + (more + 1) := ⟨exponent - level - 1, by omega⟩
    rw [isCount, Nat.pow_add, Nat.mul_assoc, Nat.mul_div_cancel_left _ (Nat.two_pow_pos level),
      Nat.pow_succ', Nat.mul_assoc, Nat.mul_mod_right]
  · intro level above
    have notThere : ¬2 ^ level ∣ count + 1 := by
      rintro ⟨quotient, isQuotient⟩
      obtain ⟨more, rfl⟩ : ∃ more, level = exponent + (more + 1) := ⟨level - exponent - 1, by omega⟩
      rw [isCount, Nat.pow_add, Nat.mul_assoc] at isQuotient
      have odd := Nat.eq_of_mul_eq_mul_left positive isQuotient
      rw [Nat.pow_succ', Nat.mul_assoc] at odd
      omega
    rw [Nat.succ_div, if_neg notThere, Nat.add_zero]

theorem Frontal.update (frontal : Frontal node top roots count frontier) (root : F)
    {half : ℕ} (isCount : count + 1 = 2 ^ exponent * (2 * half + 1)) :
    Frontal node top (update roots count root) (count + 1) (frontier.set exponent
        (levels node exponent (update roots count root) (count / 2 ^ exponent))) where
  length := by rw [length_set, frontal.length]
  left := by
    obtain ⟨before, after, below, above⟩ := succ_div_two_pow isCount
    intro level inside odd
    rcases Nat.lt_trichotomy level exponent with lower | rfl | higher
    · have even := below level lower
      omega
    · rw [getElem?_set_self (by rw [frontal.length]; exact inside), before, after, Nat.add_sub_cancel]
    · rw [above level higher] at odd ⊢
      rw [getElem?_set_ne (by omega), frontal.left level inside odd, levels_update_of_ne node roots root (by omega)]
  beyond := by
    intro i behind
    rw [update_of_ne (by omega)]
    exact frontal.beyond i (by omega)

theorem addSubTree_eq (idle : node 0 0 = 0)
    (frontal : Frontal node top roots progress.subTreeCount progress.frontier)
    (small : sub < 63) (fits : leafBatch.length ≤ 2 ^ sub)
    (isUpdated : updated = update roots progress.subTreeCount (levels node sub (fun i => leafBatch.getD i 0) 0))
    {half : ℕ} (isCount : progress.subTreeCount + 1 = 2 ^ exponent * (2 * half + 1))
    (inside : exponent ≤ top) (narrow : exponent < 63) :
    addSubTree node top sub progress leafBatch = (setIndex progress.frontier exponent
        (levels node exponent updated (progress.subTreeCount / 2 ^ exponent))).map fun frontier =>
          ⟨frontier, progress.subTreeCount + 1, levels node top updated (progress.subTreeCount / 2 ^ top)⟩ := by
  obtain ⟨tree, isTree, nodes⟩ := @makeCompleteTree_eq F _ node _ leafBatch small fits
  have atCount : levels node 0 updated (progress.subTreeCount / 2 ^ 0) =
      levels node sub (fun i => leafBatch.getD i 0) 0 := by
    rw [Nat.pow_zero, Nat.div_one, isUpdated, levels, update_self]
  have isFirst : tree[0]? = some (levels node 0 updated (progress.subTreeCount / 2 ^ 0)) := by
    rw [atCount]
    exact nodes 0 (Nat.zero_le _) 0 Nat.one_pos
  have above : pathUp node progress.frontier 0 (levels node 0 updated (progress.subTreeCount / 2 ^ 0))
      (indexToDirections progress.subTreeCount top) = .ok ((range' 1 top).map fun i =>
          levels node i updated (progress.subTreeCount / 2 ^ i)) := by
    rw [indexToDirections, range_eq_range', isUpdated]
    exact pathUp_eq idle frontal _ (by omega)
  have isPath : levels node 0 updated (progress.subTreeCount / 2 ^ 0) :: (range' 1 top).map (fun i =>
        levels node i updated (progress.subTreeCount / 2 ^ i)) =
      (range (top + 1)).map fun i =>
        levels node i updated (progress.subTreeCount / 2 ^ i) := by
    rw [range_eq_range', range'_succ, map_cons]
  have atExponent : ((range (top + 1)).map fun i =>
      levels node i updated (progress.subTreeCount / 2 ^ i))[exponent]? =
        some (levels node exponent updated (progress.subTreeCount / 2 ^ exponent)) := by
    rw [getElem?_map, getElem?_range (by omega), Option.map_some]
  have isLast : ((range (top + 1)).map fun i =>
      levels node i updated (progress.subTreeCount / 2 ^ i)).getLastD 0 =
        levels node top updated (progress.subTreeCount / 2 ^ top) := by
    rw [range_succ, map_append, map_singleton, getLastD_concat]
  rw [addSubTree, isTree]
  simp only [bind, Except.bind, atIndex_eq isFirst, above, getFrontierIndex_eq isCount narrow, isPath,
    atIndex_eq atExponent, isLast]
  rfl

omit [Zero F] in
theorem setIndex_inside {index : ℕ} (value : F) (inside : index < frontier.length) :
    setIndex frontier index value = .ok (frontier.set index value) :=
  if_pos inside

theorem addSubTree_keeps (idle : node 0 0 = 0)
    (frontal : Frontal node top roots progress.subTreeCount progress.frontier)
    (small : sub < 63) (fits : leafBatch.length ≤ 2 ^ sub)
    (narrow : top < 64) (room : progress.subTreeCount + 1 < 2 ^ top)
    (isUpdated : updated = update roots progress.subTreeCount (levels node sub (fun i => leafBatch.getD i 0) 0)) :
    ∃ frontier, addSubTree node top sub progress leafBatch =
        .ok ⟨frontier, progress.subTreeCount + 1, levels node top updated 0⟩ ∧
      Frontal node top updated (progress.subTreeCount + 1) frontier := by
  obtain ⟨exponent, half, odd, isCount⟩ := Nat.exists_eq_two_pow_mul_odd (Nat.succ_ne_zero progress.subTreeCount)
  obtain ⟨half, rfl⟩ := odd
  have below : exponent < top := by
    by_contra above
    have wider := Nat.pow_le_pow_right Nat.two_pos (Nat.le_of_not_lt above)
    have atMost : 2 ^ exponent ≤ 2 ^ exponent * (2 * half + 1) :=
      Nat.le_mul_of_pos_right _ (Nat.succ_pos _)
    omega
  have updates := frontal.update (levels node sub (fun i => leafBatch.getD i 0) 0) isCount
  rw [← isUpdated] at updates
  refine ⟨_, ?_, updates⟩
  rw [addSubTree_eq idle frontal small fits isUpdated isCount below.le (by omega),
    setIndex_inside _ (by rw [frontal.length]; exact below), Nat.div_eq_of_lt (by omega)]
  rfl

end

section

structure Represents (top sub : ℕ) (leaves : List F) (db : AppendOnlyDb F) : Prop where
  stored : ∃ count frontier, db = ⟨some ⟨top, sub, count,
        levels node (sub + top) (fun i => leaves.getD i 0) 0⟩, some frontier⟩ ∧
      leaves.length = count * 2 ^ sub ∧
      Frontal node top (levels node sub fun i => leaves.getD i 0) count frontier

structure Adding (top sub : ℕ) (start leaves : List F) (progress : Progress F) : Prop where
  counted : leaves.length = progress.subTreeCount * 2 ^ sub
  frontal : Frontal node top (levels node sub fun i => leaves.getD i 0) progress.subTreeCount progress.frontier
  root : leaves ≠ start → progress.root = levels node (sub + top) (fun i => leaves.getD i 0) 0

variable {node} {top sub : ℕ} {leaves batch : List F} {db : AppendOnlyDb F}

theorem represents_new (idle : node 0 0 = 0) (fits : top + sub < 64) :
    ∃ db, newAppendOnlyTree top sub (⟨none, none⟩ : AppendOnlyDb F) = .ok db ∧ Represents node top sub [] db := by
  have empty (height i : ℕ) : levels node height (fun i => ([] : List F).getD i 0) i = 0 :=
    levels_empty node idle fun _ _ => rfl
  refine ⟨⟨some ⟨top, sub, 0, 0⟩, some (replicate top 0)⟩, ?_, ?_⟩
  · rw [newAppendOnlyTree, if_neg (by omega), if_neg (by omega), if_neg (by simp)]
  · refine ⟨0, replicate top 0, ?_, ?_, ?_⟩
    · rw [empty]
    · rw [Nat.zero_mul, length_nil]
    · exact frontal_new top (empty sub)

theorem levels_append {count : ℕ} (isLength : leaves.length = count * 2 ^ sub) (isBatch : batch.length = 2 ^ sub) :
    levels node sub (fun i => (leaves ++ batch).getD i 0) = update (levels node sub fun i => leaves.getD i 0) count
        (levels node sub (fun i => batch.getD i 0) 0) := by
  rw [← replaceBlock_append 0 isLength isBatch, levels_replaceBlock]

theorem Adding.step (idle : node 0 0 = 0) (small : sub < 63) (narrow : top < 64) {start : List F}
    {progress : Progress F} (adding : Adding node top sub start leaves progress)
    (isBatch : batch.length = 2 ^ sub)
    (room : (leaves ++ batch).length < 2 ^ top * 2 ^ sub) :
    ∃ next, addSubTree node top sub progress batch = .ok next ∧
      Adding node top sub start (leaves ++ batch) next := by
  have isLength : (leaves ++ batch).length = (progress.subTreeCount + 1) * 2 ^ sub := by
    rw [length_append, adding.counted, isBatch, Nat.succ_mul]
  rw [isLength] at room
  obtain ⟨frontier, isNext, frontal⟩ := addSubTree_keeps idle adding.frontal small isBatch.le narrow
    (Nat.lt_of_mul_lt_mul_right room) (levels_append adding.counted isBatch)
  refine ⟨_, isNext, isLength, frontal, ?_⟩
  intro _
  rw [levels_add]

theorem appendSubTrees_nil (small : sub < 64) (represents : Represents node top sub leaves db) (updateTree : Bool) :
    appendSubTrees node db [] updateTree = .ok (levels node (sub + top) (fun i => leaves.getD i 0) 0, db) := by
  obtain ⟨count, frontier, rfl, isLength, frontal⟩ := represents.stored
  simp only [appendSubTrees, pow2Usize_eq small, okOr, bind, Except.bind]
  rw [if_neg (by simp), if_pos (by rfl)]

theorem appendSubTrees_cons {metadata : TreeMetadata F} {frontier : List F} (small : metadata.subTreeHeight < 64)
    (narrow : metadata.treeHeight < 64) (aligned : 2 ^ metadata.subTreeHeight ∣ batch.length) (nonempty : batch ≠ [])
    (room : metadata.subTreeCount + batch.length / 2 ^ metadata.subTreeHeight ≤ 2 ^ metadata.treeHeight)
    (isLength : frontier.length = metadata.treeHeight) (updateTree : Bool) :
    appendSubTrees node ⟨some metadata, some frontier⟩ batch updateTree =
      ((chunks (2 ^ metadata.subTreeHeight) batch).foldlM
        (addSubTree node metadata.treeHeight metadata.subTreeHeight)
        ⟨frontier, metadata.subTreeCount, 0⟩).map fun progress =>
          (progress.root, if updateTree then
            ⟨some { metadata with subTreeCount := progress.subTreeCount, root := progress.root },
              some progress.frontier⟩
          else ⟨some metadata, some frontier⟩) := by
  have wide := Nat.pow_lt_pow_right Nat.one_lt_two narrow
  have total : checkedAdd metadata.subTreeCount (batch.length / 2 ^ metadata.subTreeHeight) =
      some (metadata.subTreeCount + batch.length / 2 ^ metadata.subTreeHeight) := if_pos (by omega)
  simp only [appendSubTrees, pow2Usize_eq small, pow2U64_eq narrow, okOr, bind, Except.bind, total]
  rw [if_neg (by simp [Nat.mod_eq_zero_of_dvd aligned]), if_neg (by simpa using nonempty),
    if_neg (by simpa using room), if_neg (by simp [isLength])]
  rfl

theorem appendSubTrees_full (fits : top + sub < 64) (represents : Represents node top sub leaves db)
    (within : leaves.length ≤ 2 ^ top * 2 ^ sub) (aligned : 2 ^ sub ∣ batch.length)
    (beyond : 2 ^ top * 2 ^ sub < (leaves ++ batch).length) (updateTree : Bool) :
    appendSubTrees node db batch updateTree = .error (.returned .treeIsFull) := by
  obtain ⟨count, frontier, rfl, isLength, frontal⟩ := represents.stored
  obtain ⟨blocks, isBlocks⟩ := aligned
  have nonempty : batch ≠ [] := by
    rintro rfl
    rw [append_nil] at beyond
    omega
  have positive := Nat.two_pow_pos sub
  have more : 2 ^ top < count + blocks := by
    rw [length_append, isLength, isBlocks, Nat.mul_comm _ blocks, ← Nat.add_mul] at beyond
    exact Nat.lt_of_mul_lt_mul_right beyond
  have isCount : batch.length / 2 ^ sub = blocks := by
    rw [isBlocks, Nat.mul_div_cancel_left _ positive]
  have isFull : ((checkedAdd count blocks).map fun total => decide (2 ^ top < total)).getD true := by
    rw [checkedAdd]
    split
    · simpa using more
    · rfl
  simp only [appendSubTrees, pow2Usize_eq (show sub < 64 by omega),
    pow2U64_eq (show top < 64 by omega), okOr, bind, Except.bind, isCount]
  rw [if_neg (by simp [isBlocks]), if_neg (by simpa using nonempty), if_pos isFull]

theorem appendSubTrees_ok (idle : node 0 0 = 0) (fits : top + sub < 63)
    (represents : Represents node top sub leaves db) (aligned : 2 ^ sub ∣ batch.length)
    (room : (leaves ++ batch).length < 2 ^ top * 2 ^ sub) :
    ∃ next, appendSubTrees node db batch true = .ok
        (levels node (sub + top) (fun i => (leaves ++ batch).getD i 0) 0, next) ∧
      Represents node top sub (leaves ++ batch) next := by
  by_cases empty : batch = []
  · subst empty
    rw [append_nil]
    exact ⟨db, appendSubTrees_nil (by omega) represents true, represents⟩
  · obtain ⟨count, frontier, rfl, isLength, frontal⟩ := represents.stored
    have start : Adding node top sub leaves leaves ⟨frontier, count, 0⟩ :=
      ⟨isLength, frontal, fun other => absurd rfl other⟩
    obtain ⟨progress, isProgress, added⟩ := foldlM_chunks (Nat.two_pow_pos sub)
      (fun _ _ _ adding isBatch inside => adding.step idle (by omega) (by omega) isBatch inside)
      start aligned room
    have isRoot := added.root (by simpa using empty)
    have within : count + batch.length / 2 ^ sub ≤ 2 ^ top := by
      rw [length_append, isLength, ← Nat.div_mul_cancel aligned, ← Nat.add_mul] at room
      exact (Nat.lt_of_mul_lt_mul_right room).le
    refine ⟨⟨some ⟨top, sub, progress.subTreeCount, progress.root⟩, some progress.frontier⟩, ?_, ?_⟩
    · rw [appendSubTrees_cons (by dsimp only; omega) (by dsimp only; omega) aligned empty within
        frontal.length true, isProgress, ← isRoot]
      rfl
    · exact ⟨progress.subTreeCount, progress.frontier, by rw [isRoot], added.counted, added.frontal⟩

end

end AppendOnlyTree

theorem makeCompleteTree_heaped {F : Type} [Zero F] {node : F → F → F} {height : ℕ} {leaves : List F}
    (full : leaves.length = 2 ^ height) (small : height < 63) :
    ∃ tree, makeCompleteTree node height leaves = .ok tree ∧ tree.length = 2 ^ (height + 1) - 1 ∧
      (∀ i < 2 ^ height - 1, ∃ left right, tree[2 * i + 1]? = some left ∧ tree[2 * i + 2]? = some right ∧
        tree[i]? = some (node left right)) ∧ tree.drop (2 ^ height - 1) = leaves := by
  have positive := Nat.two_pow_pos height
  have double := Nat.pow_succ 2 height
  obtain ⟨bottom, hashed⟩ :=
    @hashPairs_hashed F node height (leafNodes height leaves) _ (le_refl (2 ^ height - 1))
  refine ⟨_, if_neg (by omega), by simp, fun i inner => ?_, ext_getElem? fun i => ?_⟩
  · rw [getElem?_map, getElem?_map, getElem?_map, getElem?_range (by omega), getElem?_range (by omega),
      getElem?_range (by omega)]
    exact ⟨_, _, rfl, rfl, congrArg some (hashed i (by omega) inner)⟩
  · rw [getElem?_drop, getElem?_map]
    by_cases inside : i < 2 ^ height
    · rw [getElem?_range (by omega), Option.map_some, bottom _ (by omega), leafNodes, if_pos (by omega),
        List.getD_eq_getElem?_getD, show 2 ^ height - 1 + i - (2 ^ (height + 1) - 1 - 2 ^ height) = i by omega,
        getElem?_eq_getElem (by omega), Option.getD_some]
    · rw [getElem?_eq_none (by simp; omega), getElem?_eq_none (by omega), Option.map_none]

/-- The complete tree over as many leaves as it has room for, and the frontier index of every position a
`usize` can hold. -/
theorem completeTree_and_frontierIndex {F : Type} [Zero F] (node : F → F → F) :
    (∀ (height : ℕ) (leaves : List F), leaves.length = 2 ^ height → leaves.length < 2 ^ 63 →
      ∃ tree, makeCompleteTree node height leaves = .ok tree ∧ tree.length = 2 ^ (height + 1) - 1 ∧
        (∀ i < 2 ^ height - 1, ∃ left right, tree[2 * i + 1]? = some left ∧ tree[2 * i + 2]? = some right ∧
          tree[i]? = some (node left right)) ∧ tree.drop (2 ^ height - 1) = leaves) ∧
      ∀ i < 2 ^ 64, (getFrontierIndex i = .error .panicked ∧ (i = 2 ^ 63 - 1 ∨ i = 2 ^ 64 - 1)) ∨
        i ≠ 2 ^ 63 - 1 ∧ i ≠ 2 ^ 64 - 1 ∧ ∃ level, getFrontierIndex i = .ok level ∧
          2 ^ level ∣ i + 1 ∧ ∀ other, 2 ^ other ∣ i + 1 → other ≤ level := by
  refine ⟨fun height leaves full slice => makeCompleteTree_heaped full ?_, fun i word => ?_⟩
  · rw [full] at slice
    exact (Nat.pow_lt_pow_iff_right (by decide)).mp slice
  · by_cases high : i = 2 ^ 63 - 1 ∨ i = 2 ^ 64 - 1
    · refine Or.inl ⟨?_, high⟩
      rcases high with rfl | rfl <;> rfl
    · rw [not_or] at high
      obtain ⟨level, odd, ⟨half, rfl⟩, isIndex⟩ := Nat.exists_eq_two_pow_mul_odd (Nat.succ_ne_zero i)
      refine Or.inr ⟨high.1, high.2, level, getFrontierIndex_eq isIndex ?_, ⟨_, isIndex⟩, fun other divides => ?_⟩
      · by_contra wide
        obtain ⟨more, rfl⟩ : ∃ more, level = 63 + more := ⟨level - 63, by omega⟩
        rw [Nat.pow_add, Nat.mul_assoc, Nat.succ_eq_add_one] at isIndex
        have some := Nat.mul_pos (Nat.two_pow_pos more) (Nat.succ_pos (2 * half))
        omega
      · by_contra deeper
        rw [Nat.succ_eq_add_one] at isIndex
        have twice := (Nat.pow_dvd_pow 2 (Nat.lt_of_not_le deeper)).trans divides
        rw [isIndex, Nat.pow_succ] at twice
        have even := Nat.dvd_of_mul_dvd_mul_left (Nat.two_pow_pos level) twice
        omega

theorem getFrontierIndex_overflows : getFrontierIndex (2 ^ 63 - 1) = .error .panicked ∧ 2 ^ 63 ∣ 2 ^ 63 - 1 + 1 :=
  ⟨rfl, by decide⟩

end Nightfall.MerkleTrees
