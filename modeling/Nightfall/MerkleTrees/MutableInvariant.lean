import Nightfall.MerkleTrees.MutableNodes

/-! The mutable tree over whole runs: after any operations that update the tree, the stored nodes
are those of the tree over its leaves. -/

namespace Nightfall.MerkleTrees.MutableTree

open Merkle Store Store.Program Option

variable {F : Type} [Zero F] {node : F → F → F}

section

variable {depth rise block : ℕ} {batch leaves : ℕ → F} {db : MutableDb F}
variable {k : ℕ} {updateTree : Bool} {after : ℕ → Option F}

omit [Zero F] in
theorem heap_replaceBlock_untouched (within : k < 2 ^ (depth + rise + 1) - 1)
    (untouched : ¬Touches depth block rise k) :
    heap node (depth + rise) (replaceBlock rise block batch leaves) k = heap node (depth + rise) leaves k := by
  obtain ⟨d, j, inside, rfl⟩ := exists_slot k
  have under := depth_lt_of_slot_lt within
  rw [heap_slot inside, heap_slot inside]
  by_cases above : d ≤ depth
  · apply levels_replaceBlock_aside above
    rintro rfl
    exact untouched (Or.inl ⟨d, above, rfl⟩)
  · obtain ⟨r, rfl⟩ : ∃ r, d = depth + r := ⟨d - depth, by omega⟩
    have distance : depth + rise - (depth + r) = rise - r := by omega
    rw [distance]
    apply levels_replaceBlock_beside (by omega)
    rintro rfl
    refine untouched (Or.inr ⟨r, by omega, j % 2 ^ r, Nat.mod_lt _ (Nat.two_pow_pos r), ?_⟩)
    rw [Nat.div_add_mod']

theorem offPath_replaceBlock (heaped : Heaped node (depth + rise) (lookup db) leaves) :
    OffPath node (depth + rise) (replaceBlock rise block batch leaves) db depth block := by
  intro d under j inside aside
  rw [heaped d (by omega) j inside, levels_replaceBlock_aside under aside]

theorem lookup_inside {value : F} (readable : updateTree = true → db.cache k = none ∨ db.cache k = some value)
    (isValue : after k = some value) : lookup (withTarget updateTree db after) k = value := by
  cases updateTree with
  | false => simp [lookup, withTarget, isValue]
  | true => rcases readable rfl with none | same <;> simp [lookup, withTarget, *]

theorem lookup_outside
    (same : after k = target updateTree db k) : lookup (withTarget updateTree db after) k = lookup db k := by
  cases updateTree <;> simp_all [lookup, withTarget, target]

theorem heaped_written (readable : updateTree = true → ∀ k, Touches depth block rise k → db.cache k = none ∨
      db.cache k = some (heap node (depth + rise) (replaceBlock rise block batch leaves) k))
    (heaped : Heaped node (depth + rise) (lookup db) leaves)
    (written : Written (Touches depth block rise) (heap node (depth + rise) (replaceBlock rise block batch leaves))
      (target updateTree db) after) :
    Heaped node (depth + rise) (lookup (withTarget updateTree db after))
      (replaceBlock rise block batch leaves) := by
  rw [heaped_iff] at heaped ⊢
  intro k within
  by_cases touched : Touches depth block rise k
  · exact lookup_inside (fun updates => readable updates k touched) (written.inside k touched)
  · rw [lookup_outside (written.outside k touched), heaped k within, heap_replaceBlock_untouched within touched]

theorem hookSubTree_block (updateTree : Bool) (low : depth + rise ≤ 62) (inside : block < 2 ^ depth)
    {values : List F} (fits : values.length ≤ 2 ^ rise) {tree : ℕ → F}
    (isBlock : replaceBlock rise block (fun i => values.getD i 0) tree = tree)
    (offPath : OffPath node (depth + rise) tree db depth block) :
    ∃ subTree after, makeCompleteTree node rise values = .ok subTree ∧
      (hookSubTree node updateTree (slot depth block) depth rise subTree).run db =
        (.ok (levels node (depth + rise) tree 0), withTarget updateTree db after) ∧
      Written (Touches depth block rise) (heap node (depth + rise) tree) (target updateTree db) after := by
  obtain ⟨subTree, isTree, nodes⟩ := @makeCompleteTree_eq F _ node _ values (by omega) fits
  have isNode : ∀ r ≤ rise, ∀ t < 2 ^ r, subTree[slot r t]? =
      some (levels node (depth + rise - (depth + r)) tree (block * 2 ^ r + t)) := by
    intro r under t within
    have distance : depth + rise - (depth + r) = rise - r := by omega
    have width : rise - (rise - r) = r := by omega
    have inBlock := @levels_replaceBlock_inside F node (fun i => values.getD i 0) tree rise block
      (rise - r) t (by omega) (by rwa [width])
    rw [isBlock, width] at inBlock
    rw [nodes r under t within, distance, inBlock]
  obtain ⟨after, ran, written⟩ := hookSubTree_run updateTree low (le_refl _) inside isNode offPath
  exact ⟨subTree, after, isTree, ran, written⟩

end

section

variable {top sub count : ℕ} {root : F} {trees : List F → ℕ → F} {updateTree : Bool}
  {start db : MutableDb F} (low : top + sub ≤ 62)

include low in
theorem appendSubTree_run (updateTree : Bool) {appended : Appended F}
    (inside : appended.subTreeCount < 2 ^ top) {leafBatch : List F}
    (fits : leafBatch.length ≤ 2 ^ sub) {tree : ℕ → F}
    (isBlock : replaceBlock sub appended.subTreeCount (fun i => leafBatch.getD i 0) tree = tree)
    (offPath : OffPath node (top + sub) tree db top appended.subTreeCount) :
    ∃ after, (appendSubTree node updateTree ⟨top, sub, count, root⟩ (2 ^ top - 1)
        appended leafBatch).run db = (.ok ⟨levels node (top + sub) tree 0,
          appended.subTreeCount + 1⟩, withTarget updateTree db after) ∧
      Written (Touches top appended.subTreeCount sub)
        (heap node (top + sub) tree) (target updateTree db) after := by
  obtain ⟨subTree, after, isTree, ran, written⟩ :=
    hookSubTree_block updateTree low inside fits isBlock offPath
  have wide := Nat.pow_lt_pow_right Nat.one_lt_two (show top < 63 by omega)
  refine ⟨after, ?_, written⟩
  rw [slot] at ran
  rw [appendSubTree, lift_bind isTree, lift_okOr (checkedAdd_eq (by omega)), bind_ok ran,
    lift_okOr (checkedAdd_eq (by omega)), pure_run]

def AppendTouches (top sub first last k : ℕ) : Prop :=
  ∃ count, first ≤ count ∧ count < last ∧ Touches top count sub k

theorem appendTouches_none {k : ℕ} : ¬AppendTouches top sub count count k := by
  rintro ⟨other, atLeast, below, _⟩
  omega

theorem appendTouches_succ {first last k : ℕ} (ordered : first ≤ last) : AppendTouches top sub first (last + 1) k ↔
      AppendTouches top sub first last k ∨ Touches top last sub k := by
  constructor
  · rintro ⟨count, atLeast, below, touched⟩
    by_cases isLast : count = last
    · exact Or.inr (isLast ▸ touched)
    · exact Or.inl ⟨count, atLeast, by omega, touched⟩
  · rintro (⟨count, atLeast, below, touched⟩ | touched)
    · exact ⟨count, atLeast, by omega, touched⟩
    · exact ⟨last, ordered, by omega, touched⟩

variable (node top sub count trees updateTree start) in
/-- An append on the way, where `trees` is the tree read once some of its leaves are in: it holds these leaves
only, unless the cache has the others already. -/
structure Appending (values : List F) (appended : Appended F) (db : MutableDb F) : Prop where
  counted : count * 2 ^ sub + values.length = appended.subTreeCount * 2 ^ sub
  heaped : Heaped node (top + sub) (lookup db) (trees values)
  written : ∃ after, db = withTarget updateTree start after ∧
    Written (AppendTouches top sub count appended.subTreeCount)
      (heap node (top + sub) (trees values)) (target updateTree start) after
  hash : values ≠ [] → appended.hash = levels node (top + sub) (trees values) 0

theorem appending_nil (heaped : Heaped node (top + sub) (lookup start) (trees [])) :
    Appending node top sub count trees updateTree start [] ⟨0, count⟩ start where
  counted := rfl
  heaped := heaped
  written := by
    refine ⟨target updateTree start, (withTarget_target _ _).symm, ?_⟩
    apply (Written.none _ _).congr
    intro k
    exact ⟨False.elim, appendTouches_none⟩
  hash := fun other => absurd rfl other

include low

theorem Appending.step {values batch : List F} {appended : Appended F}
    (appending : Appending node top sub count trees updateTree start values appended db)
    (readable : updateTree = true → ∀ k, Touches top appended.subTreeCount sub k → start.cache k = none ∨
        start.cache k = some (heap node (top + sub) (trees (values ++ batch)) k))
    (isBatch : batch.length = 2 ^ sub) (inside : appended.subTreeCount < 2 ^ top)
    (isTree : trees (values ++ batch) =
      replaceBlock sub appended.subTreeCount (fun i => batch.getD i 0) (trees values)) :
    ∃ next later, (appendSubTree node updateTree ⟨top, sub, count, root⟩ (2 ^ top - 1)
        appended batch).run db = (.ok next, later) ∧
      Appending node top sub count trees updateTree start (values ++ batch) next later := by
  obtain ⟨before, isStart, first⟩ := appending.written
  have unread : updateTree = true → db.cache = start.cache := by
    rintro rfl
    rw [isStart]
    rfl
  obtain ⟨after, ran, second⟩ := @appendSubTree_run F _ node _ _ count root db low updateTree appended inside
    batch isBatch.le _ replaceBlock_replaceBlock (offPath_replaceBlock appending.heaped)
  refine ⟨_, _, ran, ?_, ?_, ?_, ?_⟩
  · rw [List.length_append, isBatch, ← Nat.add_assoc, appending.counted, Nat.succ_mul]
  · rw [isTree] at readable ⊢
    exact heaped_written (fun updates => unread updates ▸ readable updates) appending.heaped second
  · refine ⟨after, ?_, ?_⟩
    · rw [isStart, withTarget_withTarget]
    · rw [isTree]
      rw [isStart, target_withTarget] at second
      refine (first.trans second ?_).congr ?_
      · rintro k ⟨count, atLeast, below, touched⟩ untouched
        exact (heap_replaceBlock_untouched (touched.lt (by omega)) untouched).symm
      · intro k
        have ordered : count ≤ appended.subTreeCount := by
          apply Nat.le_of_mul_le_mul_right _ (Nat.two_pow_pos sub)
          rw [← appending.counted]
          exact Nat.le_add_right _ _
        rw [appendTouches_succ ordered]
  · intro _
    rw [isTree]

theorem foldlM_appendSubTree {batch : List F} (aligned : 2 ^ sub ∣ batch.length)
    (room : count * 2 ^ sub + batch.length ≤ 2 ^ top * 2 ^ sub)
    (heaped : Heaped node (top + sub) (lookup start) (trees []))
    (readable : updateTree = true → ∀ values k, k < 2 ^ (top + sub + 1) - 1 →
      start.cache k = none ∨ start.cache k = some (heap node (top + sub) (trees values) k))
    (grows : ∀ values part rest, values ++ part ++ rest = batch → trees (values ++ part) =
      writeAt 0 (count * 2 ^ sub + values.length) part (trees values)) :
    ∃ appended later, ((chunks (2 ^ sub) batch).foldlM
        (appendSubTree node updateTree ⟨top, sub, count, root⟩ (2 ^ top - 1))
        ⟨0, count⟩).run start = (.ok appended, later) ∧
      Appending node top sub count trees updateTree start batch appended later := by
  refine foldlM_chunks_run (Nat.two_pow_pos _) ?_ (appending_nil heaped) aligned rfl
  rintro values appended db part appending isPart ⟨rest, isBatch⟩
  have isLength := congrArg List.length isBatch
  have counted := appending.counted
  have positive := Nat.two_pow_pos sub
  rw [List.length_append, List.length_append, isPart] at isLength
  have inside : appended.subTreeCount < 2 ^ top :=
    Nat.lt_of_mul_lt_mul_right (show appended.subTreeCount * 2 ^ sub < 2 ^ top * 2 ^ sub by
      omega)
  refine appending.step low (fun updates k touched => readable updates _ k (touched.lt inside)) isPart inside ?_
  rw [grows values part rest isBatch, counted, writeAt_block 0 isPart]

end

section

variable {top sub count : ℕ} {leaves : ℕ → F} {db : MutableDb F}

variable (node) in
structure Holds (top sub count : ℕ) (leaves : ℕ → F) (db : MutableDb F) : Prop where
  metadata : db.metadata = some ⟨top, sub, count, levels node (top + sub) leaves 0⟩
  uncached : ∀ k, db.cache k = none
  heaped : Heaped node (top + sub) (lookup db) leaves

theorem holds_new (idle : node 0 0 = 0) (fits : top + sub < 64) :
    ∃ db, (newMutableTree top sub).run (MutableDb.empty : MutableDb F) = (.ok (), db) ∧
      Holds node top sub 0 (fun _ => 0) db := by
  have empty (height i : ℕ) : levels node height (fun _ => 0) i = 0 :=
    levels_empty node idle fun _ _ => rfl
  refine ⟨⟨some ⟨top, sub, 0, 0⟩, fun _ => none, fun _ => none⟩, ?_, ?_, ?_, ?_⟩
  · rw [newMutableTree, if_neg (by omega), if_neg (by omega)]
    rfl
  · rw [empty]
  · exact fun _ => rfl
  · intro depth _ i _
    rw [empty]
    rfl

omit [Zero F] in
theorem getMetadata_run {metadata : TreeMetadata F} (isMetadata : db.metadata = some metadata) :
    getMetadata.run db = (.ok metadata, db) := by
  rw [getMetadata, reads_run, isMetadata]

omit [Zero F] in
theorem getRoot_eq_ok {root : F} {after : MutableDb F} :
    getRoot.run db = (.ok root, after) ↔ db.metadata.map TreeMetadata.root = some root ∧ after = db := by
  cases isMetadata : db.metadata <;>
    simp [-bind_pure_comp, getRoot, getMetadata, bind_eq_ok, isMetadata, @eq_comm _ after, and_comm]

omit [Zero F] in
theorem flushCache_uncached (uncached : ∀ k, db.cache k = none) : flushCache.run db = (.ok (), db) := by
  have none : db.cache = fun _ => none := funext uncached
  rw [flushCache, writes_run]
  cases db
  simp_all

omit [Zero F] in
theorem storeMetadata_uncached (uncached : ∀ k, db.cache k = none) (metadata : TreeMetadata F) :
    (storeMetadata metadata).run db = (.ok (), { db with metadata := some metadata }) := by
  exact flushCache_uncached uncached

omit [Zero F] in
theorem checkedAddU32_eq {a b : ℕ} (small : a + b < 2 ^ 32) : checkedAddU32 a b = some (a + b) :=
  if_pos small

theorem makeCompleteTree_single (leaf : F) : makeCompleteTree node 0 [leaf] = .ok [leaf] := rfl

theorem aligned_room {length : ℕ} (aligned : 2 ^ sub ∣ length) (room : count + length / 2 ^ sub ≤ 2 ^ top) :
    count * 2 ^ sub + length ≤ 2 ^ top * 2 ^ sub := by
  rw [← Nat.div_mul_cancel aligned, ← Nat.add_mul]
  exact Nat.mul_le_mul_right _ room

theorem aligned_total {length total : ℕ} (aligned : 2 ^ sub ∣ length)
    (counted : count * 2 ^ sub + length = total * 2 ^ sub) :
    total = count + length / 2 ^ sub := by
  apply Nat.eq_of_mul_eq_mul_right (Nat.two_pow_pos sub)
  rw [← counted, Nat.add_mul, Nat.div_mul_cancel aligned]

theorem nextPowerOfTwo_two_pow (exponent : ℕ) : nextPowerOfTwo (2 ^ exponent) = 2 ^ exponent := by
  rw [nextPowerOfTwo, Nat.clog_pow _ _ (by decide)]

theorem firstLeafIndex_eq {height : ℕ} (low : height < 64) : firstLeafIndex height = .ok (2 ^ height - 1) := by
  rw [firstLeafIndex, pow2U64_pred low]
  rfl

theorem lastLeafIndex_eq {height : ℕ} (low : height < 63) :
    ((pow2U64 (height + 1)).bind fun v => checkedSub v 2) = some (2 ^ (height + 1) - 2) := by
  have positive := Nat.two_pow_pos height
  rw [pow2U64_eq (by omega), bind_some, checkedSub, if_pos (by omega)]

end

section

variable {top sub count : ℕ} {root : F} {db : MutableDb F} {updateTree : Bool} {batch : List F}
  (isMetadata : db.metadata = some ⟨top, sub, count, root⟩)
include isMetadata

theorem appendSubTrees_misaligned (small : sub < 64) (misaligned : ¬2 ^ sub ∣ batch.length) :
    (appendSubTrees node batch updateTree).run db = (.error (.returned .incorrectBatchSize), db) := by
  rw [appendSubTrees, bind_ok (getMetadata_run isMetadata), lift_okOr (pow2Usize_eq small),
    if_pos fun none => misaligned (Nat.dvd_of_mod_eq_zero none), fail_run]

theorem appendSubTrees_nil (small : sub < 64) :
    (appendSubTrees node [] updateTree).run db = (.ok (root, count * 2 ^ sub % 2 ^ 64), db) := by
  rw [appendSubTrees, bind_ok (getMetadata_run isMetadata), lift_okOr (pow2Usize_eq small),
    if_neg (by simp), if_pos List.isEmpty_nil, pure_run]

variable (small : top + sub < 64) (aligned : 2 ^ sub ∣ batch.length) (nonempty : batch ≠ [])
include small aligned nonempty

theorem appendSubTrees_eq : (appendSubTrees node batch updateTree).run db =
    if 2 ^ top < count + batch.length / 2 ^ sub then (.error (.returned .treeIsFull), db)
    else ((chunks (2 ^ sub) batch).foldlM
        (appendSubTree node updateTree ⟨top, sub, count, root⟩ (2 ^ top - 1)) ⟨0, count⟩
        >>= storeAppended updateTree ⟨top, sub, count, root⟩ (2 ^ sub)).run db := by
  have wide := Nat.pow_lt_pow_right Nat.one_lt_two (show top < 64 by omega)
  rw [appendSubTrees, bind_ok (getMetadata_run isMetadata)]
  dsimp only
  rw [lift_okOr (pow2Usize_eq (by omega)), if_neg (by simpa using Nat.mod_eq_zero_of_dvd aligned),
    if_neg (by simpa using nonempty), lift_okOr (pow2U64_eq (by omega)), checkedAdd]
  by_cases fits : count + batch.length / 2 ^ sub < 2 ^ 64
  · rw [if_pos fits, map_some, getD_some]
    by_cases beyond : 2 ^ top < count + batch.length / 2 ^ sub
    · rw [if_pos beyond, if_pos (decide_eq_true beyond), fail_run]
    · rw [if_neg beyond, if_neg (by simpa using beyond), lift_okOr (pow2U64_pred (by omega))]
  · rw [if_neg fits, map_none, getD_none, if_pos rfl, if_pos (by omega), fail_run]

theorem appendSubTrees_full (beyond : 2 ^ top < count + batch.length / 2 ^ sub) :
    (appendSubTrees node batch updateTree).run db = (.error (.returned .treeIsFull), db) := by
  rw [appendSubTrees_eq isMetadata small aligned nonempty, if_pos beyond]

omit aligned nonempty in
theorem appendSubTrees_fits {result : F × ℕ}
    (ran : ((appendSubTrees node batch updateTree).run db).1 = .ok result) : 2 ^ sub ∣ batch.length ∧
      (batch ≠ [] → count + batch.length / 2 ^ sub ≤ 2 ^ top) := by
  have aligned : 2 ^ sub ∣ batch.length := by
    by_contra misaligned
    rw [appendSubTrees_misaligned isMetadata (by omega) misaligned] at ran
    cases ran
  refine ⟨aligned, fun nonempty => ?_⟩
  by_contra beyond
  rw [appendSubTrees_full isMetadata small aligned nonempty (not_le.mp beyond)] at ran
  cases ran

end

section

variable {top sub count : ℕ} {leaves : ℕ → F} {db : MutableDb F}
  (holds : Holds node top sub count leaves db) (low : top + sub ≤ 62)
include holds low

theorem Holds.hook {depth rise block : ℕ} (sum : depth + rise = top + sub)
    (inside : block < 2 ^ depth) {values : List F} (isLength : values.length = 2 ^ rise) {tree : ℕ → F}
    (isTree : tree = writeAt 0 (block * 2 ^ rise) values leaves) :
    ∃ subTree after, makeCompleteTree node rise values = .ok subTree ∧
      (hookSubTree node true (slot depth block) depth rise subTree).run db =
        (.ok (levels node (top + sub) tree 0), { db with nodes := after }) ∧
      Heaped node (top + sub) (lookup { db with nodes := after }) tree ∧
      Written (Touches depth block rise) (heap node (top + sub) tree) db.nodes after := by
  have heaped := holds.heaped
  rw [← sum] at heaped low ⊢
  rw [isTree, writeAt_block 0 isLength]
  obtain ⟨subTree, after, isSubTree, ran, written⟩ := hookSubTree_block true low inside isLength.le
    replaceBlock_replaceBlock (offPath_replaceBlock heaped)
  exact ⟨subTree, after, isSubTree, ran, heaped_written (fun _ k _ => Or.inl (holds.uncached k)) heaped written,
    written⟩

theorem insertLeaf_run (room : count < 2 ^ top) (leaf : F) {tree : ℕ → F}
    (isTree : tree = writeAt 0 (count * 2 ^ sub) [leaf] leaves) :
    ∃ later, (insertLeaf node leaf true).run db = (.ok (levels node (top + sub) tree 0), later) ∧
      Holds node top sub (count + 1) tree later ∧
      Written (Touches (top + sub) (count * 2 ^ sub) 0) (heap node (top + sub) tree) db.nodes later.nodes := by
  have inside : count * 2 ^ sub < 2 ^ (top + sub) := by
    rw [Nat.pow_add]
    exact Nat.mul_lt_mul_of_pos_right room (Nat.two_pow_pos _)
  have wide := Nat.pow_lt_pow_right Nat.one_lt_two (show top + sub < 63 by omega)
  have narrow := Nat.pow_le_pow_right Nat.two_pos (Nat.le_add_right top sub)
  obtain ⟨subTree, after, isSubTree, ran, heaped, written⟩ := holds.hook low
    (Nat.add_zero (top + sub)) inside (show [leaf].length = 2 ^ 0 from rfl)
    (show tree = writeAt 0 (count * 2 ^ sub * 2 ^ 0) [leaf] leaves by
      rw [isTree, Nat.pow_zero, Nat.mul_one])
  rw [makeCompleteTree_single] at isSubTree
  cases isSubTree
  have stored : (storeInserted true ⟨top, sub, count, levels node (top + sub) leaves 0⟩
      (levels node (top + sub) tree 0)).run { db with nodes := after } =
      (.ok (), ⟨some ⟨top, sub, count + 1, levels node (top + sub) tree 0⟩, db.cache, after⟩) := by
    rw [storeInserted, if_pos rfl, lift_okOr (checkedAdd_eq (by dsimp only; omega))]
    exact @storeMetadata_uncached F { db with nodes := after } holds.uncached _
  refine ⟨⟨some ⟨top, sub, count + 1,
    levels node (top + sub) tree 0⟩, db.cache, after⟩, ?_, ⟨rfl, holds.uncached, heaped⟩,
    written⟩
  rw [insertLeaf, bind_ok (getMetadata_run holds.metadata)]
  dsimp only
  rw [lift_okOr (checkedAddU32_eq (by omega)), lift_okOr (pow2U64_pred (by omega)),
    lift_okOr (pow2U64_eq (by omega)), lift_okOr (checkedMul_eq (by rw [Nat.mul_comm]; omega)),
    Nat.mul_comm (2 ^ sub), lift_okOr (checkedAdd_eq (by omega))]
  rw [slot] at ran
  rw [bind_ok ran, bind_ok stored, pure_run]

theorem updateSubTree_run {rise depth index : ℕ} (single : rise = 0 ∨ rise = sub)
    (sum : depth + rise = top + sub) (inside : index < 2 ^ depth) {values : List F}
    (isLength : values.length = 2 ^ rise) {tree : ℕ → F}
    (isTree : tree = writeAt 0 (index * 2 ^ rise) values leaves) :
    ∃ later, (updateSubTree node index values true).run db = (.ok (levels node (top + sub) tree 0), later) ∧
      Holds node top sub count tree later ∧
      Written (Touches depth index rise) (heap node (top + sub) tree) db.nodes later.nodes := by
  have wide := Nat.pow_lt_pow_right Nat.one_lt_two (show depth < 63 by omega)
  have narrow : 2 ^ depth ≤ 2 ^ (top + sub) :=
    Nat.pow_le_pow_right (by decide) (by omega)
  obtain ⟨subTree, after, isSubTree, ran, heaped, written⟩ := holds.hook low sum inside isLength isTree
  have isLog : Nat.log2 values.length = rise := by rw [isLength, Nat.log2_two_pow]
  have nonempty : ¬values.isEmpty = true := by
    rw [List.isEmpty_iff_length_eq_zero, isLength]
    exact (Nat.two_pow_pos _).ne'
  have isRows : (if values.length ≠ 1 then sub else 0) = rise := by
    rw [isLength]
    rcases single with rfl | rfl
    · rfl
    · by_cases flat : rise = 0
      · rw [flat]
        rfl
      · rw [if_pos (Nat.one_lt_two_pow flat).ne']
  have isHeight : heightToUse ⟨top, sub, count, levels node (top + sub) leaves 0⟩ values = .ok depth := by
    rw [heightToUse, isLog]
    dsimp only
    by_cases full : rise = sub
    · rw [if_pos full]
      congr 1
      omega
    · rw [if_neg full, checkedAddU32_eq (by omega), bind_some, checkedSub, if_pos (by omega), ← sum,
        Nat.add_sub_cancel]
      rfl
  have isIndex : (((pow2U64 depth).bind fun v => checkedSub v 1).bind fun base => checkedAdd base index) =
      some (slot depth index) := by
    rw [pow2U64_pred (by omega), bind_some, checkedAdd_eq (by omega)]
    rfl
  refine ⟨⟨some ⟨top, sub, count,
    levels node (top + sub) tree 0⟩, db.cache, after⟩, ?_, ⟨rfl, holds.uncached, heaped⟩,
    written⟩
  rw [updateSubTree, bind_ok (getMetadata_run holds.metadata)]
  dsimp only
  rw [lift_okOr (checkedAddU32_eq (by omega)), lift_okOr (pow2U64_eq (by omega)),
    if_neg (by rw [isLength, nextPowerOfTwo_two_pow]; simp), if_neg nonempty, if_neg (by omega), isLog,
    lift_bind isSubTree, lift_bind isHeight, lift_okOr isIndex, isRows, bind_ok ran, flushIf, if_pos rfl,
    bind_ok (@flushCache_uncached F { db with nodes := after } holds.uncached), setMetadata,
    bind_ok (writes_run _ _), pure_run]

theorem updateSubTree_rejected {index : ℕ} {values : List F} {updateTree : Bool}
    (rejected : nextPowerOfTwo values.length ≠ values.length ∨ 2 ^ (top + sub) ≤ index) :
    ∃ error, (updateSubTree node index values updateTree).run db = (.error (.returned error), db) := by
  rw [updateSubTree, bind_ok (getMetadata_run holds.metadata)]
  dsimp only
  rw [lift_okOr (checkedAddU32_eq (by omega)), lift_okOr (pow2U64_eq (by omega))]
  split
  · exact ⟨_, rfl⟩
  · rename_i power
    split
    · exact ⟨_, rfl⟩
    · rw [if_pos (rejected.resolve_left power)]
      exact ⟨_, rfl⟩

theorem getMembershipProof_run [DecidableEq F] (findOne : FindOne F)
    {index : ℕ} (inside : index < 2 ^ (top + sub)) :
    ∃ path, (getMembershipProof findOne none (some index)).run db = (.ok ⟨leaves index, path, index⟩, db) ∧
      path.map PathElement.step = opening node (top + sub) leaves index := by
  have wide := Nat.pow_lt_pow_right Nat.one_lt_two (show top + sub < 63 by omega)
  obtain ⟨path, isPath, isOpening⟩ := siblingPath_run low (le_refl _) inside holds.heaped
  rw [Nat.sub_self] at isOpening
  have isFirst := firstLeafIndex_eq (show top + sub < 64 by omega)
  have isLast := lastLeafIndex_eq (show top + sub < 63 by omega)
  have isIndex : (leafNodeIndex findOne (top + sub) none (some index)).run db =
      (.ok (slot (top + sub) index), db) := by
    rw [leafNodeIndex, lift_bind isFirst, checkedAdd_eq (by omega), Nat.add_comm]
    rfl
  have isValue : (leafValue (slot (top + sub) index) (none : Option F)).run db = (.ok (leaves index), db) := by
    rw [leafValue, getNode_run (slot_small low (le_refl _) inside), holds.heaped _ (le_refl _) _ inside, Nat.sub_self]
    rfl
  refine ⟨path, ?_, isOpening⟩
  rw [getMembershipProof, bind_ok (getMetadata_run holds.metadata)]
  rw [bind_ok isIndex, lift_bind isFirst, lift_okOr isLast, if_neg (by rw [slot]; omega), bind_ok isPath,
    bind_ok isValue, pure_run, slot, Nat.add_sub_cancel_left]

variable {batch : List F} (aligned : 2 ^ sub ∣ batch.length) {total : ℕ}
  (isTotal : total = count + batch.length / 2 ^ sub) (room : batch ≠ [] → total ≤ 2 ^ top)
  {tree : ℕ → F} (isTree : tree = writeAt 0 (count * 2 ^ sub) batch leaves)

include aligned isTotal room isTree

theorem appendSubTrees_stored (updateTree : Bool) (nonempty : batch ≠ []) :
    ∃ after, (appendSubTrees node batch updateTree).run db = (storeAppended updateTree ⟨top, sub, count,
          levels node (top + sub) leaves 0⟩ (2 ^ sub)
          ⟨levels node (top + sub) tree 0, total⟩).run (withTarget updateTree db after) ∧
      Heaped node (top + sub) (lookup (withTarget updateTree db after)) tree ∧
      Written (AppendTouches top sub count total) (heap node (top + sub) tree) (target updateTree db) after := by
  subst isTotal isTree
  obtain ⟨⟨hash, last⟩, later, ran, appending⟩ := @foldlM_appendSubTree F _ node top sub count
    (levels node (top + sub) leaves 0)
    (fun values => writeAt 0 (count * 2 ^ sub) values leaves) updateTree db low batch aligned
    (aligned_room aligned (room nonempty)) (by rw [writeAt_nil]; exact holds.heaped)
    (fun _ _ k _ => Or.inl (holds.uncached k)) fun values part _ _ => writeAt_append 0 _ values part leaves
  obtain rfl : last = _ := aligned_total aligned appending.counted
  obtain rfl : hash = _ := appending.hash nonempty
  obtain ⟨after, rfl, written⟩ := appending.written
  refine ⟨after, ?_, appending.heaped, written⟩
  rw [appendSubTrees_eq holds.metadata (by omega) aligned nonempty, if_neg (not_lt.mpr (room nonempty)), bind_ok ran]

theorem appendSubTrees_run : ∃ later, (appendSubTrees node batch true).run db =
        (.ok (levels node (top + sub) tree 0, total * 2 ^ sub % 2 ^ 64), later) ∧
      Holds node top sub total tree later ∧
      Written (AppendTouches top sub count total) (heap node (top + sub) tree) db.nodes later.nodes := by
  by_cases empty : batch = []
  · subst empty
    rw [writeAt_nil] at isTree
    rw [List.length_nil, Nat.zero_div, Nat.add_zero] at isTotal
    subst isTree isTotal
    refine ⟨db, appendSubTrees_nil holds.metadata (by omega), holds, ?_⟩
    apply (Written.none _ _).congr
    intro k
    exact ⟨False.elim, appendTouches_none⟩
  · obtain ⟨after, ran, heaped, written⟩ := appendSubTrees_stored holds low aligned isTotal room isTree true empty
    refine ⟨⟨some ⟨top, sub, total,
      levels node (top + sub) tree 0⟩, db.cache, after⟩, ?_, ⟨rfl, holds.uncached, heaped⟩,
      written⟩
    rw [ran, storeAppended, if_pos rfl]
    exact bind_ok (@storeMetadata_uncached F { db with nodes := after } holds.uncached _)

end

end Nightfall.MerkleTrees.MutableTree
