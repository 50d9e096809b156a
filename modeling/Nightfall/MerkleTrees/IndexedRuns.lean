import Mathlib.Data.List.Chain
import Nightfall.MerkleTrees.IndexedCircuit
import Nightfall.MerkleTrees.MutableRuns

/-! Whole runs of an indexed tree. However the values come, in batches or sub-tree by sub-tree, the
table is one linked list through all of them in increasing order, and the tree is the complete tree
of the rows' hashes. -/

namespace Nightfall.MerkleTrees.IndexedTree

open Merkle Store Store.Program Tables MutableTree List

variable {F : Type} [LinearOrder F] [Zero F] [NatCast F] {hash : F → F → F → F} {node : F → F → F}

structure PointsTo (leaf next : IndexedLeaf F) : Prop where
  increasing : leaf.value < next.value
  nextIndex : leaf.nextIndex = next.id
  nextValue : leaf.nextValue = next.value

structure LinkedList (table chain : List (IndexedLeaf F)) : Prop where
  all : chain.Perm table
  first : ∃ leaf, chain.head? = some leaf ∧ leaf.value = 0 ∧ leaf.id = 0
  linked : chain.IsChain PointsTo
  last : ∃ leaf, chain.getLast? = some leaf ∧ leaf.nextIndex = 0 ∧ leaf.nextValue = 0

def tableLeaf (hash : F → F → F → F) (table : List (IndexedLeaf F)) (i : ℕ) : F :=
  ((table.find? fun leaf => leaf.id = i).map (hashLeaf hash)).getD 0

section

variable {entries sorted : List (Entry F)} (separate : Separate entries) (perm : sorted.Perm entries)
  (increasing : sorted.Pairwise fun entry next => entry.value < next.value)
include separate perm increasing

omit [NatCast F] in
theorem successor_sorted {i : ℕ} (within : i + 1 < sorted.length) :
    successor entries (sorted.get ⟨i, by omega⟩).value = sorted.get ⟨i + 1, within⟩ := by
  rw [pairwise_iff_get] at increasing
  apply successor_eq separate.values (perm.mem_iff.mp (get_mem _ _))
  · exact increasing _ _ (Fin.mk_lt_mk.mpr (Nat.lt_succ_self i))
  · intro entry member above
    obtain ⟨j, rfl⟩ := mem_iff_get.mp (perm.mem_iff.mpr member)
    rcases lt_trichotomy j ⟨i + 1, within⟩ with before | same | after
    · exfalso
      rcases (Nat.lt_succ_iff.mp before).lt_or_eq with earlier | here
      · exact absurd above (increasing j ⟨i, _⟩ earlier).asymm
      · exact absurd above (by rw [show j = ⟨i, _⟩ from Fin.ext here]; exact lt_irrefl _)
    · rw [same]
    · exact (increasing _ _ after).le

omit [NatCast F] in
theorem isChain_rows : (sorted.map (row entries)).IsChain PointsTo := by
  rw [isChain_map, isChain_iff_getElem]
  intro i within
  have next := successor_sorted separate perm increasing within
  rw [get_eq_getElem, get_eq_getElem] at next
  refine ⟨pairwise_iff_getElem.mp increasing i (i + 1) _ _ (Nat.lt_succ_self i), ?_, ?_⟩
  · rw [row, next]
    rfl
  · rw [row, next]
    rfl

omit [NatCast F] in
theorem head_sorted (least : ∀ x : F, 0 ≤ x) : sorted.head? = some ⟨0, 0⟩ := by
  have member := perm.mem_iff.mpr separate.zero
  cases sorted with
  | nil => exact absurd member not_mem_nil
  | cons entry rest =>
    rcases mem_cons.mp member with isZero | later
    · rw [List.head?_cons, ← isZero]
    · exact absurd ((pairwise_cons.mp increasing).1 _ later) (not_lt.mpr (least _))

omit [NatCast F] in
theorem last_sorted : ∃ entry, sorted.getLast? = some entry ∧ successor entries entry.value = ⟨0, 0⟩ := by
  have nonempty : sorted ≠ [] := ne_nil_of_mem (perm.mem_iff.mpr separate.zero)
  refine ⟨sorted.getLast nonempty, List.getLast?_eq_getLast_of_ne_nil nonempty, successor_none ?_⟩
  intro entry member
  have stored := perm.mem_iff.mpr member
  rw [← dropLast_append_getLast nonempty] at increasing stored
  rcases mem_append.mp stored with before | last
  · exact ((pairwise_append.mp increasing).2.2 _ before _ (mem_singleton_self _)).le
  · rw [mem_singleton.mp last]

end

section

variable {top sub count : ℕ} {entries : List (Entry F)} {db : IndexedDb F}

omit [Zero F] [NatCast F] in
theorem exists_sorted (values : (entries.map Entry.value).Nodup) :
    ∃ sorted : List (Entry F), sorted.Perm entries ∧ sorted.Pairwise fun entry next => entry.value < next.value := by
  have perm := perm_insertionSort (fun entry next : Entry F => entry.value ≤ next.value) entries
  refine ⟨_, perm, ?_⟩
  have distinct := pairwise_map.mp ((perm.map Entry.value).nodup_iff.mpr values)
  exact ((pairwise_insertionSort _ entries).and distinct).imp fun both => lt_of_le_of_ne both.1 both.2

theorem leafAt_rows (indices : (entries.map Entry.index).Nodup) :
    leafAt hash entries = tableLeaf hash (rows entries) := by
  funext i
  rw [tableLeaf]
  by_cases taken : i ∈ entries.map Entry.index
  · obtain ⟨entry, member, rfl⟩ := mem_map.mp taken
    have ids : ((rows entries).map IndexedLeaf.id).Nodup := by rwa [rows_ids]
    have found := find_key ids (mem_map_of_mem (f := row entries) member)
    rw [leafAt_mem indices member]
    exact (congrArg (fun leaf => (leaf.map (hashLeaf hash)).getD 0) found).symm
  · rw [leafAt_free taken]
    rw [← rows_ids] at taken
    rw [find_key_none taken, Option.map_none, Option.getD_none]

variable (consistent : Consistent hash node top sub count entries db)
include consistent

theorem Consistent.linkedList (least : ∀ x : F, 0 ≤ x) :
    ∃ chain, LinkedList db.leaves chain ∧ (chain.map IndexedLeaf.value).Perm (entries.map Entry.value) := by
  obtain ⟨sorted, perm, increasing⟩ := exists_sorted consistent.separate.values
  obtain ⟨last, isLast, noNext⟩ := last_sorted consistent.separate perm increasing
  refine ⟨sorted.map (row entries), ⟨?_, ?_, isChain_rows consistent.separate perm increasing, ?_⟩, ?_⟩
  · rw [consistent.leaves]
    exact perm.map _
  · refine ⟨row entries ⟨0, 0⟩, ?_, rfl, rfl⟩
    rw [List.head?_map, head_sorted consistent.separate perm increasing least, Option.map_some]
  · refine ⟨row entries last, ?_, ?_, ?_⟩
    · rw [List.getLast?_map, isLast, Option.map_some]
    · rw [row, noNext]
    · rw [row, noNext]
  · rw [map_map]
    exact perm.map Entry.value

theorem Consistent.next_stored {leaf : IndexedLeaf F} (member : leaf ∈ db.leaves) :
    ∃ next ∈ db.leaves, next.value = leaf.nextValue ∧ next.id = leaf.nextIndex := by
  rw [consistent.leaves] at member ⊢
  obtain ⟨entry, isMember, rfl⟩ := mem_map.mp member
  have stored : successor entries entry.value ∈ entries := by
    rcases successor_cases entries entry.value with ⟨isNone, _⟩ | ⟨found, _⟩
    · rw [isNone]
      exact consistent.separate.zero
    · exact found
  exact ⟨_, mem_map_of_mem stored, rfl, rfl⟩

theorem Consistent.getNode (low : top + sub ≤ 62) {depth i : ℕ}
    (under : depth ≤ top + sub) (inside : i < 2 ^ depth) :
    (MutableTree.getNode (slot depth i)).run db.tree = (.ok (levels node (top + sub - depth)
      (tableLeaf hash db.leaves) i), db.tree) := by
  rw [consistent.tree.getNode low under inside, leafAt_rows consistent.separate.indices, consistent.leaves]

end

section

variable [ToString F] {top sub : ℕ} {inserted : List F} {db : IndexedDb F}

def InRange (db : IndexedDb F) (values : List F) : Prop :=
  ∀ metadata, db.tree.metadata = some metadata → ∀ i, values.getD i 0 ≠ 0 →
    metadata.subTreeCount * 2 ^ metadata.subTreeHeight + i < 2 ^ 32

variable (hash node) in
inductive Reached (top sub : ℕ) : List F → IndexedDb F → Prop where
  | new {db : IndexedDb F} (ran : (newIndexedTree hash node top sub).run .empty = (.ok (), db)) :
      Reached top sub [] db
  | insertLeaves {inserted values : List F} {db later : IndexedDb F} {root : F}
      (reached : Reached top sub inserted db) (inRange : InRange db values)
      (ran : (IndexedTree.insertLeaves hash node values).run db = (.ok root, later)) :
      Reached top sub (inserted ++ values) later
  | insertNullifiers {inserted values : List F} {db later : IndexedDb F} {findOne : FindOne F}
      {info : IMTCircuitInsertionInfo F} (reached : Reached top sub inserted db)
      (ran : (insertNullifiersForCircuit hash node findOne values).run db = (.ok info, later)) :
      Reached top sub (inserted ++ values) later

omit [NatCast F] [ToString F] in
theorem InRange.placed {count : ℕ} {values : List F} {root : F} (inRange : InRange db values)
    (isMetadata : db.tree.metadata = some ⟨top, sub, count, root⟩) :
    ∀ entry ∈ placed (count * 2 ^ sub) values, entry.index < 2 ^ 32 := by
  intro entry member
  obtain ⟨above, _, isValue, nonzero⟩ := mem_placed member
  have fits := inRange _ isMetadata (entry.index - count * 2 ^ sub) (isValue ▸ nonzero)
  dsimp only at fits
  omega

omit [LinearOrder F] [NatCast F] [ToString F] in
theorem InRange.of_length {values : List F} {metadata : TreeMetadata F} (isMetadata : db.tree.metadata = some metadata)
    (fits : metadata.subTreeCount * 2 ^ metadata.subTreeHeight + values.length ≤ 2 ^ 32) : InRange db values := by
  intro _ isSame i nonzero
  cases isMetadata.symm.trans isSame
  have within : i < values.length := by
    by_contra beyond
    exact nonzero (getD_eq_default _ _ (not_lt.mp beyond))
  omega

omit [LinearOrder F] [NatCast F] [ToString F] in
theorem insertLeaf_high (isHeight : top + sub = 63) {tree : MutableDb F} {root : F}
    (isMetadata : tree.metadata = some ⟨top, sub, 0, root⟩) (leaf : F) :
    (insertLeaf node leaf true).run tree = (.error (.returned .databaseError), tree) := by
  have unstorable : (MutableTree.getNode (2 ^ 63)).run tree = _ := bind_error rfl
  have stopped : (climb node (62 + 1) (2 ^ 63 - 1) leaf).run tree = _ := bind_error (bind_error unstorable)
  have hooked : (hookSubTree node true (2 ^ 63 - 1) 63 0 [leaf]).run tree = _ :=
    (bind_ok rfl).trans (bind_error stopped)
  rw [insertLeaf, bind_ok (getMetadata_run isMetadata)]
  dsimp only
  rw [lift_okOr (checkedAddU32_eq (by omega)), isHeight, lift_okOr (pow2U64_pred (by decide)),
    lift_okOr (pow2U64_eq (by omega)), lift_okOr (checkedMul_eq (by rw [Nat.mul_zero]; decide)), Nat.mul_zero,
    lift_okOr (checkedAdd_eq (by decide)), Nat.add_zero, bind_error hooked]

omit [ToString F] in
theorem newIndexedTree_high (high : 63 ≤ top + sub) :
    ∃ failure later, (newIndexedTree hash node top sub).run .empty = (.error failure, later) := by
  by_cases fits : top + sub < 64
  · have isNew : (newMutableTree top sub).run (MutableDb.empty : MutableDb F) =
        (.ok (), ⟨some ⟨top, sub, 0, 0⟩, fun _ => none, fun _ => none⟩) := by
      rw [newMutableTree, if_neg (by omega), if_neg (by omega)]
      rfl
    exact ⟨_, _, (newIndexedTree_eq isNew).trans
      (bind_error (onTree_error (insertLeaf_high (by omega) rfl (hashLeaf hash IndexedLeaf.default))))⟩
  · have refused : ∃ failure, (newMutableTree top sub).run (MutableDb.empty : MutableDb F) =
        (.error failure, .empty) := by
      rw [newMutableTree]
      split
      · exact ⟨_, rfl⟩
      · rw [if_pos (by omega)]
        exact ⟨_, rfl⟩
    obtain ⟨failure, failed⟩ := refused
    exact ⟨_, _, bind_error (onTree_error failed)⟩

theorem Reached.consistent (idle : node 0 0 = 0) (least : ∀ x : F, 0 ≤ x)
    (reached : Reached hash node top sub inserted db) :
    top + sub ≤ 62 ∧ ∃ count entries, Consistent hash node top sub count entries db ∧
      entries.map Entry.value = 0 :: inserted.filter fun value => value ≠ 0 := by
  induction reached with
  | new ran =>
    by_cases low : top + sub ≤ 62
    · obtain ⟨_, isNew, consistent⟩ := @newIndexedTree_run F _ _ _ hash node _ _ idle low
      cases ran.symm.trans isNew
      exact ⟨low, 1, [⟨0, 0⟩], consistent, rfl⟩
    · obtain ⟨failure, later, failed⟩ := @newIndexedTree_high F _ _ _ hash node _ _ (not_le.mp low)
      cases ran.symm.trans failed
  | insertLeaves _ inRange ran ih =>
    obtain ⟨low, count, entries, consistent, areValues⟩ := ih
    have inserts := insertLeaves_ok consistent least low (inRange.placed consistent.tree.metadata) ran
    refine ⟨low, _, _, inserts.consistent, ?_⟩
    rw [map_append, areValues, placed_values, filter_append, cons_append]
  | insertNullifiers _ ran ih =>
    obtain ⟨low, count, entries, consistent, areValues⟩ := ih
    have inserts := insertNullifiersForCircuit_ok least low consistent ran
    refine ⟨low, _, _, inserts.consistent, ?_⟩
    rw [map_append, areValues, placed_values, filter_append, cons_append]

theorem reached_linkedList (idle : node 0 0 = 0) (least : ∀ x : F, 0 ≤ x)
    (reached : Reached hash node top sub inserted db) : (∃ chain, LinkedList db.leaves chain ∧
        (chain.map IndexedLeaf.value).Perm (0 :: inserted.filter fun value => value ≠ 0)) ∧
      (∀ leaf ∈ db.leaves, ∃ next ∈ db.leaves, next.value = leaf.nextValue ∧ next.id = leaf.nextIndex) ∧
      (∀ depth ≤ top + sub, ∀ i < 2 ^ depth, (MutableTree.getNode (slot depth i)).run db.tree =
        (.ok (levels node (top + sub - depth) (tableLeaf hash db.leaves) i), db.tree)) ∧
      MutableTree.getRoot.run db.tree = (.ok (levels node (top + sub) (tableLeaf hash db.leaves) 0), db.tree) := by
  obtain ⟨low, count, entries, consistent, areValues⟩ := reached.consistent idle least
  refine ⟨?_, fun leaf member => consistent.next_stored member,
    fun depth under i inside => consistent.getNode low under inside, ?_⟩
  · rw [← areValues]
    exact consistent.linkedList least
  · rw [getRoot, bind_ok (getMetadata_run consistent.tree.metadata), pure_run,
      leafAt_rows consistent.separate.indices, consistent.leaves]

def toyLeaf (a b c : ℕ) : ℕ := a + 2 * b + 3 * c

theorem reached_sample : ∃ db : IndexedDb ℕ, Reached toyLeaf toyNode 2 1 ([5, 3] ++ [4, 0]) db ∧
      ∃ root, db.tree.metadata = some ⟨2, 1, 3, root⟩ := by
  have new : Reached toyLeaf toyNode 2 1 [] _ := .new rfl
  have batch : Reached toyLeaf toyNode 2 1 ([] ++ [5, 3]) _ :=
    new.insertLeaves (.of_length rfl (by decide)) (Prod.ext rfl rfl)
  exact ⟨_, @Reached.insertNullifiers ℕ _ _ _ _ _ _ _ _ _ [4, 0] _ _ (fun _ _ => none) _ batch
    (Prod.ext rfl rfl), _, rfl⟩

theorem reached_linkedList_two : ∃ db : IndexedDb ℕ, Reached toyLeaf toyNode 2 1 ([5, 3] ++ [4, 0]) db ∧
      ∃ chain, LinkedList db.leaves chain ∧ (chain.map IndexedLeaf.value).Perm [0, 5, 3, 4] := by
  obtain ⟨db, reached, -⟩ := reached_sample
  exact ⟨db, reached, (reached_linkedList rfl (fun x => Nat.zero_le x) reached).1⟩

/-- A value that was inserted is refused; for any other the proof opens, at the root, a stored leaf around it. -/
theorem nonMembershipProof_complete (idle : node 0 0 = 0) (least : ∀ x : F, 0 ≤ x)
    (reached : Reached hash node top sub inserted db) (v : F) :
    if v = 0 ∨ v ∈ inserted then (getNonMembershipProof hash v).run db = (.error (.returned .leafExists), db)
    else ∃ low ∈ db.leaves, ∃ proof metadata, low.value < v ∧ (v < low.nextValue ∨ low.nextValue = 0) ∧
      proof.nodeValue = hashLeaf hash low ∧ (getNonMembershipProof hash v).run db = (.ok proof, db) ∧
      db.tree.metadata = some metadata ∧ proof.Verifies node metadata.root := by
  obtain ⟨small, count, entries, consistent, areValues⟩ := reached.consistent idle least
  have stored : v ∈ entries.map Entry.value ↔ v = 0 ∨ v ∈ inserted := by
    rw [areValues, mem_cons, mem_filter, decide_eq_true_eq]
    tauto
  split
  · rename_i known
    obtain ⟨entry, member, rfl⟩ := mem_map.mp (stored.mpr known)
    rw [getNonMembershipProof]
    split
    · rfl
    · exact bind_ok (getLeaf_stored consistent.leaves consistent.separate.values member)
  · rename_i unknown
    have absent := stored.not.mpr unknown
    have nonzero : v ≠ 0 := fun isZero => unknown (.inl isZero)
    obtain ⟨low, isLow⟩ := consistent.separate.exists_low (lt_of_le_of_ne (least v) nonzero.symm)
    have inside := consistent.index_lt isLow.member
    obtain ⟨path, isProof, isOpening⟩ := getNonMembershipProof_run small consistent.leaves consistent.separate.values
      consistent.tree nonzero absent isLow inside
    refine ⟨row entries low, consistent.leaves ▸ mem_map_of_mem isLow.member, _, _, isLow.below, ?_, rfl, isProof,
      consistent.tree.metadata, ?_⟩
    · rcases successor_cases entries low.value with ⟨isLast, _⟩ | ⟨isNext, above, _⟩
      · exact .inr (congrArg Entry.value isLast)
      · exact .inl ((isLow.above_iff absent isNext).mp above)
    · rw [MembershipProof.Verifies, isOpening]
      exact computeRoot_opening_inside node inside (leafAt_mem consistent.separate.indices isLow.member)

theorem nonMembershipProof_complete_two : ∃ db : IndexedDb ℕ, Reached toyLeaf toyNode 2 1 ([5, 3] ++ [4, 0]) db ∧
      (getNonMembershipProof toyLeaf 4).run db = (.error (.returned .leafExists), db) ∧
      ∃ low ∈ db.leaves, ∃ proof metadata, low.value < 7 ∧ (7 < low.nextValue ∨ low.nextValue = 0) ∧
        proof.nodeValue = hashLeaf toyLeaf low ∧
        (getNonMembershipProof toyLeaf 7).run db = (.ok proof, db) ∧
        db.tree.metadata = some metadata ∧ proof.Verifies toyNode metadata.root := by
  obtain ⟨db, reached, -⟩ := reached_sample
  exact ⟨db, reached, nonMembershipProof_complete rfl Nat.zero_le reached 4,
    nonMembershipProof_complete rfl Nat.zero_le reached 7⟩

omit [LinearOrder F] [NatCast F] [ToString F] in
theorem insertLeaf_counts {tree after : MutableDb F} {metadata : TreeMetadata F} {leaf root : F}
    (isMetadata : tree.metadata = some metadata) (ran : (insertLeaf node leaf true).run tree = (.ok root, after)) :
    after.metadata = some { metadata with subTreeCount := metadata.subTreeCount + 1, root := root } := by
  rw [insertLeaf, bind_ok (getMetadata_run isMetadata)] at ran
  simp only [bind_eq_ok] at ran
  obtain ⟨_, _, _, _, _, _, _, _, _, _, _, _, _, _, _, hash, _, _, _, _, stored, isRoot⟩ := ran
  cases isRoot
  rw [storeInserted, if_pos rfl, checkedAdd] at stored
  split at stored
  · cases stored
    rfl
  · cases stored

omit [ToString F] in
theorem newIndexedTree_counts {later : IndexedDb F} {metadata : TreeMetadata F}
    (isMetadata : db.tree.metadata = some metadata)
    (ran : (newIndexedTree hash node top sub).run db = (.ok (), later)) :
    later.tree.metadata.map TreeMetadata.subTreeCount = some (metadata.subTreeCount + 1) ∧
      ((db.leaves.any fun leaf => leaf.id = 0) = true → later.leaves = db.leaves) := by
  have kept {made : IndexedDb F} (first : (onTree (newMutableTree top sub)).run db = (.ok (), made)) :
      made = db := by
    rw [onTree, zoom_eq_ok] at first
    obtain ⟨after, isTree, rfl⟩ := first
    rw [newMutableTree] at isTree
    split at isTree
    · cases isTree
    · split at isTree
      · cases isTree
      · rw [writes_run, isMetadata] at isTree
        cases isTree
        rfl
  obtain ⟨_, made, first, afterTree⟩ := bind_eq_ok.mp ran
  obtain rfl := kept first
  obtain ⟨_, held, second, afterRows⟩ := bind_eq_ok.mp afterTree
  rw [newIndexedLeavesDb, writes_run] at second
  cases second
  obtain ⟨found, _, isFound, afterRead⟩ := bind_eq_ok.mp afterRows
  cases isFound
  split at afterRead
  · cases afterRead
  · obtain ⟨root, _, inserted, done⟩ := bind_eq_ok.mp afterRead
    cases done
    rw [onTree, zoom_eq_ok] at inserted
    obtain ⟨after, isTree, rfl⟩ := inserted
    refine ⟨?_, fun hasZero => ?_⟩
    · rw [insertLeaf_counts (by split <;> exact isMetadata) isTree]
      rfl
    · rw [if_pos hasZero]

/-- A second call keeps the metadata and the zero row it finds, and appends the leaf of that row again. -/
theorem newIndexedTree_again {metadata : TreeMetadata F} (isMetadata : db.tree.metadata = some metadata) :
    (newIndexedTree hash node top sub).run db ≠ (.ok (), db) ∧
    (node 0 0 = 0 → (∀ x : F, 0 ≤ x) → Reached hash node top sub inserted db →
      (∀ later, (newIndexedTree hash node top sub).run db = (.ok (), later) → later.leaves = db.leaves ∧
        later.tree.metadata.map TreeMetadata.subTreeCount = some (metadata.subTreeCount + 1)) ∧
      (metadata.subTreeCount < 2 ^ top →
        ∃ later, (newIndexedTree hash node top sub).run db = (.ok (), later))) := by
  refine ⟨fun ran => ?_, fun idle least reached => ?_⟩
  · have counted := (newIndexedTree_counts isMetadata ran).1
    rw [isMetadata, Option.map_some, Option.some_inj] at counted
    omega
  obtain ⟨low, count, entries, consistent, -⟩ := reached.consistent idle least
  have stands := consistent.tree.metadata
  cases isMetadata.symm.trans stands
  have hasZero : (db.leaves.any fun leaf => leaf.id = 0) = true := by
    rw [consistent.leaves, any_eq_true]
    exact ⟨_, mem_map_of_mem consistent.separate.zero, decide_eq_true rfl⟩
  refine ⟨fun later ran => (newIndexedTree_counts isMetadata ran).symm.imp_left fun kept => kept hasZero,
    fun room => ?_⟩
  have kept : (newMutableTree top sub).run db.tree = (.ok (), db.tree) := by
    rw [newMutableTree, if_neg (by omega), if_neg (by omega), writes_run, stands]
    rfl
  have rowsKept : newIndexedLeavesDb.run db = (.ok (), db) := by
    rw [newIndexedLeavesDb, writes_run, if_pos hasZero]
  obtain ⟨later, inserted, -⟩ := insertLeaf_run consistent.tree low room (hashLeaf hash (row entries ⟨0, 0⟩)) rfl
  refine ⟨{ db with tree := later }, ?_⟩
  rw [newIndexedTree, bind_ok (onTree_ok kept), bind_ok rowsKept,
    bind_ok (getLeaf_stored consistent.leaves consistent.separate.values consistent.separate.zero)]
  exact bind_ok (onTree_ok inserted)

theorem newIndexedTree_again_sample : ∃ (db : IndexedDb ℕ) (root : ℕ),
    Reached toyLeaf toyNode 2 1 ([5, 3] ++ [4, 0]) db ∧ db.tree.metadata = some ⟨2, 1, 3, root⟩ ∧ ∃ later,
      (newIndexedTree toyLeaf toyNode 2 1).run db = (.ok (), later) ∧
      later ≠ db ∧ later.leaves = db.leaves ∧ later.tree.metadata.map TreeMetadata.subTreeCount = some 4 := by
  obtain ⟨db, reached, root, isMetadata⟩ := reached_sample
  obtain ⟨never, ofReached⟩ := newIndexedTree_again isMetadata
  obtain ⟨keeps, succeeds⟩ := ofReached rfl Nat.zero_le reached
  obtain ⟨later, ran⟩ := succeeds (by decide : 3 < 2 ^ 2)
  exact ⟨db, root, reached, isMetadata, later, ran, fun same => never (same ▸ ran), keeps later ran⟩

/-- One value inserted and the process restarted: the count and the root have moved. -/
theorem newIndexedTree_restarted : ∃ (start db later : IndexedDb ℕ) (root : ℕ),
    (newIndexedTree (fun a b c => a + b + c + 1) toyNode 2 0).run .empty = (.ok (), start) ∧
    (insertLeaves (fun a b c => a + b + c + 1) toyNode [5]).run start = (.ok root, db) ∧
    (newIndexedTree (fun a b c => a + b + c + 1) toyNode 2 0).run db = (.ok (), later) ∧
    db.tree.metadata.map TreeMetadata.subTreeCount = some 2 ∧
    later.tree.metadata.map TreeMetadata.subTreeCount = some 3 ∧
    db.tree.metadata.map TreeMetadata.root ≠ later.tree.metadata.map TreeMetadata.root ∧
    db.tree.nodes 0 ≠ later.tree.nodes 0 :=
  ⟨_, _, _, _, rfl, rfl, rfl, rfl, rfl, by decide, by decide⟩

end

section

omit [LinearOrder F] [NatCast F] in
theorem updateSubTree_root {index : ℕ} {leaves : List F} {updateTree : Bool} {db later : MutableDb F} {root : F}
    (ran : (updateSubTree node index leaves updateTree).run db = (.ok root, later)) :
    later.metadata.map TreeMetadata.root = some root := by
  simp only [updateSubTree, bind_eq_ok] at ran
  obtain ⟨metadata, _, _, _, _, _, _, _, _, ran⟩ := ran
  split at ran
  · cases ran
  · split at ran
    · cases ran
    · split at ran
      · cases ran
      · simp only [bind_eq_ok] at ran
        obtain ⟨_, _, _, _, _, _, _, _, _, hash, _, _, _, _, _, _, _, stored, isRoot⟩ := ran
        cases stored
        cases isRoot
        rfl

omit [LinearOrder F] [NatCast F] in
theorem foldlM_updateLow_root {infos : List (F × ℕ)} (nonempty : infos ≠ []) {start root : F} {db later : IndexedDb F}
    (ran : (infos.foldlM (updateLow node) start).run db = (.ok root, later)) :
    later.tree.metadata.map TreeMetadata.root = some root := by
  induction infos generalizing start db with
  | nil => exact absurd rfl nonempty
  | cons info rest ih =>
    rw [foldlM_cons, bind_eq_ok] at ran
    obtain ⟨middle, between, first, ran⟩ := ran
    by_cases last : rest = []
    · subst last
      cases ran
      rw [updateLow, onTree, zoom_eq_ok] at first
      obtain ⟨tree, isTree, rfl⟩ := first
      exact updateSubTree_root isTree
    · exact ih last ran

variable [ToString F] {values : List F} {db later : IndexedDb F} {root : F}

omit [NatCast F] in
theorem storeLeaves_low {index : ℕ} (nonzero : ∃ v ∈ values, v ≠ 0)
    (ran : (storeLeaves index values).run db = (.ok (), later)) :
    ∃ v ∈ values, ((db.leaves.filter fun leaf => leaf.value < v).argmax IndexedLeaf.value).isSome := by
  induction values generalizing index with
  | nil => simp at nonzero
  | cons v rest ih =>
    rw [storeLeaves, bind_eq_ok] at ran
    obtain ⟨_, between, isFirst, ran⟩ := ran
    rw [storeNonzero] at isFirst
    split at isFirst
    · rename_i isZero
      cases isFirst
      obtain ⟨w, member, found⟩ := ih (by simpa [isZero] using nonzero) ran
      exact ⟨w, mem_cons_of_mem _ member, found⟩
    · refine ⟨v, mem_cons_self, ?_⟩
      obtain ⟨stored, _, isStored, isSome⟩ := bind_eq_ok.mp isFirst
      rw [storeLeaf, getLeaf, reads_bind] at isStored
      split at isStored
      · cases isStored
        cases isSome
      · rw [getLowLeaf, reads_bind] at isStored
        split at isStored
        · cases isStored
        · rename_i isLow
          simp [isLow]

/-- The returned root is that of the last low leaf patched, and a nonzero value has one. -/
theorem insertLeaves_patched_root (patched : values = [] ∨ ∃ v ∈ values, v ≠ 0)
    (ran : (insertLeaves hash node values).run db = (.ok root, later)) :
    later.tree.metadata.map TreeMetadata.root = some root := by
  rw [insertLeaves] at ran
  split at ran
  · rw [onTree, zoom_eq_ok] at ran
    obtain ⟨tree, isTree, rfl⟩ := ran
    obtain ⟨isRoot, rfl⟩ := getRoot_eq_ok.mp isTree
    exact isRoot
  · rename_i nonempty
    have nonzero : ∃ v ∈ values, v ≠ 0 := patched.resolve_left (by simpa using nonempty)
    simp only [bind_eq_ok] at ran
    obtain ⟨_, between, isChecked, lows, _, areLows, metadata, _, isMetadata, _, _, stored, leafValues, _,
      areLeaves, _, _, appended, infos, _, areInfos, ran⟩ := ran
    cases areLows.symm.trans (mapM_run fun v _ => reads_run _ _)
    obtain ⟨rfl, rfl⟩ := (moves_reads _ : Moves (Keeps id) findMetadata).ok isMetadata
    obtain ⟨v, member, found⟩ := storeLeaves_low nonzero stored
    obtain ⟨low, isLow⟩ := Option.isSome_iff_exists.mp found
    refine foldlM_updateLow_root ?_ ran
    rintro rfl
    have empty := eq_nil_of_length_eq_zero (mapM_length areInfos).symm
    have inside : low.value ∈ lowValues (values.map fun v =>
        (between.leaves.filter fun leaf => leaf.value < v).argmax IndexedLeaf.value) := by
      simpa [lowValues] using ⟨v, member, low, isLow, rfl⟩
    rw [empty] at inside
    cases inside

omit [NatCast F] [ToString F] in
theorem lowValues_zeros (least : ∀ x : F, 0 ≤ x) (areZeros : ∀ z ∈ values, z = 0) (table : List (IndexedLeaf F)) :
    lowValues (values.map fun v => (table.filter fun leaf => leaf.value < v).argmax IndexedLeaf.value) = [] := by
  have none : (values.map fun v => (table.filter fun leaf => leaf.value < v).argmax IndexedLeaf.value).filterMap
      (fun low => low.map IndexedLeaf.value) = [] := by
    rw [filterMap_eq_nil_iff]
    intro low member
    obtain ⟨z, isValue, rfl⟩ := mem_map.mp member
    have unmatched : (table.filter fun leaf => leaf.value < z) = [] := by
      rw [filter_eq_nil_iff]
      intro leaf _
      simpa [areZeros z isValue] using least leaf.value
    rw [unmatched, argmax_nil]
    rfl
  rw [lowValues, none]
  rfl

theorem insertLeaves_zeros_returns (least : ∀ x : F, 0 ≤ x) (nonempty : values ≠ []) (areZeros : ∀ z ∈ values, z = 0)
    (ran : (insertLeaves hash node values).run db = (.ok root, later)) : root = 0 := by
  rw [insertLeaves, if_neg (by simpa using nonempty)] at ran
  simp only [bind_eq_ok] at ran
  obtain ⟨_, between, isChecked, lows, _, areLows, metadata, _, isMetadata, _, _, stored, leafValues, _,
    areLeaves, _, _, appended, infos, _, areInfos, ran⟩ := ran
  cases areLows.symm.trans (mapM_run fun v _ => reads_run _ _)
  rw [lowValues_zeros least areZeros] at areInfos
  cases areInfos
  cases ran
  rfl

/-- A list of zeros patches no low leaf and gets the zero the fold starts from. -/
theorem insertLeaves_returns_root (least : ∀ x : F, 0 ≤ x)
    (ran : (insertLeaves hash node values).run db = (.ok root, later)) :
    MutableTree.getRoot.run later.tree = (.ok root, later.tree) ↔
      values = [] ∨ (∃ v ∈ values, v ≠ 0) ∨ later.tree.metadata.map TreeMetadata.root = some 0 := by
  rw [getRoot_eq_ok, and_iff_left rfl]
  by_cases patched : values = [] ∨ ∃ v ∈ values, v ≠ 0
  · exact iff_of_true (insertLeaves_patched_root patched ran) (or_assoc.mp (.inl patched))
  · obtain ⟨nonempty, zeros⟩ := not_or.mp patched
    have areZeros : ∀ z ∈ values, z = 0 := fun z member => not_not.mp fun nonzero => zeros ⟨z, member, nonzero⟩
    rw [insertLeaves_zeros_returns least nonempty areZeros ran, or_iff_right nonempty, or_iff_right zeros]

theorem insertLeaves_returns_root_two : ∃ db later : IndexedDb ℕ,
    (newIndexedTree (fun a b c => a + b + c + 1) toyNode 2 1).run .empty = (.ok (), db) ∧
    (insertLeaves (fun a b c => a + b + c + 1) toyNode [0, 5]).run db = (.ok 33, later) ∧
    MutableTree.getRoot.run later.tree = (.ok 33, later.tree) := by
  obtain ⟨db, later, isNew, ran⟩ : ∃ db later : IndexedDb ℕ, (newIndexedTree (fun a b c => a + b + c + 1)
      toyNode 2 1).run .empty = (.ok (), db) ∧ (insertLeaves (fun a b c => a + b + c + 1)
      toyNode [0, 5]).run db = (.ok 33, later) := ⟨_, _, rfl, rfl⟩
  exact ⟨db, later, isNew, ran, (insertLeaves_returns_root Nat.zero_le ran).mpr (.inr (.inl ⟨5, by decide⟩))⟩

/-- A batch of zeros: nothing is patched, and zero is returned whatever the root is. -/
theorem insertLeaves_zeros_root : ∃ db later : IndexedDb ℕ,
    (newIndexedTree (fun a b c => a + b + c + 1) toyNode 2 1).run .empty = (.ok (), db) ∧
    (insertLeaves (fun a b c => a + b + c + 1) toyNode [0, 0]).run db = (.ok 0, later) ∧
    MutableTree.getRoot.run later.tree = (.ok 1, later.tree) :=
  ⟨_, _, rfl, rfl, rfl⟩

end

section

variable {zeros : List ℕ}

theorem insertLeaves_wide (areZeros : ∀ z ∈ zeros, z = 0) (many : zeros.length + 1 = 2 ^ 32) :
    ∃ (db later : IndexedDb ℕ) (root : ℕ) (leaf : IndexedLeaf ℕ),
      (newIndexedTree toyLeaf toyNode 1 32).run .empty = (.ok (), db) ∧
      (insertLeaves toyLeaf toyNode (5 :: zeros)).run db = (.ok root, later) ∧
      leaf ∈ later.leaves ∧ leaf.id = 1 ∧ hashLeaf toyLeaf leaf = 5 ∧
      (MutableTree.getNode (slot 33 1)).run later.tree = (.ok 0, later.tree) := by
  obtain ⟨db, isNew, consistent⟩ := @newIndexedTree_run ℕ _ _ _ toyLeaf toyNode 1 32 rfl (by decide)
  have isAdded : [(⟨5, 1⟩ : Entry ℕ)] = placedMod (2 ^ 32) (insertIndex ⟨1, 32, 1, levels toyNode
      (1 + 32) (leafAt toyLeaf [⟨0, 0⟩]) 0⟩) (5 :: zeros) := by
    rw [placedMod, if_neg (by decide), placedMod_zeros areZeros]
    rfl
  have separate : Separate ([⟨0, 0⟩] ++ [(⟨5, 1⟩ : Entry ℕ)]) := ⟨by simp, by decide, by decide⟩
  have isLength : (5 :: zeros).length = 2 ^ 32 := many
  obtain ⟨root, later, tree, ran, isTable, holds, -, -, -, isOld⟩ := insertLeaves_stored
    (fun x => Nat.zero_le x) consistent (by decide) (cons_ne_nil 5 zeros) consistent.tree.metadata isAdded
    separate ⟨1, isLength.trans (Nat.mul_one _).symm⟩ (by rw [isLength]; decide)
  have isFree : tree 1 = 0 := by
    rw [isOld 1 (Or.inl (by decide)), leafAt_free (by decide)]
    rintro entry ⟨_, _, isLow⟩
    rw [mem_singleton.mp isLow.member]
    decide
  refine ⟨db, later, root, ⟨5, 1, 0, 0⟩, isNew, ran, ?_, rfl, rfl, ?_⟩
  · rw [isTable]
    decide
  · rw [holds.getNode (by decide) (by decide) (by decide)]
    exact congrArg (fun value => (Except.ok value, later.tree)) isFree

theorem insertLeaves_misplaced : ∃ (db later : IndexedDb ℕ) (root : ℕ) (leaf : IndexedLeaf ℕ),
    (newIndexedTree toyLeaf toyNode 1 32).run .empty = (.ok (), db) ∧
    (insertLeaves toyLeaf toyNode (5 :: List.replicate (2 ^ 32 - 1) 0)).run db = (.ok root, later) ∧
    leaf ∈ later.leaves ∧ leaf.id = 1 ∧ hashLeaf toyLeaf leaf = 5 ∧
    (MutableTree.getNode (slot 33 1)).run later.tree = (.ok 0, later.tree) := by
  apply insertLeaves_wide
  · exact fun z member => eq_of_mem_replicate member
  · rw [length_replicate]
    decide

end

end Nightfall.MerkleTrees.IndexedTree
