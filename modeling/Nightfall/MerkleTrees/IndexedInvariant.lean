import Nightfall.MerkleTrees.IndexedTable
import Nightfall.MerkleTrees.MutableMoves

/-! The indexed tree keeps its table and its nodes together: the leaf at the position of an entry is
the hash of the entry's row. -/

namespace Nightfall.MerkleTrees.IndexedTree

open Merkle Store Store.Program Tables MutableTree List

variable {F : Type} [LinearOrder F] [Zero F] [NatCast F] {hash : F → F → F → F} {node : F → F → F}

section

variable {entries added : List (Entry F)} {entry : Entry F}

variable (hash) in
def leafAt (entries : List (Entry F)) (i : ℕ) : F :=
  ((entries.find? fun entry => entry.index = i).map fun entry => hashLeaf hash (row entries entry)).getD 0

theorem leafAt_mem (indices : (entries.map Entry.index).Nodup) (member : entry ∈ entries) :
    leafAt hash entries entry.index = hashLeaf hash (row entries entry) := by
  rw [leafAt, find_key indices member, Option.map_some, Option.getD_some]

theorem leafAt_free {i : ℕ} (free : i ∉ entries.map Entry.index) : leafAt hash entries i = 0 := by
  rw [leafAt, find_key_none free, Option.map_none, Option.getD_none]

omit [Zero F] [NatCast F] in
def LowOf (entries : List (Entry F)) (values : List F) (entry : Entry F) : Prop :=
  ∃ v ∈ values, IsLow entries v entry

omit [NatCast F] in
theorem successor_extend (values : ((entries ++ added).map Entry.value).Nodup) (member : entry ∈ entries)
    (notLow : ¬LowOf entries (added.map Entry.value) entry) :
    successor (entries ++ added) entry.value = successor entries entry.value := by
  rcases successor_cases entries entry.value with ⟨isNone, largest⟩ | ⟨isMember, isAbove, smallest⟩
  · rw [isNone, successor_none]
    intro further furtherMember
    rcases mem_append.mp furtherMember with old | new
    · exact largest further old
    · by_contra above
      refine notLow ⟨further.value, mem_map_of_mem new, member, not_le.mp above, ?_⟩
      intro candidate candidateMember _
      exact largest candidate candidateMember
  · apply successor_eq values (mem_append_left _ isMember) isAbove
    intro further furtherMember furtherAbove
    rcases mem_append.mp furtherMember with old | new
    · exact smallest further old furtherAbove
    · by_contra between
      refine notLow ⟨further.value, mem_map_of_mem new, member, furtherAbove, ?_⟩
      intro candidate candidateMember below
      by_contra beyond
      exact between ((smallest candidate candidateMember (not_le.mp beyond)).trans below.le)

theorem leafAt_extend (separate : Separate (entries ++ added)) (indices : (entries.map Entry.index).Nodup)
    (member : entry ∈ entries) (notLow : ¬LowOf entries (added.map Entry.value) entry) :
    leafAt hash (entries ++ added) entry.index = leafAt hash entries entry.index := by
  rw [leafAt_mem separate.indices (mem_append_left _ member), leafAt_mem indices member, row, row,
    successor_extend separate.values member notLow]

end

section

variable {α : Type} {db : IndexedDb F} {program : Program Failure (MutableDb F) α} {later : MutableDb F}

omit [LinearOrder F] [Zero F] [NatCast F] in
theorem onTree_ok {value : α} (ran : program.run db.tree = (.ok value, later)) :
    (onTree program).run db = (.ok value, { db with tree := later }) :=
  zoom_ok ran

omit [LinearOrder F] [Zero F] [NatCast F] in
theorem onTree_error {failure : Failure} (ran : program.run db.tree = (.error failure, later)) :
    (onTree program).run db = (.error failure, { db with tree := later }) :=
  zoom_error ran

omit [LinearOrder F] [Zero F] [NatCast F] in
theorem findMetadata_run {metadata : TreeMetadata F} (isMetadata : db.tree.metadata = some metadata) :
    findMetadata.run db = (.ok metadata, db) := by
  rw [findMetadata, reads_run, isMetadata]

end

variable (hash node) in
structure Consistent (top sub count : ℕ) (entries : List (Entry F)) (db : IndexedDb F) : Prop where
  leaves : db.leaves = rows entries
  tree : Holds node top sub count (leafAt hash entries) db.tree
  separate : Separate entries
  below : ∀ entry ∈ entries, entry.index < count * 2 ^ sub
  counted : count ≤ 2 ^ top

section

variable {top sub : ℕ}

omit [NatCast F] in
theorem row_zero : row [⟨0, 0⟩] ⟨0, 0⟩ = (IndexedLeaf.default : IndexedLeaf F) := by
  have last : successor [⟨0, 0⟩] (0 : F) = ⟨0, 0⟩ := successor_none (by simp)
  rw [row, last]
  rfl

omit [LinearOrder F] [NatCast F] in
theorem separate_zero : Separate ([⟨0, 0⟩] : List (Entry F)) where
  zero := mem_singleton_self _
  values := nodup_singleton _
  indices := nodup_singleton _

theorem leafAt_zero : leafAt hash [⟨0, 0⟩] =
    writeAt 0 (0 * 2 ^ sub) [hashLeaf hash IndexedLeaf.default] fun _ => 0 := by
  funext i
  rw [writeAt, Nat.zero_mul, length_singleton]
  by_cases isZero : i = 0
  · subst isZero
    have first := @leafAt_mem F _ _ _ hash [⟨0, 0⟩] ⟨0, 0⟩ separate_zero.indices (mem_singleton_self _)
    rw [if_pos (by omega), first, row_zero]
    rfl
  · rw [if_neg (by omega), leafAt_free (by simpa using isZero)]

theorem newIndexedTree_eq {tree : MutableDb F} (isNew : (newMutableTree top sub).run .empty = (.ok (), tree)) :
    (newIndexedTree hash node top sub).run .empty =
      (onTree (insertLeaf node (hashLeaf hash IndexedLeaf.default) true) >>= fun _ => pure ()).run
        ⟨tree, [IndexedLeaf.default]⟩ := by
  have found : (getLeaf (some 0) none).run ⟨tree, [IndexedLeaf.default]⟩ =
      (.ok (some IndexedLeaf.default), ⟨tree, [IndexedLeaf.default]⟩) := by
    have stored := @getLeaf_stored F _ _ [⟨0, 0⟩] ⟨tree, [IndexedLeaf.default]⟩
      (by rw [rows, map_singleton, row_zero]) separate_zero.values ⟨0, 0⟩ (mem_singleton_self _)
    rwa [row_zero] at stored
  rw [newIndexedTree, bind_ok (onTree_ok isNew), newIndexedLeavesDb, bind_ok (writes_run _ _)]
  exact bind_ok found

theorem newIndexedTree_run (idle : node 0 0 = 0) (low : top + sub ≤ 62) :
    ∃ db, (newIndexedTree hash node top sub).run IndexedDb.empty = (.ok (), db) ∧
      Consistent hash node top sub 1 [⟨0, 0⟩] db := by
  obtain ⟨tree, isNew, holds⟩ := @holds_new F _ node top sub idle (by omega)
  obtain ⟨later, inserted, held, -⟩ := insertLeaf_run holds low (Nat.two_pow_pos _)
    (hashLeaf hash IndexedLeaf.default) (@leafAt_zero F _ _ _ hash sub)
  refine ⟨⟨later, [IndexedLeaf.default]⟩, ?_, ?_, held, separate_zero, ?_, Nat.one_le_two_pow⟩
  · exact (newIndexedTree_eq isNew).trans (bind_ok (onTree_ok inserted))
  · rw [rows, map_singleton, row_zero]
  · intro entry member
    rw [mem_singleton.mp member, Nat.one_mul]
    exact Nat.two_pow_pos _

end

section

variable {top sub count : ℕ} {entries : List (Entry F)} {db later : IndexedDb F} {values : List F}

def InsertTouches (top sub first last : ℕ) (entries : List (Entry F)) (values : List F) (k : ℕ) : Prop :=
  AppendTouches top sub first last k ∨ ∃ entry, LowOf entries (values.filter fun value => value ≠ 0) entry ∧
      Touches (top + sub) entry.index 0 k

variable (hash node) in
structure Inserts (top sub count : ℕ) (entries : List (Entry F)) (values : List F)
    (db later : IndexedDb F) : Prop where
  consistent : Consistent hash node top sub (count + values.length / 2 ^ sub)
    (entries ++ placed (count * 2 ^ sub) values) later
  moves : Moves node (top + sub) (InsertTouches top sub count (count + values.length / 2 ^ sub) entries values)
    (leafAt hash entries) (leafAt hash (entries ++ placed (count * 2 ^ sub) values))
    db.tree.nodes later.tree.nodes

theorem Inserts.unique {other : IndexedDb F} (first : Inserts hash node top sub count entries values db later)
    (second : Inserts hash node top sub count entries values db other) : later = other := by
  have isMetadata := first.consistent.tree.metadata.trans second.consistent.tree.metadata.symm
  have isCache : later.tree.cache = other.tree.cache := by
    rw [funext first.consistent.tree.uncached, funext second.consistent.tree.uncached]
  have isNodes := first.moves.unique second.moves
  have isLeaves := first.consistent.leaves.trans second.consistent.leaves.symm
  obtain ⟨⟨metadata, cache, nodes⟩, leaves⟩ := later
  cases isMetadata
  cases isCache
  cases isNodes
  cases isLeaves
  rfl

variable (consistent : Consistent hash node top sub count entries db)
include consistent

theorem Consistent.index_lt {entry : Entry F} (member : entry ∈ entries) : entry.index < 2 ^ (top + sub) := by
  rw [Nat.pow_add]
  exact (consistent.below entry member).trans_le (Nat.mul_le_mul_right _ consistent.counted)

theorem Consistent.index_small (low : top + sub ≤ 62) {entry : Entry F}
    (member : entry ∈ entries) : entry.index < 2 ^ 63 :=
  (consistent.index_lt member).trans_le (Nat.pow_le_pow_right (by decide) (by omega))

theorem Consistent.index_free {i : ℕ} (beyond : count * 2 ^ sub ≤ i) : i ∉ entries.map Entry.index := by
  rw [mem_map]
  rintro ⟨entry, member, rfl⟩
  exact absurd (consistent.below entry member) (not_lt.mpr beyond)

theorem Consistent.placed_indices : ((entries ++ placed (count * 2 ^ sub) values).map Entry.index).Nodup := by
  rw [map_append, nodup_append']
  refine ⟨consistent.separate.indices, IndexedTree.placed_indices _ _, ?_⟩
  intro i taken later
  rw [mem_map] at later
  obtain ⟨entry, member, rfl⟩ := later
  exact consistent.index_free (mem_placed member).1 taken

theorem Consistent.placed_separate (fresh : ((entries ++ placed (count * 2 ^ sub) values).map Entry.value).Nodup) :
    Separate (entries ++ placed (count * 2 ^ sub) values) :=
  ⟨mem_append_left _ consistent.separate.zero, fresh, consistent.placed_indices⟩

theorem Consistent.inserts_nil : Inserts hash node top sub count entries [] db db := by
  refine ⟨?_, ?_⟩
  · rw [length_nil, Nat.zero_div, Nat.add_zero, placed, append_nil]
    exact consistent
  · rw [length_nil, Nat.zero_div, Nat.add_zero, placed, append_nil]
    refine (Moves.refl _ _ _).congr ?_
    intro k
    refine ⟨False.elim, ?_⟩
    rintro (appended | ⟨entry, ⟨v, impossible, _⟩, _⟩)
    · exact appendTouches_none appended
    · exact absurd impossible not_mem_nil

theorem Consistent.leafAt_eq {tree : ℕ → F} (separate : Separate (entries ++ placed (count * 2 ^ sub) values))
    (isNew : ∀ i < values.length, tree (count * 2 ^ sub + i) =
      leafAt hash (entries ++ placed (count * 2 ^ sub) values) (count * 2 ^ sub + i))
    (isLow : ∀ entry, LowOf entries (values.filter fun value => value ≠ 0) entry →
      tree entry.index = leafAt hash (entries ++ placed (count * 2 ^ sub) values) entry.index)
    (isOld : ∀ i, (i < count * 2 ^ sub ∨ count * 2 ^ sub + values.length ≤ i) →
      (∀ entry, LowOf entries (values.filter fun value => value ≠ 0) entry → entry.index ≠ i) →
      tree i = leafAt hash entries i) :
    tree = leafAt hash (entries ++ placed (count * 2 ^ sub) values) := by
  funext i
  by_cases atLow : ∃ entry, LowOf entries (values.filter fun value => value ≠ 0) entry ∧ entry.index = i
  · obtain ⟨entry, low, rfl⟩ := atLow
    exact isLow entry low
  · have notLow : ∀ entry, LowOf entries (values.filter fun value => value ≠ 0) entry → entry.index ≠ i :=
      fun entry low same => atLow ⟨entry, low, same⟩
    by_cases inBatch : count * 2 ^ sub ≤ i ∧ i < count * 2 ^ sub + values.length
    · have split : i = count * 2 ^ sub + (i - count * 2 ^ sub) := by omega
      rw [split]
      exact isNew _ (by omega)
    · rw [isOld i (by omega) notLow]
      by_cases taken : i ∈ entries.map Entry.index
      · obtain ⟨entry, member, rfl⟩ := mem_map.mp taken
        refine (leafAt_extend separate consistent.separate.indices member ?_).symm
        rw [placed_values]
        exact fun low => notLow entry low rfl
      · rw [leafAt_free taken, leafAt_free]
        rw [map_append, mem_append, not_or]
        refine ⟨taken, ?_⟩
        rw [mem_map]
        rintro ⟨entry, member, rfl⟩
        have bounds := mem_placed member
        omega

end

end Nightfall.MerkleTrees.IndexedTree
