import Nightfall.MerkleTrees.IndexedRuns

/-! What a failed insertion leaves behind. Nothing is undone: an error before the first row is stored
leaves the database as it was, and one after that does not. -/

namespace Nightfall.MerkleTrees.IndexedTree

open Merkle Store Store.Program Tables MutableTree List

variable {F : Type} [LinearOrder F] [Zero F] [NatCast F] [ToString F] {hash : F → F → F → F}
  {node : F → F → F} {top sub : ℕ} {db later : IndexedDb F} {values inserted : List F}
  {failure : Failure} {findOne : FindOne F}

section

theorem insertLeaves_stored_unchanged {v : F} (member : v ∈ values) (nonzero : v ≠ 0)
    (stored : v ∈ db.leaves.map IndexedLeaf.value) :
    (insertLeaves hash node values).run db = (.error (.returned .leafExists), db) := by
  rw [insertLeaves, if_neg (by simpa using ne_nil_of_mem member)]
  exact bind_error (forM_refuseStored member nonzero stored)

theorem insertLeaves_unmade_unchanged (unmade : db.tree.metadata = none) :
    ∃ failure, (insertLeaves hash node values).run db = (.error failure, db) := by
  by_cases empty : values = []
  · subst empty
    have missing : MutableTree.getRoot.run db.tree = (.error (.returned .treeNotFound), db.tree) := by
      rw [getRoot, bind_error]
      rw [getMetadata, reads_run, unmade]
    exact ⟨_, onTree_error missing⟩
  · by_cases stored : ∃ v ∈ values, v ≠ 0 ∧ v ∈ db.leaves.map IndexedLeaf.value
    · obtain ⟨v, member, nonzero, isStored⟩ := stored
      exact ⟨_, insertLeaves_stored_unchanged member nonzero isStored⟩
    · have passed : (values.forM refuseStored).run db = (.ok ⟨⟩, db) :=
        forM_run fun v member => refuseStored_absent fun nonzero isStored => stored ⟨v, member, nonzero, isStored⟩
      have found : (values.mapM getLowLeaf).run db = _ := mapM_run fun v _ => reads_run _ _
      have missing : findMetadata.run db = (.error (.returned .itemNotFound), db) := by
        rw [findMetadata, reads_run, unmade]
      rw [insertLeaves, if_neg (by simpa using empty)]
      exact ⟨_, (bind_ok passed).trans ((bind_ok found).trans (bind_error missing))⟩

theorem insertLeaves_unchanged_iff (idle : node 0 0 = 0) (least : ∀ x : F, 0 ≤ x)
    (reached : Reached hash node top sub inserted db) (inRange : InRange db values)
    (ran : (insertLeaves hash node values).run db = (.error failure, later)) :
    later = db ↔ (∃ v ∈ values, v ≠ 0 ∧ v ∈ db.leaves.map IndexedLeaf.value) ∨ ∀ z ∈ values, z = 0 := by
  obtain ⟨low, count, entries, consistent, _⟩ := reached.consistent idle least
  have placedInRange := inRange.placed consistent.tree.metadata
  by_cases accepted : ((entries ++ placed (count * 2 ^ sub) values).map Entry.value).Nodup ∧
      2 ^ sub ∣ values.length ∧ (values ≠ [] → count + values.length / 2 ^ sub ≤ 2 ^ top)
  · obtain ⟨fresh, aligned, fits⟩ := accepted
    obtain ⟨_, _, succeeded, _⟩ := insertLeaves_inserts consistent least low placedInRange fresh aligned fits
    cases ran.symm.trans succeeded
  · obtain ⟨_, added, failed, unstored⟩ := insertLeaves_fails consistent least low placedInRange accepted
    cases ran.symm.trans failed
    rw [← unstored]
    constructor
    · intro same
      exact eq_nil_of_rows ((congrArg IndexedDb.leaves same).trans consistent.leaves)
    · rintro rfl
      rw [append_nil, ← consistent.leaves]

end

section

theorem foldlM_zeros (areZeros : ∀ z ∈ values, z = 0) (metadata : TreeMetadata F) (firstIndex : ℕ)
    (inserting : Inserting F) : ∃ next,
      (values.foldlM (insertNullifier hash node metadata firstIndex) inserting).run db = (.ok next, db) := by
  induction values generalizing inserting with
  | nil => exact ⟨inserting, rfl⟩
  | cons value rest ih =>
    obtain rfl := areZeros value mem_cons_self
    have skipped : (insertNullifier hash node metadata firstIndex inserting 0).run db =
        (.ok ⟨(inserting.initialIndex + 1) % 2 ^ 64,
          inserting.lowNullifiers ++ [(.ofLeaf .default, ⟨0, zeroPath metadata, 0⟩)]⟩, db) := by
      rw [insertNullifier, getLeaf, reads_bind, if_neg (by simp), if_neg (by simp), pure_run]
    rw [foldlM_cons, bind_ok skipped]
    exact ih (fun z member => areZeros z (mem_cons_of_mem _ member)) _

theorem insertNullifiers_unmade_unchanged (unmade : db.tree.metadata = none) :
    (insertNullifiersForCircuit hash node findOne values).run db = (.error (.returned .itemNotFound), db) := by
  have missing : findMetadata.run db = (.error (.returned .itemNotFound), db) := by
    rw [findMetadata, reads_run, unmade]
  exact bind_error missing

section

variable {metadata : TreeMetadata F} (made : db.tree.metadata = some metadata)
include made

theorem insertNullifiers_length_unchanged (partly : values.length ≠ 2 ^ metadata.subTreeHeight) :
    (insertNullifiersForCircuit hash node findOne values).run db =
      (.error (.returned .incorrectBatchSize), db) := by
  rw [insertNullifiersForCircuit, bind_ok (findMetadata_run made), if_pos partly.symm, fail_run]

theorem insertNullifiers_stored_unchanged {zeros rest : List F} {v : F} (areZeros : ∀ z ∈ zeros, z = 0)
    (nonzero : v ≠ 0) (stored : v ∈ db.leaves.map IndexedLeaf.value) :
    ∃ failure, (insertNullifiersForCircuit hash node findOne (zeros ++ v :: rest)).run db =
      (.error failure, db) := by
  by_cases whole : (zeros ++ v :: rest).length = 2 ^ metadata.subTreeHeight
  · refine ⟨.returned .leafExists, ?_⟩
    obtain ⟨next, skipped⟩ := @foldlM_zeros F _ _ _ _ hash node db zeros areZeros metadata
      (metadata.subTreeCount * 2 ^ metadata.subTreeHeight % 2 ^ 64)
      ⟨metadata.subTreeCount * 2 ^ metadata.subTreeHeight % 2 ^ 64, []⟩
    have stopped : ((zeros ++ v :: rest).foldlM (insertNullifier hash node metadata
        (metadata.subTreeCount * 2 ^ metadata.subTreeHeight % 2 ^ 64))
        ⟨metadata.subTreeCount * 2 ^ metadata.subTreeHeight % 2 ^ 64, []⟩).run db =
        (.error (.returned .leafExists), db) := by
      obtain ⟨leaf, found⟩ := exists_getLeaf stored
      rw [foldlM_append, bind_ok skipped, foldlM_cons, insertNullifier]
      exact bind_error (by rw [bind_ok found, if_pos ⟨rfl, nonzero⟩, fail_run])
    rw [insertNullifiersForCircuit, bind_ok (findMetadata_run made), if_neg (not_not.mpr whole.symm)]
    exact bind_error stopped
  · exact ⟨_, insertNullifiers_length_unchanged made whole⟩

end

theorem insertNullifiers_zeros_unchanged (idle : node 0 0 = 0) (least : ∀ x : F, 0 ≤ x)
    (reached : Reached hash node top sub inserted db) (areZeros : ∀ z ∈ values, z = 0)
    (ran : (insertNullifiersForCircuit hash node findOne values).run db = (.error failure, later)) :
    later = db := by
  obtain ⟨low, count, entries, consistent, _⟩ := reached.consistent idle least
  by_cases whole : values.length = 2 ^ sub
  · have nothing : placed (count * 2 ^ sub) values = [] := placed_zeros areZeros _
    have fresh : ((entries ++ placed (count * 2 ^ sub) values).map Entry.value).Nodup := by
      rw [nothing, append_nil]
      exact consistent.separate.values
    by_cases room : count < 2 ^ top
    · obtain ⟨_, _, succeeded, _⟩ := @insertNullifiersForCircuit_inserts F _ _ _ hash node _ _ _ _ _ _ findOne _
        least low consistent whole fresh room
      cases ran.symm.trans succeeded
    · have full : count = 2 ^ top := le_antisymm consistent.counted (not_lt.mp room)
      obtain ⟨next, skipped⟩ := @foldlM_zeros F _ _ _ _ hash node db values areZeros
        ⟨top, sub, count, levels node (top + sub) (leafAt hash entries) 0⟩
        (count * 2 ^ sub) ⟨count * 2 ^ sub, []⟩
      rcases consistent.foldlM least low whole _ with ⟨last, middle, looped, pending⟩ | ⟨_, duplicate⟩
      · cases skipped.symm.trans looped
        obtain ⟨finish, isCall⟩ := consistent.insertNullifiersForCircuit_eq low whole findOne skipped pending
        rw [bind_error (onTree_error (insertForCircuit_full pending.tree low findOne full
          (by rw [length_map, whole])))] at isCall
        cases ran.symm.trans isCall
        rfl
      · exact absurd fresh duplicate
  · have failed := @insertNullifiers_length_unchanged F _ _ _ _ hash node db values findOne _
      consistent.tree.metadata whole
    cases ran.symm.trans failed
    rfl

end

theorem insertNullifiers_unchanged_iff (idle : node 0 0 = 0) (least : ∀ x : F, 0 ≤ x)
    (reached : Reached hash node top sub inserted db)
    (ran : (insertNullifiersForCircuit hash node findOne values).run db = (.error failure, later)) :
    later = db ↔ values.length ≠ 2 ^ sub ∨
      (∃ zeros v rest, values = zeros ++ v :: rest ∧ (∀ z ∈ zeros, z = 0) ∧ v ≠ 0 ∧
        v ∈ db.leaves.map IndexedLeaf.value) ∨ ∀ z ∈ values, z = 0 := by
  obtain ⟨low, count, entries, consistent, _⟩ := reached.consistent idle least
  constructor
  · intro same
    by_cases whole : values.length = 2 ^ sub
    · by_cases accepted : ((entries ++ placed (count * 2 ^ sub) values).map Entry.value).Nodup ∧ count < 2 ^ top
      · obtain ⟨_, _, succeeded, _⟩ := @insertNullifiersForCircuit_inserts F _ _ _ hash node _ _ _ _ _ _ findOne _
          least low consistent whole accepted.1 accepted.2
        cases ran.symm.trans succeeded
      · obtain ⟨_, _, added, failed, isTable, early⟩ := @insertNullifiersForCircuit_fails F _ _ _ hash node _ _ _ _
          _ _ findOne _ least low consistent whole accepted
        cases ran.symm.trans failed
        rw [same, consistent.leaves] at isTable
        exact .inr (early (eq_nil_of_rows isTable.symm))
    · exact .inl whole
  · rintro (partly | ⟨zeros, v, rest, rfl, areZeros, nonzero, stored⟩ | areZeros)
    · cases ran.symm.trans (insertNullifiers_length_unchanged consistent.tree.metadata partly)
      rfl
    · obtain ⟨_, failed⟩ := @insertNullifiers_stored_unchanged F _ _ _ _ hash node db findOne _
        consistent.tree.metadata zeros rest v areZeros nonzero stored
      cases ran.symm.trans failed
      rfl
    · exact insertNullifiers_zeros_unchanged idle least reached areZeros ran

theorem insert_refused_unchanged (idle : node 0 0 = 0) (least : ∀ x : F, 0 ≤ x) :
    ((insertLeaves hash node values).run db = (.error failure, later) → (db.tree.metadata = none → later = db) ∧
      (Reached hash node top sub inserted db → InRange db values →
        (later = db ↔ (∃ v ∈ values, v ≠ 0 ∧ v ∈ db.leaves.map IndexedLeaf.value) ∨ ∀ z ∈ values, z = 0))) ∧
    ((insertNullifiersForCircuit hash node findOne values).run db = (.error failure, later) →
      (db.tree.metadata = none → later = db) ∧
      (Reached hash node top sub inserted db → (later = db ↔ values.length ≠ 2 ^ sub ∨
          (∃ zeros v rest, values = zeros ++ v :: rest ∧ (∀ z ∈ zeros, z = 0) ∧ v ≠ 0 ∧
            v ∈ db.leaves.map IndexedLeaf.value) ∨ ∀ z ∈ values, z = 0))) := by
  refine ⟨fun ran => ⟨fun unmade => ?_, fun reached inRange => ?_⟩, fun ran => ⟨fun unmade => ?_, fun reached => ?_⟩⟩
  · obtain ⟨_, failed⟩ := @insertLeaves_unmade_unchanged F _ _ _ _ hash node db values unmade
    cases ran.symm.trans failed
    rfl
  · exact insertLeaves_unchanged_iff idle least reached inRange ran
  · cases ran.symm.trans (insertNullifiers_unmade_unchanged unmade)
    rfl
  · exact insertNullifiers_unchanged_iff idle least reached ran

theorem insert_refused_unchanged_again : ∃ (start db later : IndexedDb ℕ) (root : ℕ) (failure : Failure),
    (newIndexedTree toyLeaf toyNode 2 1).run .empty = (.ok (), start) ∧
    (insertLeaves toyLeaf toyNode [5, 3]).run start = (.ok root, db) ∧
    (insertNullifiersForCircuit toyLeaf toyNode (fun _ _ => none) [0, 3]).run
      db = (.error failure, later) ∧ later = db := by
  have new : Reached toyLeaf toyNode 2 1 [] _ := .new rfl
  have batch : Reached toyLeaf toyNode 2 1 ([] ++ [5, 3]) _ :=
    .insertLeaves new (.of_length rfl (by decide)) rfl
  refine ⟨_, _, _, _, _, rfl, rfl, rfl, ?_⟩
  exact (((@insert_refused_unchanged ℕ _ _ _ _ toyLeaf toyNode 2 1 _ _ [0, 3]
    [5, 3] _ (fun _ _ => none) rfl fun x => Nat.zero_le x).2 rfl).2 batch).mpr
    (.inr (.inl ⟨[0], 3, [], rfl, by decide, by decide, by decide⟩))

/-- A value twice in the batch, a batch that is not a whole sub-tree, a full tree: the rows before the
error stay. -/
theorem insert_failed_changes : (∃ (db later : IndexedDb ℕ) (failure : Failure),
      (newIndexedTree toyLeaf toyNode 2 1).run .empty = (.ok (), db) ∧
      (insertLeaves toyLeaf toyNode [5, 5]).run db = (.error failure, later) ∧
      db.leaves.map IndexedLeaf.value = [0] ∧ later.leaves.map IndexedLeaf.value = [0, 5]) ∧
    (∃ (db later : IndexedDb ℕ), (newIndexedTree toyLeaf toyNode 2 1).run .empty = (.ok (), db) ∧
      (insertLeaves toyLeaf toyNode [5]).run db = (.error (.returned .incorrectBatchSize), later) ∧
      db.leaves.map IndexedLeaf.value = [0] ∧ later.leaves.map IndexedLeaf.value = [0, 5]) ∧
    (∃ (db later : IndexedDb ℕ), (newIndexedTree toyLeaf toyNode 0 1).run .empty = (.ok (), db) ∧
      (insertLeaves toyLeaf toyNode [5, 3]).run db = (.error (.returned .treeIsFull), later) ∧
      db.leaves.map IndexedLeaf.value = [0] ∧ later.leaves.map IndexedLeaf.value = [0, 5, 3]) ∧
    ∃ (db later : IndexedDb ℕ), (newIndexedTree toyLeaf toyNode 2 1).run .empty = (.ok (), db) ∧
      (insertNullifiersForCircuit toyLeaf toyNode (fun _ _ => none)
        [5, 5]).run db = (.error (.returned .leafExists), later) ∧
      db.leaves.map IndexedLeaf.value = [0] ∧ later.leaves.map IndexedLeaf.value = [0, 5] ∧
      db.tree.nodes 0 ≠ later.tree.nodes 0 :=
  ⟨⟨_, _, _, rfl, rfl, rfl, rfl⟩, ⟨_, _, rfl, rfl, rfl, rfl⟩, ⟨_, _, rfl, rfl, rfl, rfl⟩,
    ⟨_, _, rfl, rfl, rfl, rfl, by decide⟩⟩

end Nightfall.MerkleTrees.IndexedTree
