import Nightfall.MerkleTrees.MutableRuns

/-! Calls of the mutable tree with `update_tree` unset. Their nodes stay in the cache until a call
that updates the tree moves them over the stored ones, so such a run is undone only by the same
append with `update_tree` set. -/

namespace Nightfall.MerkleTrees.MutableTree

open Merkle Store Store.Program

variable {F : Type} [Zero F] {node : F → F → F}

variable (node) in
def runAll : List (Operation F) → MutableDb F → List (Except Failure F) × MutableDb F
  | [], db => ([], db)
  | operation :: rest, db =>
    let ran := (perform node operation).run db
    let others := runAll rest ran.2
    (ran.1 :: others.1, others.2)

section

variable {top sub count : ℕ} {leaves : ℕ → F} {db : MutableDb F} {batch : List F}

section

variable (holds : Holds node top sub count leaves db) (low : top + sub ≤ 62)

include holds low

theorem appendSubTrees_dryRun (aligned : 2 ^ sub ∣ batch.length) {total : ℕ}
    (isTotal : total = count + batch.length / 2 ^ sub) (nonempty : batch ≠ [])
    (room : total ≤ 2 ^ top) {tree : ℕ → F}
    (isTree : tree = writeAt 0 (count * 2 ^ sub) batch leaves) :
    ∃ after, (appendSubTrees node batch false).run db =
        (.ok (levels node (top + sub) tree 0, count * 2 ^ sub % 2 ^ 64),
          { db with cache := after }) ∧
      Heaped node (top + sub) (lookup { db with cache := after }) tree ∧
      Written (AppendTouches top sub count total) (heap node (top + sub) tree) db.cache after := by
  obtain ⟨after, ran, heaped, written⟩ :=
    appendSubTrees_stored holds low aligned isTotal (fun _ => room) isTree false nonempty
  refine ⟨after, ?_, heaped, written⟩
  rw [ran, storeAppended, if_neg (by decide), pure_run]
  rfl

theorem appendSubTrees_unchanged
    (idle : batch = [] ∨ ∃ failure, ((appendSubTrees node batch false).run db).1 = .error failure) :
    ((appendSubTrees node batch false).run db).2 = db := by
  by_cases empty : batch = []
  · rw [empty, appendSubTrees_nil holds.metadata (by omega)]
  · obtain ⟨failure, fails⟩ := idle.resolve_left empty
    by_cases aligned : 2 ^ sub ∣ batch.length
    · by_cases room : count + batch.length / 2 ^ sub ≤ 2 ^ top
      · obtain ⟨after, ran, -, -⟩ := appendSubTrees_dryRun holds low aligned rfl empty room rfl
        rw [ran] at fails
        cases fails
      · rw [appendSubTrees_full holds.metadata (by omega) aligned empty (not_le.mp room)]
    · rw [appendSubTrees_misaligned holds.metadata (by omega) aligned]

omit holds low in
theorem cached_of_heaped {height : ℕ} {tree : ℕ → F} (heaped : Heaped node height (lookup db) tree) (k : ℕ)
    (within : k < 2 ^ (height + 1) - 1) : db.cache k = none ∨ db.cache k = some (heap node height tree k) := by
  rw [← heaped_iff.mp heaped k within, lookup]
  cases db.cache k with
  | none => exact Or.inl rfl
  | some value => exact Or.inr rfl

theorem appendSubTrees_committed (aligned : 2 ^ sub ∣ batch.length) (nonempty : batch ≠ [])
    (room : count + batch.length / 2 ^ sub ≤ 2 ^ top) :
    (appendSubTrees node batch true).run ((appendSubTrees node batch false).run db).2 =
      (appendSubTrees node batch true).run db := by
  obtain ⟨cached, dry, heaped, inCache⟩ := appendSubTrees_dryRun holds low aligned rfl nonempty room rfl
  obtain ⟨later, direct, held, stored⟩ := appendSubTrees_run holds low aligned rfl (fun _ => room) rfl
  -- the cache has the whole batch, so every step of the second run reads the final tree
  obtain ⟨appended, last, ran, again⟩ := @foldlM_appendSubTree F _ node top sub count
    (levels node (top + sub) leaves 0)
    (fun _ => writeAt 0 (count * 2 ^ sub) batch leaves) true { db with cache := cached } low batch aligned
    (aligned_room aligned room) heaped (fun _ _ => cached_of_heaped heaped) fun values part rest isBatch => by
      rw [← isBatch, writeAt_again]
  have isCount : appended.subTreeCount = count + batch.length / 2 ^ sub :=
    aligned_total aligned again.counted
  obtain ⟨after, rfl, written⟩ := again.written
  rw [isCount] at written
  have flushed : Written (AppendTouches top sub count (count + batch.length / 2 ^ sub))
      (heap node (top + sub) (writeAt 0 (count * 2 ^ sub) batch leaves)) db.nodes
      fun k => (cached k).or (after k) := by
    constructor
    · intro k touched
      rw [inCache.inside k touched]
      rfl
    · intro k untouched
      rw [inCache.outside k untouched, holds.uncached, written.outside k untouched]
      rfl
  have isMetadata : MutableDb.metadata { db with cache := cached } = _ := holds.metadata
  rw [dry, direct, appendSubTrees_eq isMetadata (by omega) aligned nonempty, if_neg (not_lt.mpr room), bind_ok ran,
    storeAppended, if_pos rfl, again.hash nonempty, isCount]
  have isNodes := flushed.unique stored
  have isCache := funext held.uncached
  have isMetadata := held.metadata
  cases later
  cases isNodes
  cases isCache
  cases isMetadata
  rfl

end

theorem dryRun_invisible (holds : Holds node top sub count leaves db)
    (low : top + sub ≤ 62) (batch : List F) (operations : List (Operation F)) :
    (batch = [] ∨ (∃ failure, ((appendSubTrees node batch false).run db).1 = .error failure) ∨
      operations.head? = some (.appendSubTrees batch)) →
    runAll node operations ((appendSubTrees node batch false).run db).2 = runAll node operations db := by
  intro condition
  by_cases unchanged : batch = [] ∨ ∃ failure, ((appendSubTrees node batch false).run db).1 = .error failure
  · rw [appendSubTrees_unchanged holds low unchanged]
  · rw [not_or] at unchanged
    have isFirst := (condition.resolve_left unchanged.1).resolve_left unchanged.2
    obtain ⟨rest, rfl⟩ := List.head?_eq_some_iff.mp isFirst
    cases ran : ((appendSubTrees node batch false).run db).1 with
    | error failure => exact absurd ⟨failure, ran⟩ unchanged.2
    | ok result =>
      obtain ⟨aligned, room⟩ := appendSubTrees_fits holds.metadata (by omega) ran
      have same := appendSubTrees_committed holds low aligned unchanged.1 (room unchanged.1)
      simp only [runAll, perform, bind, same]

theorem dryRun_invisible_single : ∃ db, (newMutableTree 1 0).run (.empty : MutableDb ℕ) = (.ok (), db) ∧
      runAll toyNode [.appendSubTrees [1], .insertLeaf 2] ((appendSubTrees toyNode [1] false).run db).2 =
        runAll toyNode [.appendSubTrees [1], .insertLeaf 2] db := by
  obtain ⟨db, isNew, holds⟩ := @holds_new ℕ _ toyNode 1 0 rfl (by decide)
  exact ⟨db, isNew, dryRun_invisible holds (by decide) [1] _ (Or.inr (Or.inr rfl))⟩

/-- Other leaves, appended after a dry run. -/
theorem dryRun_visible : ∃ db, (newMutableTree 1 0).run (.empty : MutableDb ℕ) = (.ok (), db) ∧
      (runAll toyNode [.appendSubTrees [2], .appendSubTrees [3]]
          ((appendSubTrees toyNode [1] false).run db).2).1 = [.ok 2, .ok 7] ∧
      (runAll toyNode [.appendSubTrees [2], .appendSubTrees [3]] db).1 = [.ok 2, .ok 8] :=
  ⟨_, rfl, rfl, rfl⟩

end

end Nightfall.MerkleTrees.MutableTree
