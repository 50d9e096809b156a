import Nightfall.MerkleTrees.MutableInvariant

/-! Runs of the mutable tree: the calls that update it, one after the other. -/

namespace Nightfall.MerkleTrees.MutableTree

open Merkle Store Store.Program

variable {F : Type} [Zero F] {node : F → F → F}

/-- A call with `update_tree` set. -/
inductive Operation (F : Type) where
  | appendSubTrees (leaves : List F)
  | insertLeaf (leaf : F)
  | updateSubTree (subTreeIndex : ℕ) (leaves : List F)

variable (node) in
def perform : Operation F → Program Failure (MutableDb F) F
  | .appendSubTrees leaves => do
      let result ← appendSubTrees node leaves true
      pure result.1
  | .insertLeaf leaf => insertLeaf node leaf true
  | .updateSubTree subTreeIndex leaves => updateSubTree node subTreeIndex leaves true

def Operation.subTrees (sub : ℕ) : Operation F → ℕ
  | .appendSubTrees leaves => leaves.length / 2 ^ sub
  | .insertLeaf _ => 1
  | .updateSubTree _ _ => 0

def Operation.Admitted (top sub count : ℕ) : Operation F → Prop
  | .appendSubTrees _ => True
  | .insertLeaf _ => count < 2 ^ top
  | .updateSubTree subTreeIndex leaves =>
    leaves.length = 1 ∨ leaves.length = 2 ^ sub ∧ subTreeIndex < 2 ^ top

variable (node) in
inductive Reached (top sub : ℕ) : ℕ → MutableDb F → Prop where
  | new {db : MutableDb F} (ran : (newMutableTree top sub).run .empty = (.ok (), db)) : Reached top sub 0 db
  | step {count : ℕ} {db later : MutableDb F} {operation : Operation F} {root : F}
      (reached : Reached top sub count db)
      (admitted : operation.Admitted top sub count)
      (ran : (perform node operation).run db = (.ok root, later)) :
      Reached top sub (count + operation.subTrees sub) later

section

variable {top sub count : ℕ} {leaves : ℕ → F} {db later : MutableDb F} {root : F}

section

variable (holds : Holds node top sub count leaves db) (low : top + sub ≤ 62)

include holds low

theorem appendSubTrees_holds {batch : List F} {result : F × ℕ}
    (ran : (appendSubTrees node batch true).run db = (.ok result, later)) :
    ∃ tree, Holds node top sub (count + batch.length / 2 ^ sub) tree later := by
  obtain ⟨aligned, room⟩ := appendSubTrees_fits holds.metadata (by omega) (congrArg Prod.fst ran)
  obtain ⟨after, succeeds, held, -⟩ := appendSubTrees_run holds low aligned rfl room rfl
  rw [succeeds] at ran
  cases ran
  exact ⟨_, held⟩

theorem updateSubTree_holds {index : ℕ} {values : List F}
    (admitted : values.length = 1 ∨ values.length = 2 ^ sub ∧ index < 2 ^ top)
    (ran : (updateSubTree node index values true).run db = (.ok root, later)) :
    ∃ tree, Holds node top sub count tree later := by
  rcases admitted with single | ⟨whole, inside⟩
  · by_cases inside : index < 2 ^ (top + sub)
    · obtain ⟨after, succeeds, held, -⟩ := updateSubTree_run holds low (Or.inl rfl)
        (Nat.add_zero (top + sub)) inside single rfl
      rw [succeeds] at ran
      cases ran
      exact ⟨_, held⟩
    · obtain ⟨_, refused⟩ := updateSubTree_rejected holds low (.inr (not_lt.mp inside))
      rw [refused] at ran
      cases ran
  · obtain ⟨after, succeeds, held, -⟩ := updateSubTree_run holds low (Or.inr rfl) rfl inside whole rfl
    rw [succeeds] at ran
    cases ran
    exact ⟨_, held⟩

theorem Holds.step {operation : Operation F} (admitted : operation.Admitted top sub count)
    (ran : (perform node operation).run db = (.ok root, later)) :
    ∃ tree, Holds node top sub (count + operation.subTrees sub) tree later := by
  cases operation with
  | appendSubTrees batch =>
    rw [perform, bind_eq_ok] at ran
    obtain ⟨result, after, appended, isResult⟩ := ran
    cases isResult
    exact appendSubTrees_holds holds low appended
  | insertLeaf leaf =>
    obtain ⟨after, succeeds, held, -⟩ := insertLeaf_run holds low admitted leaf rfl
    rw [perform, succeeds] at ran
    cases ran
    exact ⟨_, held⟩
  | updateSubTree index values => exact updateSubTree_holds holds low admitted ran

end

theorem Reached.holds (idle : node 0 0 = 0) (low : top + sub ≤ 62) (reached : Reached node top sub count db) :
    ∃ tree, Holds node top sub count tree db := by
  induction reached with
  | new ran =>
    obtain ⟨after, succeeds, held⟩ := @holds_new F _ node top sub idle (by omega)
    rw [succeeds] at ran
    cases ran
    exact ⟨_, held⟩
  | step _ admitted ran ih =>
    obtain ⟨tree, holds⟩ := ih
    exact holds.step low admitted ran

end

section

variable {top sub count : ℕ} {db : MutableDb F}

theorem Holds.getNode {leaves : ℕ → F} (holds : Holds node top sub count leaves db)
    (low : top + sub ≤ 62) {depth i : ℕ} (under : depth ≤ top + sub)
    (inside : i < 2 ^ depth) : (MutableTree.getNode (slot depth i)).run db =
      (.ok (levels node (top + sub - depth) leaves i), db) := by
  rw [getNode_run (slot_small low under inside), holds.heaped depth under i inside]

variable (db) in
def Hashed (node : F → F → F) (height : ℕ) : Prop :=
  ∀ k < 2 ^ height - 1, ∃ left right, (getNode (2 * k + 1)).run db = (.ok left, db) ∧
    (getNode (2 * k + 2)).run db = (.ok right, db) ∧ (getNode k).run db = (.ok (node left right), db)

theorem Holds.hashed {leaves : ℕ → F} (holds : Holds node top sub count leaves db)
    (low : top + sub ≤ 62) : Hashed db node (top + sub) := by
  intro k inner
  obtain ⟨depth, i, inside, rfl⟩ := exists_slot k
  have under := depth_lt_of_slot_lt inner
  have below : 2 * i + 1 < 2 ^ (depth + 1) := by
    omega
  have distance : top + sub - depth = top + sub - (depth + 1) + 1 := by omega
  have left := holds.getNode low under (show 2 * i < 2 ^ (depth + 1) by omega)
  have right := holds.getNode low under below
  rw [← slot_left] at left
  rw [← slot_right] at right
  refine ⟨_, _, left, right, ?_⟩
  rw [holds.getNode low under.le inside, distance, levels_succ]

theorem reached_consistent [DecidableEq F] (idle : node 0 0 = 0) (low : top + sub ≤ 62)
    (findOne : FindOne F) (reached : Reached node top sub count db) :
    Hashed db node (top + sub) ∧ ∃ root, db.metadata = some ⟨top, sub, count, root⟩ ∧
        (getNode 0).run db = (.ok root, db) ∧ getRoot.run db = (.ok root, db) ∧
        ∀ index < 2 ^ (top + sub), ∃ proof,
          (getMembershipProof findOne none (some index)).run db = (.ok proof, db) ∧ proof.leafIndex = index ∧
          (getNode (slot (top + sub) index)).run db = (.ok proof.nodeValue, db) ∧
          proof.Verifies node root := by
  obtain ⟨leaves, holds⟩ := reached.holds idle low
  refine ⟨holds.hashed low, _, holds.metadata, holds.getNode low (Nat.zero_le _) Nat.one_pos, ?_, ?_⟩
  · rw [getRoot, bind_ok (getMetadata_run holds.metadata), pure_run]
  · intro index inside
    obtain ⟨path, isProof, isOpening⟩ := getMembershipProof_run holds low findOne inside
    refine ⟨_, isProof, rfl, ?_, ?_⟩
    · rw [holds.getNode low (le_refl _) inside, Nat.sub_self]
      rfl
    · rw [MembershipProof.Verifies, isOpening, computeRoot_opening_inside node inside rfl]

def toyNode (a b : ℕ) : ℕ := a + 2 * b

theorem reached_consistent_updated : ∃ db, Reached toyNode 1 1 1 db ∧ Hashed db toyNode 2 := by
  have new : Reached toyNode 1 1 0 _ := .new rfl
  have appended := new.step (show (Operation.appendSubTrees [5, 6]).Admitted 1 1 0 from trivial) (Prod.ext rfl rfl)
  have updated := appended.step (show (Operation.updateSubTree 1 [7, 8]).Admitted 1 1 1 from Or.inr (by decide))
    (Prod.ext rfl rfl)
  exact ⟨_, updated, (reached_consistent rfl (by decide) (fun _ _ => none) updated).1⟩

/-- A whole sub-tree is hooked in past the last one, and a tree of height 63 has no proofs. -/
theorem updateSubTree_past_the_last :
    (∃ db, (do newMutableTree 1 1; perform toyNode (.updateSubTree 2 [1, 2])).run .empty =
        (.ok 5, db) ∧ db.metadata = some ⟨1, 1, 0, 5⟩ ∧ (getNode 0).run db = (.ok 0, db)) ∧
      ((do newMutableTree 63 0; getMembershipProof (fun _ _ => none) none (some 0)).run (.empty : MutableDb ℕ)).1 =
          .error (.returned (.error "tree height too large to compute leaf index range")) := by
  refine ⟨⟨_, Prod.ext rfl rfl, rfl, rfl⟩, rfl⟩

end

end Nightfall.MerkleTrees.MutableTree
