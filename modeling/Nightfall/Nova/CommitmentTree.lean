import Nightfall.Library.SparseTree
import Nightfall.Nova.Gadgets

/-! `NeptuneCommitmentTree`, the append-only tree of commitments, over its in-memory storage. -/

namespace Nightfall.Nova

open Merkle

structure CommitmentTreeMetadata (F : Type) where
  treeHeight : ℕ
  nextLeafIndex : ℕ
  root : F

structure InMemoryCommitmentStorage (F : Type) where
  nodes : Nodes F
  metadata : Option (CommitmentTreeMetadata F)

structure NeptuneCommitmentTree (F : Type) where
  depth : ℕ
  nextLeafIndex : ℕ
  storage : InMemoryCommitmentStorage F

def InMemoryCommitmentStorage.new {F : Type} : InMemoryCommitmentStorage F := ⟨.empty, none⟩

namespace NeptuneCommitmentTree

variable {F : Type} [Zero F] (poseidon : Poseidon F)

def new (depth : ℕ) (storage : InMemoryCommitmentStorage F) : NeptuneCommitmentTree F where
  depth := depth
  nextLeafIndex := 0
  storage := { storage with metadata := some ⟨depth, 0, zeroHash poseidon.hash2 0 depth⟩ }

omit [Zero F] in
def load (storage : InMemoryCommitmentStorage F) : Option (NeptuneCommitmentTree F) :=
  storage.metadata.map fun metadata => ⟨metadata.treeHeight, metadata.nextLeafIndex, storage⟩

def root (tree : NeptuneCommitmentTree F) : F := tree.storage.nodes.get poseidon.hash2 0 tree.depth 0

/-- The loop of `insert_at`: it collects the path and hashes the nodes above in one pass. -/
def insertLoop : ℕ → ℕ → ℕ → Nodes F → List (MerklePathHop F) → Nodes F × List (MerklePathHop F)
  | 0, _, _, nodes, path => (nodes, path)
  | remaining + 1, level, index, nodes, path =>
    insertLoop remaining (level + 1) (index / 2)
      (nodes.put (level + 1) (index / 2) (nodes.parent poseidon.hash2 0 level index))
      (path ++ [⟨nodes.get poseidon.hash2 0 level (sibling index), index % 2 = 1⟩])

def insertAt (tree : NeptuneCommitmentTree F) (leafIndex : ℕ) (leafValue : F) :
    List (MerklePathHop F) × NeptuneCommitmentTree F :=
  let inserted := insertLoop poseidon tree.depth 0 leafIndex (tree.storage.nodes.put 0 leafIndex leafValue) []
  (inserted.2, { tree with storage := { tree.storage with nodes := inserted.1 } })

def append (tree : NeptuneCommitmentTree F) (leaf : F) : (F × List (MerklePathHop F)) × NeptuneCommitmentTree F :=
  let leafIndex := tree.nextLeafIndex
  let inserted := insertAt poseidon { tree with nextLeafIndex := leafIndex + 1 } leafIndex leaf
  let newRoot := inserted.2.root poseidon
  ((newRoot, inserted.1), { inserted.2 with storage := { inserted.2.storage with
    metadata := some ⟨inserted.2.depth, inserted.2.nextLeafIndex, newRoot⟩ } })

def inclusionPath (tree : NeptuneCommitmentTree F) (leafIndex : ℕ) : List (MerklePathHop F) :=
  tree.storage.nodes.path poseidon.hash2 0 tree.depth 0 leafIndex

structure Consistent (tree : NeptuneCommitmentTree F) (leaves : List F) : Prop where
  nodes : tree.storage.nodes.Represents poseidon.hash2 0 tree.depth fun i => leaves.getD i 0
  count : tree.nextLeafIndex = leaves.length
  metadata : tree.storage.metadata = some ⟨tree.depth, tree.nextLeafIndex, tree.root poseidon⟩

variable {poseidon}

theorem insertLoop_eq (remaining level index : ℕ) (nodes : Nodes F) (path : List (MerklePathHop F)) :
    insertLoop poseidon remaining level index nodes path = (nodes.rehash poseidon.hash2 0 remaining level index,
        path ++ nodes.path poseidon.hash2 0 remaining level index) := by
  induction remaining generalizing level index nodes path with
  | zero => rw [insertLoop, Nodes.rehash, Nodes.path, List.append_nil]
  | succ remaining ih =>
    rw [insertLoop, ih, Nodes.path_put, Nodes.rehash, Nodes.path, List.append_assoc, List.singleton_append]

theorem new_consistent (depth : ℕ) : (new poseidon depth .new).Consistent poseidon [] where
  nodes := Nodes.empty_represents depth
  count := rfl
  metadata := rfl

section

variable {tree : NeptuneCommitmentTree F} {leaves : List F} (consistent : tree.Consistent poseidon leaves)

include tree leaves consistent

theorem Consistent.load_eq : load tree.storage = some tree := by
  rw [load, consistent.metadata, Option.map_some]

theorem Consistent.root_eq : tree.root poseidon = levels poseidon.hash2 tree.depth (fun i => leaves.getD i 0) 0 :=
  consistent.nodes.root_eq

theorem Consistent.append (leaf : F) : (tree.append poseidon leaf).2.Consistent poseidon (leaves ++ [leaf]) ∧
      (tree.append poseidon leaf).1 = ((tree.append poseidon leaf).2.root poseidon,
        opening poseidon.hash2 tree.depth (fun i => (leaves ++ [leaf]).getD i 0) leaves.length) := by
  have count := consistent.count
  refine ⟨⟨?_, ?_, rfl⟩, ?_⟩
  · have written := consistent.nodes.write leaves.length leaf
    rw [← getD_concat] at written
    rw [NeptuneCommitmentTree.append, insertAt, count]
    simp only [insertLoop_eq]
    exact written
  · change tree.nextLeafIndex + 1 = _
    rw [count, List.length_append, List.length_singleton]
  · have isPath : (tree.append poseidon leaf).1.2 =
        tree.storage.nodes.path poseidon.hash2 0 tree.depth 0 leaves.length := by
      rw [NeptuneCommitmentTree.append, insertAt, count]
      simp [insertLoop_eq, Nodes.path_put]
    rw [getD_concat, opening_update, ← consistent.nodes.opening_eq, ← isPath]
    rfl

theorem Consistent.append_opens (leaf : F) (room : leaves.length < 2 ^ tree.depth) :
    computeRoot poseidon.hash2 leaf (tree.append poseidon leaf).1.2 = (tree.append poseidon leaf).1.1 ∧
      pathIndex (tree.append poseidon leaf).1.2 = leaves.length := by
  obtain ⟨appended, returned⟩ := consistent.append leaf
  have isLeaf : (leaves ++ [leaf]).getD leaves.length 0 = leaf := by simp
  rw [returned]
  refine ⟨?_, ?_⟩
  · rw [computeRoot_opening_inside poseidon.hash2 room isLeaf]
    exact appended.root_eq.symm
  · rw [pathIndex_opening, Nat.mod_eq_of_lt room]

end

inductive Edit (F : Type)
  | append (leaf : F)
  | insertAt (leafIndex : ℕ) (leaf : F)

variable (poseidon) in
def perform (tree : NeptuneCommitmentTree F) : Edit F → NeptuneCommitmentTree F
  | .append leaf => (tree.append poseidon leaf).2
  | .insertAt leafIndex leaf => (tree.insertAt poseidon leafIndex leaf).2

omit [Zero F] in
/-- The edit of the leaves and their number, in place of the tree. -/
def Edit.replay (reference : (ℕ → F) × ℕ) : Edit F → (ℕ → F) × ℕ
  | .append leaf => (Function.update reference.1 reference.2 leaf, reference.2 + 1)
  | .insertAt leafIndex leaf => (Function.update reference.1 leafIndex leaf, reference.2)

variable (poseidon) in
/-- `insert_at` leaves the root of the metadata as it was. -/
structure Follows (depth : ℕ) (tree : NeptuneCommitmentTree F) (reference : (ℕ → F) × ℕ) : Prop where
  height : tree.depth = depth
  nodes : tree.storage.nodes.Represents poseidon.hash2 0 depth reference.1
  count : tree.nextLeafIndex = reference.2
  metadata : tree.storage.metadata.map (fun data => (data.treeHeight, data.nextLeafIndex)) = some (depth, reference.2)

theorem Follows.perform {depth : ℕ} {tree : NeptuneCommitmentTree F} {reference : (ℕ → F) × ℕ}
    (follows : Follows poseidon depth tree reference) (edit : Edit F) :
    Follows poseidon depth (tree.perform poseidon edit) (edit.replay reference) := by
  obtain ⟨rfl, nodes, count, metadata⟩ := follows
  cases edit with
  | append leaf =>
    refine ⟨rfl, ?_, congrArg (· + 1) count, congrArg (fun n => some (tree.depth, n + 1)) count⟩
    simp only [NeptuneCommitmentTree.perform, append, insertAt, insertLoop_eq, count]
    exact nodes.write reference.2 leaf
  | insertAt leafIndex leaf =>
    refine ⟨rfl, ?_, count, metadata⟩
    simp only [NeptuneCommitmentTree.perform, insertAt, insertLoop_eq]
    exact nodes.write leafIndex leaf

theorem edits_reference (depth : ℕ) (edits : List (Edit F)) :
    let tree := edits.foldl (perform poseidon) (new poseidon depth .new)
    let leaves := (edits.foldl Edit.replay (fun _ => 0, 0)).1
    tree.root poseidon = levels poseidon.hash2 depth leaves 0 ∧
      (∀ i < 2 ^ depth, computeRoot poseidon.hash2 (leaves i) (tree.inclusionPath poseidon i) = tree.root poseidon) ∧
      load tree.storage = some tree := by
  intro tree leaves
  obtain ⟨isDepth, nodes, count, metadata⟩ : Follows poseidon depth tree (edits.foldl Edit.replay (fun _ => 0, 0)) :=
    List.foldl_rel ⟨rfl, Nodes.empty_represents depth, rfl, rfl⟩ fun edit _ _ _ follows => follows.perform edit
  have isRoot : tree.root poseidon = levels poseidon.hash2 depth leaves 0 := by
    rw [root, isDepth]
    exact nodes.root_eq
  refine ⟨isRoot, ?_, ?_⟩
  · intro i inside
    rw [isRoot, inclusionPath, isDepth, nodes.opening_eq]
    exact computeRoot_opening_inside poseidon.hash2 inside rfl
  · obtain ⟨data, isData, same⟩ := Option.map_eq_some_iff.mp metadata
    obtain ⟨height, next⟩ := Prod.mk.inj same
    rw [load, isData, Option.map_some, height, next, ← isDepth, ← count]

end NeptuneCommitmentTree

end Nightfall.Nova
