import Nightfall.Field
import Nightfall.Nova.IndexedLeaves

/-! Indexed Merkle trees as the roots they have. As long as Poseidon does not collide on what is
hashed, a leaf that opens against the root is stored in the tree. -/

namespace Nightfall.Nova

open Merkle NovaIndexedLeaf

structure Poseidon.CollisionFree {F : Type} [Zero F] (poseidon : Poseidon F) (nodes : Set (F × F))
    (leaves : Set (F × F × F)) : Prop where
  hash2 : Set.InjOn (fun pair : F × F => poseidon.hash2 pair.1 pair.2) nodes
  hash3 : Set.InjOn (fun leaf : F × F × F => poseidon.hash3 leaf.1 leaf.2.1 leaf.2.2) leaves
  occupied : ∀ leaf ∈ leaves, poseidon.hash3 leaf.1 leaf.2.1 leaf.2.2 ≠ 0

theorem Poseidon.CollisionFree.mono {F : Type} [Zero F] {poseidon : Poseidon F} {nodes fewer : Set (F × F)}
    {leaves fewerLeaves : Set (F × F × F)} (free : poseidon.CollisionFree nodes leaves) (nodesSubset : fewer ⊆ nodes)
    (leavesSubset : fewerLeaves ⊆ leaves) : poseidon.CollisionFree fewer fewerLeaves :=
  ⟨free.hash2.mono nodesSubset, free.hash3.mono leavesSubset,
    fun leaf member => free.occupied leaf (leavesSubset member)⟩

variable {p : ℕ} [Fact p.Prime]

structure IndexedTree (p : ℕ) [Fact p.Prime] (depth : ℕ) where
  leaves : List (NovaIndexedLeaf (ZMod p))
  indexed : Indexed leaves
  inside : ∀ leaf ∈ leaves, leaf.index < 2 ^ depth

namespace IndexedTree

variable {depth : ℕ} (tree : IndexedTree p depth) (poseidon : Poseidon (ZMod p))

def values : List (ZMod p) := tree.leaves.map value

def hashes : ℕ → ZMod p := leafHashes poseidon tree.leaves

def root : ZMod p := levels poseidon.hash2 depth (tree.hashes poseidon) 0

def nodes : Set (ZMod p × ZMod p) := pairsBelow poseidon.hash2 depth (tree.hashes poseidon)

def triples : Set (ZMod p × ZMod p × ZMod p) := {leaf | ∃ stored ∈ tree.leaves, leaf = stored.triple}

theorem hashes_of_mem {leaf : NovaIndexedLeaf (ZMod p)} (member : leaf ∈ tree.leaves) :
    tree.hashes poseidon leaf.index = leaf.hash poseidon :=
  leafHashes_of_mem tree.indexed.distinct member

end IndexedTree

section

variable {poseidon : Poseidon (ZMod p)} {depth : ℕ} (tree : IndexedTree p depth)
  {path : List (MerklePathHop (ZMod p))}

theorem IndexedTree.stored_of_opened (leaf : ZMod p × ZMod p × ZMod p) (length : path.length = depth)
    (free : poseidon.CollisionFree
      (pathPairs poseidon.hash2 (poseidon.hash3 leaf.1 leaf.2.1 leaf.2.2) path ∪ tree.nodes poseidon)
      ({leaf} ∪ tree.triples))
    (opened : computeRoot poseidon.hash2 (poseidon.hash3 leaf.1 leaf.2.1 leaf.2.2) path = tree.root poseidon) :
    ∃ stored ∈ tree.leaves, stored.triple = leaf ∧ stored.index = pathIndex path ∧
      path = opening poseidon.hash2 depth (tree.hashes poseidon) stored.index := by
  obtain ⟨isHash, isOpening⟩ := opens_of_computeRoot poseidon.hash2 length free.hash2 opened
  rcases leafHashes_cases poseidon tree.leaves (pathIndex path) with
    empty | ⟨stored, member, isIndex, same⟩
  · exact (free.occupied leaf (Or.inl rfl) (isHash.trans empty)).elim
  · refine ⟨stored, member, ?_, isIndex, ?_⟩
    · exact free.hash3 (Or.inr ⟨stored, member, rfl⟩) (Or.inl rfl) (isHash.trans same).symm
    · rw [isIndex]
      exact isOpening

end

structure Inserts {depth : ℕ} (tree : IndexedTree p depth) (x : ZMod p)
    (low : NovaIndexedLeaf (ZMod p)) (index : ℕ) (result : IndexedTree p depth) : Prop where
  splits : ∃ before after, tree.leaves = before ++ low :: after ∧
    result.leaves = before ++ low.repointed x index :: low.successor x index :: after
  brackets : low.Brackets x
  empty : index ∉ tree.leaves.map NovaIndexedLeaf.index

section

variable {depth : ℕ} {tree result : IndexedTree p depth} {x : ZMod p}
  {low : NovaIndexedLeaf (ZMod p)} {index : ℕ} {leaves : List (NovaIndexedLeaf (ZMod p))}

section

variable (inserts : Inserts tree x low index result)
include inserts

theorem Inserts.hashes_eq (poseidon : Poseidon (ZMod p)) : result.hashes poseidon = Function.update
        (Function.update (tree.hashes poseidon) low.index ((low.repointed x index).hash poseidon))
        index ((low.successor x index).hash poseidon) := by
  obtain ⟨before, after, isTree, isResult⟩ := inserts.splits
  have indexed := tree.indexed
  have empty := inserts.empty
  rw [IndexedTree.hashes, IndexedTree.hashes, isTree, isResult]
  rw [isTree] at indexed empty
  exact leafHashes_insert indexed inserts.brackets empty

theorem Inserts.low_mem : low ∈ tree.leaves := by
  obtain ⟨before, after, isTree, _⟩ := inserts.splits
  simp [isTree]

theorem Inserts.successor_mem : low.successor x index ∈ result.leaves := by
  obtain ⟨before, after, _, isResult⟩ := inserts.splits
  simp [isResult]

theorem Inserts.index_mem {leaf : NovaIndexedLeaf (ZMod p)} (member : leaf ∈ tree.leaves) :
    ∃ stored ∈ result.leaves, stored.index = leaf.index := by
  obtain ⟨before, after, isTree, isResult⟩ := inserts.splits
  rw [isTree] at member
  rw [isResult]
  simp only [List.mem_append, List.mem_cons] at member ⊢
  rcases member with earlier | rfl | later
  · exact ⟨leaf, Or.inl earlier, rfl⟩
  · exact ⟨leaf.repointed x index, Or.inr (Or.inl rfl), rfl⟩
  · exact ⟨leaf, Or.inr (Or.inr (Or.inr later)), rfl⟩

end

theorem exists_inserts (member : low ∈ tree.leaves) (brackets : low.Brackets x)
    (empty : index ∉ tree.leaves.map NovaIndexedLeaf.index) (inside : index < 2 ^ depth) :
    ∃ result, Inserts tree x low index result := by
  obtain ⟨before, after, isTree⟩ := List.append_of_mem member
  have indexed := tree.indexed
  rw [isTree] at indexed
  have emptyHere := empty
  rw [isTree] at emptyHere
  refine ⟨⟨_, indexed.insert brackets emptyHere, ?_⟩, ⟨before, after, isTree, rfl⟩, brackets, empty⟩
  intro leaf leafMember
  have bounds : ∀ stored ∈ before ++ low :: after, stored.index < 2 ^ depth := by
    intro stored storedMember
    exact tree.inside stored (isTree ▸ storedMember)
  simp only [List.mem_append, List.mem_cons] at leafMember bounds
  rcases leafMember with earlier | rfl | rfl | later
  · exact bounds leaf (Or.inl earlier)
  · exact bounds low (Or.inr (Or.inl rfl))
  · exact inside
  · exact bounds leaf (Or.inr (Or.inr later))

variable (indexed : Indexed leaves) {first second : NovaIndexedLeaf (ZMod p)} (firstMember : first ∈ leaves)
  (secondMember : second ∈ leaves)
include indexed firstMember secondMember

theorem Indexed.eq_of_value_eq (same : first.value = second.value) : first = second :=
  List.inj_on_of_nodup_map indexed.values_nodup firstMember secondMember same

theorem Indexed.low_unique (firstBrackets : first.Brackets x) (secondBrackets : second.Brackets x) :
    first = second := by
  have notSmaller : ∀ low ∈ leaves, ∀ other ∈ leaves, low.Brackets x → other.Brackets x →
      ¬low.value.val < other.value.val := by
    intro low lowMember other otherMember lowBrackets otherBrackets smaller
    have between : low.Brackets other.value :=
      ⟨smaller, lowBrackets.2.imp_right otherBrackets.1.trans⟩
    exact indexed.not_mem_of_brackets lowMember between (List.mem_map_of_mem otherMember)
  apply indexed.eq_of_value_eq firstMember secondMember
  apply ZMod.val_injective p
  have left := notSmaller first firstMember second secondMember firstBrackets secondBrackets
  have right := notSmaller second secondMember first firstMember secondBrackets firstBrackets
  omega

end

section

def zeroLeaf : NovaIndexedLeaf Fr254 := ⟨0, 0, 0, 0⟩

theorem zeroLeaf_indexed : Indexed [zeroLeaf] where
  starts := rfl
  linked := .singleton _
  ends := by simp [zeroLeaf]
  distinct := List.nodup_singleton _

theorem zeroLeaf_inside {depth : ℕ} : ∀ leaf ∈ [zeroLeaf], leaf.index < 2 ^ depth := by
  intro leaf member
  obtain rfl := List.mem_singleton.mp member
  exact Nat.two_pow_pos depth

def zeroTree (depth : ℕ) : IndexedTree fr254Modulus depth :=
  ⟨[zeroLeaf], zeroLeaf_indexed, zeroLeaf_inside⟩

theorem zeroLeaf_brackets {x : Fr254} (nonzero : x ≠ 0) : zeroLeaf.Brackets x := by
  refine ⟨?_, Or.inl rfl⟩
  rw [zeroLeaf, ZMod.val_zero, Nat.pos_iff_ne_zero, Ne, ZMod.val_eq_zero]
  exact nonzero

def samplePoseidon : Poseidon Fr254 := ⟨fun a b => a + 2 * b, fun a b c => a + b + c + 1⟩

end

end Nightfall.Nova
