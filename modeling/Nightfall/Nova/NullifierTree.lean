import Nightfall.Library.SparseTree
import Nightfall.Nova.IndexedTrees

/-! `NeptuneIMT`, the indexed Merkle tree of nullifiers, over its in-memory storage: the leaf
map of the tree, the two leaf maps of the storage and the sparse nodes, kept in step by
`insert_nullifier`. -/

namespace Nightfall.Nova

open Merkle NovaIndexedLeaf

inductive IMTError (F : Type) where
  | nullifierIsZero
  | nullifierExists (value : F)
  | treeIsEmpty
  | inconsistentLeafDB
deriving DecidableEq

structure NovaInsertionInfo (F : Type) where
  nullifier : F
  lowLeafIndex : ℕ
  newLeafIndex : ℕ

structure NullifierTreeMetadata (F : Type) where
  treeHeight : ℕ
  nextInsertIndex : ℕ
  root : F

structure InMemoryNullifierStorage (F : Type) where
  nodes : Nodes F
  leavesByValue : List (NovaIndexedLeaf F)
  leavesByIndex : ℕ → Option (NovaIndexedLeaf F)
  metadata : Option (NullifierTreeMetadata F)

structure NeptuneIMT (F : Type) where
  depth : ℕ
  leaves : ℕ → Option (F × F × F)
  nextInsertIndex : ℕ
  storage : InMemoryNullifierStorage F

variable {p : ℕ} [Fact p.Prime]

def maxByValue : List (NovaIndexedLeaf (ZMod p)) → Option (NovaIndexedLeaf (ZMod p))
  | [] => none
  | leaf :: rest =>
    match maxByValue rest with
    | none => some leaf
    | some other => if other.value.val < leaf.value.val then some leaf else some other

namespace InMemoryNullifierStorage

variable (storage : InMemoryNullifierStorage (ZMod p))

def new : InMemoryNullifierStorage (ZMod p) := ⟨.empty, [], fun _ => none, none⟩

def putLeaf (leaf : NovaIndexedLeaf (ZMod p)) : InMemoryNullifierStorage (ZMod p) :=
  { storage with
    leavesByValue := leaf :: storage.leavesByValue.filter fun other => other.value ≠ leaf.value
    leavesByIndex := Function.update storage.leavesByIndex leaf.index (some leaf) }

def getLeafByValue (value : ZMod p) : Option (NovaIndexedLeaf (ZMod p)) :=
  storage.leavesByValue.find? fun leaf => leaf.value = value

def getLowLeaf (needle : ZMod p) : Option (NovaIndexedLeaf (ZMod p)) :=
  maxByValue (storage.leavesByValue.filter fun leaf => leaf.value.val < needle.val)

end InMemoryNullifierStorage

namespace NeptuneIMT

variable (poseidon : Poseidon (ZMod p)) (imt : NeptuneIMT (ZMod p)) (storage : InMemoryNullifierStorage (ZMod p))

/-- The walk of `new` from the zero leaf, over its own map of nodes. -/
def newNodes : ℕ → ℕ → ℕ → Nodes (ZMod p) → Nodes (ZMod p)
  | 0, _, _, nodes => nodes
  | remaining + 1, level, index, nodes =>
    let sibling := zeroHash poseidon.hash2 0 level
    let current := (nodes level index).getD 0
    let parentHash :=
      if index % 2 = 1 then poseidon.hash2 sibling current else poseidon.hash2 current sibling
    newNodes remaining (level + 1) (index / 2) (nodes.put (level + 1) (index / 2) parentHash)

def new (depth : ℕ) (storage : InMemoryNullifierStorage (ZMod p)) : NeptuneIMT (ZMod p) :=
  let zeroLeafHash := poseidon.hash3 0 0 0
  let nodes := newNodes poseidon depth 0 0 (Nodes.empty.put 0 0 zeroLeafHash)
  { depth := depth
    leaves := Function.update (fun _ => none) 0 (some (0, 0, 0))
    nextInsertIndex := 1
    storage := InMemoryNullifierStorage.putLeaf
      { storage with
        nodes := fun level index => (nodes level index).or (storage.nodes level index)
        metadata := some ⟨depth, 1, (nodes depth 0).getD 0⟩ }
      ⟨0, 0, 0, 0⟩ }

def loadLeaf (leaves : ℕ → Option (ZMod p × ZMod p × ZMod p)) (index : ℕ) : ℕ → Option (ZMod p × ZMod p × ZMod p) :=
  match storage.leavesByIndex index with
  | some leaf => Function.update leaves leaf.index (some (leaf.value, leaf.nextIndex, leaf.nextValue))
  | none => leaves

def load : Option (NeptuneIMT (ZMod p)) :=
  storage.metadata.map fun metadata =>
    { depth := metadata.treeHeight
      leaves := (List.range metadata.nextInsertIndex).foldl (loadLeaf storage) fun _ => none
      nextInsertIndex := metadata.nextInsertIndex
      storage := storage }

def root : ZMod p :=
  imt.storage.nodes.get poseidon.hash2 0 imt.depth 0

def inclusionPath (treeIndex : ℕ) : List (MerklePathHop (ZMod p)) :=
  imt.storage.nodes.path poseidon.hash2 0 imt.depth 0 treeIndex

def rehashSubtree (leafIndex : ℕ) (newLeafHash : ZMod p) : NeptuneIMT (ZMod p) :=
  { imt with storage := { imt.storage with
    nodes := imt.storage.nodes.write poseidon.hash2 0 imt.depth leafIndex newLeafHash } }

def flushMetadata : NeptuneIMT (ZMod p) :=
  { imt with storage := { imt.storage with
    metadata := some ⟨imt.depth, imt.nextInsertIndex, imt.root poseidon⟩ } }

def getNonInclusionWitness (nullifier : ZMod p) :
    Except (IMTError (ZMod p)) (NovaIndexedLeaf (ZMod p) × ImtNonInclusionWitness (ZMod p)) :=
  if nullifier = 0 then .error .nullifierIsZero
  else if (imt.storage.getLeafByValue nullifier).isSome then .error (.nullifierExists nullifier)
  else match imt.storage.getLowLeaf nullifier with
    | none => .error .treeIsEmpty
    | some lowLeaf =>
      match imt.leaves lowLeaf.index with
      | none => .error .inconsistentLeafDB
      | some leaf => .ok (lowLeaf, ⟨nullifier, leaf.1, leaf.2.1, leaf.2.2, imt.inclusionPath poseidon lowLeaf.index⟩)

/-- Steps 2 to 6 of `insert_nullifier`, once the low leaf is found. -/
def insertBehind (lowLeaf : NovaIndexedLeaf (ZMod p)) (nullifier : ZMod p) : NeptuneIMT (ZMod p) :=
  let newLeafIndex := imt.nextInsertIndex
  let counted := { imt with nextInsertIndex := newLeafIndex + 1 }
  let repointed := rehashSubtree poseidon
    { counted with
      leaves := Function.update counted.leaves lowLeaf.index
        (some (lowLeaf.value, (newLeafIndex : ZMod p), nullifier)) }
    lowLeaf.index (imtLeafHashNative poseidon lowLeaf.value newLeafIndex nullifier)
  let inserted := rehashSubtree poseidon
    { repointed with
      leaves := Function.update repointed.leaves newLeafIndex
        (some (nullifier, lowLeaf.nextIndex, lowLeaf.nextValue)) }
    newLeafIndex (imtLeafHashNative poseidon nullifier lowLeaf.nextIndex lowLeaf.nextValue)
  flushMetadata poseidon
    { inserted with
      storage := (inserted.storage.putLeaf (lowLeaf.repointed nullifier newLeafIndex)).putLeaf
        (lowLeaf.successor nullifier newLeafIndex) }

def insertNullifier (nullifier : ZMod p) :
    Except (IMTError (ZMod p)) (NovaInsertionInfo (ZMod p)) × NeptuneIMT (ZMod p) :=
  if nullifier = 0 then (.error .nullifierIsZero, imt)
  else if (imt.storage.getLeafByValue nullifier).isSome then
    (.error (.nullifierExists nullifier), imt)
  else match imt.storage.getLowLeaf nullifier with
    | none => (.error .treeIsEmpty, imt)
    | some lowLeaf => (.ok ⟨nullifier, lowLeaf.index, imt.nextInsertIndex⟩,
        imt.insertBehind poseidon lowLeaf nullifier)

end NeptuneIMT

section

variable {leaves : List (NovaIndexedLeaf (ZMod p))}

omit [Fact p.Prime]

theorem maxByValue_eq_some {leaf : NovaIndexedLeaf (ZMod p)} (found : maxByValue leaves = some leaf) :
    leaf ∈ leaves ∧ ∀ other ∈ leaves, other.value.val ≤ leaf.value.val := by
  induction leaves generalizing leaf with
  | nil => simp [maxByValue] at found
  | cons first rest ih =>
    simp only [maxByValue] at found
    cases best : maxByValue rest with
    | none =>
      simp only [best, Option.some.injEq] at found
      subst found
      cases rest with
      | nil => simp
      | cons second rest =>
        simp only [maxByValue] at best
        split at best
        · simp at best
        · split at best <;> simp at best
    | some other =>
      obtain ⟨member, largest⟩ := ih best
      simp only [best] at found
      split at found
      · rename_i smaller
        obtain rfl := Option.some.inj found
        refine ⟨List.mem_cons_self, ?_⟩
        intro candidate candidateMember
        rcases List.mem_cons.mp candidateMember with rfl | later
        · exact le_rfl
        · exact (largest candidate later).trans smaller.le
      · rename_i notSmaller
        obtain rfl := Option.some.inj found
        refine ⟨List.mem_cons_of_mem _ member, ?_⟩
        intro candidate candidateMember
        rcases List.mem_cons.mp candidateMember with rfl | later
        · omega
        · exact largest candidate later

theorem maxByValue_eq_none (missing : maxByValue leaves = none) : leaves = [] := by
  cases leaves with
  | nil => rfl
  | cons first rest =>
    simp only [maxByValue] at missing
    split at missing
    · simp at missing
    · split at missing <;> simp at missing

end

end Nightfall.Nova
