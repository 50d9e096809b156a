import Mathlib.Algebra.GroupWithZero.Nat
import Mathlib.Data.Nat.Log
import Nightfall.MerkleTrees.Helpers

/-! The mutable tree, whose nodes are stored one by one: a node that is not stored counts as zero. -/

namespace Nightfall.MerkleTrees

open Merkle Store Store.Program

structure PathElement (F : Type) where
  direction : Directions
  value : F
deriving DecidableEq

structure MembershipProof (F : Type) where
  nodeValue : F
  siblingPath : List (PathElement F)
  leafIndex : ℕ
deriving DecidableEq

def PathElement.step {F : Type} (element : PathElement F) : Merkle.PathElement F :=
  ⟨element.value, element.direction = .hashWithThisNodeOnLeft⟩

def MembershipProof.Verifies {F : Type} (treeHash : F → F → F) (proof : MembershipProof F) (root : F) : Prop :=
  computeRoot treeHash proof.nodeValue (proof.siblingPath.map PathElement.step) = root

structure CircuitInsertionInfo (F : Type) where
  oldRoot : F
  newRoot : F
  proof : MembershipProof F
  leafCount : ℕ
  leaves : List F

structure MutableDb (F : Type) where
  metadata : Option (TreeMetadata F)
  cache : ℕ → Option F
  nodes : ℕ → Option F

def MutableDb.empty {F : Type} : MutableDb F := ⟨none, fun _ => none, fun _ => none⟩

/-- `find_one` by value: some node with the value, in the order of the collection. -/
abbrev FindOne (F : Type) := (ℕ → Option F) → F → Option ℕ

structure FindOne.Lawful {F : Type} (findOne : FindOne F) : Prop where
  sound : ∀ nodes value index, findOne nodes value = some index → nodes index = some value
  complete : ∀ nodes value index, nodes index = some value → (findOne nodes value).isSome

def toBson (index : ℕ) : Except Failure ℕ :=
  if index < 2 ^ 63 then .ok index else .error (.returned .databaseError)

def checkedAddU32 (a b : ℕ) : Option ℕ := if a + b < 2 ^ 32 then some (a + b) else none

def nextPowerOfTwo (n : ℕ) : ℕ := 2 ^ Nat.clog 2 n

namespace MutableTree

section

variable {F : Type} (updateTree : Bool) (metadata : TreeMetadata F)

def getMetadata : Program Failure (MutableDb F) (TreeMetadata F) :=
  reads fun db =>
    match db.metadata with
    | some metadata => .ok metadata
    | none => .error (.returned .treeNotFound)

def getRoot : Program Failure (MutableDb F) F := do
  let metadata ← getMetadata
  pure metadata.root

def setNode (update : ℕ × F) : Program Failure (MutableDb F) Unit := do
  let index ← lift (toBson update.1)
  writes fun db =>
    if updateTree then { db with nodes := Function.update db.nodes index (some update.2) }
    else { db with cache := Function.update db.cache index (some update.2) }

def flushCache : Program Failure (MutableDb F) Unit :=
  writes fun db => ⟨db.metadata, fun _ => none, fun index => (db.cache index).or (db.nodes index)⟩

def flushIf : Program Failure (MutableDb F) Unit :=
  if updateTree then flushCache else pure ()

def setMetadata : Program Failure (MutableDb F) Unit :=
  writes fun db => { db with metadata := some metadata }

def storeMetadata : Program Failure (MutableDb F) Unit := do
  setMetadata metadata
  flushCache

def resetMutableTree : Program Failure (MutableDb F) Unit := writes fun _ => .empty

def isLeaf (findOne : FindOne F) (value : F) : Program Failure (MutableDb F) Bool := do
  let metadata ← getMetadata
  reads fun db =>
    match findOne db.nodes value with
    | none => .ok false
    | some index =>
      let height := metadata.treeHeight + metadata.subTreeHeight
      .ok (decide (2 ^ height - 1 ≤ index ∧ index ≤ (2 ^ (height + 1) % 2 ^ 64 + 2 ^ 64 - 2) % 2 ^ 64))

def subTreeRows (subTree : List F) : ℕ → ℕ → ℕ → ℕ → Except Failure (List (ℕ × F))
  | 0, _, _, _ => .ok []
  | rows + 1, nodeIndex, span, subTreeNodeIndex => do
      let row ← (List.range (span * 2)).mapM fun j => do
        let value ← atIndex subTree (subTreeNodeIndex + 1 + j)
        pure (nodeIndex * 2 + 1 + j, value)
      let below ← subTreeRows subTree rows (nodeIndex * 2 + 1) (span * 2) (subTreeNodeIndex + span * 2)
      pure (row ++ below)

def storeInserted (hash : F) : Program Failure (MutableDb F) Unit :=
  if updateTree then do
    let updatedSubTreeCount ← lift (okOr (checkedAdd metadata.subTreeCount 1) "sub_tree_count overflowed")
    storeMetadata { metadata with subTreeCount := updatedSubTreeCount, root := hash }
  else pure ()

structure Appended (F : Type) where
  hash : F
  subTreeCount : ℕ

def storeAppended (subTreeCapacity : ℕ) (appended : Appended F) : Program Failure (MutableDb F) (F × ℕ) :=
  if updateTree then do
    storeMetadata { metadata with subTreeCount := appended.subTreeCount, root := appended.hash }
    pure (appended.hash, appended.subTreeCount * subTreeCapacity % 2 ^ 64)
  else pure (appended.hash, metadata.subTreeCount * subTreeCapacity % 2 ^ 64)

def heightToUse (leaves : List F) : Except Failure ℕ :=
  if Nat.log2 leaves.length = metadata.subTreeHeight then .ok metadata.treeHeight
  else okOr ((checkedAddU32 metadata.treeHeight metadata.subTreeHeight).bind fun h =>
    checkedSub h (Nat.log2 leaves.length)) "derived subtree height too large to compute indices"

def expecting {α : Type} (program : Program Failure (MutableDb F) α) : Program Failure (MutableDb F) α :=
  ⟨fun db =>
    match program.run db with
    | (.ok value, later) => (.ok value, later)
    | (.error _, later) => (.error .panicked, later)⟩

end

section

variable {F : Type} [Zero F] (treeHash : F → F → F)

def newMutableTree (treeHeight subTreeHeight : ℕ) : Program Failure (MutableDb F) Unit :=
  if 64 ≤ treeHeight ∨ 64 ≤ subTreeHeight then
    fail (.returned (.error "tree_height or sub_tree_height too large"))
  else if 64 ≤ treeHeight + subTreeHeight then
    fail (.returned (.error "combined tree height too large"))
  else
    writes fun db =>
      if db.metadata.isSome then db
      else { db with metadata := some ⟨treeHeight, subTreeHeight, 0, 0⟩ }

def lookup (db : MutableDb F) (index : ℕ) : F := ((db.cache index).or (db.nodes index)).getD 0

def getNode (index : ℕ) : Program Failure (MutableDb F) F := do
  let index ← lift (toBson index)
  reads fun db => .ok (lookup db index)

def hashUp (nodeIndex : ℕ) (hash : F) : Program Failure (MutableDb F) F :=
  if nodeIndex % 2 = 0 then do
    let left ← getNode (nodeIndex - 1)
    pure (treeHash left hash)
  else do
    let right ← getNode (nodeIndex + 1)
    pure (treeHash hash right)

def climb : ℕ → ℕ → F → Program Failure (MutableDb F) (F × List (ℕ × F))
  | 0, _, hash => pure (hash, [])
  | steps + 1, nodeIndex, hash => do
      let hash ← hashUp treeHash nodeIndex hash
      let above ← climb steps ((nodeIndex - 1) / 2) hash
      pure (above.1, ((nodeIndex - 1) / 2, hash) :: above.2)

/-- Hooks a sub-tree into the main tree: the path up from its root and the rows under it. The
nodes are written after all reads. -/
def hookSubTree (updateTree : Bool) (subTreeNodeIndex steps rows : ℕ) (subTree : List F) :
    Program Failure (MutableDb F) F := do
  let subTreeRoot ← lift (atIndex subTree 0)
  let above ← climb treeHash steps subTreeNodeIndex subTreeRoot
  let below ← lift (subTreeRows subTree rows subTreeNodeIndex 1 0)
  ((subTreeNodeIndex, subTreeRoot) :: (above.2 ++ below)).forM (setNode updateTree)
  pure above.1

def siblingElement (nodeIndex : ℕ) : Program Failure (MutableDb F) (PathElement F) :=
  if nodeIndex % 2 = 0 then do
    let value ← getNode (nodeIndex - 1)
    pure ⟨.hashWithThisNodeOnLeft, value⟩
  else do
    let value ← getNode (nodeIndex + 1)
    pure ⟨.hashWithThisNodeOnRight, value⟩

def siblingPath : ℕ → ℕ → Program Failure (MutableDb F) (List (PathElement F))
  | 0, _ => pure []
  | steps + 1, nodeIndex => do
      let element ← siblingElement nodeIndex
      let above ← siblingPath steps ((nodeIndex - 1) / 2)
      pure (element :: above)

end

section

variable {F : Type} [Zero F] (treeHash : F → F → F)

def insertLeaf (leaf : F) (updateTree : Bool) : Program Failure (MutableDb F) F := do
  let metadata ← getMetadata
  let totalHeight ← lift (okOr (checkedAddU32 metadata.treeHeight metadata.subTreeHeight)
    "combined tree height too large to compute node index")
  let baseIndex ← lift (okOr ((pow2U64 totalHeight).bind fun v => checkedSub v 1)
    "tree height too large to compute node index")
  let subTreeSpan ← lift (okOr (pow2U64 metadata.subTreeHeight) "sub_tree_height too large to compute node index")
  let offset ← lift (okOr (checkedMul subTreeSpan metadata.subTreeCount)
    "sub_tree_count too large to compute node index")
  let subTreeNodeIndex ← lift (okOr (checkedAdd baseIndex offset) "node index computation overflowed")
  let hash ← hookSubTree treeHash updateTree subTreeNodeIndex
    (metadata.treeHeight + metadata.subTreeHeight) 0 [leaf]
  storeInserted updateTree metadata hash
  pure hash

def appendSubTree (updateTree : Bool) (metadata : TreeMetadata F) (firstSubTreeIndexBase : ℕ)
    (appended : Appended F) (leafBatch : List F) : Program Failure (MutableDb F) (Appended F) := do
  let subTree ← lift (makeCompleteTree treeHash metadata.subTreeHeight leafBatch)
  let subTreeNodeIndex ← lift (okOr (checkedAdd firstSubTreeIndexBase appended.subTreeCount)
    "sub tree index too large to compute node index")
  let hash ← hookSubTree treeHash updateTree subTreeNodeIndex metadata.treeHeight metadata.subTreeHeight subTree
  let subTreeCount ← lift (okOr (checkedAdd appended.subTreeCount 1) "sub_tree_count overflowed")
  pure ⟨hash, subTreeCount⟩

def appendSubTrees (leaves : List F) (updateTree : Bool) : Program Failure (MutableDb F) (F × ℕ) := do
  let metadata ← getMetadata
  let subTreeCapacity ← lift (okOr (pow2Usize metadata.subTreeHeight)
    "sub_tree_height too large to compute sub tree capacity")
  if leaves.length % subTreeCapacity ≠ 0 then fail (.returned .incorrectBatchSize)
  else if leaves.isEmpty then
    pure (metadata.root, metadata.subTreeCount * subTreeCapacity % 2 ^ 64)
  else do
    let capacitySubtrees ← lift (okOr (pow2U64 metadata.treeHeight) "tree_height is too large to compute capacity")
    if ((checkedAdd metadata.subTreeCount (leaves.length / subTreeCapacity)).map
        fun total => decide (capacitySubtrees < total)).getD true then
      fail (.returned .treeIsFull)
    else do
      let firstSubTreeIndexBase ← lift (okOr ((pow2U64 metadata.treeHeight).bind fun v => checkedSub v 1)
        "tree_height is too large to compute sub tree base index")
      let appended ← (chunks subTreeCapacity leaves).foldlM
        (appendSubTree treeHash updateTree metadata firstSubTreeIndexBase) ⟨0, metadata.subTreeCount⟩
      storeAppended updateTree metadata subTreeCapacity appended

def firstLeafIndex (height : ℕ) : Except Failure ℕ :=
  okOr ((pow2U64 height).bind fun v => checkedSub v 1) "tree height too large to compute leaf index range"

def leafNodeIndex [DecidableEq F] (findOne : FindOne F) (height : ℕ) :
    Option F → Option ℕ → Program Failure (MutableDb F) ℕ
  | some leaf, none =>
    if leaf = 0 then fail (.returned (.error "Cannot search for the index of a zero leaf"))
    else reads fun db =>
      match findOne db.nodes leaf with
      | some index => .ok index
      | none => .error (.returned .itemNotFound)
  | _, some leafIndex => do
      let base ← lift (firstLeafIndex height)
      lift (okOr (checkedAdd leafIndex base) "leaf index too large to compute absolute index")
  | none, none => fail (.returned .itemNotFound)

def leafValue (leafNodeIndex : ℕ) : Option F → Program Failure (MutableDb F) F
  | some leaf => pure leaf
  | none => getNode leafNodeIndex

def getMembershipProof [DecidableEq F] (findOne : FindOne F) (leaf : Option F) (leafIndex : Option ℕ) :
    Program Failure (MutableDb F) (MembershipProof F) := do
  let metadata ← getMetadata
  let height := metadata.treeHeight + metadata.subTreeHeight
  let nodeIndex ← leafNodeIndex findOne height leaf leafIndex
  let first ← lift (firstLeafIndex height)
  let last ← lift (okOr ((pow2U64 (height + 1)).bind fun v => checkedSub v 2)
    "tree height too large to compute leaf index range")
  if nodeIndex < first ∨ last < nodeIndex then fail (.returned .invalidProof)
  else do
    let path ← siblingPath height nodeIndex
    let value ← leafValue nodeIndex leaf
    pure ⟨value, path, nodeIndex - first⟩

def updateSubTree (subTreeIndex : ℕ) (leaves : List F) (updateTree : Bool) : Program Failure (MutableDb F) F := do
  let metadata ← getMetadata
  let totalHeight ← lift (okOr (checkedAddU32 metadata.treeHeight metadata.subTreeHeight)
    "combined tree height too large to compute capacity")
  let treeCapacity ← lift (okOr (pow2U64 totalHeight) "tree height too large to compute capacity")
  if nextPowerOfTwo leaves.length ≠ leaves.length then fail (.returned .incorrectBatchSize)
  else if leaves.isEmpty then fail (.returned .noLeaves)
  else if treeCapacity ≤ subTreeIndex then fail (.returned .invalidIndex)
  else do
    let subTree ← lift (makeCompleteTree treeHash (Nat.log2 leaves.length) leaves)
    let heightToUse ← lift (heightToUse metadata leaves)
    let subTreeNodeIndex ← lift (okOr (((pow2U64 heightToUse).bind fun v => checkedSub v 1).bind
      fun base => checkedAdd base subTreeIndex) "subtree index too large to compute node index")
    let hash ← hookSubTree treeHash updateTree subTreeNodeIndex heightToUse
      (if leaves.length ≠ 1 then metadata.subTreeHeight else 0) subTree
    flushIf updateTree
    setMetadata { metadata with root := hash }
    pure hash

def insertForCircuit [DecidableEq F] (findOne : FindOne F) (commitments : List F) :
    Program Failure (MutableDb F) (CircuitInsertionInfo F) := do
  let oldMetadata ← getMetadata
  let expectedLen ← lift (okOr (pow2Usize oldMetadata.subTreeHeight)
    "sub_tree_height too large to compute capacity safely")
  if commitments.length ≠ expectedLen then fail (.returned .incorrectBatchSize)
  else do
    let leafIndex := oldMetadata.subTreeCount * expectedLen % 2 ^ 64
    let proofOfEmptiness ← getMembershipProof findOne none (some leafIndex)
    let proof : MembershipProof F :=
      ⟨0, proofOfEmptiness.siblingPath.drop oldMetadata.subTreeHeight, oldMetadata.subTreeCount⟩
    let inserted ← appendSubTrees treeHash commitments true
    pure ⟨oldMetadata.root, inserted.1, proof,
      oldMetadata.subTreeCount * expectedLen + commitments.length, commitments⟩

def batchInsertWithCircuitInfo [DecidableEq F] (findOne : FindOne F) (commitments : List F) :
    Program Failure (MutableDb F) (List (CircuitInsertionInfo F)) := do
  let metadata ← getMetadata
  let subTreeLeafCapacity ← lift (okOr (pow2Usize metadata.subTreeHeight)
    "sub_tree_height too large to compute capacity safely")
  if commitments.length % subTreeLeafCapacity ≠ 0 then fail (.returned .incorrectBatchSize)
  else (chunks subTreeLeafCapacity commitments).mapM fun chunk =>
    expecting (insertForCircuit treeHash findOne chunk)

end

end MutableTree

end Nightfall.MerkleTrees
