import Mathlib.Data.List.Dedup
import Mathlib.Data.List.Sort
import Nightfall.Library.Tables
import Nightfall.MerkleTrees.Mutable

/-! The indexed tree: a mutable tree beside a table of leaves, each of which points to the leaf with
the next larger value. -/

namespace Nightfall.MerkleTrees

open Store Store.Program Tables

/-- A row of the table, under its `_id`. -/
structure IndexedLeaf (F : Type) where
  value : F
  id : ℕ
  nextIndex : ℕ
  nextValue : F
deriving DecidableEq

structure LeafDBEntry (F : Type) where
  value : F
  index : ℕ
  nextIndex : F
  nextValue : F
deriving DecidableEq

def IndexedLeaf.default {F : Type} [Zero F] : IndexedLeaf F := ⟨0, 0, 0, 0⟩

def LeafDBEntry.ofLeaf {F : Type} [NatCast F] (leaf : IndexedLeaf F) : LeafDBEntry F :=
  ⟨leaf.value, leaf.id, leaf.nextIndex, leaf.nextValue⟩

def LeafDBEntry.default {F : Type} [Zero F] : LeafDBEntry F := ⟨0, 0, 0, 0⟩

structure IMTCircuitInsertionInfo (F : Type) where
  oldRoot : F
  circuitInfo : CircuitInsertionInfo F
  firstIndex : ℕ
  lowNullifiers : List (LeafDBEntry F × MembershipProof F)
  pendingInserts : List (LeafDBEntry F)

structure IndexedDb (F : Type) where
  tree : MutableDb F
  leaves : List (IndexedLeaf F)

def IndexedDb.empty {F : Type} : IndexedDb F := ⟨.empty, []⟩

namespace IndexedTree

variable {F : Type} [LinearOrder F] [Zero F]

def onTree {α : Type} (program : Program Failure (MutableDb F) α) : Program Failure (IndexedDb F) α :=
  zoom IndexedDb.tree (fun db tree => { db with tree := tree }) program

section

def u64ToI64Checked (x : ℕ) : Except Failure ℕ :=
  if x < 2 ^ 63 then .ok x
  else .error (.returned (.error
    ("Index " ++ toString x ++ " exceeds i64::MAX (" ++ toString (2 ^ 63 - 1) ++ ") for BSON storage")))

def newIndexedLeavesDb : Program Failure (IndexedDb F) Unit :=
  writes fun db =>
    if db.leaves.any fun leaf => leaf.id = 0 then db else { db with leaves := db.leaves ++ [.default] }

def getLeaf (value nextValue : Option F) : Program Failure (IndexedDb F) (Option (IndexedLeaf F)) :=
  reads fun db => .ok (db.leaves.find? fun leaf =>
    value.all (fun v => leaf.value = v) && nextValue.all (fun v => leaf.nextValue = v))

def getLowLeaf (leafValue : F) : Program Failure (IndexedDb F) (Option (IndexedLeaf F)) :=
  reads fun db => .ok ((db.leaves.filter fun leaf => leaf.value < leafValue).argmax IndexedLeaf.value)

def updateLeaf (leaf : F) (newNextIndex : ℕ) (newNextValue : F) : Program Failure (IndexedDb F) Unit := do
  let bsonNextIndex ← lift (u64ToI64Checked newNextIndex)
  let matched ← reads fun db => .ok (db.leaves.any fun row => row.value = leaf)
  if matched then
    writes fun db => { db with
      leaves := updateFirst (fun row => row.value = leaf)
        (fun row => { row with nextIndex := bsonNextIndex, nextValue := newNextValue }) db.leaves }
  else fail (.returned (.error "Failed to update or upsert the node in the database"))

def upsertLeaf (entry : IndexedLeaf F) : Program Failure (IndexedDb F) Unit :=
  writes fun db => { db with
    leaves := if db.leaves.any fun row => row.id = entry.id then
        updateFirst (fun row => row.id = entry.id) (fun _ => entry) db.leaves
      else db.leaves ++ [entry] }

def insertEntry (leaf : F) (index : Option ℕ) (lowLeaf : IndexedLeaf F) : Program Failure (IndexedDb F) Unit := do
  let count ← reads fun db => .ok db.leaves.length
  let bsonIndex ← lift (u64ToI64Checked (index.getD count))
  let bsonNextIndex ← lift (u64ToI64Checked lowLeaf.nextIndex)
  upsertLeaf ⟨leaf, bsonIndex, bsonNextIndex, lowLeaf.nextValue⟩
  updateLeaf lowLeaf.value (index.getD count) leaf

def storeLeaf (leaf : F) (index : Option ℕ) : Program Failure (IndexedDb F) (Option Unit) := do
  let stored ← getLeaf (some leaf) none
  if stored.isSome then pure none
  else do
    let found ← getLowLeaf leaf
    match found with
    | none => fail (.returned .leafExists)
    | some lowLeaf => do
        insertEntry leaf index lowLeaf
        pure (some ())

end

variable [NatCast F] (hash : F → F → F → F) (treeHash : F → F → F)

def hashLeaf (leaf : IndexedLeaf F) : F := hash leaf.value leaf.nextIndex leaf.nextValue

def newIndexedTree (treeHeight subTreeHeight : ℕ) : Program Failure (IndexedDb F) Unit := do
  onTree (MutableTree.newMutableTree treeHeight subTreeHeight)
  newIndexedLeavesDb
  let entry ← getLeaf (some 0) none
  match entry with
  | none => fail (.returned .noLeaves)
  | some entry => do
      let _ ← onTree (MutableTree.insertLeaf treeHash (hashLeaf hash entry) true)
      pure ()

def findMetadata : Program Failure (IndexedDb F) (TreeMetadata F) :=
  reads fun db =>
    match db.tree.metadata with
    | some metadata => .ok metadata
    | none => .error (.returned .itemNotFound)

def getNonMembershipProof (leaf : F) : Program Failure (IndexedDb F) (MembershipProof F) := do
  if leaf = 0 then fail (.returned .leafExists)
  else do
    let stored ← getLeaf (some leaf) none
    if stored.isSome then fail (.returned .leafExists)
    else do
      let metadata ← findMetadata
      let height := metadata.treeHeight + metadata.subTreeHeight
      let found ← getLowLeaf leaf
      let lowNullifier ← lift (okOr found "Could not get low leaf")
      let path ← onTree (MutableTree.siblingPath height
        ((2 ^ height % 2 ^ 64 + (2 ^ 64 - 1) + lowNullifier.id) % 2 ^ 64))
      pure ⟨hashLeaf hash lowNullifier, path, lowNullifier.id⟩

section

variable [ToString F]

def toStringRep (value : F) : String := if value = 0 then "0" else toString value

def refuseStored (leaf : F) : Program Failure (IndexedDb F) Unit := do
  let stored ← getLeaf (some leaf) none
  if stored.isSome ∧ leaf ≠ 0 then fail (.returned .leafExists) else pure ()

def lowValues (lowLeaves : List (Option (IndexedLeaf F))) : List F :=
  ((lowLeaves.filterMap fun low => low.map IndexedLeaf.value).insertionSort (· ≤ ·)).dedup

def insertIndex (metadata : TreeMetadata F) : ℕ :=
  metadata.subTreeCount % 2 ^ 32 * 2 ^ (metadata.subTreeHeight % 32) % 2 ^ 32

def storeNonzero (innerLeaf : F) (index : ℕ) : Program Failure (IndexedDb F) Unit :=
  if innerLeaf = 0 then pure ()
  else do
    let stored ← storeLeaf innerLeaf (some index)
    lift (okOr stored ("Failed to store leaf " ++ toStringRep innerLeaf))

def storeLeaves : ℕ → List F → Program Failure (IndexedDb F) Unit
  | _, [] => pure ()
  | index, innerLeaf :: rest => do
      storeNonzero innerLeaf index
      storeLeaves ((index + 1) % 2 ^ 32) rest

def leafValue (leaf : F) : Program Failure (IndexedDb F) F := do
  let found ← getLeaf (some leaf) none
  let indexedLeaf ← lift (okOr found ("failed to get IndexedLeaf struct with value " ++ toString leaf))
  pure (if indexedLeaf.value = 0 then 0 else hashLeaf hash indexedLeaf)

def updateInfo (value : F) : Program Failure (IndexedDb F) (F × ℕ) := do
  let found ← getLeaf (some value) none
  match found with
  | none => fail (.returned .itemNotFound)
  | some leaf => pure (hashLeaf hash leaf, leaf.id)

def updateLow (_root : F) (info : F × ℕ) : Program Failure (IndexedDb F) F :=
  onTree (MutableTree.updateSubTree treeHash info.2 [info.1] true)

def insertLeaves (innerLeafValues : List F) : Program Failure (IndexedDb F) F :=
  if innerLeafValues.isEmpty then onTree MutableTree.getRoot
  else do
    innerLeafValues.forM refuseStored
    let lowLeaves ← innerLeafValues.mapM getLowLeaf
    let metadata ← findMetadata
    storeLeaves (insertIndex metadata) innerLeafValues
    let leafValues ← innerLeafValues.mapM (leafValue hash)
    let _ ← onTree (MutableTree.appendSubTrees treeHash leafValues true)
    let infos ← (lowValues lowLeaves).mapM (updateInfo hash)
    infos.foldlM (updateLow treeHash) 0

end

section

variable [ToString F] (metadata : TreeMetadata F)

structure Inserting (F : Type) where
  initialIndex : ℕ
  lowNullifiers : List (LeafDBEntry F × MembershipProof F)

def zeroPath : List (PathElement F) :=
  List.replicate (metadata.treeHeight + metadata.subTreeHeight) ⟨.hashWithThisNodeOnLeft, 0⟩

def insertBehindStored (lowNullifier : IndexedLeaf F) (innerValue : F) (index : ℕ) :
    Program Failure (IndexedDb F) (MembershipProof F) := do
  let proof ← getNonMembershipProof hash innerValue
  let stored ← storeLeaf innerValue (some index)
  lift (okOr stored "Could not store nullifier")
  let found ← getLeaf (some lowNullifier.value) none
  let updatedNullifier ← lift (okOr found "Could not get low nullifier")
  let _ ← onTree (MutableTree.updateSubTree treeHash updatedNullifier.id [hashLeaf hash updatedNullifier] true)
  pure proof

def insertBehindPending (lowNullifier : IndexedLeaf F) (innerValue : F)
    (index : ℕ) : Program Failure (IndexedDb F) (MembershipProof F) := do
  let stored ← storeLeaf innerValue (some index)
  lift (okOr stored "Could not store leaf")
  pure ⟨hashLeaf hash lowNullifier, zeroPath metadata, index⟩

def insertBehind (firstIndex : ℕ) (lowNullifier : IndexedLeaf F)
    (innerValue : F) (index : ℕ) : Program Failure (IndexedDb F) (MembershipProof F) :=
  if lowNullifier.id < firstIndex then insertBehindStored hash treeHash lowNullifier innerValue index
  else insertBehindPending hash metadata lowNullifier innerValue index

def insertNullifier (firstIndex : ℕ) (inserting : Inserting F)
    (innerValue : F) : Program Failure (IndexedDb F) (Inserting F) := do
  let stored ← getLeaf (some innerValue) none
  if stored.isSome ∧ innerValue ≠ 0 then fail (.returned .leafExists)
  else if innerValue ≠ 0 then do
    let found ← getLowLeaf innerValue
    let lowNullifier ← lift (okOr found ("Could not get low nullifier for inner value: " ++ toString innerValue))
    let proof ← insertBehind hash treeHash metadata firstIndex lowNullifier innerValue inserting.initialIndex
    pure ⟨(inserting.initialIndex + 1) % 2 ^ 64, inserting.lowNullifiers ++ [(.ofLeaf lowNullifier, proof)]⟩
  else
    pure ⟨(inserting.initialIndex + 1) % 2 ^ 64,
      inserting.lowNullifiers ++ [(.ofLeaf .default, ⟨0, zeroPath metadata, 0⟩)]⟩

def pendingInsert (innerValue : F) : Program Failure (IndexedDb F) (LeafDBEntry F) :=
  if innerValue ≠ 0 then do
    let found ← getLeaf (some innerValue) none
    let leaf ← lift (okOr found "Could not retrieve nullifier")
    pure (.ofLeaf leaf)
  else pure .default

def newLeafValue (entry : LeafDBEntry F) : F :=
  if entry.value ≠ 0 then hash entry.value entry.nextIndex entry.nextValue else 0

def insertNullifiersForCircuit (findOne : FindOne F) (leaves : List F) :
    Program Failure (IndexedDb F) (IMTCircuitInsertionInfo F) := do
  let metadata ← findMetadata
  if 2 ^ metadata.subTreeHeight ≠ leaves.length then fail (.returned .incorrectBatchSize)
  else do
    let firstIndex := metadata.subTreeCount * 2 ^ metadata.subTreeHeight % 2 ^ 64
    let inserted ← leaves.foldlM (insertNullifier hash treeHash metadata firstIndex) ⟨firstIndex, []⟩
    let pendingInserts ← leaves.mapM pendingInsert
    let circuitInfo ← onTree (MutableTree.insertForCircuit treeHash findOne
      (pendingInserts.map (newLeafValue hash)))
    pure ⟨metadata.root, circuitInfo, firstIndex, inserted.lowNullifiers, pendingInserts⟩

def allChunks {α : Type} (size : ℕ) (values : List α) : List (List α) :=
  chunks size values ++ if values.length % size = 0 then [] else [values.drop (values.length / size * size)]

def batchInsertNullifiersWithCircuitInfo (findOne : FindOne F) (nullifiers : List F) :
    Program Failure (IndexedDb F) (List (IMTCircuitInsertionInfo F)) :=
  if nullifiers.isEmpty then pure []
  else do
    let metadata ← findMetadata
    (allChunks (2 ^ metadata.subTreeHeight) nullifiers).mapM (insertNullifiersForCircuit hash treeHash findOne)

end

end IndexedTree

end Nightfall.MerkleTrees
