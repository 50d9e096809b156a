import Nightfall.MerkleTrees.Agreement
import Nightfall.MerkleTrees.IndexedAgreement

/-! Leaves appended at once and sub-tree by sub-tree. -/

namespace Nightfall.MerkleTrees

open Merkle Store Store.Program List

namespace MutableTree

variable {F : Type} [Zero F] {node : F → F → F} {top sub : ℕ}
  {leaves batch rest : List F} {db middle later : MutableDb F}

section

variable (holds : HoldsList node top sub leaves db)

include holds

theorem HoldsList.metadata : db.metadata = some ⟨top, sub, leaves.length / 2 ^ sub,
      levels node (top + sub) (fun i => leaves.getD i 0) 0⟩ := by
  obtain ⟨count, isLength, held⟩ := holds
  rw [isLength, Nat.mul_div_cancel _ (Nat.two_pow_pos _)]
  exact held.metadata

theorem HoldsList.uncached : ∀ k, db.cache k = none := by
  obtain ⟨_, _, held⟩ := holds
  exact held.uncached

theorem HoldsList.aligned : 2 ^ sub ∣ leaves.length := by
  obtain ⟨count, isLength, _⟩ := holds
  exact ⟨count, by rw [isLength, Nat.mul_comm]⟩

theorem HoldsList.length_eq {others : List F} (alsoHolds : HoldsList node top sub others db) :
    leaves.length = others.length := by
  have metadata := Option.some.inj (holds.metadata.symm.trans alsoHolds.metadata)
  exact (Nat.div_left_inj holds.aligned alsoHolds.aligned).mp (congrArg TreeMetadata.subTreeCount metadata)

end

theorem Appends.unique {other : MutableDb F} (first : Appends node top sub leaves batch db later)
    (second : Appends node top sub leaves batch db other) : later = other := by
  have isMetadata := first.holds.metadata.trans second.holds.metadata.symm
  have isCache : later.cache = other.cache := by
    rw [funext first.holds.uncached, funext second.holds.uncached]
  have areNodes := first.moves.unique second.moves
  cases later
  cases other
  simp_all

theorem appends_nil (holds : HoldsList node top sub leaves db) (room : leaves.length ≤ 2 ^ top * 2 ^ sub) :
    Appends node top sub leaves [] db db := by
  refine ⟨?_, ?_, ?_⟩
  · rwa [append_nil]
  · rwa [append_nil]
  · rw [append_nil]
    refine (Moves.refl _ _ _).congr fun k => ?_
    exact ⟨False.elim, appendTouches_none⟩

theorem Appends.trans (first : Appends node top sub leaves batch db middle)
    (second : Appends node top sub (leaves ++ batch) rest middle later) :
    Appends node top sub leaves (batch ++ rest) db later := by
  refine ⟨?_, ?_, ?_⟩
  · rw [← append_assoc]
    exact second.holds
  · rw [← append_assoc]
    exact second.room
  · rw [← append_assoc]
    refine (first.moves.trans second.moves).congr fun k => ?_
    refine (IndexedTree.appendTouches_append ?_ ?_).symm
    · exact Nat.div_le_div_right (by simp)
    · exact Nat.div_le_div_right (by simp)

theorem appendSubTrees_ok (holds : HoldsList node top sub leaves db)
    (low : top + sub ≤ 62) (fits : leaves.length ≤ 2 ^ top * 2 ^ sub)
    {result : F × ℕ} (ran : (appendSubTrees node batch true).run db = (.ok result, later)) :
    Appends node top sub leaves batch db later ∧
      result.1 = levels node (top + sub) (fun i => (leaves ++ batch).getD i 0) 0 := by
  obtain ⟨aligned, fitting⟩ := appendSubTrees_fits holds.metadata (by omega) (congrArg Prod.fst ran)
  have room : (leaves ++ batch).length ≤ 2 ^ top * 2 ^ sub := by
    by_cases empty : batch = []
    · rwa [empty, append_nil]
    · have sum := aligned_room aligned (fitting empty)
      rwa [Nat.div_mul_cancel holds.aligned, ← length_append] at sum
  obtain ⟨_, _, isRun, appends⟩ := appendSubTrees_appends holds low aligned room
  cases ran.symm.trans isRun
  exact ⟨appends, rfl⟩

section

variable [DecidableEq F] {findOne : FindOne F}

section

variable (holds : HoldsList node top sub leaves db) (low : top + sub ≤ 62)
include holds low

theorem insertForCircuit_appends (whole : batch.length = 2 ^ sub)
    (room : (leaves ++ batch).length ≤ 2 ^ top * 2 ^ sub) :
    ∃ info later, (insertForCircuit node findOne batch).run db = (.ok info, later) ∧
      Appends node top sub leaves batch db later := by
  obtain ⟨count, isLength, held⟩ := holds
  have positive := Nat.two_pow_pos sub
  have isTotal : (leaves ++ batch).length = (count + 1) * 2 ^ sub := by
    rw [length_append, isLength, whole, Nat.succ_mul]
  have isTree := writeAt_list 0 leaves batch
  rw [isLength] at isTree
  rw [isTotal] at room
  obtain ⟨info, later, ran, after, moves⟩ := insertForCircuit_moves held low findOne
    (Nat.le_of_mul_le_mul_right room positive) whole isTree.symm
  refine ⟨info, later, ran, ⟨_, isTotal, after⟩, isTotal ▸ room, ?_⟩
  rwa [isTotal, Nat.mul_div_cancel _ positive, isLength, Nat.mul_div_cancel _ positive]

theorem insertForCircuit_ok (fits : leaves.length ≤ 2 ^ top * 2 ^ sub)
    {info : CircuitInsertionInfo F} (ran : (insertForCircuit node findOne batch).run db = (.ok info, later)) :
    Appends node top sub leaves batch db later := by
  by_cases whole : batch.length = 2 ^ sub
  · by_cases room : (leaves ++ batch).length ≤ 2 ^ top * 2 ^ sub
    · obtain ⟨_, _, isRun, appends⟩ := insertForCircuit_appends holds low whole room
      cases ran.symm.trans isRun
      exact appends
    · obtain ⟨count, isLength, held⟩ := holds
      have isFull : count = 2 ^ top := by
        rw [length_append, isLength, whole, ← Nat.succ_mul] at room
        rw [isLength] at fits
        have most := Nat.le_of_mul_le_mul_right fits (Nat.two_pow_pos _)
        have least : 2 ^ top < count + 1 := Nat.lt_of_mul_lt_mul_right (not_le.mp room)
        omega
      cases ran.symm.trans (insertForCircuit_full held low findOne isFull whole)
  · rw [insertForCircuit, bind_ok (getMetadata_run holds.metadata)] at ran
    dsimp only at ran
    rw [lift_okOr (pow2Usize_eq (by omega)), if_pos whole, fail_run] at ran
    cases ran

end

omit [Zero F] [DecidableEq F] in
theorem expecting_ok {α : Type} {program : Program Failure (MutableDb F) α} {value : α} :
    (expecting program).run db = (.ok value, later) ↔ program.run db = (.ok value, later) := by
  rcases isRun : program.run db with ⟨_ | _, _⟩ <;> simp [expecting, isRun]

section

variable (holds : HoldsList node top sub leaves db) (low : top + sub ≤ 62)

include holds low

theorem batchInsert_appends (aligned : 2 ^ sub ∣ batch.length)
    (room : (leaves ++ batch).length ≤ 2 ^ top * 2 ^ sub) :
    ∃ infos later, (batchInsertWithCircuitInfo node findOne batch).run db = (.ok infos, later) ∧
      Appends node top sub leaves batch db later := by
  rw [batchInsertWithCircuitInfo, bind_ok (getMetadata_run holds.metadata)]
  dsimp only
  rw [lift_okOr (pow2Usize_eq (by omega)), if_neg (not_not.mpr (Nat.mod_eq_zero_of_dvd aligned))]
  refine mapM_chunks_run (fun done => Appends _ _ _ leaves done db) (Nat.two_pow_pos _) (Nat.dvd_zero _)
    (appends_nil holds (le_trans (by simp) room)) aligned (nil_append _) ?_
  rintro done middle part - appends whole ⟨rest, rfl⟩
  have partRoom : (leaves ++ done ++ part).length ≤ 2 ^ top * 2 ^ sub :=
    le_trans (by simp) room
  obtain ⟨info, later, inserted, more⟩ := insertForCircuit_appends appends.holds low whole partRoom
  exact ⟨info, later, expecting_ok.mpr inserted, appends.trans more⟩

theorem batchInsert_ok (fits : leaves.length ≤ 2 ^ top * 2 ^ sub) {infos : List (CircuitInsertionInfo F)}
    (ran : (batchInsertWithCircuitInfo node findOne batch).run db = (.ok infos, later)) :
    Appends node top sub leaves batch db later := by
  rw [batchInsertWithCircuitInfo, bind_ok (getMetadata_run holds.metadata)] at ran
  dsimp only at ran
  rw [lift_okOr (pow2Usize_eq (by omega))] at ran
  by_cases aligned : 2 ^ sub ∣ batch.length
  · rw [if_neg (not_not.mpr (Nat.mod_eq_zero_of_dvd aligned))] at ran
    refine mapM_chunks_ok (fun done => Appends _ _ _ leaves done db) (Nat.two_pow_pos _) (Nat.dvd_zero _)
      (appends_nil holds fits) aligned (nil_append _) ?_ ran
    intro done middle part info later _ appends _ inserted
    exact appends.trans (insertForCircuit_ok appends.holds low appends.room (expecting_ok.mp inserted))
  · rw [if_pos fun none => aligned (Nat.dvd_of_mod_eq_zero none), fail_run] at ran
    cases ran

end

end

end MutableTree

namespace IndexedTree

open MutableTree

variable {F : Type} [LinearOrder F] [Zero F] [NatCast F] [ToString F] {hash : F → F → F → F}
  {node : F → F → F} {top sub count : ℕ} {entries : List (Entry F)} {db later : IndexedDb F}
  {values : List F} {findOne : FindOne F} (least : ∀ x : F, 0 ≤ x) (low : top + sub ≤ 62)
include least low

section

variable (consistent : Consistent hash node top sub count entries db)
  (aligned : 2 ^ sub ∣ values.length) {infos : List (IMTCircuitInsertionInfo F)}

include consistent aligned infos

theorem batchInsertNullifiers_ok
    (ran : (batchInsertNullifiersWithCircuitInfo hash node findOne values).run db = (.ok infos, later)) :
    Inserts hash node top sub count entries values db later := by
  by_cases empty : values = []
  · subst empty
    cases ran
    exact consistent.inserts_nil
  · rw [batchInsertNullifiersWithCircuitInfo, if_neg (by simpa using empty),
      bind_ok (findMetadata_run consistent.tree.metadata), allChunks, if_pos (Nat.mod_eq_zero_of_dvd aligned),
      append_nil] at ran
    refine mapM_chunks_ok (fun done => Inserts _ _ _ _ count entries done db) (Nat.two_pow_pos _) (Nat.dvd_zero _)
      consistent.inserts_nil aligned (nil_append _) ?_ ran
    intro done middle part info later whole inserts _ inserted
    exact inserts.trans whole (insertNullifiersForCircuit_ok least low inserts.consistent inserted)

end

omit least low
omit [Zero F] [NatCast F] [ToString F] in
theorem keeps_storeLeaf (leaf : F) (index : Option ℕ) : Moves (Keeps IndexedDb.tree) (storeLeaf leaf index) := by
  refine (moves_reads _).bind fun stored => ?_
  split
  · exact moves_pure _
  · refine (moves_reads _).bind fun found => ?_
    cases found with
    | none => exact moves_lift _
    | some lowLeaf =>
      refine Moves.bind ?_ fun _ => moves_pure _
      refine (moves_reads _).bind fun _ => (moves_lift _).bind fun _ => (moves_lift _).bind fun _ => ?_
      refine Moves.bind (fun _ => rfl) fun _ => (moves_lift _).bind fun _ => (moves_reads _).bind fun matched => ?_
      split
      · exact fun _ => rfl
      · exact moves_lift _

omit [NatCast F] in
theorem keeps_storeLeaves (values : List F) (index : ℕ) : Moves (Keeps IndexedDb.tree) (storeLeaves index values) := by
  induction values generalizing index with
  | nil => exact moves_pure _
  | cons value rest ih =>
    refine Moves.bind ?_ fun _ => ih _
    unfold storeNonzero
    split
    · exact moves_pure _
    · exact (keeps_storeLeaf _ _).bind fun _ => moves_lift _

theorem keeps_leafValue (value : F) : Moves (Keeps IndexedDb.tree) (leafValue hash value) :=
  (moves_reads _).bind fun _ => (moves_lift _).bind fun _ => moves_pure _

omit [NatCast F] [ToString F] in
theorem keeps_refuseStored (value : F) : Moves (Keeps IndexedDb.tree) (refuseStored value) := by
  refine (moves_reads _).bind fun stored => ?_
  split
  · exact moves_lift _
  · exact moves_pure _

omit [NatCast F] [ToString F] in
theorem placed_small (narrow : top + sub ≤ 32) (aligned : 2 ^ sub ∣ values.length)
    (room : count + values.length / 2 ^ sub ≤ 2 ^ top) :
    ∀ entry ∈ placed (count * 2 ^ sub) values, entry.index < 2 ^ 32 := by
  intro entry member
  obtain ⟨_, below, _⟩ := mem_placed member
  calc entry.index < count * 2 ^ sub + values.length := below
    _ = (count + values.length / 2 ^ sub) * 2 ^ sub := by
        rw [Nat.add_mul, Nat.div_mul_cancel aligned]
    _ ≤ 2 ^ top * 2 ^ sub := Nat.mul_le_mul_right _ room
    _ = 2 ^ (top + sub) := (Nat.pow_add _ _ _).symm
    _ ≤ 2 ^ 32 := Nat.pow_le_pow_right (by decide) narrow

include low in
theorem insertLeaves_room (consistent : Consistent hash node top sub count entries db)
    {root : F} (ran : (insertLeaves hash node values).run db = (.ok root, later)) :
    2 ^ sub ∣ values.length ∧ count + values.length / 2 ^ sub ≤ 2 ^ top := by
  by_cases empty : values = []
  · subst empty
    exact ⟨Nat.dvd_zero _, by rw [length_nil, Nat.zero_div]; exact consistent.counted⟩
  rw [insertLeaves, if_neg (by simpa using empty)] at ran
  obtain ⟨_, afterCheck, checked, ran⟩ := bind_eq_ok.mp ran
  obtain ⟨_, afterLows, lows, ran⟩ := bind_eq_ok.mp ran
  obtain ⟨_, afterMetadata, found, ran⟩ := bind_eq_ok.mp ran
  obtain ⟨_, afterStore, stored, ran⟩ := bind_eq_ok.mp ran
  obtain ⟨leafValues, afterValues, valued, ran⟩ := bind_eq_ok.mp ran
  obtain ⟨result, afterAppend, appended, -⟩ := bind_eq_ok.mp ran
  have isTree : afterValues.tree = db.tree := calc
    afterValues.tree = afterStore.tree := (Moves.mapM keeps_leafValue).ok valued
    _ = afterMetadata.tree := (keeps_storeLeaves _ _).ok stored
    _ = afterLows.tree := (moves_reads _ : Moves (Keeps IndexedDb.tree) _).ok found
    _ = afterCheck.tree := (Moves.mapM fun _ => moves_reads _ : Moves (Keeps IndexedDb.tree) _).ok lows
    _ = db.tree := (Moves.forM keeps_refuseStored).ok checked
  have isLength := mapM_length valued
  have onTheTree : ((appendSubTrees node leafValues true).run afterValues.tree).1 = .ok result :=
    congrArg Prod.fst appended
  rw [isTree] at onTheTree
  obtain ⟨aligned, room⟩ := appendSubTrees_fits consistent.tree.metadata (by omega) onTheTree
  rw [isLength] at aligned room
  refine ⟨aligned, room ?_⟩
  rintro rfl
  exact empty (length_eq_zero_iff.mp isLength.symm)

include least in
theorem insertLeaves_ok_narrow (narrow : top + sub ≤ 32)
    (consistent : Consistent hash node top sub count entries db) {root : F}
    (ran : (insertLeaves hash node values).run db = (.ok root, later)) :
    Inserts hash node top sub count entries values db later := by
  obtain ⟨aligned, room⟩ := insertLeaves_room (by omega) consistent ran
  refine insertLeaves_ok consistent least (by omega) ?_ ran
  exact placed_small narrow aligned room

end IndexedTree

end Nightfall.MerkleTrees
