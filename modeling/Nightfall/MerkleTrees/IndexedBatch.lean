import Nightfall.MerkleTrees.IndexedInvariant

/-! `insert_leaves`, the insertion of a whole batch: first all rows are stored, then all leaves are
appended, then the leaves of the low entries are rewritten. -/

namespace Nightfall.MerkleTrees.IndexedTree

open Merkle Store Store.Program Tables MutableTree List

variable {F : Type} [LinearOrder F] [Zero F] [NatCast F] {hash : F → F → F → F} {node : F → F → F}

section

variable {top sub count : ℕ} {entries : List (Entry F)} {db : IndexedDb F} {values : List F}

variable (hash) in
def hashOf (entries : List (Entry F)) (v : F) : F :=
  if v = 0 then 0
  else ((entries.find? fun entry => entry.value = v).map fun entry => hashLeaf hash (row entries entry)).getD 0

variable {entry : Entry F} {v : F} {lows added : List (Entry F)} {metadata : TreeMetadata F}

theorem hashOf_mem (distinct : (entries.map Entry.value).Nodup) (member : entry ∈ entries)
    (nonzero : entry.value ≠ 0) : hashOf hash entries entry.value = hashLeaf hash (row entries entry) := by
  rw [hashOf, if_neg nonzero, find_key distinct member, Option.map_some, Option.getD_some]

theorem leafAt_placed {start i : ℕ} (below : ∀ entry ∈ entries, entry.index < start)
    (separate : Separate (entries ++ placed start values)) :
    leafAt hash (entries ++ placed start values) (start + i) =
      hashOf hash (entries ++ placed start values) (values.getD i 0) := by
  by_cases zero : values.getD i 0 = 0
  · rw [zero, hashOf, if_pos rfl]
    apply leafAt_free
    rw [mem_map]
    rintro ⟨entry, member, same⟩
    rcases mem_append.mp member with old | new
    · have bound := below entry old
      omega
    · obtain ⟨_, _, isValue, nonzero⟩ := mem_placed new
      rw [same, Nat.add_sub_cancel_left, zero] at isValue
      exact nonzero isValue.symm
  · have member : (⟨values.getD i 0, start + i⟩ : Entry F) ∈ entries ++ placed start values :=
      mem_append_right _ (placed_mem zero)
    have atValue := @hashOf_mem F _ _ _ hash _ _ separate.values member zero
    rw [leafAt_mem separate.indices member, ← atValue]

omit [Zero F] [NatCast F] in
theorem exists_getLeaf (stored : v ∈ db.leaves.map IndexedLeaf.value) :
    ∃ leaf, (getLeaf (some v) none).run db = (.ok (some leaf), db) := by
  obtain ⟨leaf, member, rfl⟩ := mem_map.mp stored
  have found : (db.leaves.find? fun other =>
      (some leaf.value).all (fun v => other.value = v) &&
        (none : Option F).all fun v => other.nextValue = v).isSome := by
    rw [List.find?_isSome]
    exact ⟨leaf, member, by simp⟩
  obtain ⟨first, isFirst⟩ := Option.isSome_iff_exists.mp found
  exact ⟨first, by rw [getLeaf, reads_run, isFirst]⟩

omit [NatCast F] in
theorem refuseStored_stored (nonzero : v ≠ 0) (stored : v ∈ db.leaves.map IndexedLeaf.value) :
    (refuseStored v).run db = (.error (.returned .leafExists), db) := by
  obtain ⟨leaf, found⟩ := exists_getLeaf stored
  rw [refuseStored, bind_ok found, if_pos ⟨rfl, nonzero⟩, fail_run]

omit [NatCast F] in
theorem refuseStored_absent (absent : v ≠ 0 → v ∉ db.leaves.map IndexedLeaf.value) :
    (refuseStored v).run db = (.ok (), db) := by
  rw [refuseStored, getLeaf, reads_bind, if_neg, pure_run]
  rintro ⟨found, nonzero⟩
  rw [List.find?_isSome] at found
  obtain ⟨leaf, member, same⟩ := found
  apply absent nonzero
  simp only [Option.all_some, Option.all_none, Bool.and_true, decide_eq_true_eq] at same
  exact same ▸ mem_map_of_mem member

omit [NatCast F] in
theorem forM_refuseStored (member : v ∈ values) (nonzero : v ≠ 0) (stored : v ∈ db.leaves.map IndexedLeaf.value) :
    (values.forM refuseStored).run db = (.error (.returned .leafExists), db) := by
  induction values with
  | nil => exact (not_mem_nil member).elim
  | cons first rest ih =>
    by_cases here : first ≠ 0 ∧ first ∈ db.leaves.map IndexedLeaf.value
    · exact bind_error (refuseStored_stored here.1 here.2)
    · have later : v ∈ rest := by
        rcases mem_cons.mp member with rfl | later
        · exact absurd ⟨nonzero, stored⟩ here
        · exact later
      rw [forM_eq_forM, forM_cons, bind_ok (refuseStored_absent fun notZero isStored => here ⟨notZero, isStored⟩)]
      exact ih later

theorem leafValue_run [ToString F] (isTable : db.leaves = rows entries) (separate : Separate entries)
    (stored : v ≠ 0 → v ∈ entries.map Entry.value) :
    (leafValue hash v).run db = (.ok (hashOf hash entries v), db) := by
  by_cases zero : v = 0
  · subst zero
    rw [leafValue, bind_ok (getLeaf_stored isTable separate.values separate.zero), lift_okOr rfl, pure_run,
      row_value, if_pos rfl, hashOf, if_pos rfl]
  · obtain ⟨entry, member, rfl⟩ := mem_map.mp (stored zero)
    rw [leafValue, bind_ok (getLeaf_stored isTable separate.values member), lift_okOr rfl, pure_run,
      hashOf_mem separate.values member zero, row_value, if_neg zero]

theorem updateInfo_run (isTable : db.leaves = rows entries) (separate : Separate entries) (member : entry ∈ entries) :
    (updateInfo hash entry.value).run db = (.ok (leafAt hash entries entry.index, entry.index), db) := by
  rw [updateInfo, bind_ok (getLeaf_stored isTable separate.values member), leafAt_mem separate.indices member]
  rfl

omit [NatCast F] in
theorem mem_lowValues (least : ∀ x : F, 0 ≤ x) (separate : Separate entries) {u : F} :
    u ∈ lowValues (values.map fun v =>
        ((rows entries).filter fun leaf => leaf.value < v).argmax IndexedLeaf.value) ↔
      ∃ entry, LowOf entries (values.filter fun value => value ≠ 0) entry ∧ entry.value = u := by
  rw [lowValues, mem_dedup, mem_insertionSort, mem_filterMap]
  constructor
  · rintro ⟨found, member, isValue⟩
    obtain ⟨v, isMember, rfl⟩ := mem_map.mp member
    by_cases zero : v = 0
    · subst zero
      rw [argmax_rows_none fun entry _ => not_lt.mpr (least _)] at isValue
      cases isValue
    · obtain ⟨low, isLow⟩ := separate.exists_low (lt_of_le_of_ne (least v) (Ne.symm zero))
      rw [argmax_rows separate.values isLow] at isValue
      refine ⟨low, ⟨v, mem_filter.mpr ⟨isMember, by simpa using zero⟩, isLow⟩, ?_⟩
      exact Option.some.inj isValue
  · rintro ⟨low, ⟨v, isMember, isLow⟩, rfl⟩
    refine ⟨_, mem_map_of_mem (mem_filter.mp isMember).1, ?_⟩
    rw [argmax_rows separate.values isLow]
    rfl

omit [LinearOrder F] [NatCast F] in
theorem updateLow_foldlM (low : top + sub ≤ 62) (goal : ℕ → F)
    (inside : ∀ entry ∈ lows, entry.index < 2 ^ (top + sub)) {leaves : ℕ → F}
    (holds : Holds node top sub count leaves db.tree) (root : F) :
    ∃ last later tree, ((lows.map fun entry => (goal entry.index, entry.index)).foldlM
        (updateLow node) root).run db = (.ok last, { db with tree := later }) ∧
      Holds node top sub count tree later ∧ Moves node (top + sub)
        (fun k => ∃ entry ∈ lows, Touches (top + sub) entry.index 0 k) leaves tree
        db.tree.nodes later.nodes ∧
      (∀ entry ∈ lows, tree entry.index = goal entry.index) ∧
      ∀ i, (∀ entry ∈ lows, entry.index ≠ i) → tree i = leaves i := by
  induction lows generalizing leaves db root with
  | nil =>
    refine ⟨root, db.tree, leaves, rfl, holds, ?_, by simp, fun _ _ => rfl⟩
    exact (Moves.refl _ _ _).congr (by simp)
  | cons entry rest ih =>
    obtain ⟨between, ran, held, moved⟩ := updateSubTree_moves holds low (inside entry mem_cons_self)
      (goal entry.index)
    obtain ⟨last, later, tree, isRest, restHolds, restMoves, atGoal, elsewhere⟩ :=
      @ih { db with tree := between } (fun other member => inside other (mem_cons_of_mem _ member)) _ held _
    refine ⟨last, later, tree, ?_, restHolds, ?_, ?_, ?_⟩
    · rw [map_cons, foldlM_cons, updateLow, bind_ok (onTree_ok ran)]
      exact isRest
    · refine (moved.trans restMoves).congr ?_
      intro k
      simp
    · intro other member
      by_cases again : ∃ third ∈ rest, third.index = other.index
      · obtain ⟨third, thirdMember, same⟩ := again
        rw [← same]
        exact atGoal third thirdMember
      · rcases mem_cons.mp member with rfl | inRest
        · rw [elsewhere _ fun third thirdMember same => again ⟨third, thirdMember, same⟩, Function.update_self]
        · exact atGoal other inRest
    · intro i aside
      rw [elsewhere i fun other member => aside other (mem_cons_of_mem _ member),
        Function.update_of_ne (aside entry mem_cons_self).symm]

omit [NatCast F] in
theorem placedMod_small {bound index : ℕ} (start : index < bound)
    (member : entry ∈ placedMod bound index values) : entry.index < bound := by
  induction values generalizing index with
  | nil => exact (not_mem_nil member).elim
  | cons value rest ih =>
    have next := Nat.mod_lt (index + 1) (show 0 < bound by omega)
    by_cases zero : value = 0
    · rw [placedMod, if_pos zero] at member
      exact ih next member
    · rw [placedMod, if_neg zero, mem_cons] at member
      rcases member with rfl | later
      · exact start
      · exact ih next later

omit [NatCast F] in
theorem exists_lowEntries (least : ∀ x : F, 0 ≤ x) (separate : Separate entries) (values : List F) :
    ∃ lows : List (Entry F), lows.map Entry.value = lowValues (values.map fun v =>
        ((rows entries).filter fun leaf => leaf.value < v).argmax IndexedLeaf.value) ∧
      ∀ entry, LowOf entries (values.filter fun value => value ≠ 0) entry ↔ entry ∈ lows := by
  obtain ⟨lows, areLows, eachLow⟩ := exists_map_eq fun u member => (@mem_lowValues F _ _ entries values
    least separate u).mp member
  refine ⟨lows, areLows, fun entry => ⟨?_, eachLow entry⟩⟩
  intro isLow
  have member := (@mem_lowValues F _ _ entries values least separate entry.value).mpr ⟨entry, isLow, rfl⟩
  rw [← areLows, mem_map] at member
  obtain ⟨other, otherMember, same⟩ := member
  obtain ⟨_, _, bracket⟩ := isLow
  obtain ⟨_, _, otherBracket⟩ := eachLow other otherMember
  rwa [← inj_on_of_nodup_map separate.values otherBracket.member bracket.member same]

section

variable {added : List (Entry F)} (addedValues : added.map Entry.value = values.filter fun value => value ≠ 0)
include addedValues

omit [NatCast F] in
theorem Separate.absent (separate : Separate (entries ++ added)) {v : F} (member : v ∈ values) (nonzero : v ≠ 0) :
    v ∉ entries.map Entry.value := by
  have distinct := separate.values
  rw [map_append, addedValues] at distinct
  exact fun stored => disjoint_of_nodup_append distinct stored (mem_filter.mpr ⟨member, by simpa using nonzero⟩)

omit [NatCast F] in
theorem stored_of_mem {v : F} (member : v ∈ values) (nonzero : v ≠ 0) : v ∈ (entries ++ added).map Entry.value := by
  rw [map_append, addedValues]
  exact mem_append_right _ (mem_filter.mpr ⟨member, by simpa using nonzero⟩)

end

variable [ToString F] (least : ∀ x : F, 0 ≤ x) (consistent : Consistent hash node top sub count entries db)
  (low : top + sub ≤ 62) (nonempty : values ≠ []) (isMetadata : db.tree.metadata = some metadata)
  (isAdded : added = placedMod (2 ^ 32) (insertIndex metadata) values) (separate : Separate (entries ++ added))

include least consistent low nonempty isMetadata isAdded separate

theorem insertLeaves_table (areLows : lows.map Entry.value = lowValues (values.map fun v =>
      ((rows entries).filter fun leaf => leaf.value < v).argmax IndexedLeaf.value)) :
    (insertLeaves hash node values).run db = (do
      let _ ← onTree (appendSubTrees node (values.map (hashOf hash (entries ++ added))) true)
      let infos ← (lows.map Entry.value).mapM (updateInfo hash)
      infos.foldlM (updateLow node) 0).run { db with leaves := rows (entries ++ added) } := by
  have addedValues : added.map Entry.value = values.filter fun value => value ≠ 0 := by
    rw [isAdded, placedMod_values]
  have small : ∀ entry ∈ entries ++ added, entry.index < 2 ^ 63 := by
    intro entry member
    rcases mem_append.mp member with old | new
    · exact consistent.index_small low old
    · rw [isAdded] at new
      exact (placedMod_small (Nat.mod_lt _ (by decide)) new).trans (by decide)
  have refused : (values.forM refuseStored).run db = (.ok ⟨⟩, db) :=
    forM_run fun v member => refuseStored_absent fun nonzero => by
      rw [consistent.leaves, rows_values]
      exact separate.absent addedValues member nonzero
  have found : (values.mapM getLowLeaf).run db = (.ok (values.map fun v =>
      ((rows entries).filter fun leaf => leaf.value < v).argmax IndexedLeaf.value), db) := by
    apply mapM_run
    intro v _
    rw [getLowLeaf, reads_run, consistent.leaves]
  have storing : (storeLeaves (insertIndex metadata) values).run db =
      (.ok (), { db with leaves := rows (entries ++ added) }) := by
    rw [isAdded] at separate small ⊢
    rcases storeLeaves_run least consistent.leaves consistent.separate separate.indices small with
      ⟨ran, _⟩ | ⟨_, duplicate⟩
    · exact ran
    · exact absurd separate.values duplicate
  have hashed : (values.mapM (leafValue hash)).run { db with leaves := rows (entries ++ added) } =
      (.ok (values.map (hashOf hash (entries ++ added))), { db with leaves := rows (entries ++ added) }) :=
    mapM_run fun v member => leafValue_run rfl separate (stored_of_mem addedValues member)
  rw [insertLeaves, if_neg (by simpa using nonempty)]
  refine (bind_ok refused).trans ?_
  rw [bind_ok found, bind_ok (findMetadata_run isMetadata), bind_ok storing, bind_ok hashed, areLows]

theorem insertLeaves_stored (aligned : 2 ^ sub ∣ values.length) (room : count + values.length / 2 ^ sub ≤ 2 ^ top) :
    ∃ root later tree, (insertLeaves hash node values).run db = (.ok root, later) ∧
      later.leaves = rows (entries ++ added) ∧
      Holds node top sub (count + values.length / 2 ^ sub) tree later.tree ∧
      Moves node (top + sub) (InsertTouches top sub count (count + values.length / 2 ^ sub) entries values)
        (leafAt hash entries) tree db.tree.nodes later.tree.nodes ∧
      (∀ i < values.length, tree (count * 2 ^ sub + i) = hashOf hash (entries ++ added) (values.getD i 0)) ∧
      (∀ entry, LowOf entries (values.filter fun value => value ≠ 0) entry →
        tree entry.index = leafAt hash (entries ++ added) entry.index) ∧
      ∀ i, (i < count * 2 ^ sub ∨ count * 2 ^ sub + values.length ≤ i) →
        (∀ entry, LowOf entries (values.filter fun value => value ≠ 0) entry → entry.index ≠ i) →
        tree i = leafAt hash entries i := by
  obtain ⟨lows, areLows, isLow⟩ := exists_lowEntries least consistent.separate values
  have inside : ∀ entry ∈ lows, entry ∈ entries := by
    intro entry member
    obtain ⟨_, _, bracket⟩ := (isLow entry).mpr member
    exact bracket.member
  have isLength : (values.map (hashOf hash (entries ++ added))).length = values.length := length_map _
  obtain ⟨appended, ran, appendedHolds, appendedMoves⟩ := appendSubTrees_moves consistent.tree low
    (isLength ▸ aligned) (congrArg (count + · / 2 ^ sub) isLength.symm) room rfl
  have appends : (onTree (appendSubTrees node (values.map (hashOf hash (entries ++ added))) true)).run
      { db with leaves := rows (entries ++ added) } = _ := onTree_ok ran
  have infos : ((lows.map Entry.value).mapM (updateInfo hash)).run ⟨appended, rows (entries ++ added)⟩ =
      (.ok (lows.map fun entry => (leafAt hash (entries ++ added) entry.index, entry.index)),
        ⟨appended, rows (entries ++ added)⟩) := by
    rw [mapM_map]
    exact mapM_run fun entry member =>
      updateInfo_run rfl separate (mem_append_left _ (inside entry member))
  obtain ⟨last, later, tree, updates, holds, moves, atLow, elsewhere⟩ := @updateLow_foldlM F _ node top
    sub _ ⟨appended, rows (entries ++ added)⟩ lows low (leafAt hash (entries ++ added))
    (fun entry member => consistent.index_lt (inside entry member)) _ appendedHolds 0
  refine ⟨last, ⟨later, rows (entries ++ added)⟩, tree, ?_, rfl, holds, ?_, ?_, ?_, ?_⟩
  · rw [insertLeaves_table least consistent low nonempty isMetadata isAdded separate areLows, bind_ok appends,
      bind_ok infos]
    exact updates
  · refine (appendedMoves.trans moves).congr ?_
    intro k
    simp only [InsertTouches, isLow]
  · intro i within
    have aside : ∀ entry ∈ lows, entry.index ≠ count * 2 ^ sub + i := by
      intro entry member
      have below := consistent.below entry (inside entry member)
      omega
    rw [elsewhere _ aside, writeAt, if_pos (by rw [isLength]; omega), Nat.add_sub_cancel_left,
      getD_eq_getElem _ _ (by rwa [isLength]), getElem_map, getD_eq_getElem _ _ within]
  · intro entry low
    exact atLow entry ((isLow entry).mp low)
  · intro i outside notLow
    rw [elsewhere i fun entry member => notLow entry ((isLow entry).mpr member), writeAt,
      if_neg (by rw [isLength]; omega)]

end

section

variable {top sub count : ℕ} {entries : List (Entry F)} {db : IndexedDb F} {values : List F}
  (consistent : Consistent hash node top sub count entries db)
include consistent

theorem Consistent.count_pos : 0 < count := by
  have below := consistent.below _ consistent.separate.zero
  exact Nat.pos_of_mul_pos_right below

theorem Consistent.placedMod_insertIndex (root : F)
    (inRange : ∀ entry ∈ placed (count * 2 ^ sub) values, entry.index < 2 ^ 32) :
    placedMod (2 ^ 32) (insertIndex ⟨top, sub, count, root⟩) values = placed (count * 2 ^ sub) values := by
  cases isPlaced : placed (count * 2 ^ sub) values with
  | nil =>
    rw [← map_eq_nil_iff (f := Entry.value), placedMod_values, ← placed_values (count * 2 ^ sub), isPlaced, map_nil]
  | cons entry rest =>
    have member : entry ∈ placed (count * 2 ^ sub) values := isPlaced ▸ mem_cons_self
    have start := (mem_placed member).1.trans_lt (inRange entry member)
    have positive := consistent.count_pos
    have width : 2 ^ sub < 2 ^ 32 :=
      (Nat.le_mul_of_pos_left _ positive).trans_lt start
    have short : sub < 32 := (Nat.pow_lt_pow_iff_right (by decide)).mp width
    have few : count < 2 ^ 32 := (Nat.le_mul_of_pos_right _ (Nat.two_pow_pos sub)).trans_lt start
    rw [← isPlaced, ← placedMod_eq inRange, insertIndex]
    rw [Nat.mod_eq_of_lt few, Nat.mod_eq_of_lt short]

variable [ToString F] (least : ∀ x : F, 0 ≤ x) (low : top + sub ≤ 62)
  (inRange : ∀ entry ∈ placed (count * 2 ^ sub) values, entry.index < 2 ^ 32)
include least low inRange

theorem insertLeaves_inserts (fresh : ((entries ++ placed (count * 2 ^ sub) values).map Entry.value).Nodup)
    (aligned : 2 ^ sub ∣ values.length) (fits : values ≠ [] → count + values.length / 2 ^ sub ≤ 2 ^ top) :
    ∃ root later, (insertLeaves hash node values).run db = (.ok root, later) ∧
      Inserts hash node top sub count entries values db later := by
  by_cases empty : values = []
  · subst empty
    refine ⟨levels node (top + sub) (leafAt hash entries) 0, db, ?_, consistent.inserts_nil⟩
    exact onTree_ok (bind_ok (getMetadata_run consistent.tree.metadata))
  · have separate := consistent.placed_separate fresh
    obtain ⟨root, later, tree, ran, isTable, holds, moves, isNew, isLow, isOld⟩ := insertLeaves_stored least
      consistent low empty consistent.tree.metadata (consistent.placedMod_insertIndex _ inRange).symm separate
      aligned (fits empty)
    have isTree := consistent.leafAt_eq separate
      (fun i within => (isNew i within).trans (leafAt_placed consistent.below separate).symm) isLow isOld
    rw [isTree] at holds moves
    refine ⟨root, later, ran, ⟨isTable, holds, separate, ?_, fits empty⟩, moves⟩
    intro entry member
    rw [Nat.add_mul, Nat.div_mul_cancel aligned]
    rcases mem_append.mp member with old | new
    · exact Nat.lt_add_right _ (consistent.below entry old)
    · exact (mem_placed new).2.1

theorem insertLeaves_append_fails (nonempty : values ≠ [])
    (fresh : ((entries ++ placed (count * 2 ^ sub) values).map Entry.value).Nodup)
    (refused : ¬(2 ^ sub ∣ values.length ∧ count + values.length / 2 ^ sub ≤ 2 ^ top)) :
    ∃ failure, (insertLeaves hash node values).run db =
      (.error failure, { db with leaves := rows (entries ++ placed (count * 2 ^ sub) values) }) := by
  have separate := consistent.placed_separate fresh
  obtain ⟨lows, areLows, -⟩ := exists_lowEntries least consistent.separate values
  have isLength : (values.map (hashOf hash (entries ++ placed (count * 2 ^ sub) values))).length =
      values.length := length_map _
  rw [insertLeaves_table least consistent low nonempty consistent.tree.metadata
    (consistent.placedMod_insertIndex _ inRange).symm separate areLows]
  by_cases aligned : 2 ^ sub ∣ values.length
  · have beyond : 2 ^ top < count + values.length / 2 ^ sub := by
      by_contra room
      exact refused ⟨aligned, not_lt.mp room⟩
    have full : (appendSubTrees node (values.map (hashOf hash _)) true).run db.tree = _ :=
      appendSubTrees_full consistent.tree.metadata (by omega) (isLength ▸ aligned)
        (fun none => nonempty (map_eq_nil_iff.mp none)) (isLength ▸ beyond)
    exact ⟨_, bind_error (onTree_error full)⟩
  · have misaligned : (appendSubTrees node (values.map (hashOf hash _)) true).run db.tree = _ :=
      appendSubTrees_misaligned consistent.tree.metadata (by omega) (isLength ▸ aligned)
    exact ⟨_, bind_error (onTree_error misaligned)⟩

theorem insertLeaves_fails (refused : ¬(((entries ++ placed (count * 2 ^ sub) values).map Entry.value).Nodup ∧
      2 ^ sub ∣ values.length ∧
      (values ≠ [] → count + values.length / 2 ^ sub ≤ 2 ^ top))) :
    ∃ failure added,
      (insertLeaves hash node values).run db = (.error failure, { db with leaves := rows (entries ++ added) }) ∧
      (added = [] ↔ (∃ v ∈ values, v ≠ 0 ∧ v ∈ db.leaves.map IndexedLeaf.value) ∨ ∀ z ∈ values, z = 0) := by
  have nonempty : values ≠ [] := by
    rintro rfl
    refine refused ⟨?_, Nat.dvd_zero _, fun other => absurd rfl other⟩
    rw [placed, append_nil]
    exact consistent.separate.values
  by_cases stored : ∃ v ∈ values, v ≠ 0 ∧ v ∈ db.leaves.map IndexedLeaf.value
  · obtain ⟨v, member, nonzero, isStored⟩ := stored
    refine ⟨.returned .leafExists, [], ?_, iff_of_true rfl (.inl ⟨v, member, nonzero, isStored⟩)⟩
    rw [insertLeaves, if_neg (by simpa using nonempty), append_nil, ← consistent.leaves]
    exact bind_error (forM_refuseStored member nonzero isStored)
  rw [or_iff_right stored]
  by_cases fresh : ((entries ++ placed (count * 2 ^ sub) values).map Entry.value).Nodup
  · obtain ⟨failure, failed⟩ := insertLeaves_append_fails consistent least low inRange nonempty fresh
      fun accepted => refused ⟨fresh, accepted.1, fun _ => accepted.2⟩
    exact ⟨failure, _, failed, zeros_of_placed, fun areZeros => placed_zeros areZeros _⟩
  · have passed : (values.forM refuseStored).run db = (.ok ⟨⟩, db) :=
      forM_run fun v member => refuseStored_absent fun nonzero isStored => stored ⟨v, member, nonzero, isStored⟩
    have found : (values.mapM getLowLeaf).run db = _ := mapM_run fun v _ => reads_run _ _
    have small : ∀ entry ∈ entries ++ placed (count * 2 ^ sub) values, entry.index < 2 ^ 63 := by
      intro entry member
      rcases mem_append.mp member with old | new
      · exact consistent.index_small low old
      · exact (inRange entry new).trans (by decide)
    have isPlaced := consistent.placedMod_insertIndex (levels node (top + sub) (leafAt hash entries) 0) inRange
    have indices := @Consistent.placed_indices F _ _ _ hash node _ _ _ _ _ values consistent
    rw [← isPlaced] at indices small fresh
    rcases storeLeaves_run least consistent.leaves consistent.separate indices small with
      ⟨_, separate⟩ | ⟨⟨failure, done, v, rest, rfl, nonzero, isStored, ran⟩, _⟩
    · exact absurd separate.values fresh
    · have member : v ∈ done ++ v :: rest := mem_append_right _ mem_cons_self
      refine ⟨failure, ?added, ?failed, iff_of_false ?grown fun areZeros => nonzero (areZeros v member)⟩
      case failed =>
        rw [insertLeaves, if_neg (by simp)]
        refine (bind_ok passed).trans ?_
        rw [bind_ok found, bind_ok (findMetadata_run consistent.tree.metadata), bind_error ran]
      case grown =>
        -- the value that failed is not an old one, so it was stored earlier in the batch
        intro nothing
        rw [nothing, append_nil, ← rows_values, ← consistent.leaves] at isStored
        exact stored ⟨v, member, nonzero, isStored⟩

theorem insertLeaves_ok {root : F} {later : IndexedDb F}
    (ran : (insertLeaves hash node values).run db = (.ok root, later)) :
    Inserts hash node top sub count entries values db later := by
  by_cases accepted : ((entries ++ placed (count * 2 ^ sub) values).map Entry.value).Nodup ∧
      2 ^ sub ∣ values.length ∧ (values ≠ [] → count + values.length / 2 ^ sub ≤ 2 ^ top)
  · obtain ⟨fresh, aligned, fits⟩ := accepted
    obtain ⟨_, _, inserted, inserts⟩ := insertLeaves_inserts consistent least low inRange fresh aligned fits
    cases ran.symm.trans inserted
    exact inserts
  · obtain ⟨_, _, failed, _⟩ := insertLeaves_fails consistent least low inRange accepted
    cases ran.symm.trans failed

end

end Nightfall.MerkleTrees.IndexedTree
