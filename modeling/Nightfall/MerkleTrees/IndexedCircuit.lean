import Nightfall.MerkleTrees.IndexedBatch

/-! `insert_nullifiers_for_circuit`, the insertion of one sub-tree: value by value, the row is
stored and the leaf of its low entry rewritten if that is in the tree already, then the sub-tree is
appended. -/

namespace Nightfall.MerkleTrees.IndexedTree

open Merkle Store Store.Program Tables MutableTree List

variable {F : Type} [LinearOrder F] [Zero F] [NatCast F] {hash : F → F → F → F} {node : F → F → F}

section

variable {entries added : List (Entry F)} {v : F} {low entry : Entry F}

omit [Zero F] [NatCast F] in
theorem IsLow.unique (values : (entries.map Entry.value).Nodup) (first : IsLow entries v low)
    (second : IsLow entries v entry) : entry = low := by
  apply inj_on_of_nodup_map values second.member first.member
  exact le_antisymm (first.largest entry second.member second.below) (second.largest low first.member first.below)

omit [Zero F] [NatCast F] in
theorem IsLow.of_append (isLow : IsLow (entries ++ added) v low) (member : low ∈ entries) : IsLow entries v low :=
  ⟨member, isLow.below, fun other otherMember => isLow.largest other (mem_append_left _ otherMember)⟩

omit [Zero F] [NatCast F] in
theorem lowOf_append {first second : List F} (areFirst : added.map Entry.value = first) :
    LowOf entries (first ++ second) entry ↔
      LowOf entries first entry ∨ entry ∈ entries ∧ LowOf (entries ++ added) second entry := by
  constructor
  · rintro ⟨w, member, isLow⟩
    rcases mem_append.mp member with inFirst | inSecond
    · exact Or.inl ⟨w, inFirst, isLow⟩
    · by_cases between : ∃ other ∈ added, entry.value < other.value ∧ other.value < w
      · obtain ⟨other, otherMember, above, below⟩ := between
        refine Or.inl ⟨other.value, areFirst ▸ mem_map_of_mem otherMember, isLow.member, above, ?_⟩
        intro third thirdMember under
        exact isLow.largest third thirdMember (under.trans below)
      · refine Or.inr ⟨isLow.member, w, inSecond, mem_append_left _ isLow.member, isLow.below, ?_⟩
        intro third thirdMember under
        rcases mem_append.mp thirdMember with old | new
        · exact isLow.largest third old under
        · by_contra above
          exact between ⟨third, new, not_le.mp above, under⟩
  · rintro (⟨w, member, isLow⟩ | ⟨isMember, w, member, isLow⟩)
    · exact ⟨w, mem_append_left _ member, isLow⟩
    · exact ⟨w, mem_append_right _ member, isLow.of_append isMember⟩

theorem leafAt_append_other {index i : ℕ} (separate : Separate (entries ++ [⟨v, index⟩]))
    (isLow : IsLow entries v low) (notLow : i ≠ low.index) (notNew : i ≠ index) :
    leafAt hash (entries ++ [⟨v, index⟩]) i = leafAt hash entries i := by
  have values : (entries.map Entry.value).Nodup := by
    have all := separate.values
    rw [map_append] at all
    exact all.of_append_left
  have indices : (entries.map Entry.index).Nodup := by
    have all := separate.indices
    rw [map_append] at all
    exact all.of_append_left
  by_cases taken : i ∈ entries.map Entry.index
  · obtain ⟨entry, member, rfl⟩ := mem_map.mp taken
    apply leafAt_extend separate indices member
    rintro ⟨w, isNew, otherLow⟩
    rw [map_singleton, mem_singleton] at isNew
    subst isNew
    exact notLow (congrArg Entry.index (isLow.unique values otherLow))
  · rw [leafAt_free taken, leafAt_free]
    rw [map_append, mem_append, not_or]
    exact ⟨taken, by simpa using notNew⟩

end

section

variable {top sub count first : ℕ} {entries : List (Entry F)} {start db : IndexedDb F} {done : List F} {v : F}

variable (hash) in
def storedLeaves (entries : List (Entry F)) (first : ℕ) (done : List F) (i : ℕ) : F :=
  if i < first then leafAt hash (entries ++ placed first done) i else 0

variable (hash node entries start) in
/-- What the loop keeps: the rows of the values so far are there, and the leaves before the new
sub-tree are those of the rows. -/
structure Pending (top sub count first : ℕ) (done : List F) (db : IndexedDb F) : Prop where
  isFirst : count * 2 ^ sub = first
  leaves : db.leaves = rows (entries ++ placed first done)
  separate : Separate (entries ++ placed first done)
  tree : Holds node top sub count (storedLeaves hash entries first done) db.tree
  moves : Moves node (top + sub) (fun k => ∃ entry, LowOf entries (done.filter fun value => value ≠ 0) entry ∧
      Touches (top + sub) entry.index 0 k)
    (leafAt hash entries) (storedLeaves hash entries first done) start.tree.nodes db.tree.nodes

theorem Consistent.pending (consistent : Consistent hash node top sub count entries start) :
    Pending hash node entries start top sub count (count * 2 ^ sub) [] start := by
  have same : storedLeaves hash entries (count * 2 ^ sub) [] = leafAt hash entries := by
    funext i
    rw [storedLeaves, placed, append_nil]
    by_cases inside : i < count * 2 ^ sub
    · rw [if_pos inside]
    · rw [if_neg inside, leafAt_free (consistent.index_free (not_lt.mp inside))]
  refine ⟨rfl, ?_, ?_, same ▸ consistent.tree, ?_⟩
  · rw [placed, append_nil]
    exact consistent.leaves
  · rw [placed, append_nil]
    exact consistent.separate
  · rw [same]
    refine (Moves.refl _ _ _).congr ?_
    intro k
    refine ⟨False.elim, ?_⟩
    rintro ⟨entry, ⟨w, impossible, _⟩, _⟩
    exact absurd impossible not_mem_nil

omit [NatCast F] in
theorem placed_concat {index : ℕ} (nonzero : v ≠ 0) :
    placed index (done ++ [v]) = placed index done ++ [⟨v, index + done.length⟩] := by
  rw [placed_append, placed, if_neg nonzero, placed]

omit [NatCast F] in
theorem filter_concat (nonzero : v ≠ 0) : (done ++ [v]).filter (fun value => value ≠ 0) =
    (done.filter fun value => value ≠ 0) ++ [v] := by
  rw [filter_append, filter_cons_of_pos (by simpa using nonzero), filter_nil]

theorem Pending.zero (pending : Pending hash node entries start top sub count first done db) :
    Pending hash node entries start top sub count first (done ++ [0]) db := by
  have isPlaced : placed first (done ++ [0]) = placed first done := by
    rw [placed_append, placed, if_pos rfl, placed, append_nil]
  have isFilter : (done ++ [(0 : F)]).filter (fun value => value ≠ 0) = done.filter fun value => value ≠ 0 := by
    rw [filter_append, filter_cons_of_neg (by simp), filter_nil, append_nil]
  have same : storedLeaves hash entries first (done ++ [0]) = storedLeaves hash entries first done := by
    funext i
    rw [storedLeaves, isPlaced, storedLeaves]
  refine ⟨pending.isFirst, ?_, ?_, same ▸ pending.tree, ?_⟩
  · rw [isPlaced]
    exact pending.leaves
  · rw [isPlaced]
    exact pending.separate
  · rw [same, isFilter]
    exact pending.moves

variable (consistent : Consistent hash node top sub count entries start)
  (pending : Pending hash node entries start top sub count first done db)
include consistent pending

theorem Pending.index_lt {entry : Entry F} (member : entry ∈ entries ++ placed first done) :
    entry.index < first + done.length := by
  rcases mem_append.mp member with old | new
  · exact Nat.lt_add_right _ (pending.isFirst ▸ consistent.below entry old)
  · exact (mem_placed new).2.1

theorem Pending.mem_old_iff {entry : Entry F} (member : entry ∈ entries ++ placed first done) :
    entry ∈ entries ↔ entry.index < first := by
  refine ⟨fun old => pending.isFirst ▸ consistent.below entry old, ?_⟩
  intro below
  rcases mem_append.mp member with old | new
  · exact old
  · exact absurd below (not_lt.mpr (mem_placed new).1)

theorem Pending.index_free : first + done.length ∉ (entries ++ placed first done).map Entry.index := by
  rw [mem_map]
  rintro ⟨entry, member, same⟩
  have below := pending.index_lt consistent member
  omega

variable {low : Entry F} (nonzero : v ≠ 0) (absent : v ∉ (entries ++ placed first done).map Entry.value)
  (isLow : IsLow (entries ++ placed first done) v low)
include nonzero absent

theorem Pending.separate_concat : Separate (entries ++ placed first (done ++ [v])) := by
  rw [placed_concat nonzero, ← append_assoc]
  exact pending.separate.append absent (pending.index_free consistent)

include isLow

theorem Pending.store (inRange : first + done.length < 2 ^ 63) : (storeLeaf v (some (first + done.length))).run db =
      (.ok (some ()), { db with leaves := rows (entries ++ placed first (done ++ [v])) }) := by
  rw [placed_concat nonzero, ← append_assoc]
  exact storeLeaf_run pending.leaves pending.separate
    (fun entry member => (pending.index_lt consistent member).trans inRange) isLow absent
    (pending.index_free consistent) inRange

theorem Pending.storedLeaves_other {i : ℕ} (notLow : i ≠ low.index) :
    storedLeaves hash entries first (done ++ [v]) i = storedLeaves hash entries first done i := by
  by_cases inside : i < first
  · have separate := pending.separate_concat consistent nonzero absent
    rw [storedLeaves, storedLeaves, if_pos inside, if_pos inside]
    rw [placed_concat nonzero, ← append_assoc] at separate ⊢
    exact leafAt_append_other separate isLow notLow (by omega)
  · rw [storedLeaves, storedLeaves, if_neg inside, if_neg inside]

omit consistent absent in
theorem Pending.lowOf_concat (entry : Entry F) : LowOf entries ((done ++ [v]).filter fun value => value ≠ 0) entry ↔
      LowOf entries (done.filter fun value => value ≠ 0) entry ∨ entry ∈ entries ∧ entry = low := by
  rw [filter_concat nonzero, lowOf_append (placed_values first done)]
  refine or_congr_right (and_congr_right fun _ => ?_)
  constructor
  · rintro ⟨w, member, otherLow⟩
    obtain rfl := mem_singleton.mp member
    exact isLow.unique pending.separate.values otherLow
  · rintro rfl
    exact ⟨v, mem_singleton_self v, isLow⟩

theorem Pending.behindPending (isPending : ¬low.index < first) :
    Pending hash node entries start top sub count first (done ++ [v])
      { db with leaves := rows (entries ++ placed first (done ++ [v])) } := by
  have same : storedLeaves hash entries first (done ++ [v]) = storedLeaves hash entries first done := by
    funext i
    by_cases atLow : i = low.index
    · rw [storedLeaves, storedLeaves, atLow, if_neg isPending, if_neg isPending]
    · exact pending.storedLeaves_other consistent nonzero absent isLow atLow
  refine ⟨pending.isFirst, rfl, pending.separate_concat consistent nonzero absent, same ▸ pending.tree, ?_⟩
  rw [same]
  refine pending.moves.congr ?_
  intro k
  refine exists_congr fun entry => and_congr_left fun _ => ?_
  rw [pending.lowOf_concat nonzero isLow, or_iff_left]
  rintro ⟨member, rfl⟩
  exact isPending ((pending.mem_old_iff consistent isLow.member).mp member)

variable (small : top + sub ≤ 62)
include small

theorem Pending.behindStored (isStored : low.index < first) : ∃ root later, (updateSubTree node low.index
        [hashLeaf hash (row (entries ++ placed first (done ++ [v])) low)] true).run db.tree = (.ok root, later) ∧
      Pending hash node entries start top sub count first (done ++ [v])
        ⟨later, rows (entries ++ placed first (done ++ [v]))⟩ := by
  have separate := pending.separate_concat consistent nonzero absent
  have member := (pending.mem_old_iff consistent isLow.member).mpr isStored
  obtain ⟨later, ran, holds, moves⟩ := updateSubTree_moves pending.tree small (consistent.index_lt member)
    (hashLeaf hash (row (entries ++ placed first (done ++ [v])) low))
  have same : Function.update (storedLeaves hash entries first done) low.index
      (hashLeaf hash (row (entries ++ placed first (done ++ [v])) low)) =
      storedLeaves hash entries first (done ++ [v]) := by
    funext i
    by_cases here : i = low.index
    · subst here
      rw [Function.update_self, storedLeaves, if_pos isStored, leafAt_mem separate.indices (mem_append_left _ member)]
    · rw [Function.update_of_ne here, pending.storedLeaves_other consistent nonzero absent isLow here]
  rw [same] at holds moves
  refine ⟨_, later, ran, pending.isFirst, rfl, separate, holds, (pending.moves.trans moves).congr ?_⟩
  intro k
  constructor
  · rintro (⟨entry, isEntryLow, touched⟩ | touched)
    · exact ⟨entry, (pending.lowOf_concat nonzero isLow entry).mpr (.inl isEntryLow), touched⟩
    · exact ⟨low, (pending.lowOf_concat nonzero isLow low).mpr (.inr ⟨member, rfl⟩), touched⟩
  · rintro ⟨entry, isEntryLow, touched⟩
    rcases (pending.lowOf_concat nonzero isLow entry).mp isEntryLow with before | ⟨_, rfl⟩
    · exact .inl ⟨entry, before, touched⟩
    · exact .inr touched

omit consistent pending nonzero absent isLow in
theorem getNonMembershipProof_run {leaves : ℕ → F} (isTable : db.leaves = rows entries)
    (values : (entries.map Entry.value).Nodup) (holds : Holds node top sub count leaves db.tree)
    (nonzero : v ≠ 0) (absent : v ∉ entries.map Entry.value) (isLow : IsLow entries v low)
    (inside : low.index < 2 ^ (top + sub)) :
    ∃ path, (getNonMembershipProof hash v).run db = (.ok ⟨hashLeaf hash (row entries low), path, low.index⟩, db) ∧
      path.map PathElement.step = opening node (top + sub) leaves low.index := by
  obtain ⟨path, isPath, isOpening⟩ := siblingPath_run small (le_refl _) inside holds.heaped
  have wide := Nat.pow_lt_pow_right Nat.one_lt_two (show top + sub < 63 by omega)
  have position : (2 ^ (top + sub) % 2 ^ 64 + (2 ^ 64 - 1) + (row entries low).id) % 2 ^ 64 =
      slot (top + sub) low.index := by
    rw [row, slot]
    dsimp only
    omega
  rw [Nat.sub_self] at isOpening
  refine ⟨path, ?_, isOpening⟩
  rw [getNonMembershipProof, if_neg nonzero, bind_ok (getLeaf_missing isTable absent), if_neg (by simp),
    bind_ok (findMetadata_run holds.metadata), bind_ok (getLowLeaf_found isTable values isLow), lift_okOr rfl,
    position, bind_ok (onTree_ok isPath), pure_run]
  rfl

theorem Pending.insertBehind (inRange : first + done.length < 2 ^ 63) (metadata : TreeMetadata F) :
    ∃ proof later, (IndexedTree.insertBehind hash node metadata first
          (row (entries ++ placed first done) low) v (first + done.length)).run db = (.ok proof, later) ∧
      Pending hash node entries start top sub count first (done ++ [v]) later := by
  have stored := pending.store consistent nonzero absent isLow inRange
  rw [IndexedTree.insertBehind]
  by_cases isStored : low.index < first
  · have member := (pending.mem_old_iff consistent isLow.member).mpr isStored
    have separate := pending.separate_concat consistent nonzero absent
    obtain ⟨path, isProof, -⟩ := @getNonMembershipProof_run F _ _ _ hash node _ _ _ _ _ _ _ small _ pending.leaves
      pending.separate.values pending.tree nonzero absent isLow (consistent.index_lt member)
    obtain ⟨root, later, updated, next⟩ := pending.behindStored consistent nonzero absent isLow small isStored
    have found : (getLeaf (some (row (entries ++ placed first done) low).value) none).run
        { db with leaves := rows (entries ++ placed first (done ++ [v])) } = _ :=
      getLeaf_stored rfl separate.values (mem_append_left _ member)
    have updates : (onTree (updateSubTree node low.index
        [hashLeaf hash (row (entries ++ placed first (done ++ [v])) low)] true)).run
        { db with leaves := rows (entries ++ placed first (done ++ [v])) } = _ := onTree_ok updated
    refine ⟨⟨hashLeaf hash (row (entries ++ placed first done) low), path, low.index⟩, _, ?_, next⟩
    rw [if_pos (show (row _ low).id < _ from isStored), insertBehindStored, bind_ok isProof, bind_ok stored,
      lift_okOr rfl, bind_ok found, lift_okOr rfl]
    exact bind_ok updates
  · refine ⟨⟨hashLeaf hash (row (entries ++ placed first done) low), zeroPath metadata, first + done.length⟩, _, ?_,
      pending.behindPending consistent nonzero absent isLow isStored⟩
    rw [if_neg (show ¬(row _ low).id < _ from isStored), insertBehindPending, bind_ok stored, lift_okOr rfl, pure_run]

end

section

variable {top sub count first : ℕ} {entries : List (Entry F)} {start db : IndexedDb F}
  {done : List F} {v : F} [ToString F]
  (consistent : Consistent hash node top sub count entries start)
  (pending : Pending hash node entries start top sub count first done db)
  (small : top + sub ≤ 62) (least : ∀ x : F, 0 ≤ x) (metadata : TreeMetadata F)
  {inserting : Inserting F} (isIndex : inserting.initialIndex = first + done.length)
include consistent pending small least isIndex

theorem Pending.insertNullifier (inRange : first + done.length < 2 ^ 63) :
    (∃ next later, (IndexedTree.insertNullifier hash node metadata first inserting v).run db = (.ok next, later) ∧
        next.initialIndex = first + (done ++ [v]).length ∧
        Pending hash node entries start top sub count first (done ++ [v]) later) ∨
      (IndexedTree.insertNullifier hash node metadata first inserting v).run db =
          (.error (.returned .leafExists), db) ∧
        v ≠ 0 ∧ v ∈ (entries ++ placed first done).map Entry.value := by
  have isNext : (inserting.initialIndex + 1) % 2 ^ 64 = first + (done ++ [v]).length := by
    rw [isIndex, length_append, length_singleton, ← Nat.add_assoc]
    exact Nat.mod_eq_of_lt (by omega)
  by_cases zero : v = 0
  · subst zero
    left
    refine ⟨⟨(inserting.initialIndex + 1) % 2 ^ 64,
      inserting.lowNullifiers ++ [(.ofLeaf .default, ⟨0, zeroPath metadata, 0⟩)]⟩, db, ?_, isNext, pending.zero⟩
    rw [IndexedTree.insertNullifier, bind_ok (getLeaf_stored pending.leaves pending.separate.values
      pending.separate.zero), if_neg (by simp), if_neg (by simp), pure_run]
  · by_cases stored : v ∈ (entries ++ placed first done).map Entry.value
    · right
      refine ⟨?_, zero, stored⟩
      obtain ⟨entry, member, rfl⟩ := mem_map.mp stored
      rw [IndexedTree.insertNullifier, bind_ok (getLeaf_stored pending.leaves pending.separate.values member),
        if_pos ⟨rfl, zero⟩, fail_run]
    · left
      obtain ⟨low, isLow⟩ := pending.separate.exists_low (lt_of_le_of_ne (least v) (Ne.symm zero))
      obtain ⟨proof, later, ran, next⟩ := pending.insertBehind consistent zero stored isLow small inRange metadata
      rw [← isIndex] at ran
      refine ⟨⟨(inserting.initialIndex + 1) % 2 ^ 64, inserting.lowNullifiers ++
        [(.ofLeaf (row (entries ++ placed first done) low), proof)]⟩, later, ?_, isNext, next⟩
      rw [IndexedTree.insertNullifier, bind_ok (getLeaf_missing pending.leaves stored), if_neg (by simp),
        if_pos zero, bind_ok (getLowLeaf_found pending.leaves pending.separate.values isLow), lift_okOr rfl,
        bind_ok ran, pure_run]

theorem Pending.foldlM {rest : List F} (inRange : first + (done ++ rest).length ≤ 2 ^ 63) :
    (∃ last later, (rest.foldlM (IndexedTree.insertNullifier hash node metadata first) inserting).run db =
          (.ok last, later) ∧
        Pending hash node entries start top sub count first (done ++ rest) later) ∨
      (∃ failure later before v after, rest = before ++ v :: after ∧ v ≠ 0 ∧
          v ∈ (entries ++ placed first (done ++ before)).map Entry.value ∧
          later.leaves = rows (entries ++ placed first (done ++ before)) ∧
          (rest.foldlM (IndexedTree.insertNullifier hash node metadata first) inserting).run db =
            (.error failure, later)) ∧ ¬((entries ++ placed first (done ++ rest)).map Entry.value).Nodup := by
  induction rest generalizing done db inserting with
  | nil =>
    rw [append_nil]
    exact .inl ⟨inserting, db, rfl, pending⟩
  | cons value rest ih =>
    rw [length_append, length_cons] at inRange
    have split : done ++ value :: rest = done ++ [value] ++ rest := append_cons done value rest
    rcases @Pending.insertNullifier F _ _ _ hash node _ _ _ _ _ _ _ _ value _ consistent pending small least
      metadata inserting isIndex (by omega) with ⟨next, later, ran, isNext, following⟩ | ⟨ran, nonzero, stored⟩
    · rw [split, foldlM_cons, bind_ok ran]
      refine (ih following isNext (by rw [length_append, length_append, length_singleton]; omega)).imp_right
        (And.imp_left ?_)
      rintro ⟨failure, stopped, before, v, after, rfl, nonzero, stored, isTable, failed⟩
      rw [← append_cons] at stored isTable
      exact ⟨failure, stopped, value :: before, v, after, rfl, nonzero, stored, isTable, failed⟩
    · refine .inr ⟨⟨.returned .leafExists, db, [], value, rest, rfl, nonzero, ?_, ?_, ?_⟩, ?_⟩
      · rwa [append_nil]
      · rw [append_nil, pending.leaves]
      · rw [foldlM_cons, bind_error ran]
      · intro distinct
        rw [map_append, placed_values, filter_append, filter_cons_of_pos (by simpa using nonzero),
          ← append_assoc] at distinct
        rw [map_append, placed_values] at stored
        exact disjoint_of_nodup_append distinct stored mem_cons_self

end

section

variable {top sub count : ℕ} {entries : List (Entry F)} {start db : IndexedDb F}
  {values : List F} {findOne : FindOne F}

variable (entries) in
def pendingOf (v : F) : LeafDBEntry F :=
  if v ≠ 0 then
    ((entries.find? fun entry => entry.value = v).map fun entry => .ofLeaf (row entries entry)).getD .default
  else .default

theorem newLeafValue_pendingOf (values : (entries.map Entry.value).Nodup) {v : F}
    (stored : v ≠ 0 → v ∈ entries.map Entry.value) :
    newLeafValue hash (pendingOf entries v) = hashOf hash entries v := by
  by_cases zero : v = 0
  · rw [pendingOf, if_neg (not_not.mpr zero), hashOf, if_pos zero, newLeafValue,
      if_neg (not_not.mpr (show (LeafDBEntry.default : LeafDBEntry F).value = 0 from rfl))]
  · obtain ⟨entry, member, rfl⟩ := mem_map.mp (stored zero)
    rw [hashOf_mem values member zero, pendingOf, if_pos zero, find_key values member, Option.map_some,
      Option.getD_some, newLeafValue, if_pos (show (LeafDBEntry.ofLeaf (row entries entry)).value ≠ 0 from zero)]
    rfl

theorem pendingInsert_run (isTable : db.leaves = rows entries) (values : (entries.map Entry.value).Nodup) {v : F}
    (stored : v ≠ 0 → v ∈ entries.map Entry.value) : (pendingInsert v).run db = (.ok (pendingOf entries v), db) := by
  by_cases zero : v = 0
  · rw [pendingInsert, if_neg (not_not.mpr zero), pendingOf, if_neg (not_not.mpr zero), pure_run]
  · obtain ⟨entry, member, rfl⟩ := mem_map.mp (stored zero)
    rw [pendingInsert, if_pos zero, bind_ok (getLeaf_stored isTable values member), lift_okOr rfl, pure_run,
      pendingOf, if_pos zero, find_key values member]
    rfl

theorem Pending.writeAt_eq {first : ℕ} (consistent : Consistent hash node top sub count entries start)
    (pending : Pending hash node entries start top sub count first values db) :
    writeAt 0 first (values.map (hashOf hash (entries ++ placed first values)))
      (storedLeaves hash entries first values) =
      leafAt hash (entries ++ placed first values) := by
  funext i
  rw [writeAt, length_map]
  by_cases inBatch : first ≤ i ∧ i < first + values.length
  · obtain ⟨j, rfl⟩ : ∃ j, i = first + j := ⟨i - first, by omega⟩
    have within : j < values.length := by omega
    rw [if_pos inBatch, leafAt_placed (pending.isFirst ▸ consistent.below) pending.separate, Nat.add_sub_cancel_left,
      getD_eq_getElem _ _ (by rwa [length_map]), getElem_map, getD_eq_getElem _ _ within]
  · rw [if_neg inBatch, storedLeaves]
    by_cases inside : i < first
    · rw [if_pos inside]
    · rw [if_neg inside, leafAt_free]
      rw [mem_map]
      rintro ⟨entry, member, rfl⟩
      have below := pending.index_lt consistent member
      omega

variable [ToString F] (least : ∀ x : F, 0 ≤ x) (low : top + sub ≤ 62)
  (consistent : Consistent hash node top sub count entries db)
include low consistent

omit [ToString F] in
theorem Consistent.start_le : count * 2 ^ sub ≤ 2 ^ 62 := by
  have most := Nat.mul_le_mul_right (2 ^ sub) consistent.counted
  rw [← Nat.pow_add] at most
  exact most.trans (Nat.pow_le_pow_right (by decide) low)

variable (whole : values.length = 2 ^ sub)
include whole

theorem Consistent.insertNullifiersForCircuit_eq (findOne : FindOne F) {last : Inserting F} {middle : IndexedDb F}
    (looped : (values.foldlM (insertNullifier hash node ⟨top, sub, count,
      levels node (top + sub) (leafAt hash entries) 0⟩ (count * 2 ^ sub))
      ⟨count * 2 ^ sub, []⟩).run db = (.ok last, middle))
    (pending : Pending hash node entries db top sub count (count * 2 ^ sub) values middle) :
    ∃ finish : CircuitInsertionInfo F → IMTCircuitInsertionInfo F,
      (insertNullifiersForCircuit hash node findOne values).run db =
        (onTree (MutableTree.insertForCircuit node findOne
          (values.map (hashOf hash (entries ++ placed (count * 2 ^ sub) values)))) >>= fun info =>
            pure (finish info)).run middle := by
  have most := consistent.start_le low
  have isFirst : count * 2 ^ sub % 2 ^ 64 = count * 2 ^ sub := Nat.mod_eq_of_lt (by omega)
  have stored : ∀ v ∈ values, v ≠ 0 → v ∈ (entries ++ placed (count * 2 ^ sub) values).map Entry.value :=
    fun v member nonzero => stored_of_mem (placed_values _ _) member nonzero
  have retrieved : (values.mapM pendingInsert).run middle = _ :=
    mapM_run fun v member => pendingInsert_run pending.leaves pending.separate.values (stored v member)
  have hashed : (values.map (pendingOf (entries ++ placed (count * 2 ^ sub) values))).map
      (newLeafValue hash) = values.map (hashOf hash (entries ++ placed (count * 2 ^ sub) values)) := by
    rw [map_map]
    exact map_congr_left fun v member => newLeafValue_pendingOf pending.separate.values (stored v member)
  refine ⟨fun info => ⟨levels node (top + sub) (leafAt hash entries) 0, info, count * 2 ^ sub, last.lowNullifiers,
    values.map (pendingOf (entries ++ placed (count * 2 ^ sub) values))⟩, ?_⟩
  rw [insertNullifiersForCircuit, bind_ok (findMetadata_run consistent.tree.metadata)]
  rw [if_neg (not_not.mpr whole.symm), isFirst, bind_ok looped, bind_ok retrieved, hashed]

include least

theorem Consistent.foldlM (metadata : TreeMetadata F) :
    (∃ last later, (values.foldlM (insertNullifier hash node metadata (count * 2 ^ sub))
          ⟨count * 2 ^ sub, []⟩).run db = (.ok last, later) ∧
        Pending hash node entries db top sub count (count * 2 ^ sub) values later) ∨
      (∃ failure later before v after, values = before ++ v :: after ∧ v ≠ 0 ∧
          v ∈ (entries ++ placed (count * 2 ^ sub) before).map Entry.value ∧
          later.leaves = rows (entries ++ placed (count * 2 ^ sub) before) ∧
          (values.foldlM (insertNullifier hash node metadata (count * 2 ^ sub))
            ⟨count * 2 ^ sub, []⟩).run db = (.error failure, later)) ∧
        ¬((entries ++ placed (count * 2 ^ sub) values).map Entry.value).Nodup := by
  have most := consistent.start_le low
  have narrow := Nat.pow_le_pow_right Nat.two_pos (show sub ≤ 62 by omega)
  exact consistent.pending.foldlM consistent low least metadata rfl (by rw [nil_append, whole]; omega)

theorem insertNullifiersForCircuit_inserts
    (fresh : ((entries ++ placed (count * 2 ^ sub) values).map Entry.value).Nodup)
    (room : count < 2 ^ top) :
    ∃ info later, (insertNullifiersForCircuit hash node findOne values).run db = (.ok info, later) ∧
      Inserts hash node top sub count entries values db later := by
  have single : values.length / 2 ^ sub = 1 := by rw [whole, Nat.div_self (Nat.two_pow_pos _)]
  rcases consistent.foldlM least low whole ⟨top, sub, count, levels node (top + sub) (leafAt hash entries) 0⟩ with
    ⟨last, middle, looped, pending⟩ | ⟨_, duplicate⟩
  · obtain ⟨finish, isCall⟩ := consistent.insertNullifiersForCircuit_eq low whole findOne looped pending
    obtain ⟨info, later, inserted, holds, moves⟩ := insertForCircuit_moves pending.tree low findOne room
      (by rw [length_map, whole]) (pending.writeAt_eq consistent).symm
    refine ⟨finish info, ⟨later, middle.leaves⟩, ?_, ⟨pending.leaves, ?_, pending.separate, ?_, ?_⟩, ?_⟩
    · rw [isCall, bind_ok (onTree_ok inserted), pure_run]
    · rw [single]
      exact holds
    · intro entry member
      have below := pending.index_lt consistent member
      rwa [whole, ← Nat.succ_mul, Nat.succ_eq_add_one, ← single] at below
    · rw [single]
      exact room
    · rw [single]
      refine (pending.moves.trans moves).congr ?_
      intro k
      exact or_comm
  · exact absurd fresh duplicate

theorem insertNullifiersForCircuit_fails
    (refused : ¬(((entries ++ placed (count * 2 ^ sub) values).map Entry.value).Nodup ∧ count < 2 ^ top)) :
    ∃ failure later added, (insertNullifiersForCircuit hash node findOne values).run db = (.error failure, later) ∧
      later.leaves = rows (entries ++ added) ∧
      (added = [] → (∃ zeros v rest, values = zeros ++ v :: rest ∧ (∀ z ∈ zeros, z = 0) ∧ v ≠ 0 ∧
        v ∈ db.leaves.map IndexedLeaf.value) ∨ ∀ z ∈ values, z = 0) := by
  have most := consistent.start_le low
  have isFirst : count * 2 ^ sub % 2 ^ 64 = count * 2 ^ sub := Nat.mod_eq_of_lt (by omega)
  rcases consistent.foldlM least low whole ⟨top, sub, count, levels node (top + sub) (leafAt hash entries) 0⟩ with
    ⟨last, middle, looped, pending⟩ | ⟨⟨failure, later, before, v, after, isSplit, nonzero, stored, isTable, looped⟩, _⟩
  · obtain ⟨finish, isCall⟩ := consistent.insertNullifiersForCircuit_eq low whole findOne looped pending
    have full : count = 2 ^ top :=
      le_antisymm consistent.counted (not_lt.mp fun room => refused ⟨pending.separate.values, room⟩)
    refine ⟨_, _, _, isCall.trans (bind_error (onTree_error (insertForCircuit_full pending.tree low findOne full ?_))),
      pending.leaves, fun nothing => .inr (zeros_of_placed nothing)⟩
    rw [length_map, whole]
  · refine ⟨failure, later, _, ?_, isTable, fun nothing => .inl ⟨before, v, after, isSplit, zeros_of_placed nothing,
      nonzero, ?_⟩⟩
    · rw [insertNullifiersForCircuit, bind_ok (findMetadata_run consistent.tree.metadata)]
      rw [if_neg (not_not.mpr whole.symm), isFirst, bind_error looped]
    · rwa [nothing, append_nil, ← rows_values, ← consistent.leaves] at stored

omit whole in
theorem insertNullifiersForCircuit_ok {info : IMTCircuitInsertionInfo F} {later : IndexedDb F}
    (ran : (insertNullifiersForCircuit hash node findOne values).run db = (.ok info, later)) :
    Inserts hash node top sub count entries values db later := by
  by_cases whole : values.length = 2 ^ sub
  · by_cases accepted : ((entries ++ placed (count * 2 ^ sub) values).map Entry.value).Nodup ∧ count < 2 ^ top
    · obtain ⟨_, _, inserted, inserts⟩ := insertNullifiersForCircuit_inserts least low consistent whole accepted.1
        accepted.2
      cases ran.symm.trans inserted
      exact inserts
    · obtain ⟨_, _, _, failed, _⟩ := insertNullifiersForCircuit_fails least low consistent whole accepted
      cases ran.symm.trans failed
  · rw [insertNullifiersForCircuit, bind_ok (findMetadata_run consistent.tree.metadata)] at ran
    rw [if_pos (Ne.symm whole), fail_run] at ran
    cases ran

end

end Nightfall.MerkleTrees.IndexedTree
