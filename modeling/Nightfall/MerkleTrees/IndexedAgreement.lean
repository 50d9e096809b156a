import Nightfall.MerkleTrees.IndexedRuns

/-! A list of nullifiers inserted at once and inserted sub-tree by sub-tree. -/

namespace Nightfall.MerkleTrees.IndexedTree

open Merkle Store Store.Program Tables MutableTree List

variable {F : Type} [LinearOrder F] [Zero F] [NatCast F] {hash : F → F → F → F} {node : F → F → F}
  {top sub count : ℕ} {entries : List (Entry F)} {db middle later : IndexedDb F}
  {values others : List F}

section

omit [LinearOrder F] [Zero F] [NatCast F] in
theorem length_append_div (aligned : 2 ^ sub ∣ values.length) : (values ++ others).length / 2 ^ sub =
      values.length / 2 ^ sub + others.length / 2 ^ sub := by
  obtain ⟨whole, isWhole⟩ := aligned
  have positive := Nat.two_pow_pos sub
  rw [length_append, isWhole, Nat.mul_add_div positive, Nat.mul_div_cancel_left whole positive]

theorem appendTouches_append {first between last k : ℕ} (ordered : first ≤ between) (further : between ≤ last) :
    AppendTouches top sub first last k ↔ AppendTouches top sub first between k ∨
        AppendTouches top sub between last k := by
  constructor
  · rintro ⟨other, atLeast, below, touched⟩
    by_cases early : other < between
    · exact Or.inl ⟨other, atLeast, early, touched⟩
    · exact Or.inr ⟨other, not_lt.mp early, below, touched⟩
  · rintro (⟨other, atLeast, below, touched⟩ | ⟨other, atLeast, below, touched⟩)
    · exact ⟨other, atLeast, by omega, touched⟩
    · exact ⟨other, by omega, below, touched⟩

variable (aligned : 2 ^ sub ∣ values.length)
include aligned

omit [NatCast F] in
theorem touches_placed {entry : Entry F} {k : ℕ} (member : entry ∈ placed (count * 2 ^ sub) values)
    (touched : Touches (top + sub) entry.index 0 k) :
    AppendTouches top sub count (count + values.length / 2 ^ sub) k := by
  obtain ⟨atLeast, below, _⟩ := mem_placed member
  have positive := Nat.two_pow_pos sub
  refine ⟨entry.index / 2 ^ sub, ?_, ?_, touched.block⟩
  · rwa [Nat.le_div_iff_mul_le positive]
  · rwa [Nat.div_lt_iff_lt_mul positive, Nat.add_mul, Nat.div_mul_cancel aligned]

omit [NatCast F] in
theorem insertTouches_append {between last k : ℕ} (isBetween : between = count + values.length / 2 ^ sub)
    (further : between ≤ last) :
    InsertTouches top sub count between entries values k ∨ InsertTouches top sub between last
          (entries ++ placed (count * 2 ^ sub) values) others k ↔
      InsertTouches top sub count last entries (values ++ others) k := by
  have areFirst := placed_values (count * 2 ^ sub) values
  have ordered : count ≤ between := isBetween ▸ Nat.le_add_right _ _
  simp only [InsertTouches, filter_append, lowOf_append areFirst, appendTouches_append ordered further]
  constructor
  · rintro ((first | ⟨entry, isLow, touched⟩) | (second | ⟨entry, isLow, touched⟩))
    · exact Or.inl (Or.inl first)
    · exact Or.inr ⟨entry, Or.inl isLow, touched⟩
    · exact Or.inl (Or.inr second)
    · obtain ⟨w, member, bracket⟩ := isLow
      rcases mem_append.mp bracket.member with old | new
      · exact Or.inr ⟨entry, Or.inr ⟨old, w, member, bracket⟩, touched⟩
      · exact Or.inl (Or.inl (isBetween ▸ touches_placed aligned new touched))
  · rintro ((first | second) | ⟨entry, isLow | ⟨_, isLow⟩, touched⟩)
    · exact Or.inl (Or.inl first)
    · exact Or.inr (Or.inl second)
    · exact Or.inl (Or.inr ⟨entry, isLow, touched⟩)
    · exact Or.inr (Or.inr ⟨entry, isLow, touched⟩)

theorem Inserts.trans (first : Inserts hash node top sub count entries values db middle)
    (second : Inserts hash node top sub (count + values.length / 2 ^ sub)
      (entries ++ placed (count * 2 ^ sub) values) others middle later) :
    Inserts hash node top sub count entries (values ++ others) db later := by
  have isStart : (count + values.length / 2 ^ sub) * 2 ^ sub = count * 2 ^ sub + values.length := by
    rw [Nat.add_mul, Nat.div_mul_cancel aligned]
  have isEntries : entries ++ placed (count * 2 ^ sub) (values ++ others) =
      entries ++ placed (count * 2 ^ sub) values ++
        placed ((count + values.length / 2 ^ sub) * 2 ^ sub) others := by
    rw [placed_append, isStart, append_assoc]
  have isCount : count + (values ++ others).length / 2 ^ sub =
      count + values.length / 2 ^ sub + others.length / 2 ^ sub := by
    rw [length_append_div aligned, Nat.add_assoc]
  refine ⟨?_, ?_⟩
  · rw [isEntries, isCount]
    exact second.consistent
  · rw [isEntries, isCount]
    refine (first.moves.trans second.moves).congr fun k => ?_
    exact insertTouches_append aligned rfl (Nat.le_add_right _ _)

end

section

variable [ToString F] {findOne : FindOne F} (least : ∀ x : F, 0 ≤ x) (low : top + sub ≤ 62)
include least low

section

variable (aligned : 2 ^ sub ∣ values.length) (consistent : Consistent hash node top sub count entries db)
  (fresh : ((entries ++ placed (count * 2 ^ sub) values).map Entry.value).Nodup)
  (room : count + values.length / 2 ^ sub ≤ 2 ^ top)

include aligned consistent fresh room

theorem batchInsertNullifiers_inserts :
    ∃ infos later, (batchInsertNullifiersWithCircuitInfo hash node findOne values).run db = (.ok infos, later) ∧
      Inserts hash node top sub count entries values db later := by
  by_cases empty : values = []
  · subst empty
    exact ⟨[], db, by rw [batchInsertNullifiersWithCircuitInfo, if_pos isEmpty_nil, pure_run], consistent.inserts_nil⟩
  · rw [batchInsertNullifiersWithCircuitInfo, if_neg (by simpa using empty),
      bind_ok (findMetadata_run consistent.tree.metadata), allChunks,
      if_pos (Nat.mod_eq_zero_of_dvd aligned), append_nil]
    have positive := Nat.two_pow_pos sub
    refine mapM_chunks_run (fun done => Inserts _ _ _ _ count entries done db) positive (Nat.dvd_zero _)
      consistent.inserts_nil aligned (nil_append _) ?_
    rintro done middle part whole inserts isPart ⟨rest, rfl⟩
    have single : part.length / 2 ^ sub = 1 := by rw [isPart, Nat.div_self positive]
    rw [length_append_div (dvd_length_append whole isPart), length_append_div whole, single, ← Nat.add_assoc,
      ← Nat.add_assoc] at room
    rw [placed_append, placed_append, ← append_assoc, ← append_assoc, map_append] at fresh
    have partFresh := fresh.of_append_left
    rw [← Nat.div_mul_cancel whole, ← Nat.add_mul] at partFresh
    obtain ⟨info, later, inserted, more⟩ := insertNullifiersForCircuit_inserts least low inserts.consistent isPart
      partFresh ((Nat.le_add_right _ _).trans room)
    exact ⟨info, later, inserted, inserts.trans whole more⟩

end

end

section

variable [ToString F] {inserted : List F}

omit [NatCast F] [ToString F] in
theorem fresh_placed (isTable : db.leaves = rows entries) (values : (entries.map Entry.value).Nodup)
    (distinct : (others.filter fun value => value ≠ 0).Nodup)
    (absent : ∀ v ∈ others, v ≠ 0 → v ∉ db.leaves.map IndexedLeaf.value) (index : ℕ) :
    ((entries ++ placed index others).map Entry.value).Nodup := by
  rw [map_append, placed_values]
  refine values.append distinct ?_
  intro v old new
  rw [mem_filter] at new
  refine absent v new.1 (by simpa using new.2) ?_
  rwa [isTable, rows_values]

theorem insertLeaves_eq_batch (idle : node 0 0 = 0) (least : ∀ x : F, 0 ≤ x) (findOne : FindOne F)
    (reached : Reached hash node top sub inserted db)
    (aligned : 2 ^ sub ∣ values.length) (distinct : (values.filter fun value => value ≠ 0).Nodup)
    (absent : ∀ v ∈ values, v ≠ 0 → v ∉ db.leaves.map IndexedLeaf.value)
    (room : ∀ metadata, db.tree.metadata = some metadata →
      metadata.subTreeCount + values.length / 2 ^ sub ≤ 2 ^ top)
    (inRange : InRange db values) :
    ∃ root infos later, (insertLeaves hash node values).run db = (.ok root, later) ∧
      (batchInsertNullifiersWithCircuitInfo hash node findOne values).run db = (.ok infos, later) := by
  obtain ⟨low, count, entries, consistent, _⟩ := reached.consistent idle least
  have fresh := fresh_placed consistent.leaves consistent.separate.values distinct absent (count * 2 ^ sub)
  have fits := room _ consistent.tree.metadata
  obtain ⟨root, later, atOnce, inserts⟩ := insertLeaves_inserts consistent least low
    (inRange.placed consistent.tree.metadata) fresh aligned fun _ => fits
  obtain ⟨infos, other, batched, also⟩ := @batchInsertNullifiers_inserts F _ _ _ hash node _ _ _ _ _ _ _ findOne
    least low aligned consistent fresh fits
  rw [also.unique inserts] at batched
  exact ⟨root, infos, later, atOnce, batched⟩

theorem insertLeaves_eq_batch_two : ∃ (db later : IndexedDb ℕ) (root : ℕ) (infos : List (IMTCircuitInsertionInfo ℕ)),
    (newIndexedTree toyLeaf toyNode 2 1).run .empty = (.ok (), db) ∧
    (insertLeaves toyLeaf toyNode [5, 3, 0, 4]).run db = (.ok root, later) ∧
    (batchInsertNullifiersWithCircuitInfo toyLeaf toyNode (fun _ _ => none)
      [5, 3, 0, 4]).run db = (.ok infos, later) := by
  have new : Reached toyLeaf toyNode 2 1 [] _ := .new rfl
  obtain ⟨root, infos, later, atOnce, batched⟩ := insertLeaves_eq_batch rfl (fun x => Nat.zero_le x)
    (fun _ _ => none) new (show 2 ^ 1 ∣ [5, 3, 0, 4].length by decide) (by decide) (by decide)
    (by rintro _ ⟨⟩; decide) (by
      rintro _ ⟨⟩ i nonzero
      have within : i < 4 := by
        by_contra beyond
        exact nonzero (getD_eq_default _ _ (not_lt.mp beyond))
      dsimp only
      omega)
  exact ⟨_, later, root, infos, rfl, atOnce, batched⟩

end

section

theorem insertLeaves_batch_differ :
    (∃ (db later other : IndexedDb ℕ) (root : ℕ) (infos : List (IMTCircuitInsertionInfo ℕ)),
      (newIndexedTree toyLeaf toyNode 1 32).run .empty = (.ok (), db) ∧
      (insertLeaves toyLeaf toyNode (5 :: List.replicate (2 ^ 32 - 1) 0)).run db = (.ok root, later) ∧
      (batchInsertNullifiersWithCircuitInfo toyLeaf toyNode
        (fun _ _ => none) (5 :: List.replicate (2 ^ 32 - 1) 0)).run db = (.ok infos, other) ∧
      later.leaves ≠ other.leaves) ∧ ∃ (db later other : IndexedDb ℕ) (failure otherFailure : Failure),
      (newIndexedTree toyLeaf toyNode 1 0).run .empty = (.ok (), db) ∧
      (insertLeaves toyLeaf toyNode [5, 6]).run db = (.error failure, later) ∧
      (batchInsertNullifiersWithCircuitInfo toyLeaf toyNode
        (fun _ _ => none) [5, 6]).run db = (.error otherFailure, other) ∧
      later.tree.metadata.map TreeMetadata.subTreeCount = some 1 ∧
      other.tree.metadata.map TreeMetadata.subTreeCount = some 2 := by
  refine ⟨?_, _, _, _, _, _, rfl, rfl, rfl, rfl, rfl⟩
  obtain ⟨zeros, isZeros⟩ : ∃ zeros, zeros = replicate (2 ^ 32 - 1) 0 := ⟨_, rfl⟩
  have areZeros : ∀ z ∈ zeros, z = 0 := fun z member => eq_of_mem_replicate (isZeros ▸ member)
  have many : zeros.length + 1 = 2 ^ 32 := by
    rw [isZeros, length_replicate]
    decide
  rw [← isZeros]
  obtain ⟨db, later, root, leaf, isNew, ran, member, isId, _⟩ := insertLeaves_wide areZeros many
  obtain ⟨_, alsoNew, consistent⟩ := @newIndexedTree_run ℕ _ _ _ toyLeaf toyNode 1 32 rfl (by decide)
  obtain rfl := (Prod.mk.inj (isNew.symm.trans alsoNew)).2
  have isLength : (5 :: zeros).length = 2 ^ 32 := many
  have areValues : (5 :: zeros).filter (fun value => value ≠ 0) = [5] := by
    rw [filter_cons_of_pos (by decide), filter_zeros areZeros]
  have fresh : (([(⟨0, 0⟩ : Entry ℕ)] ++ placed (1 * 2 ^ 32) (5 :: zeros)).map Entry.value).Nodup := by
    rw [map_append, placed_values, areValues]
    decide
  obtain ⟨infos, other, batched, inserts⟩ := @batchInsertNullifiers_inserts ℕ _ _ _ toyLeaf
    toyNode 1 32 1 [⟨0, 0⟩] db (5 :: zeros) _ (fun _ _ => none) (fun x => Nat.zero_le x) (by decide)
    ⟨1, isLength.trans (Nat.mul_one _).symm⟩ consistent fresh (by rw [isLength]; decide)
  refine ⟨db, later, other, root, infos, isNew, ran, batched, ?_⟩
  intro same
  have stored := mem_map_of_mem (f := IndexedLeaf.id) (same ▸ member)
  rw [inserts.consistent.leaves, rows_ids, mem_map] at stored
  obtain ⟨entry, isMember, isIndex⟩ := stored
  rcases mem_append.mp isMember with old | new
  · rw [mem_singleton.mp old, isId] at isIndex
    exact absurd isIndex Nat.zero_ne_one
  · have above := (mem_placed new).1
    omega

end

end Nightfall.MerkleTrees.IndexedTree
