import Nightfall.MerkleTrees.MutableInvariant

/-! What an operation of the mutable tree stores, as a step from the tree over some leaves to the
tree over others: the nodes written, with every node above a leaf that changes among them. -/

namespace Nightfall.MerkleTrees.MutableTree

open Merkle Store Store.Program Function

variable {F : Type} {node : F → F → F}

section

variable {height : ℕ} {keys others : ℕ → Prop} {tree middle final : ℕ → F} {before between after : ℕ → Option F}

theorem touches_leaf {i k : ℕ} : Touches height i 0 k ↔ ∃ d ≤ height, k = slot d (i / 2 ^ (height - d)) := by
  constructor
  · rintro (above | ⟨d, most, t, within, rfl⟩)
    · exact above
    · obtain rfl : d = 0 := by omega
      obtain rfl : t = 0 := by
        omega
      refine ⟨height, le_refl _, ?_⟩
      rw [Nat.sub_self, Nat.pow_zero, Nat.mul_one, Nat.div_one, Nat.add_zero, Nat.add_zero]
  · exact Or.inl

theorem Touches.block {top sub i k : ℕ} (touched : Touches (top + sub) i 0 k) :
    Touches top (i / 2 ^ sub) sub k := by
  obtain ⟨d, under, rfl⟩ := touches_leaf.mp touched
  by_cases above : d ≤ top
  · refine Or.inl ⟨d, above, ?_⟩
    rw [Nat.div_div_eq_div_mul, ← Nat.pow_add]
    congr 3
    omega
  · obtain ⟨r, rfl⟩ : ∃ r, d = top + r := ⟨d - top, by omega⟩
    have split : sub = top + sub - (top + r) + r := by omega
    refine Or.inr ⟨r, by omega, i / 2 ^ (top + sub - (top + r)) % 2 ^ r, Nat.mod_lt _ (Nat.two_pow_pos r), ?_⟩
    have outer : i / 2 ^ sub = i / 2 ^ (top + sub - (top + r)) / 2 ^ r := by
      rw [Nat.div_div_eq_div_mul, ← Nat.pow_add, ← split]
    rw [outer, Nat.div_add_mod']

variable (node height keys tree middle before between) in
structure Moves : Prop where
  written : Written keys (heap node height middle) before between
  differs : ∀ i < 2 ^ height, tree i = middle i ∨ ∀ k, Touches height i 0 k → keys k
  within : ∀ k, keys k → k < 2 ^ (height + 1) - 1

theorem heap_of_differs (differs : ∀ i < 2 ^ height, tree i = middle i ∨ ∀ k, Touches height i 0 k → keys k)
    {k : ℕ} (inside : k < 2 ^ (height + 1) - 1) (unwritten : ¬keys k) :
    heap node height tree k = heap node height middle k := by
  obtain ⟨d, j, within, rfl⟩ := exists_slot k
  have under := depth_lt_of_slot_lt inside
  rw [heap_slot within, heap_slot within]
  apply levels_congr
  rintro i rfl
  have below : i < 2 ^ height := by
    have split : height = d + (height - d) := by omega
    rw [split, Nat.pow_add]
    exact (Nat.div_lt_iff_lt_mul (Nat.two_pow_pos _)).mp within
  rcases differs i below with same | above
  · exact same
  · exact absurd (above _ (touches_leaf.mpr ⟨d, by omega, rfl⟩)) unwritten

theorem Moves.refl (height : ℕ) (tree : ℕ → F) (before : ℕ → Option F) :
    Moves node height (fun _ => False) tree tree before before where
  written := Written.none _ _
  differs := fun _ _ => Or.inl rfl
  within := fun _ written => written.elim

theorem Moves.trans (first : Moves node height keys tree middle before between)
    (second : Moves node height others middle final between after) :
    Moves node height (fun k => keys k ∨ others k) tree final before after where
  written := first.written.trans second.written fun k written unwritten =>
    heap_of_differs second.differs (first.within k written) unwritten
  differs := by
    intro i inside
    rcases first.differs i inside with same | above
    · rcases second.differs i inside with again | above
      · exact Or.inl (same.trans again)
      · exact Or.inr fun k touched => Or.inr (above k touched)
    · exact Or.inr fun k touched => Or.inl (above k touched)
  within := fun k written => written.elim (first.within k) (second.within k)

theorem Moves.congr (moves : Moves node height keys tree middle before between)
    (same : ∀ k, keys k ↔ others k) : Moves node height others tree middle before between where
  written := moves.written.congr same
  differs := fun i inside =>
    (moves.differs i inside).imp_right fun above k touched => (same k).mp (above k touched)
  within := fun k written => moves.within k ((same k).mpr written)

theorem Moves.unique (first : Moves node height keys tree final before between)
    (second : Moves node height keys middle final before after) : between = after :=
  first.written.unique second.written

end

section

variable [Zero F] {top sub count : ℕ} {leaves : ℕ → F} {db : MutableDb F}

theorem writeAt_single (index : ℕ) (value : F) (leaves : ℕ → F) :
    writeAt 0 (index * 2 ^ 0) [value] leaves = update leaves index value := by
  funext i
  rw [writeAt, Nat.pow_zero, Nat.mul_one, List.length_singleton]
  by_cases here : i = index
  · subst here
    rw [if_pos (by omega), Nat.sub_self, update_self]
    rfl
  · rw [if_neg (by omega), update_of_ne here]

variable (holds : Holds node top sub count leaves db) (low : top + sub ≤ 62)
include holds low

theorem updateSubTree_moves {index : ℕ} (inside : index < 2 ^ (top + sub)) (value : F) :
    ∃ later, (updateSubTree node index [value] true).run db =
        (.ok (levels node (top + sub) (update leaves index value) 0), later) ∧
      Holds node top sub count (update leaves index value) later ∧
      Moves node (top + sub) (Touches (top + sub) index 0) leaves
        (update leaves index value) db.nodes later.nodes := by
  obtain ⟨later, ran, held, written⟩ := updateSubTree_run holds low (Or.inl rfl)
    (Nat.add_zero (top + sub)) inside (show [value].length = 2 ^ 0 from rfl)
    (writeAt_single index value leaves).symm
  refine ⟨later, ran, held, written, ?_, fun k touched => touched.lt inside⟩
  intro i _
  by_cases here : i = index
  · exact Or.inr (here ▸ fun _ touched => touched)
  · exact Or.inl (update_of_ne here _ _).symm

theorem appendSubTrees_moves {batch : List F} (aligned : 2 ^ sub ∣ batch.length)
    {total : ℕ} (isTotal : total = count + batch.length / 2 ^ sub) (room : total ≤ 2 ^ top)
    {tree : ℕ → F} (isTree : tree = writeAt 0 (count * 2 ^ sub) batch leaves) :
    ∃ later, (appendSubTrees node batch true).run db =
        (.ok (levels node (top + sub) tree 0, total * 2 ^ sub % 2 ^ 64), later) ∧
      Holds node top sub total tree later ∧
      Moves node (top + sub) (AppendTouches top sub count total) leaves tree db.nodes later.nodes := by
  obtain ⟨later, ran, held, written⟩ := appendSubTrees_run holds low aligned isTotal (fun _ => room) isTree
  have whole : count * 2 ^ sub + batch.length = total * 2 ^ sub := by
    rw [isTotal, Nat.add_mul, Nat.div_mul_cancel aligned]
  refine ⟨later, ran, held, written, ?_, ?_⟩
  · intro i _
    by_cases appended : count * 2 ^ sub ≤ i ∧ i < count * 2 ^ sub + batch.length
    · refine Or.inr fun k touched => ⟨i / 2 ^ sub, ?_, ?_, touched.block⟩
      · exact (Nat.le_div_iff_mul_le (Nat.two_pow_pos _)).mpr appended.1
      · rw [whole] at appended
        exact (Nat.div_lt_iff_lt_mul (Nat.two_pow_pos _)).mpr appended.2
    · left
      rw [isTree, writeAt, if_neg appended]
  · rintro k ⟨block, _, below, touched⟩
    exact touched.lt (below.trans_le room)

theorem insertForCircuit_moves [DecidableEq F] (findOne : FindOne F) (room : count < 2 ^ top)
    {batch : List F} (whole : batch.length = 2 ^ sub) {tree : ℕ → F}
    (isTree : tree = writeAt 0 (count * 2 ^ sub) batch leaves) :
    ∃ info later, (insertForCircuit node findOne batch).run db = (.ok info, later) ∧
      Holds node top sub (count + 1) tree later ∧
      Moves node (top + sub) (AppendTouches top sub count (count + 1)) leaves tree db.nodes later.nodes := by
  have inside : count * 2 ^ sub < 2 ^ (top + sub) := by
    rw [Nat.pow_add]
    exact Nat.mul_lt_mul_of_pos_right room (Nat.two_pow_pos _)
  have wide := Nat.pow_lt_pow_right Nat.one_lt_two (show top + sub < 64 by omega)
  have isIndex : count * 2 ^ sub % 2 ^ 64 = count * 2 ^ sub := Nat.mod_eq_of_lt (by omega)
  have single : count + 1 = count + batch.length / 2 ^ sub := by
    rw [whole, Nat.div_self (Nat.two_pow_pos _)]
  obtain ⟨path, isProof, -⟩ := getMembershipProof_run holds low findOne inside
  obtain ⟨later, ran, held, moves⟩ := appendSubTrees_moves holds low ⟨1, by rw [whole, Nat.mul_one]⟩ single room
    isTree
  refine ⟨⟨levels node (top + sub) leaves 0, levels node (top + sub) tree 0,
    ⟨0, path.drop sub, count⟩, count * 2 ^ sub + batch.length, batch⟩, later, ?_, held, moves⟩
  rw [insertForCircuit, bind_ok (getMetadata_run holds.metadata)]
  dsimp only
  rw [lift_okOr (pow2Usize_eq (by omega)), if_neg (not_not.mpr whole), isIndex, bind_ok isProof, bind_ok ran,
    pure_run]

theorem insertForCircuit_full [DecidableEq F] (findOne : FindOne F) (isFull : count = 2 ^ top)
    {batch : List F} (whole : batch.length = 2 ^ sub) :
    (insertForCircuit node findOne batch).run db = (.error (.returned .invalidProof), db) := by
  subst isFull
  have wide := Nat.pow_lt_pow_right Nat.one_lt_two (show top + sub < 63 by omega)
  have positive := Nat.two_pow_pos (top + sub)
  have isIndex : 2 ^ top * 2 ^ sub % 2 ^ 64 = 2 ^ (top + sub) := by
    rw [← Nat.pow_add]
    exact Nat.mod_eq_of_lt (by omega)
  have isFirst := firstLeafIndex_eq (show top + sub < 64 by omega)
  have isLast := lastLeafIndex_eq (show top + sub < 63 by omega)
  have outside : (leafNodeIndex findOne (top + sub) none (some (2 ^ (top + sub)))).run db =
      (.ok (2 ^ (top + sub) + (2 ^ (top + sub) - 1)), db) := by
    rw [leafNodeIndex, lift_bind isFirst, checkedAdd_eq (by omega)]
    rfl
  have refused : (getMembershipProof findOne none (some (2 ^ (top + sub)))).run db =
      (.error (.returned .invalidProof), db) := by
    rw [getMembershipProof, bind_ok (getMetadata_run holds.metadata)]
    rw [bind_ok outside, lift_bind isFirst, lift_okOr isLast, if_pos (by omega), fail_run]
  rw [insertForCircuit, bind_ok (getMetadata_run holds.metadata)]
  dsimp only
  rw [lift_okOr (pow2Usize_eq (by omega)), if_neg (not_not.mpr whole), isIndex, bind_error refused]

end

end Nightfall.MerkleTrees.MutableTree
