import Nightfall.Library.Revert
import Nightfall.MerkleTrees.Mutable

/-! What one call of the mutable tree reads and writes. The tree a call leaves behind is given as
a parameter: as long as the nodes off the path are those of that tree, the call computes and
writes its nodes on the path and under it. -/

namespace Nightfall.MerkleTrees.MutableTree

open Merkle Store Store.Program List

section

variable {F : Type} (updateTree : Bool) (db : MutableDb F)

def target : ℕ → Option F :=
  if updateTree then db.nodes else db.cache

def withTarget (entries : ℕ → Option F) : MutableDb F :=
  if updateTree then { db with nodes := entries } else { db with cache := entries }

theorem toBson_eq {index : ℕ} (small : index < 2 ^ 63) : toBson index = .ok index := if_pos small

theorem setNode_run {update : ℕ × F} (small : update.1 < 2 ^ 63) (db : MutableDb F) :
    (setNode updateTree update).run db = (.ok (), withTarget updateTree db
      (Function.update (target updateTree db) update.1 (some update.2))) := by
  rw [setNode, toBson_eq small, bind_ok (lift_run _ _), writes_run]
  cases updateTree <;> rfl

theorem target_withTarget (entries : ℕ → Option F) :
    target updateTree (withTarget updateTree db entries) = entries := by
  cases updateTree <;> rfl

theorem withTarget_withTarget (first second : ℕ → Option F) :
    withTarget updateTree (withTarget updateTree db first) second = withTarget updateTree db second := by
  cases updateTree <;> rfl

theorem withTarget_target : withTarget updateTree db (target updateTree db) = db := by
  cases updateTree <;> rfl

theorem forM_setNode {value : ℕ → F} {updates : List (ℕ × F)}
    (right : ∀ update ∈ updates, update.1 < 2 ^ 63 ∧ update.2 = value update.1) (db : MutableDb F) :
    ∃ after, (updates.forM (setNode updateTree)).run db = (.ok (), withTarget updateTree db after) ∧
      Written (fun k => k ∈ updates.map Prod.fst) value (target updateTree db) after := by
  induction updates generalizing db with
  | nil =>
    refine ⟨target updateTree db, ?_, by simp, fun _ _ => rfl⟩
    rw [withTarget_target]
    rfl
  | cons update rest ih =>
    obtain ⟨small, isValue⟩ := right update mem_cons_self
    obtain ⟨after, ran, written⟩ := ih (fun other member => right other (mem_cons_of_mem _ member))
      (withTarget updateTree db (Function.update (target updateTree db) update.1 (some update.2)))
    rw [withTarget_withTarget] at ran
    rw [target_withTarget] at written
    refine ⟨after, ?_, ?_, ?_⟩
    · rw [forM_eq_forM, forM_cons, bind_ok (setNode_run updateTree small db)]
      exact ran
    · intro key member
      by_cases later : key ∈ rest.map Prod.fst
      · exact written.inside key later
      · rw [map_cons, mem_cons] at member
        obtain rfl := member.resolve_right later
        rw [written.outside _ later, Function.update_self, isValue]
    · intro key absent
      rw [map_cons, mem_cons, not_or] at absent
      rw [written.outside key absent.2, Function.update_of_ne absent.1]

end

section

variable {F : Type} [Zero F] {node : F → F → F} {height : ℕ} {tree : ℕ → F} {db : MutableDb F}

theorem getNode_run {index : ℕ} (small : index < 2 ^ 63) (db : MutableDb F) :
    (getNode index).run db = (.ok (lookup db index), db) := by
  rw [getNode, toBson_eq small]
  rfl

variable {depth i : ℕ} {subTree : List F}

theorem slot_small (low : height ≤ 62) (under : depth ≤ height) (inside : i < 2 ^ depth) : slot depth i < 2 ^ 63 := by
  have below := slot_lt under inside
  have wide := Nat.pow_le_pow_right Nat.two_pos (show height + 1 ≤ 63 by omega)
  omega

variable (node height tree db) in
def OffPath (depth i : ℕ) : Prop :=
  ∀ d ≤ depth, ∀ j < 2 ^ d, j ≠ i / 2 ^ (depth - d) → lookup db (slot d j) = levels node (height - d) tree j

omit [Zero F] in
theorem half_div {d : ℕ} (i : ℕ) (under : d ≤ depth) : i / 2 / 2 ^ (depth - d) = i / 2 ^ (depth + 1 - d) := by
  rw [Nat.succ_sub under, Nat.pow_succ', Nat.div_div_eq_div_mul]

theorem OffPath.parent (offPath : OffPath node height tree db (depth + 1) i) :
    OffPath node height tree db depth (i / 2) := by
  intro d under j inside aside
  apply offPath d (by omega) j inside
  rwa [← half_div i under]

theorem sibling_lt (inside : i < 2 ^ (depth + 1)) : sibling i < 2 ^ (depth + 1) := by
  rw [sibling]
  split <;> omega

theorem sibling_ne (i : ℕ) : sibling i ≠ i := by
  rw [sibling]
  split <;> omega

theorem OffPath.sibling (offPath : OffPath node height tree db (depth + 1) i) (inside : i < 2 ^ (depth + 1)) :
    lookup db (slot (depth + 1) (sibling i)) = levels node (height - (depth + 1)) tree (Merkle.sibling i) := by
  apply offPath (depth + 1) (le_refl _) _ (sibling_lt inside)
  rw [Nat.sub_self, Nat.pow_zero, Nat.div_one]
  exact sibling_ne i

omit [Zero F] in
theorem levels_parent (under : depth + 1 ≤ height) : levels node (height - depth) tree (i / 2) =
      if i % 2 = 1 then node (levels node (height - (depth + 1)) tree (sibling i))
        (levels node (height - (depth + 1)) tree i)
      else node (levels node (height - (depth + 1)) tree i)
        (levels node (height - (depth + 1)) tree (sibling i)) := by
  have distance : height - depth = height - (depth + 1) + 1 := by omega
  rw [distance, levels_succ, sibling]
  by_cases right : i % 2 = 1
  · have isLeft : 2 * (i / 2) = i - 1 := by omega
    have isRight : 2 * (i / 2) + 1 = i := by omega
    rw [if_pos right, if_pos right, isRight, isLeft]
  · have isLeft : 2 * (i / 2) = i := by omega
    rw [if_neg right, if_neg right, isLeft]

theorem sibling_run {α : Type} {left right : F → Program Failure (MutableDb F) α} (low : height ≤ 62)
    (under : depth + 1 ≤ height) (inside : i < 2 ^ (depth + 1)) :
    (if slot (depth + 1) i % 2 = 0 then getNode (slot (depth + 1) i - 1) >>= left
      else getNode (slot (depth + 1) i + 1) >>= right).run db =
      ((if i % 2 = 1 then left else right) (lookup db (slot (depth + 1) (sibling i)))).run db := by
  have small := slot_small low under (sibling_lt inside)
  by_cases odd : i % 2 = 1
  · rw [if_pos ((slot_even_iff depth i).mpr odd), if_pos odd, slot_sibling_left depth odd,
      bind_ok (getNode_run small db)]
  · rw [if_neg (fun even => odd ((slot_even_iff depth i).mp even)), if_neg odd, slot_sibling_right depth odd,
      bind_ok (getNode_run small db)]

theorem hashUp_run (low : height ≤ 62) (under : depth + 1 ≤ height)
    (inside : i < 2 ^ (depth + 1)) (offPath : OffPath node height tree db (depth + 1) i) :
    (hashUp node (slot (depth + 1) i) (levels node (height - (depth + 1)) tree i)).run db =
      (.ok (levels node (height - depth) tree (i / 2)), db) := by
  rw [hashUp, sibling_run low under inside, offPath.sibling inside, levels_parent under]
  split <;> rfl

theorem climb_run (low : height ≤ 62) (under : depth ≤ height) (inside : i < 2 ^ depth)
    (offPath : OffPath node height tree db depth i) :
    ∃ above, (climb node depth (slot depth i) (levels node (height - depth) tree i)).run db =
        (.ok (levels node height tree 0, above), db) ∧
      (∀ update ∈ above, update.1 < 2 ^ 63 ∧ update.2 = heap node height tree update.1) ∧
      ∀ k, k ∈ above.map Prod.fst ↔ ∃ d < depth, k = slot d (i / 2 ^ (depth - d)) := by
  induction depth generalizing i with
  | zero =>
    obtain rfl : i = 0 := by
      omega
    exact ⟨[], rfl, by simp, by simp⟩
  | succ depth ih =>
    have half : i / 2 < 2 ^ depth := by
      omega
    obtain ⟨above, ran, right, keys⟩ := ih (by omega) half offPath.parent
    have isParent : (slot (depth + 1) i - 1) / 2 = slot depth (i / 2) := slot_parent depth i
    refine ⟨(slot depth (i / 2), levels node (height - depth) tree (i / 2)) :: above, ?_, ?_, ?_⟩
    · rw [climb, bind_ok (hashUp_run low under inside offPath), isParent, bind_ok ran, pure_run]
    · intro update member
      rcases mem_cons.mp member with rfl | later
      · exact ⟨slot_small low (by omega) half, (heap_slot half).symm⟩
      · exact right update later
    · intro k
      rw [map_cons, mem_cons, keys]
      constructor
      · rintro (rfl | ⟨d, below, rfl⟩)
        · exact ⟨depth, by omega, by rw [← half_div i (le_refl depth), Nat.sub_self, Nat.pow_zero, Nat.div_one]⟩
        · exact ⟨d, by omega, by rw [half_div i below.le]⟩
      · rintro ⟨d, below, rfl⟩
        rw [← half_div i (by omega)]
        by_cases last : d = depth
        · left
          rw [last, Nat.sub_self, Nat.pow_zero, Nat.div_one]
        · exact Or.inr ⟨d, by omega, rfl⟩

omit [Zero F] in
theorem slot_add (depth i t : ℕ) : slot depth i + t = slot depth (i + t) := by
  rw [slot, slot, Nat.add_assoc]

omit [Zero F] in
theorem block_lt {r t : ℕ} (inside : i < 2 ^ depth) (within : t < 2 ^ r) : i * 2 ^ r + t < 2 ^ (depth + r) := by
  calc i * 2 ^ r + t < i * 2 ^ r + 2 ^ r := Nat.add_lt_add_left within _
    _ = (i + 1) * 2 ^ r := (Nat.succ_mul i (2 ^ r)).symm
    _ ≤ 2 ^ depth * 2 ^ r := Nat.mul_le_mul_right _ inside
    _ = 2 ^ (depth + r) := (Nat.pow_add 2 depth r).symm

omit [Zero F] in
theorem subTreeRows_eq (low : height ≤ 62) {rows : ℕ} (under : depth + rows ≤ height) (inside : i < 2 ^ depth)
    (nodes : ∀ r ≤ rows, ∀ t < 2 ^ r,
      subTree[slot r t]? = some (levels node (height - (depth + r)) tree (i * 2 ^ r + t)))
    {r remaining : ℕ} (split : r + remaining = rows) :
    ∃ below, subTreeRows subTree remaining (slot (depth + r) (i * 2 ^ r)) (2 ^ r) (2 ^ (r + 1) - 2) = .ok below ∧
      (∀ update ∈ below, update.1 < 2 ^ 63 ∧ update.2 = heap node height tree update.1) ∧
      ∀ k, k ∈ below.map Prod.fst ↔ ∃ d, r < d ∧ d ≤ rows ∧ ∃ t < 2 ^ d, k = slot (depth + d) (i * 2 ^ d + t) := by
  induction remaining generalizing r with
  | zero =>
    refine ⟨[], rfl, by simp, ?_⟩
    intro k
    simp only [map_nil, not_mem_nil, false_iff]
    rintro ⟨d, above, most, _⟩
    omega
  | succ remaining ih =>
    obtain ⟨below, isBelow, right, keys⟩ := @ih (r + 1) (by omega)
    have double : 2 ^ r * 2 = 2 ^ (r + 1) := (Nat.pow_succ 2 r).symm
    have first : slot (depth + r) (i * 2 ^ r) * 2 + 1 = slot (depth + (r + 1)) (i * 2 ^ (r + 1)) := by
      rw [Nat.mul_comm, slot_left, ← Nat.add_assoc, ← double, Nat.mul_left_comm, Nat.mul_comm 2]
    have row : (List.range (2 ^ (r + 1))).mapM (fun j => do
        let value ← atIndex subTree (2 ^ (r + 1) - 2 + 1 + j)
        pure (slot (depth + (r + 1)) (i * 2 ^ (r + 1)) + j, value)) =
        .ok ((List.range (2 ^ (r + 1))).map fun j => (slot (depth + (r + 1)) (i * 2 ^ (r + 1) + j),
          levels node (height - (depth + (r + 1))) tree (i * 2 ^ (r + 1) + j))) := by
      apply Revert.mapM_total
      intro j member
      have within := mem_range.mp member
      have position : 2 ^ (r + 1) - 2 + 1 + j = slot (r + 1) j := by
        rw [slot]
        omega
      rw [position, atIndex_eq (nodes (r + 1) (by omega) j within), slot_add]
      rfl
    have position : 2 ^ (r + 1) - 2 + 2 ^ (r + 1) = 2 ^ (r + 1 + 1) - 2 := by
      omega
    refine ⟨(List.range (2 ^ (r + 1))).map (fun j => (slot (depth + (r + 1)) (i * 2 ^ (r + 1) + j),
      levels node (height - (depth + (r + 1))) tree (i * 2 ^ (r + 1) + j))) ++ below, ?_, ?_, ?_⟩
    · rw [subTreeRows, first, double, row, position, isBelow]
      rfl
    · intro update member
      rcases mem_append.mp member with here | later
      · obtain ⟨j, isIndex, rfl⟩ := mem_map.mp here
        have block := block_lt inside (mem_range.mp isIndex)
        exact ⟨slot_small low (by omega) block, (heap_slot block).symm⟩
      · exact right update later
    · intro k
      rw [map_append, mem_append, keys, map_map, mem_map]
      constructor
      · rintro (⟨j, isIndex, rfl⟩ | ⟨d, above, most, t, within, rfl⟩)
        · exact ⟨r + 1, by omega, by omega, j, mem_range.mp isIndex, rfl⟩
        · exact ⟨d, by omega, most, t, within, rfl⟩
      · rintro ⟨d, above, most, t, within, rfl⟩
        by_cases next : d = r + 1
        · subst next
          exact Or.inl ⟨t, mem_range.mpr within, rfl⟩
        · exact Or.inr ⟨d, by omega, most, t, within, rfl⟩

def Touches (depth i rows k : ℕ) : Prop :=
  (∃ d ≤ depth, k = slot d (i / 2 ^ (depth - d))) ∨ ∃ d ≤ rows, ∃ t < 2 ^ d, k = slot (depth + d) (i * 2 ^ d + t)

omit [Zero F] in
theorem Touches.lt {rows k : ℕ} (touched : Touches depth i rows k) (inside : i < 2 ^ depth) :
    k < 2 ^ (depth + rows + 1) - 1 := by
  rcases touched with ⟨d, under, rfl⟩ | ⟨d, most, t, within, rfl⟩
  · apply slot_lt (show d ≤ depth + rows by omega)
    rw [Nat.div_lt_iff_lt_mul (Nat.two_pow_pos _), ← Nat.pow_add, Nat.add_sub_cancel' under]
    exact inside
  · exact slot_lt (show depth + d ≤ depth + rows by omega) (block_lt inside within)

theorem hookSubTree_run (updateTree : Bool) (low : height ≤ 62) {rows : ℕ}
    (under : depth + rows ≤ height) (inside : i < 2 ^ depth)
    (nodes : ∀ r ≤ rows, ∀ t < 2 ^ r,
      subTree[slot r t]? = some (levels node (height - (depth + r)) tree (i * 2 ^ r + t)))
    (offPath : OffPath node height tree db depth i) :
    ∃ after, (hookSubTree node updateTree (slot depth i) depth rows subTree).run db =
        (.ok (levels node height tree 0), withTarget updateTree db after) ∧
      Written (Touches depth i rows) (heap node height tree) (target updateTree db) after := by
  have isRoot : subTree[0]? = some (levels node (height - depth) tree i) := by
    have top := nodes 0 (Nat.zero_le _) 0 Nat.one_pos
    rwa [Nat.pow_zero, Nat.mul_one, Nat.add_zero, Nat.add_zero] at top
  obtain ⟨above, climbed, aboveRight, aboveKeys⟩ := climb_run low (by omega) inside offPath
  obtain ⟨below, fromTop, belowRight, belowKeys⟩ :=
    subTreeRows_eq low under inside nodes (Nat.zero_add rows)
  have isBelow : subTreeRows subTree rows (slot depth i) 1 0 = .ok below := by
    rwa [Nat.pow_zero, Nat.mul_one, Nat.add_zero] at fromTop
  have right : ∀ update ∈ (slot depth i, levels node (height - depth) tree i) :: (above ++ below),
      update.1 < 2 ^ 63 ∧ update.2 = heap node height tree update.1 := by
    intro update member
    rcases mem_cons.mp member with rfl | rest
    · exact ⟨slot_small low (by omega) inside, (heap_slot inside).symm⟩
    · rcases mem_append.mp rest with up | down
      · exact aboveRight update up
      · exact belowRight update down
  have keys : ∀ k, k ∈ ((slot depth i, levels node (height - depth) tree i) :: (above ++ below)).map
      Prod.fst ↔ Touches depth i rows k := by
    intro k
    rw [map_cons, mem_cons, map_append, mem_append, aboveKeys, belowKeys, Touches]
    constructor
    · rintro (rfl | ⟨d, below, rfl⟩ | ⟨d, above, most, t, within, rfl⟩)
      · exact Or.inl ⟨depth, le_refl _, by rw [Nat.sub_self, Nat.pow_zero, Nat.div_one]⟩
      · exact Or.inl ⟨d, below.le, rfl⟩
      · exact Or.inr ⟨d, most, t, within, rfl⟩
    · rintro (⟨d, most, rfl⟩ | ⟨d, most, t, within, rfl⟩)
      · by_cases last : d = depth
        · exact Or.inl (by rw [last, Nat.sub_self, Nat.pow_zero, Nat.div_one])
        · exact Or.inr (Or.inl ⟨d, by omega, rfl⟩)
      · by_cases top : d = 0
        · subst top
          obtain rfl : t = 0 := by
            omega
          exact Or.inl (by rw [Nat.pow_zero, Nat.mul_one, Nat.add_zero, Nat.add_zero])
        · exact Or.inr (Or.inr ⟨d, by omega, most, t, within, rfl⟩)
  obtain ⟨after, ran, written⟩ := forM_setNode updateTree right db
  refine ⟨after, ?_, ?_, ?_⟩
  · rw [hookSubTree, lift_bind (atIndex_eq isRoot), bind_ok climbed, lift_bind isBelow, bind_ok ran, pure_run]
  · intro k touched
    exact written.inside k ((keys k).mpr touched)
  · intro k untouched
    exact written.outside k fun member => untouched ((keys k).mp member)

theorem siblingElement_run (low : height ≤ 62) (under : depth + 1 ≤ height)
    (inside : i < 2 ^ (depth + 1)) (heaped : Heaped node height (lookup db) tree) :
    ∃ element, (siblingElement (slot (depth + 1) i)).run db = (.ok element, db) ∧ element.step =
      ⟨levels node (height - (depth + 1)) tree (sibling i), i % 2 = 1⟩ := by
  rw [siblingElement, sibling_run low under inside, heaped (depth + 1) under (sibling i) (sibling_lt inside)]
  by_cases odd : i % 2 = 1
  · rw [if_pos odd]
    exact ⟨_, rfl, by simp [PathElement.step, odd]⟩
  · rw [if_neg odd]
    exact ⟨_, rfl, by simp [PathElement.step, odd]⟩

theorem siblingPath_run (low : height ≤ 62) (under : depth ≤ height) (inside : i < 2 ^ depth)
    (heaped : Heaped node height (lookup db) tree) :
    ∃ path, (siblingPath depth (slot depth i)).run db = (.ok path, db) ∧
      path.map PathElement.step = opening node depth (levels node (height - depth) tree) i := by
  induction depth generalizing i with
  | zero => exact ⟨[], rfl, rfl⟩
  | succ depth ih =>
    have half : i / 2 < 2 ^ depth := by
      omega
    obtain ⟨element, isElement, isStep⟩ := siblingElement_run low under inside heaped
    obtain ⟨path, isPath, isOpening⟩ := ih (by omega) half
    have next : level node (levels node (height - (depth + 1)) tree) = levels node (height - depth) tree := by
      funext j
      have distance : height - depth = height - (depth + 1) + 1 := by omega
      rw [distance, levels_succ, level]
    refine ⟨element :: path, ?_, ?_⟩
    · rw [siblingPath, bind_ok isElement, slot_parent, bind_ok isPath, pure_run]
    · rw [map_cons, isStep, isOpening, opening, next]

end

end Nightfall.MerkleTrees.MutableTree
