import Nightfall.Library.Levels

/-! A complete hash tree in one array: the root first, the children of node `k` at `2k + 1` and `2k
+ 2`. -/

namespace Merkle

open List

variable (depth i : Nat)

def slot : Nat := 2 ^ depth - 1 + i

theorem slot_left : 2 * slot depth i + 1 = slot (depth + 1) (2 * i) := by
  have positive := Nat.two_pow_pos depth
  rw [slot, slot, Nat.pow_succ]
  omega

theorem slot_right : 2 * slot depth i + 2 = slot (depth + 1) (2 * i + 1) := by
  have positive := Nat.two_pow_pos depth
  rw [slot, slot, Nat.pow_succ]
  omega

theorem slot_parent : (slot (depth + 1) i - 1) / 2 = slot depth (i / 2) := by
  have positive := Nat.two_pow_pos depth
  rw [slot, slot, Nat.pow_succ]
  omega

theorem slot_even_iff : slot (depth + 1) i % 2 = 0 ↔ i % 2 = 1 := by
  have positive := Nat.two_pow_pos depth
  rw [slot, Nat.pow_succ]
  omega

theorem slot_sibling_left {i : Nat} (depth : Nat) (right : i % 2 = 1) :
    slot (depth + 1) i - 1 = slot (depth + 1) (sibling i) := by
  rw [slot, slot, sibling, if_pos right]
  omega

theorem slot_sibling_right {i : Nat} (depth : Nat) (left : ¬i % 2 = 1) :
    slot (depth + 1) i + 1 = slot (depth + 1) (sibling i) := by
  rw [slot, slot, sibling, if_neg left]
  omega

theorem slot_lt {depth height i : Nat} (under : depth ≤ height) (inside : i < 2 ^ depth) :
    slot depth i < 2 ^ (height + 1) - 1 := by
  have wider := Nat.pow_le_pow_right Nat.two_pos (Nat.succ_le_succ under)
  rw [slot]
  omega

theorem depth_lt_of_slot_lt {depth height i : Nat} (inner : slot depth i < 2 ^ height - 1) : depth < height := by
  by_contra beyond
  have wider := Nat.pow_le_pow_right Nat.two_pos (Nat.le_of_not_lt beyond)
  rw [slot] at inner
  omega

theorem exists_slot (k : Nat) : ∃ depth i, i < 2 ^ depth ∧ k = slot depth i := by
  induction k using Nat.strongRecOn with
  | ind k ih =>
    by_cases isRoot : k = 0
    · exact ⟨0, 0, Nat.one_pos, isRoot⟩
    · obtain ⟨depth, i, inside, isParent⟩ := ih ((k - 1) / 2) (by omega)
      have left := slot_left depth i
      have right := slot_right depth i
      by_cases even : k % 2 = 0
      · exact ⟨depth + 1, 2 * i + 1, by rw [Nat.pow_succ]; omega, by omega⟩
      · exact ⟨depth + 1, 2 * i, by rw [Nat.pow_succ]; omega, by omega⟩

variable {α : Type} {hash : α → α → α}

variable (hash) in
def Heaped (height : Nat) (nodes leaves : Nat → α) : Prop :=
  ∀ depth ≤ height, ∀ i < 2 ^ depth, nodes (slot depth i) = levels hash (height - depth) leaves i

theorem heaped_of_children {height : Nat} {nodes leaves : Nat → α}
    (inner : ∀ k < 2 ^ height - 1, nodes k = hash (nodes (2 * k + 1)) (nodes (2 * k + 2)))
    (bottom : ∀ i < 2 ^ height, nodes (slot height i) = leaves i) : Heaped hash height nodes leaves := by
  have above : ∀ distance depth, depth + distance = height → ∀ i < 2 ^ depth,
      nodes (slot depth i) = levels hash distance leaves i := by
    intro distance
    induction distance with
    | zero =>
      rintro depth rfl i inside
      exact bottom i inside
    | succ distance ih =>
      intro depth sum i inside
      have isInner : slot depth i < 2 ^ height - 1 := by
        have below := slot_lt (le_refl depth) inside
        have wider := Nat.pow_le_pow_right Nat.two_pos (show depth + 1 ≤ height by omega)
        omega
      rw [inner _ isInner, slot_left, slot_right, levels_succ]
      rw [ih (depth + 1) (by omega) (2 * i) (by rw [Nat.pow_succ]; omega),
        ih (depth + 1) (by omega) (2 * i + 1) (by rw [Nat.pow_succ]; omega)]
  intro depth under i inside
  exact above (height - depth) depth (by omega) i inside

variable (hash) in
def heap (height : Nat) (leaves : Nat → α) (k : Nat) : α :=
  levels hash (height - Nat.log2 (k + 1)) leaves (k + 1 - 2 ^ Nat.log2 (k + 1))

theorem heap_slot {height depth i : Nat} {leaves : Nat → α} (inside : i < 2 ^ depth) :
    heap hash height leaves (slot depth i) = levels hash (height - depth) leaves i := by
  have next : slot depth i + 1 = 2 ^ depth + i := by
    rw [slot]
    omega
  have isDepth : Nat.log2 (slot depth i + 1) = depth := by
    rw [next, Nat.log2_eq_iff (by omega), Nat.pow_succ]
    omega
  rw [heap, isDepth, next, Nat.add_sub_cancel_left]

theorem heaped_iff {height : Nat} {nodes leaves : Nat → α} :
    Heaped hash height nodes leaves ↔ ∀ k < 2 ^ (height + 1) - 1, nodes k = heap hash height leaves k := by
  constructor
  · intro heaped k within
    obtain ⟨depth, i, inside, rfl⟩ := exists_slot k
    have under := depth_lt_of_slot_lt within
    rw [heaped depth (by omega) i inside, heap_slot inside]
  · intro same depth under i inside
    rw [same _ (slot_lt under inside), heap_slot inside]

section

def replaceBlock (rise block : Nat) (batch leaves : Nat → α) : Nat → α :=
  fun i => if i / 2 ^ rise = block then batch (i % 2 ^ rise) else leaves i

variable {batch leaves : Nat → α} {rise block : Nat}

theorem replaceBlock_replaceBlock : replaceBlock rise block batch (replaceBlock rise block batch leaves) =
      replaceBlock rise block batch leaves := by
  funext i
  rw [replaceBlock]
  split
  · rename_i here
    rw [replaceBlock, if_pos here]
  · rfl

theorem levels_replaceBlock_inside {height t : Nat} (under : height ≤ rise) (inside : t < 2 ^ (rise - height)) :
    levels hash height (replaceBlock rise block batch leaves)
        (block * 2 ^ (rise - height) + t) = levels hash height batch t := by
  induction height generalizing t with
  | zero =>
    rw [Nat.sub_zero] at inside ⊢
    have isBlock : (block * 2 ^ rise + t) / 2 ^ rise = block := by
      rw [Nat.mul_comm, Nat.mul_add_div (Nat.two_pow_pos _), Nat.div_eq_of_lt inside, Nat.add_zero]
    have isRest : (block * 2 ^ rise + t) % 2 ^ rise = t := by
      rw [Nat.mul_comm, Nat.mul_add_mod, Nat.mod_eq_of_lt inside]
    rw [levels, levels, replaceBlock, if_pos isBlock, isRest]
  | succ height ih =>
    have distance : rise - height = rise - (height + 1) + 1 := by omega
    have double : 2 ^ (rise - height) = 2 * 2 ^ (rise - (height + 1)) := by
      rw [distance, Nat.pow_succ']
    have start : 2 * (block * 2 ^ (rise - (height + 1))) = block * 2 ^ (rise - height) := by
      rw [double, Nat.mul_left_comm]
    rw [levels_succ, levels_succ, Nat.mul_add, start, Nat.add_assoc]
    rw [ih (by omega) (by omega), ih (by omega) (by omega)]

theorem levels_replaceBlock_outside {height i : Nat} (aside : ∀ j, j / 2 ^ height = i → j / 2 ^ rise ≠ block) :
    levels hash height (replaceBlock rise block batch leaves) i = levels hash height leaves i := by
  apply levels_congr
  intro j under
  exact if_neg (aside j under)

theorem levels_replaceBlock_aside {depth d j : Nat} (under : d ≤ depth) (aside : j ≠ block / 2 ^ (depth - d)) :
    levels hash (depth + rise - d) (replaceBlock rise block batch leaves) j =
      levels hash (depth + rise - d) leaves j := by
  apply levels_replaceBlock_outside
  rintro x rfl rfl
  have sum : depth + rise - d = rise + (depth - d) := by omega
  exact aside (by rw [sum, Nat.pow_add, Nat.div_div_eq_div_mul])

theorem levels_replaceBlock_beside {d j : Nat} (under : d ≤ rise) (aside : j / 2 ^ d ≠ block) :
    levels hash (rise - d) (replaceBlock rise block batch leaves) j = levels hash (rise - d) leaves j := by
  apply levels_replaceBlock_outside
  rintro x rfl
  rwa [Nat.div_div_eq_div_mul, ← Nat.pow_add, Nat.sub_add_cancel under] at aside

theorem levels_replaceBlock (hash : α → α → α) (rise block : Nat) (batch leaves : Nat → α) :
    levels hash rise (replaceBlock rise block batch leaves) =
      Function.update (levels hash rise leaves) block (levels hash rise batch 0) := by
  funext i
  by_cases here : i = block
  · subst here
    rw [Function.update_self, ← levels_replaceBlock_inside (le_refl rise) (Nat.two_pow_pos (rise - rise))]
    rw [Nat.sub_self, Nat.pow_zero, Nat.mul_one, Nat.add_zero]
  · rw [Function.update_of_ne here]
    apply levels_replaceBlock_outside
    rintro j rfl
    exact here

def writeAt (zero : α) (start : Nat) (values : List α) (leaves : Nat → α) : Nat → α :=
  fun i => if start ≤ i ∧ i < start + values.length then values.getD (i - start) zero else leaves i

theorem writeAt_nil (zero : α) (start : Nat) (leaves : Nat → α) : writeAt zero start [] leaves = leaves := by
  funext i
  rw [writeAt, length_nil, if_neg (by omega)]

theorem writeAt_append (zero : α) (start : Nat) (values more : List α) (leaves : Nat → α) :
    writeAt zero start (values ++ more) leaves =
      writeAt zero (start + values.length) more (writeAt zero start values leaves) := by
  funext i
  simp only [writeAt, length_append]
  by_cases first : start ≤ i ∧ i < start + values.length
  · rw [if_pos (by omega), if_neg (by omega), if_pos first, getD_append _ _ _ _ (by omega)]
  · by_cases second : start + values.length ≤ i ∧ i < start + values.length + more.length
    · rw [if_pos (by omega), if_pos second, getD_append_right _ _ _ _ (by omega)]
      congr 1
      omega
    · rw [if_neg (by omega), if_neg second, if_neg first]

theorem writeAt_again (zero : α) (start : Nat) (before batch rest : List α) (leaves : Nat → α) :
    writeAt zero (start + before.length) batch (writeAt zero start (before ++ batch ++ rest) leaves) =
      writeAt zero start (before ++ batch ++ rest) leaves := by
  funext i
  simp only [writeAt, length_append]
  by_cases inside : start + before.length ≤ i ∧ i < start + before.length + batch.length
  · rw [if_pos inside, if_pos (by omega), getD_append _ _ _ _ (by rw [length_append]; omega),
      getD_append_right _ _ _ _ (by omega)]
    congr 1
    omega
  · rw [if_neg inside]

theorem writeAt_block (zero : α) {values : List α} (isBlock : values.length = 2 ^ rise) (leaves : Nat → α) :
    writeAt zero (block * 2 ^ rise) values leaves =
      replaceBlock rise block (fun i => values.getD i zero) leaves := by
  have positive := Nat.two_pow_pos rise
  funext i
  have split := Nat.div_add_mod i (2 ^ rise)
  rw [Nat.mul_comm] at split
  rw [writeAt, replaceBlock, isBlock]
  by_cases here : i / 2 ^ rise = block
  · have small := Nat.mod_lt i positive
    rw [here] at split
    rw [if_pos (by omega), if_pos here]
    congr 1
    omega
  · rw [if_neg here, if_neg]
    rintro ⟨above, below⟩
    apply here
    rw [Nat.div_eq_iff positive]
    omega

theorem writeAt_list (zero : α) (first values : List α) :
    writeAt zero first.length values (fun i => first.getD i zero) = fun i => (first ++ values).getD i zero := by
  funext i
  rw [writeAt]
  by_cases inside : first.length ≤ i ∧ i < first.length + values.length
  · rw [if_pos inside, getD_append_right _ _ _ _ inside.1]
  · rw [if_neg inside]
    by_cases before : i < first.length
    · rw [getD_append _ _ _ _ before]
    · rw [getD_eq_default _ _ (by omega), getD_eq_default _ _ (by simp; omega)]

theorem replaceBlock_append {leaves block : List α} {rise count : Nat} (zero : α)
    (isLength : leaves.length = count * 2 ^ rise) (isBlock : block.length = 2 ^ rise) :
    replaceBlock rise count (fun i => block.getD i zero) (fun i => leaves.getD i zero) =
      fun i => (leaves ++ block).getD i zero := by
  rw [← writeAt_block zero isBlock, ← isLength, writeAt_list]

end

end Merkle
