import Mathlib.Data.List.GetD
import Nightfall.Library.Merkle

/-! A hash tree by its levels: every position of a level holds the hash of two positions of the
level below. -/

namespace Merkle

open Function Nat List

variable {α : Type} (hash : α → α → α)

def level (nodes : Nat → α) (i : Nat) : α := hash (nodes (2 * i)) (nodes (2 * i + 1))

def levels : Nat → (Nat → α) → Nat → α
  | 0, leaves => leaves
  | height + 1, leaves => levels height (level hash leaves)

theorem levels_add (lower upper : Nat) (leaves : Nat → α) :
    levels hash (lower + upper) leaves = levels hash upper (levels hash lower leaves) := by
  induction lower generalizing leaves with
  | zero => rw [zero_add, levels]
  | succ lower ih =>
    rw [succ_add]
    exact ih _

theorem levels_succ (height : Nat) (leaves : Nat → α) (i : Nat) : levels hash (height + 1) leaves i =
      hash (levels hash height leaves (2 * i)) (levels hash height leaves (2 * i + 1)) := by
  rw [levels_add]
  rfl

theorem levels_congr {height : Nat} {first second : Nat → α} {i : Nat}
    (same : ∀ j, j / 2 ^ height = i → first j = second j) :
    levels hash height first i = levels hash height second i := by
  induction height generalizing i with
  | zero => exact same i (by rw [Nat.pow_zero, Nat.div_one])
  | succ height ih =>
    have below : ∀ k, k / 2 = i → levels hash height first k = levels hash height second k := by
      intro k under
      apply ih
      intro j underK
      apply same
      rw [Nat.pow_succ, ← Nat.div_div_eq_div_mul, underK, under]
    rw [levels_succ, levels_succ, below (2 * i) (by omega), below (2 * i + 1) (by omega)]

def sibling (i : Nat) : Nat := if i % 2 = 1 then i - 1 else i + 1

def opening : Nat → (Nat → α) → Nat → List (PathElement α)
  | 0, _, _ => []
  | height + 1, leaves, i =>
    ⟨leaves (sibling i), i % 2 = 1⟩ :: opening height (level hash leaves) (i / 2)

theorem opening_length (height : Nat) (leaves : Nat → α) (i : Nat) :
    (opening hash height leaves i).length = height := by
  induction height generalizing leaves i with
  | zero => rfl
  | succ height ih => rw [opening, length_cons, ih]

theorem level_update (leaves : Nat → α) (i : Nat) (value : α) :
    level hash (update leaves i value) = update (level hash leaves) (i / 2)
        (parent hash value ⟨leaves (sibling i), i % 2 = 1⟩) := by
  funext j
  by_cases here : j = i / 2
  · subst here
    rw [update_self, level, parent, PathElement.pair, sibling]
    by_cases right : i % 2 = 1
    · have isRight : 2 * (i / 2) + 1 = i := by omega
      have isLeft : 2 * (i / 2) = i - 1 := by omega
      rw [isRight, update_self, isLeft, update_of_ne (by omega)]
      simp [right]
    · have isLeft : 2 * (i / 2) = i := by omega
      rw [isLeft, update_self, update_of_ne (by omega)]
      simp [right]
  · rw [update_of_ne here, level, level, update_of_ne (by omega), update_of_ne (by omega)]

theorem computeRoot_opening (height : Nat) (leaves : Nat → α) (i : Nat) (value : α) :
    computeRoot hash value (opening hash height leaves i) =
      levels hash height (update leaves i value) (i / 2 ^ height) := by
  induction height generalizing leaves i value with
  | zero => rw [Nat.pow_zero, Nat.div_one, levels, update_self, opening, computeRoot, foldl_nil]
  | succ height ih =>
    have up := ih (level hash leaves) (i / 2) (parent hash value ⟨leaves (sibling i), i % 2 = 1⟩)
    rw [← level_update, Nat.div_div_eq_div_mul, ← Nat.pow_succ'] at up
    exact up

theorem computeRoot_opening_inside {height : Nat} {leaves : Nat → α} {i : Nat} {value : α}
    (inside : i < 2 ^ height) (isValue : leaves i = value) :
    computeRoot hash value (opening hash height leaves i) = levels hash height leaves 0 := by
  rw [← isValue, computeRoot_opening, update_eq_self, div_eq_of_lt inside]

theorem levels_update_of_ne {height : Nat} (leaves : Nat → α) {i j : Nat} (value : α)
    (elsewhere : j ≠ i / 2 ^ height) :
    levels hash height (update leaves i value) j = levels hash height leaves j := by
  apply levels_congr
  rintro k rfl
  exact update_of_ne (fun same => elsewhere (by rw [same])) _ _

theorem opening_update (height : Nat) (leaves : Nat → α) (i : Nat) (value : α) :
    opening hash height (update leaves i value) i = opening hash height leaves i := by
  induction height generalizing leaves i value with
  | zero => rfl
  | succ height ih =>
    have aside : sibling i ≠ i := by
      rw [sibling]
      split <;> omega
    rw [opening, opening, update_of_ne aside, level_update, ih]

omit hash in
theorem getD_concat (leaves : List α) (leaf zero : α) :
    (fun i => (leaves ++ [leaf]).getD i zero) = update (fun i => leaves.getD i zero) leaves.length leaf := by
  funext i
  by_cases last : i = leaves.length
  · subst last
    simp
  · rw [update_of_ne last]
    by_cases inside : i < leaves.length
    · rw [getD_append _ _ _ _ inside]
    · rw [getD_eq_default _ _ (by simp; omega), getD_eq_default _ _ (by omega)]

def pathIndex : List (PathElement α) → Nat
  | [] => 0
  | step :: rest => (if step.siblingOnLeft then 1 else 0) + 2 * pathIndex rest

omit hash in
theorem pathIndex_lt (path : List (PathElement α)) : pathIndex path < 2 ^ path.length := by
  induction path with
  | nil => exact Nat.one_pos
  | cons step rest ih =>
    rw [pathIndex, length_cons, Nat.pow_succ]
    split <;> omega

theorem pathIndex_opening (height : Nat) (leaves : Nat → α) (i : Nat) :
    pathIndex (opening hash height leaves i) = i % 2 ^ height := by
  induction height generalizing leaves i with
  | zero => rw [pow_zero, mod_one]; rfl
  | succ height ih =>
    rw [opening, pathIndex, ih, pow_succ', mod_mul]
    by_cases right : i % 2 = 1
    · simp [right]
    · have left : i % 2 = 0 := by omega
      simp [left]

def pairsBelow : Nat → (Nat → α) → Set (α × α)
  | 0, _ => ∅
  | height + 1, leaves =>
    {pair | ∃ i < 2 ^ height, pair = (leaves (2 * i), leaves (2 * i + 1))} ∪ pairsBelow height (level hash leaves)

theorem opens_of_computeRoot {path : List (PathElement α)} {height : Nat}
    (length : path.length = height) {leaves : Nat → α} {value : α}
    (injective : Set.InjOn (fun pair : α × α => hash pair.1 pair.2)
      (pathPairs hash value path ∪ pairsBelow hash height leaves))
    (opened : computeRoot hash value path = levels hash height leaves 0) :
    value = leaves (pathIndex path) ∧ path = opening hash height leaves (pathIndex path) := by
  subst length
  induction path generalizing leaves value with
  | nil => exact ⟨opened, rfl⟩
  | cons step rest ih =>
    have lower : Set.InjOn (fun pair : α × α => hash pair.1 pair.2)
        (pathPairs hash (parent hash value step) rest ∪ pairsBelow hash rest.length (level hash leaves)) := by
      apply injective.mono
      exact Set.union_subset_union Set.subset_union_right Set.subset_union_right
    obtain ⟨isParent, isRest⟩ := ih lower opened
    have pair : step.pair value = (leaves (2 * pathIndex rest), leaves (2 * pathIndex rest + 1)) := by
      apply injective
      · exact Or.inl (Or.inl rfl)
      · exact Or.inr (Or.inl ⟨pathIndex rest, pathIndex_lt rest, rfl⟩)
      · exact isParent
    rw [length_cons, opening, pathIndex]
    cases side : step.siblingOnLeft with
    | true =>
      simp only [PathElement.pair, side, if_true, Prod.mk.injEq] at pair ⊢
      have half : (1 + 2 * pathIndex rest) / 2 = pathIndex rest := by omega
      refine ⟨by rw [pair.2, Nat.add_comm], ?_⟩
      rw [half, ← isRest]
      congr 1
      cases step
      simp only [PathElement.mk.injEq] at side pair ⊢
      refine ⟨?_, by rw [side]; simp⟩
      rw [pair.1, sibling, if_pos (by omega), Nat.add_sub_cancel_left]
    | false =>
      simp only [PathElement.pair, side, Bool.false_eq_true, if_false, Prod.mk.injEq, Nat.zero_add] at pair ⊢
      have half : 2 * pathIndex rest / 2 = pathIndex rest := by omega
      refine ⟨pair.1, ?_⟩
      rw [half, ← isRest]
      congr 1
      cases step
      simp only [PathElement.mk.injEq] at side pair ⊢
      refine ⟨?_, by rw [side]; simp⟩
      rw [pair.2, sibling, if_neg (by omega)]

theorem leaves_of_root {height : Nat} {first second : Nat → α}
    (injective : Set.InjOn (fun pair : α × α => hash pair.1 pair.2)
      (pairsBelow hash height first ∪ pairsBelow hash height second))
    (same : levels hash height first 0 = levels hash height second 0) :
    ∀ i < 2 ^ height, first i = second i := by
  induction height generalizing first second with
  | zero =>
    intro i below
    obtain rfl : i = 0 := by omega
    exact same
  | succ height ih =>
    have upper : Set.InjOn (fun pair : α × α => hash pair.1 pair.2)
        (pairsBelow hash height (level hash first) ∪ pairsBelow hash height (level hash second)) := by
      apply injective.mono
      exact Set.union_subset_union Set.subset_union_right Set.subset_union_right
    have above := ih upper same
    intro i below
    have half : i / 2 < 2 ^ height := by
      omega
    have pair : (first (2 * (i / 2)), first (2 * (i / 2) + 1)) =
        (second (2 * (i / 2)), second (2 * (i / 2) + 1)) := by
      apply injective
      · exact Or.inl (Or.inl ⟨i / 2, half, rfl⟩)
      · exact Or.inr (Or.inl ⟨i / 2, half, rfl⟩)
      · exact above (i / 2) half
    obtain ⟨left, right⟩ := Prod.mk.inj pair
    by_cases odd : i % 2 = 1
    · rwa [show 2 * (i / 2) + 1 = i by omega] at right
    · rwa [show 2 * (i / 2) = i by omega] at left

section

variable {zero : α} (idle : hash zero zero = zero)

include idle in
theorem levels_empty {height : Nat} {leaves : Nat → α} {i : Nat}
    (empty : ∀ j, j / 2 ^ height = i → leaves j = zero) : levels hash height leaves i = zero := by
  have constant : ∀ height i, levels hash height (fun _ => zero) i = zero := by
    intro height
    induction height with
    | zero => exact fun _ => rfl
    | succ height ih =>
      intro i
      rw [levels_succ, ih, ih, idle]
  rw [← constant height i]
  exact levels_congr hash empty

def listPairs (zero : α) : List α → List (α × α)
  | [] => []
  | [last] => [(last, zero)]
  | left :: right :: rest => (left, right) :: listPairs zero rest

omit hash in
theorem listPairs_getD (zero : α) (leaves : List α) (i : Nat) :
    (leaves.getD (2 * i) zero, leaves.getD (2 * i + 1) zero) = (listPairs zero leaves).getD i (zero, zero) := by
  induction leaves using listPairs.induct generalizing i with
  | case1 => simp [listPairs]
  | case2 last =>
    cases i with
    | zero => simp [listPairs]
    | succ i => simp [listPairs, mul_succ]
  | case3 left right rest ih =>
    cases i with
    | zero => simp [listPairs]
    | succ i => simpa [listPairs, mul_succ] using ih i

def listLevel (zero : α) (leaves : List α) : List α :=
  (listPairs zero leaves).map fun pair => hash pair.1 pair.2

include idle in
theorem level_listed (leaves : List α) :
    level hash (fun i => leaves.getD i zero) = fun i => (listLevel hash zero leaves).getD i zero := by
  funext i
  have pair := listPairs_getD zero leaves i
  have mapped : (listLevel hash zero leaves).getD i (hash zero zero) = _ :=
    getD_map (listPairs zero leaves) (zero, zero) fun pair => hash pair.1 pair.2
  rw [idle, ← pair] at mapped
  exact mapped.symm

def pairsListed (zero : α) : Nat → List α → List (α × α)
  | 0, _ => []
  | height + 1, leaves =>
    listPairs zero leaves ++ pairsListed zero height (listLevel hash zero leaves)

include idle in
theorem pairsBelow_listed (height : Nat) (leaves : List α) : pairsBelow hash height (fun i => leaves.getD i zero) ⊆
      {pair | pair ∈ (zero, zero) :: pairsListed hash zero height leaves} := by
  induction height generalizing leaves with
  | zero => exact Set.empty_subset _
  | succ height ih =>
    rw [pairsBelow, level_listed hash idle]
    apply Set.union_subset
    · rintro pair ⟨i, _, rfl⟩
      rw [listPairs_getD]
      by_cases inside : i < (listPairs zero leaves).length
      · rw [getD_eq_getElem _ _ inside]
        exact mem_cons_of_mem _ (mem_append_left _ (getElem_mem inside))
      · rw [getD_eq_default _ _ (by omega)]
        exact mem_cons_self
    · intro pair member
      rcases mem_cons.mp (ih _ member) with isZero | listed
      · exact mem_cons.mpr (Or.inl isZero)
      · exact mem_cons_of_mem _ (mem_append_right _ listed)

end

end Merkle
