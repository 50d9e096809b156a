import Mathlib.Algebra.Group.Nat.Defs
import Mathlib.Data.Set.Function
import Mathlib.Tactic.Common

/-! Binary hash trees over an arbitrary node type. A path that recomputes the
root of a tree opens one of its leaves, as long as the two-input hash does not
collide on the pairs hashed in the tree and along the path. -/

namespace Merkle

variable {α : Type}

inductive Tree (α : Type) where
  | leaf (value : α)
  | node (left right : Tree α)

namespace Tree

def root (hash : α → α → α) : Tree α → α
  | leaf value => value
  | node left right => hash (left.root hash) (right.root hash)

def leaves : Tree α → List α
  | leaf value => [value]
  | node left right => left.leaves ++ right.leaves

def pairs (hash : α → α → α) : Tree α → Set (α × α)
  | leaf _ => ∅
  | node left right =>
    {(left.root hash, right.root hash)} ∪ (left.pairs hash ∪ right.pairs hash)

def Perfect : Nat → Tree α → Prop
  | 0, leaf _ => True
  | height + 1, node left right => left.Perfect height ∧ right.Perfect height
  | _, _ => False

def uniform (tree : Tree α) : Nat → Tree α
  | 0 => tree
  | height + 1 => node (uniform tree height) (uniform tree height)

theorem uniform_perfect {tree : Tree α} {base : Nat} (perfect : tree.Perfect base) (height : Nat) :
    (uniform tree height).Perfect (base + height) := by
  induction height with
  | zero => exact perfect
  | succ height ih => exact ⟨ih, ih⟩

theorem uniform_leaf_perfect (value : α) (height : Nat) : (uniform (leaf value) height).Perfect height := by
  have perfect := uniform_perfect (show (leaf value).Perfect 0 from trivial) height
  rwa [Nat.zero_add] at perfect

end Tree

structure PathElement (α : Type) where
  sibling : α
  siblingOnLeft : Bool
deriving DecidableEq

def PathElement.pair (step : PathElement α) (node : α) : α × α :=
  if step.siblingOnLeft then (step.sibling, node) else (node, step.sibling)

def parent (hash : α → α → α) (node : α) (step : PathElement α) : α :=
  hash (step.pair node).1 (step.pair node).2

def computeRoot (hash : α → α → α) (leaf : α) (path : List (PathElement α)) : α :=
  path.foldl (parent hash) leaf

def pathPairs (hash : α → α → α) : α → List (PathElement α) → Set (α × α)
  | _, [] => ∅
  | node, step :: rest => {step.pair node} ∪ pathPairs hash (parent hash node step) rest

section

variable (hash : α → α → α) (leaf : α) (path : List (PathElement α)) (step : PathElement α)
include hash leaf path step

theorem pathPairs_concat :
    pathPairs hash leaf (path ++ [step]) = pathPairs hash leaf path ∪ {step.pair (computeRoot hash leaf path)} := by
  induction path generalizing leaf with
  | nil => simp [pathPairs, computeRoot]
  | cons first rest ih =>
    simp only [List.cons_append, pathPairs, ih, Set.union_assoc]
    rfl

theorem computeRoot_concat :
    computeRoot hash leaf (path ++ [step]) = parent hash (computeRoot hash leaf path) step := by
  simp [computeRoot]

end

theorem mem_leaves_of_computeRoot (hash : α → α → α) (height : Nat) :
    ∀ (tree : Tree α) (leaf : α) (path : List (PathElement α)), tree.Perfect height → path.length = height →
      Set.InjOn (fun pair : α × α => hash pair.1 pair.2) (pathPairs hash leaf path ∪ tree.pairs hash) →
      computeRoot hash leaf path = tree.root hash → leaf ∈ tree.leaves := by
  induction height with
  | zero =>
    intro tree leaf path perfect length _ opened
    cases tree with
    | node left right => exact perfect.elim
    | leaf value =>
      have empty : path = [] := List.eq_nil_of_length_eq_zero length
      subst path
      simpa [computeRoot, Tree.root, Tree.leaves] using opened
  | succ height ih =>
    intro tree leaf path perfect length injective opened
    cases tree with
    | leaf value => exact perfect.elim
    | node left right =>
      obtain ⟨lower, step, split⟩ : ∃ lower step, path = lower ++ [step] := by
        have nonempty : path ≠ [] := by
          intro empty
          simp [empty] at length
        exact ⟨path.dropLast, path.getLast nonempty, (List.dropLast_concat_getLast nonempty).symm⟩
      subst path
      have lowerLength : lower.length = height := by simpa using length
      rw [computeRoot_concat] at opened
      rw [pathPairs_concat] at injective
      have same : step.pair (computeRoot hash leaf lower) = (left.root hash, right.root hash) := by
        apply injective
        · simp
        · simp [Tree.pairs]
        · exact opened
      have lowerInjective (subtree : Tree α) (inside : subtree.pairs hash ⊆ (Tree.node left right).pairs hash) :
          Set.InjOn (fun pair : α × α => hash pair.1 pair.2) (pathPairs hash leaf lower ∪ subtree.pairs hash) := by
        apply injective.mono
        apply Set.union_subset_union _ inside
        exact Set.subset_union_left
      simp only [PathElement.pair] at same
      simp only [Tree.leaves, List.mem_append]
      split at same
      · right
        refine ih right leaf lower perfect.2 lowerLength (lowerInjective right ?_) ?_
        · intro pair member
          simp [Tree.pairs, member]
        · exact (Prod.mk.inj same).2
      · left
        refine ih left leaf lower perfect.1 lowerLength (lowerInjective left ?_) ?_
        · intro pair member
          simp [Tree.pairs, member]
        · exact (Prod.mk.inj same).1

def levelRoot (hash : α → α → α) : Nat → (Nat → α) → α
  | 0, leaves => leaves 0
  | height + 1, leaves => levelRoot hash height fun i => hash (leaves (2 * i)) (leaves (2 * i + 1))

theorem levelRoot_congr (hash : α → α → α) {height : Nat} {first second : Nat → α}
    (same : ∀ i < 2 ^ height, first i = second i) : levelRoot hash height first = levelRoot hash height second := by
  induction height generalizing first second with
  | zero => exact same 0 (by omega)
  | succ height ih =>
    apply ih
    intro i below
    rw [same (2 * i) (by omega), same (2 * i + 1) (by omega)]

theorem levelRoot_map {β : Type} {hash : α → α → α} {image : β → β → β} (encode : α → β)
    (hom : ∀ left right, encode (hash left right) = image (encode left) (encode right))
    (height : Nat) (leaves : Nat → α) :
    encode (levelRoot hash height leaves) = levelRoot image height fun i => encode (leaves i) := by
  induction height generalizing leaves with
  | zero => rfl
  | succ height ih =>
    rw [levelRoot, ih, levelRoot]
    simp only [hom]

def uniformPath (hash : α → α → α) (tree : Tree α) (height : Nat) : List (PathElement α) :=
  (List.range height).map fun level => ⟨(Tree.uniform tree level).root hash, false⟩

def levelPairs (hash : α → α → α) (tree : Tree α) (height : Nat) : Set (α × α) :=
  {pair | ∃ level < height, pair = ((Tree.uniform tree level).root hash, (Tree.uniform tree level).root hash)}

section

variable (hash : α → α → α) (tree : Tree α) (height : Nat)

include hash tree height

theorem uniformPath_succ : uniformPath hash tree (height + 1) =
      uniformPath hash tree height ++ [⟨(Tree.uniform tree height).root hash, false⟩] := by
  simp [uniformPath, List.range_succ]

theorem computeRoot_uniformPath :
    computeRoot hash (tree.root hash) (uniformPath hash tree height) = (Tree.uniform tree height).root hash := by
  induction height with
  | zero => rfl
  | succ height ih =>
    rw [uniformPath_succ, computeRoot_concat, ih]
    rfl

theorem levelPairs_mono : levelPairs hash tree height ⊆ levelPairs hash tree (height + 1) := by
  rintro pair ⟨level, below, same⟩
  exact ⟨level, by omega, same⟩

theorem uniform_pairs_subset :
    (Tree.uniform tree height).pairs hash ⊆ tree.pairs hash ∪ levelPairs hash tree height := by
  induction height with
  | zero => exact Set.subset_union_left
  | succ height ih =>
    simp only [Tree.uniform, Tree.pairs, Set.union_self]
    apply Set.union_subset
    · rintro pair rfl
      exact Or.inr ⟨height, by omega, rfl⟩
    · exact ih.trans (Set.union_subset_union_right _ (levelPairs_mono hash tree height))

theorem uniformPath_pairs_subset :
    pathPairs hash (tree.root hash) (uniformPath hash tree height) ⊆ levelPairs hash tree height := by
  induction height with
  | zero => exact Set.empty_subset _
  | succ height ih =>
    rw [uniformPath_succ, pathPairs_concat, computeRoot_uniformPath]
    apply Set.union_subset (ih.trans (levelPairs_mono hash tree height))
    rintro pair rfl
    exact ⟨height, by omega, rfl⟩

end

theorem uniform_leaf_pairs_subset (hash : α → α → α) (value : α) (height : Nat) :
    pathPairs hash value (uniformPath hash (.leaf value) height) ∪
      (Tree.uniform (.leaf value) height).pairs hash ⊆ Set.diagonal α := by
  have levels : levelPairs hash (.leaf value) height ⊆ Set.diagonal α := by
    rintro pair ⟨level, _, rfl⟩
    rfl
  apply Set.union_subset
  · exact (uniformPath_pairs_subset hash (.leaf value) height).trans levels
  · apply (uniform_pairs_subset hash (.leaf value) height).trans
    exact Set.union_subset (Set.empty_subset _) levels

section

variable (hash : α → α → α) {left right : Tree α} (height : Nat) {step : PathElement α} {node : α}
  (bottom : step.pair node = (left.root hash, right.root hash))

include bottom

theorem parent_pair : parent hash node step = (Tree.node left right).root hash := by
  rw [parent, bottom]
  rfl

theorem computeRoot_pair : computeRoot hash node (step :: uniformPath hash (.node left right) height) =
      (Tree.uniform (.node left right) height).root hash := by
  rw [← computeRoot_uniformPath, ← parent_pair hash bottom]
  rfl

theorem pathPairs_pair_subset : pathPairs hash node (step :: uniformPath hash (.node left right) height) ⊆
      {(left.root hash, right.root hash)} ∪ levelPairs hash (.node left right) height := by
  rw [pathPairs, bottom, parent_pair hash bottom]
  exact Set.union_subset_union_right _ (uniformPath_pairs_subset hash _ height)

end

theorem injOn_levelPairs (hash : α → α → α) (left right : Tree α) (height : Nat)
    (distinct : Set.InjOn (fun level => (Tree.uniform (.node left right) level).root hash) {level | level ≤ height}) :
    Set.InjOn (fun pair : α × α => hash pair.1 pair.2)
      ({(left.root hash, right.root hash)} ∪ levelPairs hash (.node left right) height) := by
  let roots := fun level => (Tree.uniform (.node left right) level).root hash
  let pairAt : Nat → α × α := fun
    | 0 => (left.root hash, right.root hash)
    | level + 1 => (roots level, roots level)
  have hashed : ∀ level, hash (pairAt level).1 (pairAt level).2 = roots level := by
    intro level
    cases level <;> rfl
  have listed : ∀ pair ∈ {(left.root hash, right.root hash)} ∪
      levelPairs hash (.node left right) height, ∃ level ≤ height, pair = pairAt level := by
    rintro pair (rfl | ⟨level, below, rfl⟩)
    · exact ⟨0, by omega, rfl⟩
    · exact ⟨level + 1, by omega, rfl⟩
  intro first firstMember second secondMember same
  obtain ⟨firstLevel, firstBound, rfl⟩ := listed first firstMember
  obtain ⟨secondLevel, secondBound, rfl⟩ := listed second secondMember
  simp only [hashed] at same
  rw [distinct firstBound secondBound same]

end Merkle
