import Nightfall.Library.Levels

/-! A sparse hash tree: a map of the nodes that were written, where a missing node stands for an
empty subtree. -/

namespace Merkle

variable {α : Type} (hash : α → α → α) (zero : α)

def zeroHash : Nat → α
  | 0 => zero
  | height + 1 => hash (zeroHash height) (zeroHash height)

theorem levels_zero (height i : Nat) : levels hash height (fun _ => zero) i = zeroHash hash zero height := by
  induction height generalizing i with
  | zero => rfl
  | succ height ih => rw [levels_succ, ih, ih, zeroHash]

abbrev Nodes (α : Type) := Nat → Nat → Option α

namespace Nodes

def empty : Nodes α := fun _ _ => none

def put (nodes : Nodes α) (level index : Nat) (node : α) : Nodes α :=
  fun atLevel atIndex => if atLevel = level ∧ atIndex = index then some node else nodes atLevel atIndex

def get (nodes : Nodes α) (level index : Nat) : α :=
  (nodes level index).getD (zeroHash hash zero level)

theorem get_put_self (nodes : Nodes α) (level index : Nat) (node : α) :
    (nodes.put level index node).get hash zero level index = node := by
  simp [get, put]

theorem get_put_of_level_ne (nodes : Nodes α) {level atLevel : Nat} (index : Nat) (node : α)
    (different : atLevel ≠ level) (atIndex : Nat) :
    (nodes.put level index node).get hash zero atLevel atIndex = nodes.get hash zero atLevel atIndex := by
  simp [get, put, different]

theorem get_put_of_index_ne (nodes : Nodes α) {index atIndex : Nat} (level : Nat) (node : α)
    (different : atIndex ≠ index) (atLevel : Nat) :
    (nodes.put level index node).get hash zero atLevel atIndex = nodes.get hash zero atLevel atIndex := by
  simp [get, put, different]

def parent (nodes : Nodes α) (level index : Nat) : α :=
  let sibling := nodes.get hash zero level (sibling index)
  let current := nodes.get hash zero level index
  if index % 2 = 1 then hash sibling current else hash current sibling

def rehash : Nat → Nat → Nat → Nodes α → Nodes α
  | 0, _, _, nodes => nodes
  | remaining + 1, level, index, nodes =>
    rehash remaining (level + 1) (index / 2)
      (nodes.put (level + 1) (index / 2) (nodes.parent hash zero level index))

def write (nodes : Nodes α) (height index : Nat) (leaf : α) : Nodes α :=
  rehash hash zero height 0 index (nodes.put 0 index leaf)

def path (nodes : Nodes α) : Nat → Nat → Nat → List (PathElement α)
  | 0, _, _ => []
  | remaining + 1, level, index =>
    ⟨nodes.get hash zero level (sibling index), index % 2 = 1⟩ :: path nodes remaining (level + 1) (index / 2)

theorem path_length (nodes : Nodes α) (remaining level index : Nat) :
    (nodes.path hash zero remaining level index).length = remaining := by
  induction remaining generalizing level index with
  | zero => rfl
  | succ remaining ih => rw [path, List.length_cons, ih]

theorem path_put (nodes : Nodes α) (remaining level index : Nat) (node : α) :
    (nodes.put level index node).path hash zero remaining level index =
      nodes.path hash zero remaining level index := by
  have above : ∀ remaining high i, level < high → (nodes.put level index node).path hash zero remaining high i =
        nodes.path hash zero remaining high i := by
    intro remaining
    induction remaining with
    | zero => exact fun _ _ _ => rfl
    | succ remaining ih =>
      intro high i beyond
      rw [path, path, get_put_of_level_ne _ _ _ _ _ (by omega), ih _ _ (by omega)]
  cases remaining with
  | zero => rfl
  | succ remaining =>
    have aside : sibling index ≠ index := by
      rw [sibling]
      split <;> omega
    rw [path, path, get_put_of_index_ne _ _ _ _ _ aside, above _ _ _ (by omega)]

def Represents (nodes : Nodes α) (height : Nat) (leaves : Nat → α) : Prop :=
  ∀ level ≤ height, ∀ index, nodes.get hash zero level index = levels hash level leaves index

variable {hash zero}

theorem empty_represents (height : Nat) : (empty : Nodes α).Represents hash zero height fun _ => zero := by
  intro level _ index
  rw [levels_zero]
  rfl

theorem parent_eq {nodes : Nodes α} {level : Nat} {leaves : Nat → α}
    (right : ∀ index, nodes.get hash zero level index = levels hash level leaves index) (index : Nat) :
    nodes.parent hash zero level index = levels hash (level + 1) leaves (index / 2) := by
  rw [parent, right, right, levels_succ, sibling]
  by_cases odd : index % 2 = 1
  · have isLeft : 2 * (index / 2) = index - 1 := by omega
    have isRight : 2 * (index / 2) + 1 = index := by omega
    simp only [odd, if_true, isLeft]
    rw [← isLeft, isRight]
  · have isLeft : 2 * (index / 2) = index := by omega
    simp [odd, isLeft]

theorem rehash_represents {leaves : Nat → α} (remaining level index : Nat) {nodes : Nodes α}
    (lower : ∀ below ≤ level, ∀ i, nodes.get hash zero below i = levels hash below leaves i)
    (aside : ∀ above ≤ level + remaining, level < above → ∀ i, i ≠ index / 2 ^ (above - level) →
      nodes.get hash zero above i = levels hash above leaves i) :
    (rehash hash zero remaining level index nodes).Represents hash zero (level + remaining) leaves := by
  induction remaining generalizing level index nodes with
  | zero => exact lower
  | succ remaining ih =>
    have sum : level + (remaining + 1) = level + 1 + remaining := by omega
    rw [rehash, sum]
    apply ih
    · intro below atMost i
      by_cases isNew : below = level + 1
      · subst isNew
        by_cases onPath : i = index / 2
        · subst onPath
          rw [get_put_self]
          exact parent_eq (lower level le_rfl) index
        · rw [get_put_of_index_ne _ _ _ _ _ onPath]
          apply aside _ (by omega) (by omega)
          rwa [Nat.add_sub_cancel_left, Nat.pow_one]
      · rw [get_put_of_level_ne _ _ _ _ _ isNew]
        exact lower below (by omega) i
    · intro above atMost beyond i offPath
      rw [get_put_of_level_ne _ _ _ _ _ (by omega)]
      apply aside above (by omega) (by omega)
      rw [Nat.div_div_eq_div_mul, ← Nat.pow_succ'] at offPath
      rwa [show above - level = above - (level + 1) + 1 by omega]

theorem rehash_isSome (remaining level index : Nat) {nodes : Nodes α} (written : (nodes level index).isSome) :
    (rehash hash zero remaining level index nodes (level + remaining) (index / 2 ^ remaining)).isSome := by
  induction remaining generalizing level index nodes with
  | zero => simpa [rehash] using written
  | succ remaining ih =>
    have sum : level + (remaining + 1) = level + 1 + remaining := by omega
    rw [rehash, Nat.pow_succ', ← Nat.div_div_eq_div_mul, sum]
    apply ih
    simp [put]

theorem write_isSome (nodes : Nodes α) (height : Nat) {index : Nat} (leaf : α)
    (inside : index < 2 ^ height) : (nodes.write hash zero height index leaf height 0).isSome := by
  have top : (rehash hash zero height 0 index (nodes.put 0 index leaf) (0 + height) (index / 2 ^ height)).isSome := by
    apply rehash_isSome
    simp [put]
  rwa [Nat.zero_add, Nat.div_eq_of_lt inside] at top

section

variable {nodes : Nodes α} {height : Nat} {leaves : Nat → α} (represents : nodes.Represents hash zero height leaves)

include nodes height leaves represents

theorem Represents.write (index : Nat) (leaf : α) :
    (nodes.write hash zero height index leaf).Represents hash zero height (Function.update leaves index leaf) := by
  have lower : ∀ below ≤ 0, ∀ i, (nodes.put 0 index leaf).get hash zero below i =
      levels hash below (Function.update leaves index leaf) i := by
    intro below atMost i
    obtain rfl : below = 0 := by omega
    by_cases here : i = index
    · subst here
      rw [get_put_self, levels, Function.update_self]
    · rw [get_put_of_index_ne _ _ _ _ _ here, levels, Function.update_of_ne here]
      exact represents 0 (Nat.zero_le _) i
  have aside : ∀ above ≤ 0 + height, 0 < above → ∀ i, i ≠ index / 2 ^ (above - 0) →
      (nodes.put 0 index leaf).get hash zero above i = levels hash above (Function.update leaves index leaf) i := by
    intro above atMost beyond i offPath
    rw [Nat.sub_zero] at offPath
    rw [get_put_of_level_ne _ _ _ _ _ (by omega), levels_update_of_ne hash leaves leaf offPath]
    exact represents above (by omega) i
  have repaired := rehash_represents height 0 index lower aside
  rwa [Nat.zero_add] at repaired

theorem Represents.path_eq (remaining level index : Nat) (inside : level + remaining ≤ height) :
    nodes.path hash zero remaining level index = opening hash remaining (levels hash level leaves) index := by
  induction remaining generalizing level index with
  | zero => rfl
  | succ remaining ih =>
    have above : Merkle.level hash (levels hash level leaves) = levels hash (level + 1) leaves :=
      (levels_add hash level 1 leaves).symm
    rw [path, opening, represents level (by omega), ih (level + 1) (index / 2) (by omega), above]

theorem Represents.opening_eq (index : Nat) :
    nodes.path hash zero height 0 index = opening hash height leaves index :=
  represents.path_eq height 0 index (by omega)

theorem Represents.root_eq : nodes.get hash zero height 0 = levels hash height leaves 0 :=
  represents height le_rfl 0

end

end Nodes

end Merkle
