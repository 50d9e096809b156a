import Nightfall.Nova.Gadgets

/-! The leaves of an indexed Merkle tree as a linked list in the order of its links: from the zero
leaf, each leaf points to the next larger one, the last to zero. -/

namespace Nightfall.Nova

open Merkle List

structure NovaIndexedLeaf (F : Type) where
  value : F
  index : ℕ
  nextIndex : F
  nextValue : F
deriving DecidableEq

variable {p : ℕ} [Fact p.Prime]

namespace NovaIndexedLeaf

variable (low : NovaIndexedLeaf (ZMod p))

def hash (poseidon : Poseidon (ZMod p)) (leaf : NovaIndexedLeaf (ZMod p)) : ZMod p :=
  imtLeafHashNative poseidon leaf.value leaf.nextIndex leaf.nextValue

def triple (leaf : NovaIndexedLeaf (ZMod p)) : ZMod p × ZMod p × ZMod p :=
  (leaf.value, leaf.nextIndex, leaf.nextValue)

structure Links (leaf next : NovaIndexedLeaf (ZMod p)) : Prop where
  value : leaf.nextValue = next.value
  index : leaf.nextIndex = next.index
  larger : leaf.value.val < next.value.val

def Brackets (x : ZMod p) : Prop :=
  low.value.val < x.val ∧ (low.nextValue = 0 ∨ x.val < low.nextValue.val)

def repointed (x : ZMod p) (index : ℕ) : NovaIndexedLeaf (ZMod p) :=
  { low with nextIndex := index, nextValue := x }

def successor (x : ZMod p) (index : ℕ) : NovaIndexedLeaf (ZMod p) :=
  ⟨x, index, low.nextIndex, low.nextValue⟩

end NovaIndexedLeaf

open NovaIndexedLeaf

structure Indexed (leaves : List (NovaIndexedLeaf (ZMod p))) : Prop where
  starts : leaves.head?.map value = some 0
  linked : leaves.IsChain Links
  ends : ∀ last ∈ leaves.getLast?, last.nextIndex = 0 ∧ last.nextValue = 0
  distinct : (leaves.map index).Nodup

section

variable {leaves : List (NovaIndexedLeaf (ZMod p))} (indexed : Indexed leaves)

include indexed

theorem Indexed.sorted : leaves.Pairwise fun first second => first.value.val < second.value.val := by
  have chain : (leaves.map fun leaf => leaf.value.val).IsChain (· < ·) := by
    rw [isChain_map]
    exact indexed.linked.imp fun _ _ links => links.larger
  rw [← pairwise_map]
  exact chain.pairwise

theorem Indexed.values_nodup : (leaves.map value).Nodup := by
  rw [List.Nodup, pairwise_map]
  apply indexed.sorted.imp
  intro earlier later smaller equal
  rw [equal] at smaller
  exact lt_irrefl _ smaller

variable {before after : List (NovaIndexedLeaf (ZMod p))} {low : NovaIndexedLeaf (ZMod p)} {x : ZMod p}

omit indexed in
theorem Indexed.next (indexed : Indexed (before ++ low :: after)) :
    (after = [] ∧ low.nextIndex = 0 ∧ low.nextValue = 0) ∨ ∃ next rest, after = next :: rest ∧ low.Links next := by
  cases after with
  | nil => exact Or.inl ⟨rfl, indexed.ends low (by simp)⟩
  | cons next rest =>
    have links := (isChain_append_cons_cons.mp indexed.linked).2.1
    exact Or.inr ⟨next, rest, rfl, links⟩

theorem Indexed.not_mem_of_brackets (member : low ∈ leaves) (brackets : low.Brackets x) : x ∉ leaves.map value := by
  obtain ⟨before, after, rfl⟩ := append_of_mem member
  have sorted := indexed.sorted
  rw [pairwise_append, pairwise_cons] at sorted
  obtain ⟨_, ⟨_, sortedAfter⟩, crossing⟩ := sorted
  intro stored
  obtain ⟨leaf, leafMember, rfl⟩ := mem_map.mp stored
  rcases mem_append.mp leafMember with earlier | here
  · have smaller := crossing leaf earlier low mem_cons_self
    have larger := brackets.1
    omega
  rcases mem_cons.mp here with rfl | later
  · exact lt_irrefl _ brackets.1
  rcases indexed.next with ⟨rfl, _⟩ | ⟨next, rest, rfl, links⟩
  · exact (not_mem_nil later).elim
  have largerThanLow := links.larger
  have upper : leaf.value.val < next.value.val := by
    rcases brackets.2 with zero | upper
    · rw [← links.value, zero, ZMod.val_zero] at largerThanLow
      omega
    · rwa [links.value] at upper
  rcases mem_cons.mp later with rfl | further
  · exact lt_irrefl _ upper
  · have beyond := (pairwise_cons.mp sortedAfter).1 leaf further
    omega

theorem Indexed.brackets_of_largest (member : low ∈ leaves) (below : low.value.val < x.val)
    (largest : ∀ leaf ∈ leaves, leaf.value.val < x.val → leaf.value.val ≤ low.value.val)
    (absent : x ∉ leaves.map value) : low.Brackets x := by
  refine ⟨below, ?_⟩
  obtain ⟨before, after, rfl⟩ := append_of_mem member
  rcases indexed.next with ⟨_, _, zero⟩ | ⟨next, rest, rfl, links⟩
  · exact Or.inl zero
  · right
    have nextMember : next ∈ before ++ low :: next :: rest := by simp
    have notBelow : ¬next.value.val < x.val := by
      intro nextBelow
      have atMost := largest next nextMember nextBelow
      have larger := links.larger
      omega
    have different : next.value.val ≠ x.val := by
      intro same
      exact absent (mem_map.mpr ⟨next, nextMember, ZMod.val_injective p same⟩)
    rw [links.value]
    omega

theorem Indexed.zero_mem : ∃ zero ∈ leaves, zero.value = 0 := by
  have starts := indexed.starts
  cases leaves with
  | nil => simp at starts
  | cons zero rest => exact ⟨zero, mem_cons_self, by simpa using starts⟩

omit indexed in
theorem map_insert_perm {κ : Type} {key : NovaIndexedLeaf (ZMod p) → κ}
    {index : ℕ} (kept : key (low.repointed x index) = key low) :
    List.Perm ((before ++ low.repointed x index :: low.successor x index :: after).map key)
      (key (low.successor x index) :: (before ++ low :: after).map key) := by
  simp only [map_append, map_cons, kept]
  exact ((List.Perm.swap _ _ _).append_left _).trans perm_middle

omit indexed in
theorem Indexed.insert (indexed : Indexed (before ++ low :: after)) {index : ℕ} (brackets : low.Brackets x)
    (free : index ∉ (before ++ low :: after).map NovaIndexedLeaf.index) :
    Indexed (before ++ low.repointed x index :: low.successor x index :: after) := by
  refine ⟨?_, ?_, ?_, ?_⟩
  · have starts := indexed.starts
    cases before with
    | nil | cons first rest => exact starts
  · have chain := indexed.linked
    rw [isChain_append, isChain_cons] at chain
    obtain ⟨chainBefore, ⟨_, chainAfter⟩, crossing⟩ := chain
    rw [isChain_append, isChain_cons_cons, isChain_cons]
    refine ⟨chainBefore, ⟨⟨rfl, rfl, brackets.1⟩, ?_, chainAfter⟩, ?_⟩
    · intro next isNext
      rcases indexed.next with ⟨rfl, _⟩ | ⟨other, rest, rfl, links⟩
      · simp at isNext
      · obtain rfl : other = next := by simpa using isNext
        refine ⟨links.value, links.index, ?_⟩
        have larger := links.larger
        rcases brackets.2 with zero | upper
        · rw [← links.value, zero, ZMod.val_zero] at larger
          omega
        · rw [links.value] at upper
          exact upper
    · intro last isLast first isFirst
      obtain rfl : low.repointed x index = first := by simpa using isFirst
      have links := crossing last isLast low rfl
      exact ⟨links.value, links.index, links.larger⟩
  · intro last isLast
    rcases indexed.next with ⟨rfl, zeros⟩ | ⟨next, rest, rfl, _⟩
    · obtain rfl : low.successor x index = last := by simpa using isLast
      exact zeros
    · apply indexed.ends
      simpa using isLast
  · rw [(map_insert_perm rfl).nodup_iff, nodup_cons]
    exact ⟨free, indexed.distinct⟩

end

section

variable (poseidon : Poseidon (ZMod p))

def leafHashes (leaves : List (NovaIndexedLeaf (ZMod p))) (i : ℕ) : ZMod p :=
  ((leaves.find? fun leaf => leaf.index = i).map fun leaf => leaf.hash poseidon).getD 0

variable {poseidon} {leaves : List (NovaIndexedLeaf (ZMod p))}

theorem leafHashes_of_mem (distinct : (leaves.map index).Nodup) {leaf : NovaIndexedLeaf (ZMod p)}
    (member : leaf ∈ leaves) : leafHashes poseidon leaves leaf.index = leaf.hash poseidon := by
  have found : leaves.find? (fun other => other.index = leaf.index) = some leaf := by
    rw [List.find?_eq_some_iff_append]
    obtain ⟨before, after, rfl⟩ := append_of_mem member
    refine ⟨by simp, before, after, rfl, ?_⟩
    intro other earlier
    rw [map_append, nodup_append] at distinct
    have different := distinct.2.2 other.index (mem_map_of_mem earlier) leaf.index (by simp)
    simpa using different
  rw [leafHashes, found]
  rfl

theorem leafHashes_of_free {i : ℕ} (free : i ∉ leaves.map index) : leafHashes poseidon leaves i = 0 := by
  have missing : leaves.find? (fun leaf => leaf.index = i) = none := by
    rw [List.find?_eq_none]
    intro leaf member
    have different : leaf.index ≠ i := fun same => free (mem_map.mpr ⟨leaf, member, same⟩)
    simpa using different
  rw [leafHashes, missing]
  rfl

theorem leafHashes_cases (poseidon : Poseidon (ZMod p)) (leaves : List (NovaIndexedLeaf (ZMod p))) (i : ℕ) :
    leafHashes poseidon leaves i = 0 ∨
      ∃ leaf ∈ leaves, leaf.index = i ∧ leafHashes poseidon leaves i = leaf.hash poseidon := by
  rw [leafHashes]
  cases found : leaves.find? fun leaf => leaf.index = i with
  | none => exact Or.inl rfl
  | some leaf =>
    exact Or.inr ⟨leaf, mem_of_find?_eq_some found, by simpa using List.find?_some found, rfl⟩

theorem leafHashes_insert {before after : List (NovaIndexedLeaf (ZMod p))} {low : NovaIndexedLeaf (ZMod p)}
    (indexed : Indexed (before ++ low :: after)) {x : ZMod p} {index : ℕ} (brackets : low.Brackets x)
    (free : index ∉ (before ++ low :: after).map NovaIndexedLeaf.index) :
    leafHashes poseidon (before ++ low.repointed x index :: low.successor x index :: after) = Function.update
        (Function.update (leafHashes poseidon (before ++ low :: after)) low.index
          ((low.repointed x index).hash poseidon))
        index ((low.successor x index).hash poseidon) := by
  have distinct := (indexed.insert brackets free).distinct
  funext i
  by_cases isNew : i = index
  · subst isNew
    rw [Function.update_self]
    have member : low.successor x i ∈ before ++ low.repointed x i :: low.successor x i :: after := by simp
    exact leafHashes_of_mem distinct member
  rw [Function.update_of_ne isNew]
  by_cases isLow : i = low.index
  · subst isLow
    rw [Function.update_self]
    have member : low.repointed x index ∈ before ++ low.repointed x index :: low.successor x index :: after := by simp
    exact leafHashes_of_mem distinct member
  rw [Function.update_of_ne isLow, leafHashes, leafHashes]
  have lowSkipped : ¬low.index = i := fun same => isLow same.symm
  have newSkipped : ¬index = i := fun same => isNew same.symm
  simp [List.find?_append, repointed, successor, lowSkipped, newSkipped]

end

end Nightfall.Nova
