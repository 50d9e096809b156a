import Nightfall.Nova.NullifierTree

/-! The invariant of `NeptuneIMT`: its leaf map, the leaf maps of its storage and its nodes all
represent one linked list of leaves. -/

namespace Nightfall.Nova

open Merkle NovaIndexedLeaf List Function

variable {p : ℕ} [Fact p.Prime]

namespace NeptuneIMT

structure Consistent (poseidon : Poseidon (ZMod p)) (imt : NeptuneIMT (ZMod p))
    (chain : List (NovaIndexedLeaf (ZMod p))) : Prop where
  indexed : Indexed chain
  byValue : ∀ leaf, leaf ∈ imt.storage.leavesByValue ↔ leaf ∈ chain
  byIndex : ∀ i leaf, imt.storage.leavesByIndex i = some leaf ↔ leaf ∈ chain ∧ leaf.index = i
  leaves : ∀ i, imt.leaves i = (imt.storage.leavesByIndex i).map triple
  positions : ∀ i, i ∈ chain.map index ↔ i < imt.nextInsertIndex
  nodes : imt.storage.nodes.Represents poseidon.hash2 0 imt.depth (leafHashes poseidon chain)
  metadata : imt.storage.metadata = some ⟨imt.depth, imt.nextInsertIndex, imt.root poseidon⟩

variable {poseidon : Poseidon (ZMod p)}

section

theorem newNodes_eq_rehash (remaining level : ℕ) {nodes : Nodes (ZMod p)}
    (written : (nodes level 0).isSome) (alone : ∀ level, nodes level 1 = none) :
    newNodes poseidon remaining level 0 nodes = nodes.rehash poseidon.hash2 0 remaining level 0 := by
  induction remaining generalizing level nodes with
  | zero => rfl
  | succ remaining ih =>
    obtain ⟨current, isCurrent⟩ := Option.isSome_iff_exists.mp written
    have sameParent : nodes.parent poseidon.hash2 0 level 0 =
        poseidon.hash2 current (zeroHash poseidon.hash2 0 level) := by
      simp [Nodes.parent, Nodes.get, sibling, isCurrent, alone level]
    rw [newNodes, Nodes.rehash, sameParent]
    simp only [isCurrent, Option.getD_some]
    apply ih
    · simp [Nodes.put]
    · intro above
      simpa [Nodes.put] using alone above

theorem new_nodes (depth : ℕ) : newNodes poseidon depth 0 0 (Nodes.empty.put 0 0 (poseidon.hash3 0 0 0)) =
      Nodes.empty.write poseidon.hash2 0 depth 0 (poseidon.hash3 0 0 0) := by
  apply newNodes_eq_rehash
  · simp [Nodes.put]
  · intro level
    simp [Nodes.put, Nodes.empty]

theorem new_storage_nodes (depth : ℕ) : (new poseidon depth .new).storage.nodes =
    Nodes.empty.write poseidon.hash2 0 depth 0 (poseidon.hash3 0 0 0) := by
  funext level index
  rw [← new_nodes]
  exact Option.or_none

theorem singleton_indexed : Indexed ([⟨0, 0, 0, 0⟩] : List (NovaIndexedLeaf (ZMod p))) where
  starts := rfl
  linked := .singleton _
  ends := by simp
  distinct := nodup_singleton _

theorem new_consistent (depth : ℕ) : (new poseidon depth .new).Consistent poseidon [⟨0, 0, 0, 0⟩] where
  indexed := singleton_indexed
  byValue := by
    intro leaf
    simp [new, InMemoryNullifierStorage.putLeaf, InMemoryNullifierStorage.new]
  byIndex := by
    intro i leaf
    by_cases isZero : i = 0
    · subst isZero
      simp only [new, InMemoryNullifierStorage.putLeaf, update_self, Option.some.injEq, mem_singleton]
      constructor
      · rintro rfl
        exact ⟨rfl, rfl⟩
      · rintro ⟨rfl, _⟩
        rfl
    · have missing : (new poseidon depth .new).storage.leavesByIndex i = none :=
        update_of_ne isZero _ _
      rw [missing, mem_singleton]
      constructor
      · intro impossible
        cases impossible
      · rintro ⟨rfl, rfl⟩
        exact (isZero rfl).elim
  leaves := by
    intro i
    by_cases isZero : i = 0
    · subst isZero
      simp [new, InMemoryNullifierStorage.putLeaf, triple]
    · simp [new, InMemoryNullifierStorage.putLeaf, InMemoryNullifierStorage.new, isZero]
  positions := by
    intro i
    simp [new]
  nodes := by
    have written : (Nodes.empty.write poseidon.hash2 0 depth 0 (poseidon.hash3 0 0 0)).Represents
        poseidon.hash2 0 depth (update (fun _ => 0) 0 (poseidon.hash3 0 0 0)) :=
      (Nodes.empty_represents depth).write 0 _
    have hashes : leafHashes poseidon [⟨0, 0, 0, 0⟩] = update (fun _ => 0) 0 (poseidon.hash3 0 0 0) := by
      funext i
      by_cases isZero : i = 0
      · subst isZero
        simp [leafHashes, NovaIndexedLeaf.hash, imtLeafHashNative]
      · have skipped : ¬0 = i := fun same => isZero same.symm
        simp [leafHashes, isZero, skipped]
    rw [hashes, new_storage_nodes]
    exact written
  metadata := by
    have top : (Nodes.empty.write poseidon.hash2 0 depth 0 (poseidon.hash3 0 0 0) depth 0).isSome :=
      Nodes.write_isSome _ depth _ (Nat.two_pow_pos depth)
    obtain ⟨written, isWritten⟩ := Option.isSome_iff_exists.mp top
    have isRoot : root poseidon (new poseidon depth .new) = written := by
      rw [root, new_storage_nodes]
      change ((Nodes.empty.write poseidon.hash2 0 depth 0 _) depth 0).getD _ = written
      rw [isWritten, Option.getD_some]
    rw [isRoot]
    change some (NullifierTreeMetadata.mk depth 1 ((newNodes poseidon depth 0 0 _ depth 0).getD 0)) =
      some ⟨depth, 1, written⟩
    rw [new_nodes, isWritten, Option.getD_some]

end

section

omit [Fact p.Prime] in
theorem loadLeaf_foldl {storage : InMemoryNullifierStorage (ZMod p)}
    (own : ∀ i leaf, storage.leavesByIndex i = some leaf → leaf.index = i) (count i : ℕ) :
    (List.range count).foldl (loadLeaf storage) (fun _ => none) i =
      if i < count then (storage.leavesByIndex i).map triple else none := by
  induction count with
  | zero => rfl
  | succ count ih =>
    rw [range_succ, foldl_append, foldl_cons, foldl_nil, loadLeaf]
    cases stored : storage.leavesByIndex count with
    | none =>
      simp only [ih]
      by_cases last : i = count
      · subst last
        simp [stored]
      · have same : i < count + 1 ↔ i < count := by omega
        simp only [same]
    | some leaf =>
      have isIndex := own count leaf stored
      subst isIndex
      by_cases last : i = leaf.index
      · subst last
        simp [stored, triple]
      · have same : i < leaf.index + 1 ↔ i < leaf.index := by omega
        simp only [update_of_ne last, ih, same]

theorem Consistent.load_eq {imt : NeptuneIMT (ZMod p)} {chain : List (NovaIndexedLeaf (ZMod p))}
    (consistent : imt.Consistent poseidon chain) : load imt.storage = some imt := by
  have leaves : (List.range imt.nextInsertIndex).foldl (loadLeaf imt.storage) (fun _ => none) = imt.leaves := by
    funext i
    rw [loadLeaf_foldl (fun i leaf stored => ((consistent.byIndex i leaf).mp stored).2), consistent.leaves]
    by_cases taken : i < imt.nextInsertIndex
    · rw [if_pos taken]
    · rw [if_neg taken]
      cases stored : imt.storage.leavesByIndex i with
      | none => rfl
      | some leaf =>
        obtain ⟨member, isIndex⟩ := (consistent.byIndex i leaf).mp stored
        exact absurd ((consistent.positions i).mp (isIndex ▸ mem_map_of_mem member)) taken
  rw [load, consistent.metadata, Option.map_some, leaves]

end

section

variable {imt : NeptuneIMT (ZMod p)} {chain : List (NovaIndexedLeaf (ZMod p))}
  (consistent : imt.Consistent poseidon chain) {x : ZMod p} {low : NovaIndexedLeaf (ZMod p)}

include consistent

theorem Consistent.getLeafByValue_isSome : (imt.storage.getLeafByValue x).isSome ↔ x ∈ chain.map value := by
  rw [InMemoryNullifierStorage.getLeafByValue, List.find?_isSome, mem_map]
  simp [consistent.byValue]

theorem Consistent.getLowLeaf_eq (nonzero : x ≠ 0) (absent : x ∉ chain.map value) :
    ∃ low ∈ chain, low.Brackets x ∧ imt.storage.getLowLeaf x = some low := by
  have smaller : ∀ leaf, leaf ∈ imt.storage.leavesByValue.filter (fun leaf => leaf.value.val < x.val) ↔
      leaf ∈ chain ∧ leaf.value.val < x.val := by
    intro leaf
    rw [mem_filter, consistent.byValue, decide_eq_true_eq]
  obtain ⟨zero, zeroMember, isZero⟩ := consistent.indexed.zero_mem
  have zeroSmaller : zero.value.val < x.val := by
    rw [isZero, ZMod.val_zero, Nat.pos_iff_ne_zero, Ne, ZMod.val_eq_zero]
    exact nonzero
  cases found : imt.storage.getLowLeaf x with
  | none =>
    have candidate := (smaller zero).mpr ⟨zeroMember, zeroSmaller⟩
    rw [maxByValue_eq_none found] at candidate
    exact (not_mem_nil candidate).elim
  | some low =>
    obtain ⟨lowFiltered, largest⟩ := maxByValue_eq_some found
    obtain ⟨member, below⟩ := (smaller low).mp lowFiltered
    refine ⟨low, member, ?_, rfl⟩
    apply consistent.indexed.brackets_of_largest member below _ absent
    intro leaf leafMember leafBelow
    exact largest leaf ((smaller leaf).mpr ⟨leafMember, leafBelow⟩)

theorem Consistent.leaves_of_mem {leaf : NovaIndexedLeaf (ZMod p)} (member : leaf ∈ chain) :
    imt.leaves leaf.index = some leaf.triple := by
  rw [consistent.leaves, (consistent.byIndex leaf.index leaf).mpr ⟨member, rfl⟩, Option.map_some]

theorem Consistent.root_eq : imt.root poseidon = levels poseidon.hash2 imt.depth (leafHashes poseidon chain) 0 :=
  consistent.nodes.root_eq

theorem Consistent.inclusionPath_eq (index : ℕ) : imt.inclusionPath poseidon index =
    opening poseidon.hash2 imt.depth (leafHashes poseidon chain) index :=
  consistent.nodes.opening_eq index

section

variable (member : low ∈ chain) (brackets : low.Brackets x)
include member brackets

theorem Consistent.getLowLeaf_of_brackets :
    x ≠ 0 ∧ ¬(imt.storage.getLeafByValue x).isSome ∧ imt.storage.getLowLeaf x = some low := by
  have absent := consistent.indexed.not_mem_of_brackets member brackets
  have nonzero : x ≠ 0 := by
    rintro rfl
    have below := brackets.1
    rw [ZMod.val_zero] at below
    omega
  obtain ⟨other, otherMember, otherBrackets, found⟩ := consistent.getLowLeaf_eq nonzero absent
  obtain rfl := consistent.indexed.low_unique member otherMember brackets otherBrackets
  exact ⟨nonzero, fun stored => absent (consistent.getLeafByValue_isSome.mp stored), found⟩

theorem Consistent.getNonInclusionWitness_eq : imt.getNonInclusionWitness poseidon x =
      .ok (low, ⟨x, low.value, low.nextIndex, low.nextValue, imt.inclusionPath poseidon low.index⟩) := by
  obtain ⟨nonzero, missing, found⟩ := consistent.getLowLeaf_of_brackets member brackets
  rw [getNonInclusionWitness, if_neg nonzero, if_neg missing, found]
  simp only [consistent.leaves_of_mem member]
  rfl

theorem Consistent.insertNullifier_eq :
    imt.insertNullifier poseidon x = (.ok ⟨x, low.index, imt.nextInsertIndex⟩, imt.insertBehind poseidon low x) := by
  obtain ⟨nonzero, missing, found⟩ := consistent.getLowLeaf_of_brackets member brackets
  rw [insertNullifier, if_neg nonzero, if_neg missing, found]

end

theorem Consistent.insertNullifier_refused (stored : x ∈ chain.map value) :
    ∃ error, imt.getNonInclusionWitness poseidon x = .error error ∧
      imt.insertNullifier poseidon x = (.error error, imt) := by
  by_cases isZero : x = 0
  · exact ⟨.nullifierIsZero, by rw [getNonInclusionWitness, if_pos isZero], by rw [insertNullifier, if_pos isZero]⟩
  · have found := consistent.getLeafByValue_isSome.mpr stored
    exact ⟨.nullifierExists x, by rw [getNonInclusionWitness, if_neg isZero, if_pos found],
      by rw [insertNullifier, if_neg isZero, if_pos found]⟩

end

section

omit [Fact p.Prime] in
theorem mem_rest_iff {κ : Type} {key : NovaIndexedLeaf (ZMod p) → κ} {before after : List (NovaIndexedLeaf (ZMod p))}
    {low leaf : NovaIndexedLeaf (ZMod p)} (distinct : ((before ++ low :: after).map key).Nodup) :
    leaf ∈ before ++ after ↔ leaf ∈ before ++ low :: after ∧ key leaf ≠ key low := by
  have order : List.Perm (before ++ low :: after) (low :: (before ++ after)) := perm_middle
  rw [(order.map key).nodup_iff, map_cons, nodup_cons] at distinct
  rw [order.mem_iff, mem_cons]
  constructor
  · intro member
    refine ⟨Or.inr member, ?_⟩
    intro same
    exact distinct.1 (same ▸ mem_map_of_mem member)
  · rintro ⟨rfl | member, different⟩
    · exact (different rfl).elim
    · exact member

omit [Fact p.Prime] in
theorem mem_inserted_iff {before after : List (NovaIndexedLeaf (ZMod p))}
    {first second leaf : NovaIndexedLeaf (ZMod p)} :
    leaf ∈ before ++ first :: second :: after ↔ leaf = second ∨ leaf = first ∨ leaf ∈ before ++ after := by
  simp only [mem_append, mem_cons]
  tauto

variable {imt : NeptuneIMT (ZMod p)} {before after : List (NovaIndexedLeaf (ZMod p))} {low : NovaIndexedLeaf (ZMod p)}
  {x : ZMod p} (consistent : imt.Consistent poseidon (before ++ low :: after))

include consistent

theorem Consistent.next_free : imt.nextInsertIndex ∉ (before ++ low :: after).map index := by
  rw [consistent.positions]
  exact lt_irrefl _

theorem Consistent.insertBehind_byValue (brackets : low.Brackets x) (leaf : NovaIndexedLeaf (ZMod p)) :
    leaf ∈ (imt.insertBehind poseidon low x).storage.leavesByValue ↔ leaf ∈ before ++
      low.repointed x imt.nextInsertIndex :: low.successor x imt.nextInsertIndex :: after := by
  have distinct := consistent.indexed.values_nodup
  have member : low ∈ before ++ low :: after := by simp
  have absent := consistent.indexed.not_mem_of_brackets member brackets
  have differs : ∀ stored ∈ before ++ low :: after, stored.value ≠ x := by
    intro stored storedMember same
    exact absent (same ▸ mem_map_of_mem storedMember)
  change leaf ∈ low.successor x imt.nextInsertIndex ::
    (low.repointed x imt.nextInsertIndex :: imt.storage.leavesByValue.filter fun other =>
      other.value ≠ low.value).filter (fun other => other.value ≠ x) ↔ _
  rw [mem_inserted_iff, mem_cons, mem_filter, mem_cons, mem_filter,
    consistent.byValue, decide_eq_true_eq, decide_eq_true_eq, ← mem_rest_iff distinct]
  constructor
  · rintro (isNew | ⟨kept, _⟩)
    · exact Or.inl isNew
    · exact Or.inr kept
  · rintro (isNew | rfl | rest)
    · exact Or.inl isNew
    · exact Or.inr ⟨Or.inl rfl, differs low member⟩
    · exact Or.inr ⟨Or.inr rest, differs leaf ((mem_rest_iff distinct).mp rest).1⟩

theorem Consistent.insertBehind_byIndex (i : ℕ) (leaf : NovaIndexedLeaf (ZMod p)) :
    (imt.insertBehind poseidon low x).storage.leavesByIndex i = some leaf ↔ leaf ∈ before ++
      low.repointed x imt.nextInsertIndex :: low.successor x imt.nextInsertIndex :: after ∧ leaf.index = i := by
  have rest := @mem_rest_iff p ℕ index before after low leaf consistent.indexed.distinct
  have free := consistent.next_free
  have lowTaken : low.index ≠ imt.nextInsertIndex := by
    intro same
    exact free (same ▸ mem_map_of_mem (by simp))
  change update (update imt.storage.leavesByIndex low.index
    (some (low.repointed x imt.nextInsertIndex))) imt.nextInsertIndex
      (some (low.successor x imt.nextInsertIndex)) i = some leaf ↔ _
  rw [mem_inserted_iff]
  by_cases isNew : i = imt.nextInsertIndex
  · subst isNew
    rw [update_self, Option.some.injEq]
    constructor
    · rintro rfl
      exact ⟨Or.inl rfl, rfl⟩
    · rintro ⟨rfl | rfl | kept, isIndex⟩
      · rfl
      · exact (lowTaken isIndex).elim
      · exact (free (isIndex ▸ mem_map_of_mem (rest.mp kept).1)).elim
  rw [update_of_ne isNew]
  by_cases isLow : i = low.index
  · subst isLow
    rw [update_self, Option.some.injEq]
    constructor
    · rintro rfl
      exact ⟨Or.inr (Or.inl rfl), rfl⟩
    · rintro ⟨rfl | rfl | kept, isIndex⟩
      · exact (isNew isIndex.symm).elim
      · rfl
      · exact ((rest.mp kept).2 isIndex).elim
  · rw [update_of_ne isLow, consistent.byIndex]
    constructor
    · rintro ⟨stored, rfl⟩
      exact ⟨Or.inr (Or.inr (rest.mpr ⟨stored, isLow⟩)), rfl⟩
    · rintro ⟨rfl | rfl | kept, isIndex⟩
      · exact (isNew isIndex.symm).elim
      · exact (isLow isIndex.symm).elim
      · exact ⟨(rest.mp kept).1, isIndex⟩

theorem Consistent.insertBehind_leaves (i : ℕ) : (imt.insertBehind poseidon low x).leaves i =
    ((imt.insertBehind poseidon low x).storage.leavesByIndex i).map triple := by
  change update (update imt.leaves low.index _) imt.nextInsertIndex _ i =
    (update (update imt.storage.leavesByIndex low.index _) imt.nextInsertIndex _ i).map triple
  by_cases isNew : i = imt.nextInsertIndex
  · subst isNew
    rw [update_self, update_self]
    rfl
  rw [update_of_ne isNew, update_of_ne isNew]
  by_cases isLow : i = low.index
  · subst isLow
    rw [update_self, update_self]
    rfl
  · rw [update_of_ne isLow, update_of_ne isLow]
    exact consistent.leaves i

theorem Consistent.insertBehind (brackets : low.Brackets x) :
    (imt.insertBehind poseidon low x).Consistent poseidon (before ++
      low.repointed x imt.nextInsertIndex :: low.successor x imt.nextInsertIndex :: after) where
  indexed := consistent.indexed.insert brackets consistent.next_free
  byValue := consistent.insertBehind_byValue brackets
  byIndex := consistent.insertBehind_byIndex
  leaves := consistent.insertBehind_leaves
  positions := by
    intro i
    rw [(map_insert_perm rfl).mem_iff, mem_cons, consistent.positions]
    change i = imt.nextInsertIndex ∨ i < imt.nextInsertIndex ↔ i < imt.nextInsertIndex + 1
    omega
  nodes := by
    have written := (consistent.nodes.write low.index
      ((low.repointed x imt.nextInsertIndex).hash poseidon)).write imt.nextInsertIndex
      ((low.successor x imt.nextInsertIndex).hash poseidon)
    rwa [← leafHashes_insert consistent.indexed brackets consistent.next_free] at written
  metadata := rfl

end

section

variable (poseidon)

/-- The tree stores these values beside zero, in one linked list, at positions in the order of
their insertion; the last one inserted comes first. -/
structure Stores (imt : NeptuneIMT (ZMod p)) (chain : List (NovaIndexedLeaf (ZMod p)))
    (inserted : List (ZMod p)) : Prop where
  consistent : imt.Consistent poseidon chain
  values : List.Perm (chain.map value) (0 :: inserted)
  count : imt.nextInsertIndex = inserted.length + 1
  order : ∀ leaf ∈ chain, (0 :: inserted.reverse)[leaf.index]? = some leaf.value

inductive Reached (depth : ℕ) : NeptuneIMT (ZMod p) → List (ZMod p) → Prop
  | new : Reached depth (new poseidon depth .new) []
  | insert {imt next : NeptuneIMT (ZMod p)} {inserted : List (ZMod p)} {nullifier : ZMod p}
      {info : NovaInsertionInfo (ZMod p)} (reached : Reached depth imt inserted)
      (accepted : imt.insertNullifier poseidon nullifier = (.ok info, next)) :
      Reached depth next (nullifier :: inserted)
  | load {imt loaded : NeptuneIMT (ZMod p)} {inserted : List (ZMod p)}
      (reached : Reached depth imt inserted) (isLoaded : load imt.storage = some loaded) :
      Reached depth loaded inserted

variable {poseidon} {imt : NeptuneIMT (ZMod p)} {chain : List (NovaIndexedLeaf (ZMod p))}
  {inserted : List (ZMod p)} {x : ZMod p} {depth : ℕ}

theorem new_stores (depth : ℕ) : Stores poseidon (new poseidon depth .new) [⟨0, 0, 0, 0⟩] [] :=
  ⟨new_consistent depth, List.Perm.refl _, rfl, by simp⟩

theorem Stores.mem_values_iff (stores : Stores poseidon imt chain inserted) (nonzero : x ≠ 0) :
    x ∈ chain.map value ↔ x ∈ inserted := by
  rw [stores.values.mem_iff, mem_cons, or_iff_right nonzero]

theorem Stores.exists_low (stores : Stores poseidon imt chain inserted) (nonzero : x ≠ 0)
    (absent : x ∉ inserted) : ∃ before low after, chain = before ++ low :: after ∧ low.Brackets x := by
  rw [← stores.mem_values_iff nonzero] at absent
  obtain ⟨low, member, brackets, _⟩ := stores.consistent.getLowLeaf_eq nonzero absent
  obtain ⟨before, after, rfl⟩ := append_of_mem member
  exact ⟨before, low, after, rfl, brackets⟩

theorem Stores.insert {before after : List (NovaIndexedLeaf (ZMod p))} {low : NovaIndexedLeaf (ZMod p)}
    (stores : Stores poseidon imt (before ++ low :: after) inserted) (brackets : low.Brackets x) :
    imt.insertNullifier poseidon x = (.ok ⟨x, low.index, imt.nextInsertIndex⟩, imt.insertBehind poseidon low x) ∧
    Stores poseidon (imt.insertBehind poseidon low x) (before ++
      low.repointed x imt.nextInsertIndex :: low.successor x imt.nextInsertIndex :: after)
      (x :: inserted) := by
  refine ⟨stores.consistent.insertNullifier_eq (by simp) brackets,
    stores.consistent.insertBehind brackets, ?_, ?_, ?_⟩
  · calc List.Perm _ (x :: (before ++ low :: after).map value) := map_insert_perm rfl
      List.Perm _ (x :: 0 :: inserted) := stores.values.cons x
      List.Perm _ (0 :: x :: inserted) := List.Perm.swap _ _ _
  · change imt.nextInsertIndex + 1 = inserted.length + 1 + 1
    rw [stores.count]
  · have earlier : ∀ leaf ∈ before ++ low :: after,
        (0 :: (x :: inserted).reverse)[leaf.index]? = some leaf.value := by
      intro leaf member
      have taken := (stores.consistent.positions leaf.index).mp (mem_map_of_mem member)
      rw [stores.count] at taken
      rw [reverse_cons, ← cons_append, List.getElem?_append_left (by simpa using taken)]
      exact stores.order leaf member
    intro leaf member
    rcases mem_inserted_iff.mp member with rfl | rfl | rest
    · rw [reverse_cons, ← cons_append]
      simp [successor, stores.count]
    · exact earlier low (by simp)
    · apply earlier
      simp only [mem_append, mem_cons] at rest ⊢
      exact rest.imp_right Or.inr

theorem Stores.refused (stores : Stores poseidon imt chain inserted) (stored : x = 0 ∨ x ∈ inserted) :
    ∃ error, imt.getNonInclusionWitness poseidon x = .error error ∧
      imt.insertNullifier poseidon x = (.error error, imt) := by
  apply stores.consistent.insertNullifier_refused
  rwa [stores.values.mem_iff, mem_cons]

theorem Reached.stores (reached : Reached poseidon depth imt inserted) :
    imt.depth = depth ∧ ∃ chain, Stores poseidon imt chain inserted := by
  induction reached with
  | new => exact ⟨rfl, _, new_stores depth⟩
  | @insert imt next inserted nullifier info reached accepted ih =>
    obtain ⟨isDepth, chain, stores⟩ := ih
    by_cases stored : nullifier = 0 ∨ nullifier ∈ inserted
    · obtain ⟨error, _, refused⟩ := stores.refused stored
      rw [refused] at accepted
      cases accepted
    · obtain ⟨nonzero, absent⟩ := not_or.mp stored
      obtain ⟨before, low, after, rfl, brackets⟩ := stores.exists_low nonzero absent
      obtain ⟨outcome, nextStores⟩ := stores.insert brackets
      obtain ⟨_, rfl⟩ := Prod.mk.inj (outcome.symm.trans accepted)
      exact ⟨isDepth, _, nextStores⟩
  | load reached isLoaded ih =>
    obtain ⟨isDepth, chain, stores⟩ := ih
    rw [stores.consistent.load_eq] at isLoaded
    obtain rfl := Option.some.inj isLoaded
    exact ⟨isDepth, chain, stores⟩

theorem Stores.index_lt (stores : Stores poseidon imt chain inserted) (room : inserted.length < 2 ^ depth)
    {leaf : NovaIndexedLeaf (ZMod p)} (member : leaf ∈ chain) : leaf.index < 2 ^ depth := by
  have taken := (stores.consistent.positions leaf.index).mp (mem_map_of_mem member)
  rw [stores.count] at taken
  omega

end

end NeptuneIMT

theorem NeptuneIMT.Stores.opens {poseidon : Poseidon (ZMod p)} {imt : NeptuneIMT (ZMod p)}
    {chain : List (NovaIndexedLeaf (ZMod p))} {inserted : List (ZMod p)} (stores : Stores poseidon imt chain inserted)
    (room : inserted.length < 2 ^ imt.depth) {leaf : NovaIndexedLeaf (ZMod p)} (member : leaf ∈ chain) :
    computeRoot poseidon.hash2 (leaf.hash poseidon) (imt.inclusionPath poseidon leaf.index) = imt.root poseidon ∧
      pathIndex (imt.inclusionPath poseidon leaf.index) = leaf.index := by
  have inside := stores.index_lt room member
  rw [stores.consistent.root_eq, stores.consistent.inclusionPath_eq, pathIndex_opening, Nat.mod_eq_of_lt inside]
  exact ⟨computeRoot_opening_inside poseidon.hash2 inside
    (leafHashes_of_mem stores.consistent.indexed.distinct member), rfl⟩

theorem NeptuneIMT.inclusionPath_length (poseidon : Poseidon (ZMod p)) (imt : NeptuneIMT (ZMod p))
    (treeIndex : ℕ) : (imt.inclusionPath poseidon treeIndex).length = imt.depth :=
  Nodes.path_length _ _ _ _ _ _

structure ImtNonInclusionWitness.Verifies (poseidon : Poseidon (ZMod p)) (witness : ImtNonInclusionWitness (ZMod p))
    (low : NovaIndexedLeaf (ZMod p)) (x : ZMod p) (depth : ℕ) (root : ZMod p) : Prop where
  nullifier : witness.nullifier = x
  leaf : (witness.lowValue, witness.lowNextIndex, witness.lowNextValue) = low.triple
  brackets : low.Brackets x
  length : witness.path.length = depth
  index : pathIndex witness.path = low.index
  opened : computeMerkleRootNative poseidon
    (imtLeafHashNative poseidon witness.lowValue witness.lowNextIndex witness.lowNextValue)
    witness.path = root

namespace NeptuneIMT

variable {poseidon : Poseidon (ZMod p)} {imt : NeptuneIMT (ZMod p)}
  {chain : List (NovaIndexedLeaf (ZMod p))} {inserted : List (ZMod p)} {depth : ℕ}

theorem Stores.witness_verifies (stores : Stores poseidon imt chain inserted)
    (room : inserted.length < 2 ^ imt.depth) {x : ZMod p} (nonzero : x ≠ 0) (absent : x ∉ inserted) :
    ∃ low ∈ chain, ∃ witness, imt.getNonInclusionWitness poseidon x = .ok (low, witness) ∧
      witness.Verifies poseidon low x imt.depth (imt.root poseidon) := by
  obtain ⟨before, low, after, rfl, brackets⟩ := stores.exists_low nonzero absent
  have member : low ∈ before ++ low :: after := by simp
  obtain ⟨opened, isIndex⟩ := stores.opens room member
  exact ⟨low, member, _, stores.consistent.getNonInclusionWitness_eq member brackets, rfl, rfl,
    brackets, inclusionPath_length _ _ _, isIndex, opened⟩

section

variable (small : Poseidon Fr254) (depth : ℕ)

def treeOfThree : NeptuneIMT Fr254 := (new small depth .new).insertBehind small zeroLeaf 3

def treeOfThreeAndFive : NeptuneIMT Fr254 :=
  (treeOfThree small depth).insertBehind small ⟨3, 1, 0, 0⟩ 5

theorem treeOfThree_stores : (new small depth .new).insertNullifier small 3 =
      (.ok ⟨3, 0, 1⟩, treeOfThree small depth) ∧
    Stores small (treeOfThree small depth) [⟨0, 0, (1 : ℕ), 3⟩, ⟨3, 1, 0, 0⟩] [3] := by
  have stores : Stores small (new small depth .new) ([] ++ zeroLeaf :: []) [] := new_stores depth
  exact stores.insert (zeroLeaf_brackets (by decide))

theorem treeOfThreeAndFive_stores : (treeOfThree small depth).insertNullifier small 5 =
      (.ok ⟨5, 1, 2⟩, treeOfThreeAndFive small depth) ∧ Stores small (treeOfThreeAndFive small depth)
      [⟨0, 0, (1 : ℕ), 3⟩, ⟨3, 1, (2 : ℕ), 5⟩, ⟨5, 2, 0, 0⟩] [5, 3] := by
  have stores : Stores small (treeOfThree small depth)
      ([⟨0, 0, (1 : ℕ), 3⟩] ++ ⟨3, 1, 0, 0⟩ :: []) [3] := (treeOfThree_stores small depth).2
  have brackets : NovaIndexedLeaf.Brackets (⟨3, 1, 0, 0⟩ : NovaIndexedLeaf Fr254) 5 :=
    ⟨by decide, Or.inl rfl⟩
  exact stores.insert brackets

theorem treeOfThree_reached : Reached small depth (treeOfThree small depth) [3] :=
  .insert .new (treeOfThree_stores small depth).1

theorem treeOfThreeAndFive_reached : Reached small depth (treeOfThreeAndFive small depth) [5, 3] :=
  .insert (treeOfThree_reached small depth) (treeOfThreeAndFive_stores small depth).1

theorem overfull_tree :
    (treeOfThreeAndFive small 1).getNonInclusionWitness small 7 = .ok (⟨5, 2, 0, 0⟩, ⟨7, 5, 0, 0, [⟨0, false⟩]⟩) ∧
    (treeOfThreeAndFive small 1).root small = small.hash2 (small.hash3 0 (1 : ℕ) 3) (small.hash3 3 (2 : ℕ) 5) := by
  have consistent := (treeOfThreeAndFive_stores small 1).2.consistent
  have brackets : NovaIndexedLeaf.Brackets (⟨5, 2, 0, 0⟩ : NovaIndexedLeaf Fr254) 7 :=
    ⟨by decide, Or.inl rfl⟩
  have isWitness := consistent.getNonInclusionWitness_eq (by simp) brackets
  exact ⟨isWitness, consistent.root_eq⟩

end

/-- As long as fewer values were inserted than the tree has positions: the leaves are one linked
list of zero and the values inserted, in increasing order, which all three representations hold;
every other value has a witness that verifies, and the values inserted are refused. -/
theorem reached_tree_indexed (reached : Reached poseidon depth imt inserted) (room : inserted.length < 2 ^ depth) :
    ∃ chain, imt.Consistent poseidon chain ∧ List.Perm (chain.map value) (0 :: inserted) ∧
      (∀ leaf ∈ chain, leaf.index < 2 ^ depth) ∧
      imt.root poseidon = levels poseidon.hash2 depth (leafHashes poseidon chain) 0 ∧
      (∀ x, x ≠ 0 → x ∉ inserted → ∃ low ∈ chain, ∃ witness,
        imt.getNonInclusionWitness poseidon x = .ok (low, witness) ∧
        witness.Verifies poseidon low x depth (imt.root poseidon)) ∧
      ∀ x ∈ inserted, ∃ error, imt.getNonInclusionWitness poseidon x = .error error ∧
        imt.insertNullifier poseidon x = (.error error, imt) := by
  obtain ⟨rfl, chain, stores⟩ := reached.stores
  refine ⟨chain, stores.consistent, stores.values, ?_, stores.consistent.root_eq, ?_, ?_⟩
  · intro leaf member
    exact stores.index_lt room member
  · intro x nonzero absent
    exact stores.witness_verifies room nonzero absent
  · intro x stored
    exact stores.refused (Or.inr stored)

theorem reached_tree_indexed_three :
    Reached samplePoseidon 1 (treeOfThree samplePoseidon 1) [3] ∧ [(3 : Fr254)].length < 2 ^ 1 ∧
      ∃ chain, (treeOfThree samplePoseidon 1).Consistent samplePoseidon chain ∧
        List.Perm (chain.map value) [0, 3] ∧ ∃ low ∈ chain, ∃ witness,
        (treeOfThree samplePoseidon 1).getNonInclusionWitness samplePoseidon 5 = .ok (low, witness) ∧
        witness.Verifies samplePoseidon low 5 1 ((treeOfThree samplePoseidon 1).root samplePoseidon) := by
  have room : [(3 : Fr254)].length < 2 ^ 1 := by decide
  have absent : (5 : Fr254) ∉ [(3 : Fr254)] := by decide
  have reached := treeOfThree_reached samplePoseidon 1
  obtain ⟨chain, consistent, values, _, _, witnesses, _⟩ := reached_tree_indexed reached room
  exact ⟨reached, room, chain, consistent, values, witnesses 5 (by decide) absent⟩

/-- Nothing stops the insertion of a third leaf into a tree of two positions. -/
theorem overfull_tree_witness_fails : ∃ imt low witness, Reached samplePoseidon 1 imt [5, 3] ∧
      imt.getNonInclusionWitness samplePoseidon 7 = .ok (low, witness) ∧
      computeMerkleRootNative samplePoseidon (imtLeafHashNative samplePoseidon witness.lowValue
        witness.lowNextIndex witness.lowNextValue) witness.path ≠ imt.root samplePoseidon := by
  obtain ⟨isWitness, isRoot⟩ := overfull_tree samplePoseidon
  refine ⟨_, _, _, treeOfThreeAndFive_reached samplePoseidon 1, isWitness, ?_⟩
  decide +kernel

end NeptuneIMT

end Nightfall.Nova
