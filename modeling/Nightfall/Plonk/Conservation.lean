import Nightfall.Noir.BabyJubJub
import Nightfall.Plonk.Plan

/-! Value conservation of the unified circuit. -/

namespace Nightfall.Plonk

variable (prims : Primitives) (unsalted : Fr254) (a : Assignment) (tree : Merkle.Tree Fr254)

def Consumed (i : Fin 4) : Prop :=
  slotCommitment prims a i ∈ tree.leaves ∧ slotNullifier prims a i ≠ 0 ∧
    (publicWords prims a)[11 + i.val]? = some (slotNullifier prims a i)

instance (prims : Primitives) (a : Assignment) (tree : Merkle.Tree Fr254) : DecidablePred (Consumed prims a tree) :=
  fun _ => inferInstanceAs (Decidable (_ ∧ _ ∧ _))

def consumedValue (slots : Finset (Fin 4)) : ℕ :=
  ∑ i ∈ slots with Consumed prims a tree i, (a.nullifiersValues i).val

/-- The hash behaves on what is hashed for slot `i`: no collision between its path
and the tree, and a nullifier that is not zero. -/
structure SlotHashing (prims : Primitives) (a : Assignment) (tree : Merkle.Tree Fr254) (i : Fin 4) : Prop where
  injective : Set.InjOn (fun pair : Fr254 × Fr254 => nodeHash prims pair.1 pair.2)
    (Merkle.pathPairs (nodeHash prims) (slotCommitment prims a i) (a.membershipProofs i).toList ∪
      tree.pairs (nodeHash prims))
  nonzero : slotNullifier prims a i ≠ 0

structure CommitmentTree (prims : Primitives) (a : Assignment) (tree : Merkle.Tree Fr254) : Prop where
  perfect : tree.Perfect depth
  rooted : tree.root (nodeHash prims) = a.root
  hashing : ∀ i, a.nullifiersSalts i ≠ 0 → SlotHashing prims a tree i

structure ValueConserved (prims : Primitives) (a : Assignment) (tree : Merkle.Tree Fr254) : Prop where
  value : (transferValue prims a).val + (a.commitmentsValues 0).val = consumedValue prims a tree {0, 1}
  fee : a.fee.val + (a.commitmentsValues 1).val = consumedValue prims a tree {2, 3}

def unsaltedValue (slots : Finset (Fin 4)) : Fr254 :=
  ∑ i ∈ slots with a.nullifiersSalts i = 0, a.nullifiersValues i

def saltedValue (slots : Finset (Fin 4)) : ℕ :=
  ∑ i ∈ slots with a.nullifiersSalts i ≠ 0, (a.nullifiersValues i).val

def Backed (slots : Finset (Fin 4)) : Prop :=
  unsaltedValue a slots = 0 ∧ saltedValue a slots < fr254Modulus

theorem slotValues_split (slots : Finset (Fin 4)) :
    ∑ i ∈ slots, a.nullifiersValues i = unsaltedValue a slots + (saltedValue a slots : Fr254) := by
  rw [unsaltedValue, saltedValue, Nat.cast_sum, ← Finset.sum_filter_add_sum_filter_not slots
    (fun i => a.nullifiersSalts i = 0)]
  congr 1
  exact Finset.sum_congr rfl fun i _ => (ZMod.natCast_zmod_val _).symm

theorem total_eq_saltedValue_iff {a : Assignment} {slots : Finset (Fin 4)} {x y : Fr254}
    (equal : x + y = ∑ i ∈ slots, a.nullifiersValues i) (hx : x.val < 2 ^ 96) (hy : y.val < 2 ^ 96) :
    x.val + y.val = saltedValue a slots ↔ Backed a slots := by
  have room : 2 ^ 97 < fr254Modulus := by decide
  have total : ((x.val + y.val : ℕ) : Fr254) = unsaltedValue a slots + (saltedValue a slots : Fr254) := by
    rw [Nat.cast_add, ZMod.natCast_zmod_val, ZMod.natCast_zmod_val, equal, slotValues_split]
  constructor
  · intro same
    rw [same] at total
    exact ⟨right_eq_add.mp total, by omega⟩
  · rintro ⟨zero, fits⟩
    rw [zero, zero_add] at total
    have vals := congrArg ZMod.val total
    rwa [ZMod.val_natCast_of_lt (by omega), ZMod.val_natCast_of_lt fits] at vals

section

variable {prims : Primitives} {a : Assignment} (satisfied : Satisfied prims a) (spends : a.nullifiersSalts 0 ≠ 0)
  {tree : Merkle.Tree Fr254} (committed : CommitmentTree prims a tree)

include satisfied spends committed

theorem consumed_iff_salted (i : Fin 4) : Consumed prims a tree i ↔ a.nullifiersSalts i ≠ 0 := by
  constructor
  · rintro ⟨_, nonzero, published⟩ dummy
    rw [publicWords_nullifier prims spends, nullifierOut_dummy prims dummy, Option.some.injEq] at published
    exact nonzero published.symm
  · intro salted
    refine ⟨?_, (committed.hashing i salted).nonzero, ?_⟩
    · apply Merkle.mem_leaves_of_computeRoot (nodeHash prims) depth tree _
        (a.membershipProofs i).toList committed.perfect (by simp) (committed.hashing i salted).injective
      rw [committed.rooted]
      exact satisfied.member i salted
    · rw [publicWords_nullifier prims spends, nullifierOut_salted prims salted]

theorem consumedValue_eq (slots : Finset (Fin 4)) : consumedValue prims a tree slots = saltedValue a slots := by
  rw [consumedValue, saltedValue]
  simp only [consumed_iff_salted satisfied spends committed]

theorem value_conserved_iff :
    (transferValue prims a).val + (a.commitmentsValues 0).val = consumedValue prims a tree {0, 1} ↔
      Backed a {0, 1} := by
  rw [consumedValue_eq satisfied spends committed]
  refine total_eq_saltedValue_iff ?_ satisfied.valueRange (satisfied.changeRange 0)
  rw [Finset.sum_pair (by decide)]
  exact satisfied.balance

theorem fee_conserved_iff :
    a.fee.val + (a.commitmentsValues 1).val = consumedValue prims a tree {2, 3} ↔ Backed a {2, 3} := by
  rw [consumedValue_eq satisfied spends committed]
  refine total_eq_saltedValue_iff ?_ satisfied.feeRange (satisfied.changeRange 1)
  rw [Finset.sum_pair (by decide)]
  exact satisfied.feeBalance

end

theorem valueConserved_iff (satisfied : Satisfied prims a) (spends : a.nullifiersSalts 0 ≠ 0)
    (committed : CommitmentTree prims a tree) : ValueConserved prims a tree ↔ Backed a {0, 1} ∧ Backed a {2, 3} := by
  rw [← value_conserved_iff satisfied spends committed, ← fee_conserved_iff satisfied spends committed]
  exact ⟨fun conserved => ⟨conserved.value, conserved.fee⟩, fun both => ⟨both.1, both.2⟩⟩

def toyPrims : Primitives where
  poseidonHash := fun inputs => inputs.sum + 1
  spongeHash := fun inputs => inputs.sum + 1
  shiftedSha256 := fun inputs => inputs.sum + 1
  eccAdd := Edwards.add Noir.coeffD
  scalarMul := fun scalar point => (Edwards.add Noir.coeffD point)^[scalar.val] neutral
  generator := Noir.generator

theorem toyPrims_neutralDouble : toyPrims.eccAdd neutral neutral = neutral :=
  Edwards.neutral_add _ _

theorem timesEight_eq {prims : Primitives} {p double quadruple octuple : Point}
    (first : prims.eccAdd p p = double) (second : prims.eccAdd double double = quadruple)
    (third : prims.eccAdd quadruple quadruple = octuple) : timesEight prims p = octuple := by
  simp only [timesEight, first, second, third]

theorem toyPrims_doubling (i : Fin 2) : SubgroupGate toyPrims (Noir.doublings (i.castLE (by decide))) := by
  rw [subgroupGate_iff]
  intro cleared
  have chain : timesEight toyPrims (Noir.doublings (i.castLE (by decide))) = Noir.doublings (i.addNat 3) := by
    fin_cases i
    · exact timesEight_eq (Noir.doublings_succ 0) (Noir.doublings_succ 1) (Noir.doublings_succ 2)
    · exact timesEight_eq (Noir.doublings_succ 1) (Noir.doublings_succ 2) (Noir.doublings_succ 3)
  rw [chain] at cleared
  revert i
  decide

def sampleRootKey : Fr254 := bjjOrder - privateKeyPrefix

theorem toyPrims_scalarMul_one (point : Point) : toyPrims.scalarMul 1 point = point := by
  exact Edwards.add_neutral _ _

theorem sampleRootKey_derived : derivedPublicKey toyPrims sampleRootKey = Noir.generator := by
  exact toyPrims_scalarMul_one _

def soleTree (note : Note) : Merkle.Tree Fr254 :=
  Merkle.Tree.uniform (.leaf (note.commitment toyPrims)) depth

def soleInput (note : Note) : Input where
  note := note
  secretPreimage := fun _ => 0
  path := ⟨(Merkle.uniformPath (nodeHash toyPrims)
    (.leaf (note.commitment toyPrims)) depth).toArray, by simp [Merkle.uniformPath]⟩

def sampleNote : Note := ⟨9, 9, 5, neutral, 1⟩

theorem neutral_spendable {input : Input} (key : Point) (owner : input.note.owner = neutral)
    (salt : input.note.salt = 1) (secret : input.secretPreimage = fun _ => 0) : Spendable toyPrims key input :=
  ⟨(subgroupGate_iff _ _).mpr fun _ => owner, Or.inl owner, fun _ _ => by simp [toyPrims, salt, secret]⟩

theorem sampleRootKey_subgroup : SubgroupGate toyPrims (derivedPublicKey toyPrims sampleRootKey) := by
  rw [sampleRootKey_derived]
  exact toyPrims_doubling 0

def sampleWithdrawal : Assignment :=
  (Plan.withdrawal sampleRootKey (soleInput sampleNote) unsalted Input.none).assignment toyPrims

theorem sampleWithdrawal_satisfied (range : (5 + unsalted).val < 2 ^ 96) :
    Satisfied toyPrims (sampleWithdrawal unsalted) := by
  apply Plan.satisfied
  exact Plan.withdrawal_valid_free toyPrims_neutralDouble sampleRootKey_subgroup
    (neutral_spendable _ rfl rfl rfl) range

theorem sampleWithdrawal_committed : CommitmentTree toyPrims (sampleWithdrawal unsalted) (soleTree sampleNote) := by
  refine ⟨Merkle.Tree.uniform_leaf_perfect _ _, (Merkle.computeRoot_uniformPath _ _ _).symm, ?_⟩
  intro i salted
  have first : i = 0 := by
    fin_cases i
    · rfl
    all_goals exact absurd rfl salted
  subst first
  constructor
  · refine (Noir.injOn_diagonal_of_sum fun a b => ?_).mono ?_
    · simp [nodeHash, toyPrims]
    · exact Merkle.uniform_leaf_pairs_subset _ _ depth
  · rw [sampleWithdrawal, Plan.slotNullifier_input]
    simp only [Plan.withdrawal]
    decide

theorem valueConserved_iff_sample : ValueConserved toyPrims (sampleWithdrawal 0) (soleTree sampleNote) := by
  apply (valueConserved_iff _ _ _ (sampleWithdrawal_satisfied 0 (by decide)) (by decide)
    (sampleWithdrawal_committed 0)).mpr
  exact ⟨⟨by decide, by decide⟩, ⟨by decide, by decide⟩⟩

/-- A withdrawal of 12 that spends a note of value 5: slot 1 adds 7 without a salt. -/
theorem unsalted_value_withdrawn :
    Satisfied toyPrims (sampleWithdrawal 7) ∧ (sampleWithdrawal 7).nullifiersSalts 0 ≠ 0 ∧
      CommitmentTree toyPrims (sampleWithdrawal 7) (soleTree sampleNote) ∧
      transferValue toyPrims (sampleWithdrawal 7) = 12 ∧
      consumedValue toyPrims (sampleWithdrawal 7) (soleTree sampleNote) {0, 1} = 5 ∧
      ¬ ValueConserved toyPrims (sampleWithdrawal 7) (soleTree sampleNote) := by
  have satisfied := sampleWithdrawal_satisfied 7 (by decide)
  have spends : (sampleWithdrawal 7).nullifiersSalts 0 ≠ 0 := by decide
  have committed := sampleWithdrawal_committed 7
  have withdrawn : transferValue toyPrims (sampleWithdrawal 7) = 12 := by
    decide
  have consumed : consumedValue toyPrims (sampleWithdrawal 7) (soleTree sampleNote) {0, 1} = 5 := by
    rw [consumedValue_eq satisfied spends committed]
    decide
  refine ⟨satisfied, spends, committed, withdrawn, consumed, ?_⟩
  intro conserved
  have total := conserved.value
  rw [withdrawn, consumed] at total
  revert total
  decide

end Nightfall.Plonk
