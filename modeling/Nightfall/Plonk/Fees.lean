import Nightfall.Contract.Attestation
import Nightfall.Plonk.Conservation

/-! Fee backing of the unified circuit. The identifier of the fee token is a private input that no
gate ties to the one the contract registers: a fee is paid out of whatever token the sender names. -/

namespace Nightfall.Plonk

def registeredFeeToken (env : Contract.Environment) : Fr254 := (env.computedFeeId.toNat : ℕ)

def feeCommitmentPreimage (a : Assignment) : List Fr254 :=
  [a.feeTokenId, a.feeTokenId, a.fee, 0, a.nfAddress, a.senderCommitmentSalts 1]

structure FeeBacking (prims : Primitives) (a : Assignment) (tree : Merkle.Tree Fr254) (feeToken : Fr254) : Prop where
  token : ∀ i ∈ ({2, 3} : Finset (Fin 4)), Consumed prims a tree i → slotTokenId prims a i = feeToken
  backing : a.fee.val + (a.commitmentsValues 1).val =
    ∑ i ∈ ({2, 3} : Finset (Fin 4)) with Consumed prims a tree i ∧ slotTokenId prims a i = feeToken,
      (a.nullifiersValues i).val
  shared : ∀ other, Satisfied prims other → publicWords prims other = publicWords prims a →
    Set.InjOn prims.poseidonHash {feeCommitmentPreimage other, feeCommitmentPreimage a} →
    ∀ i ∈ ({2, 3} : Finset (Fin 4)), slotTokenId prims other i = slotTokenId prims a i

theorem slotTokenId_fee (prims : Primitives) (a : Assignment) {i : Fin 4}
    (feeSlot : i ∈ ({2, 3} : Finset (Fin 4))) : slotTokenId prims a i = a.feeTokenId := by
  have later : ¬ i < 2 := by
    simp only [Finset.mem_insert, Finset.mem_singleton] at feeSlot
    omega
  rw [slotTokenId, if_neg later]

section

variable {prims : Primitives} {a : Assignment} (charged : (publicInputs prims a).fee ≠ 0)
include charged

theorem charged_spends : a.nullifiersSalts 0 ≠ 0 ∧ a.fee ≠ 0 := by
  constructor
  · intro deposit
    simp [publicInputs, isDeposit, isZero, deposit] at charged
  · intro free
    simp [publicInputs, free] at charged

theorem charged_commitment : (publicWords prims a)[8]? = some (prims.poseidonHash (feeCommitmentPreimage a)) := by
  obtain ⟨spends, fee⟩ := charged_spends charged
  rw [publicWords, show 8 = 6 + (2 : Fin 4).val by rfl, words_commitment]
  simp [publicInputs, isDeposit, isZero, spends, fee, verifyCommitments, feeCommitmentPreimage]

end

theorem feeTokenId_of_words {prims : Primitives} {a other : Assignment}
    (charged : (publicInputs prims a).fee ≠ 0) (same : publicWords prims other = publicWords prims a)
    (injective : Set.InjOn prims.poseidonHash {feeCommitmentPreimage other, feeCommitmentPreimage a}) :
    other.feeTokenId = a.feeTokenId := by
  have fees : (publicInputs prims other).fee = (publicInputs prims a).fee := by
    have words := congrArg (·[2]?) same
    exact Option.some.inj words
  have hashed := charged_commitment charged
  rw [← same, charged_commitment (fees ▸ charged), Option.some.injEq] at hashed
  have preimages := injective (by simp) (by simp) hashed
  exact (List.cons.inj preimages).1

theorem feeBacking_iff (prims : Primitives) (a : Assignment) (tree : Merkle.Tree Fr254)
    (env : Contract.Environment) (satisfied : Satisfied prims a)
    (charged : (publicInputs prims a).fee ≠ 0) (committed : CommitmentTree prims a tree) :
    FeeBacking prims a tree (registeredFeeToken env) ↔ a.feeTokenId = registeredFeeToken env ∧ Backed a {2, 3} := by
  obtain ⟨spends, fee⟩ := charged_spends charged
  have everySlot (same : a.feeTokenId = registeredFeeToken env) :
      (∑ i ∈ ({2, 3} : Finset (Fin 4)) with Consumed prims a tree i ∧
        slotTokenId prims a i = registeredFeeToken env, (a.nullifiersValues i).val) =
        consumedValue prims a tree {2, 3} := by
    apply Finset.sum_congr _ fun _ _ => rfl
    apply Finset.filter_congr
    intro i feeSlot
    rw [slotTokenId_fee prims a feeSlot, and_iff_left same]
  constructor
  · intro backed
    have paid : a.fee.val ≠ 0 := (ZMod.val_ne_zero _).mpr fee
    have nonempty : (∑ i ∈ ({2, 3} : Finset (Fin 4)) with Consumed prims a tree i ∧
        slotTokenId prims a i = registeredFeeToken env, (a.nullifiersValues i).val) ≠ 0 := by
      rw [← backed.backing]
      omega
    obtain ⟨i, member, _⟩ := Finset.exists_ne_zero_of_sum_ne_zero nonempty
    obtain ⟨feeSlot, _, token⟩ := Finset.mem_filter.mp member
    rw [slotTokenId_fee prims a feeSlot] at token
    refine ⟨token, (fee_conserved_iff satisfied spends committed).mp ?_⟩
    rw [backed.backing, everySlot token]
  · rintro ⟨token, backed⟩
    constructor
    · intro i feeSlot _
      rw [slotTokenId_fee prims a feeSlot, token]
    · rw [everySlot token]
      exact (fee_conserved_iff satisfied spends committed).mpr backed
    · intro other _ same injective i feeSlot
      rw [slotTokenId_fee prims other feeSlot, slotTokenId_fee prims a feeSlot]
      exact feeTokenId_of_words charged same injective

theorem toyPrims_root (tree : Merkle.Tree Fr254) (level : ℕ) :
    (Merkle.Tree.uniform tree level).root (nodeHash toyPrims) =
      2 ^ level * (tree.root (nodeHash toyPrims) + 1) - 1 := by
  induction level with
  | zero =>
    rw [Merkle.Tree.uniform]
    ring
  | succ level ih =>
    rw [Merkle.Tree.uniform, Merkle.Tree.root, ih]
    simp only [nodeHash, toyPrims, List.sum_cons, List.sum_nil]
    ring

theorem toyPrims_levels {tree : Merkle.Tree Fr254} (small : (tree.root (nodeHash toyPrims)).val < 2 ^ 32) :
    Set.InjOn (fun level => (Merkle.Tree.uniform tree level).root (nodeHash toyPrims)) {level | level ≤ 31} := by
  intro first firstBound second secondBound same
  have room : 2 ^ 64 < fr254Modulus := by decide
  have size : ∀ level ≤ 31, ((Merkle.Tree.uniform tree level).root (nodeHash toyPrims) + 1).val =
      2 ^ level * ((tree.root (nodeHash toyPrims)).val + 1) := by
    intro level bound
    have power : 2 ^ level ≤ 2 ^ 31 := Nat.pow_le_pow_right (by omega) bound
    have fits : 2 ^ level * ((tree.root (nodeHash toyPrims)).val + 1) ≤ 2 ^ 31 * 2 ^ 32 :=
      Nat.mul_le_mul power small
    rw [toyPrims_root, sub_add_cancel, ← ZMod.val_natCast_of_lt (n := fr254Modulus)
      (a := 2 ^ level * ((tree.root (nodeHash toyPrims)).val + 1)) (by omega)]
    push_cast
    rw [ZMod.natCast_zmod_val]
  have sizes : 2 ^ first * ((tree.root (nodeHash toyPrims)).val + 1) =
      2 ^ second * ((tree.root (nodeHash toyPrims)).val + 1) := by
    rw [← size first firstBound, ← size second secondBound]
    exact congrArg (fun root => (root + 1).val) same
  have powers := Nat.eq_of_mul_eq_mul_right (by omega) sizes
  exact Nat.pow_right_injective (by omega) powers

def pairTree (left right : Note) : Merkle.Tree Fr254 :=
  Merkle.Tree.uniform (.node (.leaf (left.commitment toyPrims)) (.leaf (right.commitment toyPrims))) 31

def pairInput (left right note : Note) (step : Merkle.PathElement Fr254) : Input where
  note := note
  secretPreimage := fun _ => 0
  path := ⟨(step :: Merkle.uniformPath (nodeHash toyPrims)
    (.node (.leaf (left.commitment toyPrims)) (.leaf (right.commitment toyPrims)))
    31).toArray, by simp [Merkle.uniformPath, depth]⟩

theorem pairTree_perfect (left right : Note) : (pairTree left right).Perfect depth := by
  have bottom : (Merkle.Tree.node (.leaf (left.commitment toyPrims))
      (.leaf (right.commitment toyPrims))).Perfect 1 := ⟨trivial, trivial⟩
  exact Merkle.Tree.uniform_perfect bottom 31

section

variable {left right note : Note} {step : Merkle.PathElement Fr254} (bottom : step.pair (note.commitment toyPrims) =
    (left.commitment toyPrims, right.commitment toyPrims))

include bottom

theorem pairInput_root : (pairInput left right note step).root toyPrims =
    (pairTree left right).root (nodeHash toyPrims) :=
  Merkle.computeRoot_pair (nodeHash toyPrims) 31 bottom

theorem pairInput_injective (small : (nodeHash toyPrims (left.commitment toyPrims)
      (right.commitment toyPrims)).val < 2 ^ 32) :
    Set.InjOn (fun pair : Fr254 × Fr254 => nodeHash toyPrims pair.1 pair.2)
      (Merkle.pathPairs (nodeHash toyPrims) (note.commitment toyPrims)
        (pairInput left right note step).path.toList ∪ (pairTree left right).pairs (nodeHash toyPrims)) := by
  have injective := Merkle.injOn_levelPairs (nodeHash toyPrims)
    (.leaf (left.commitment toyPrims)) (.leaf (right.commitment toyPrims)) 31
    (toyPrims_levels small)
  apply injective.mono
  apply Set.union_subset
  · exact Merkle.pathPairs_pair_subset (nodeHash toyPrims) 31 bottom
  · apply (Merkle.uniform_pairs_subset _ _ _).trans
    apply Set.union_subset _ Set.subset_union_right
    rw [Merkle.Tree.pairs, Merkle.Tree.pairs, Merkle.Tree.pairs, Set.union_empty, Set.union_empty]
    exact Set.subset_union_left

end

theorem registeredFeeToken_sample : registeredFeeToken Contract.sampleEnvironment = 59 := by
  decide +kernel

def feeNote (registered : Bool) : Note :=
  let token := if registered then 59 else 7
  ⟨token, token, 3, neutral, 1⟩

/-- A withdrawal of `sampleNote` whose fee of 3 is taken from the other note. -/
def sampleCharged (registered : Bool) : Assignment :=
  (Plan.withdrawal sampleRootKey (pairInput sampleNote (feeNote registered) sampleNote
      ⟨(feeNote registered).commitment toyPrims, false⟩) 0
    (pairInput sampleNote (feeNote registered) (feeNote registered)
      ⟨sampleNote.commitment toyPrims, true⟩)).assignment toyPrims

theorem sampleCharged_satisfied (registered : Bool) : Satisfied toyPrims (sampleCharged registered) := by
  apply Plan.satisfied
  apply Plan.withdrawal_valid toyPrims_neutralDouble sampleRootKey_subgroup
  · exact neutral_spendable _ rfl rfl rfl
  · simp only [pairInput]
    decide
  · exact neutral_spendable _ rfl rfl rfl
  · rfl
  · intro _
    rw [pairInput_root rfl, pairInput_root rfl]
  · simp only [pairInput, feeNote]
    decide
  · intro _
    revert registered
    decide

theorem sampleCharged_committed (registered : Bool) : CommitmentTree toyPrims (sampleCharged registered)
      (pairTree sampleNote (feeNote registered)) := by
  have small : (nodeHash toyPrims (sampleNote.commitment toyPrims)
      ((feeNote registered).commitment toyPrims)).val < 2 ^ 32 := by
    revert registered
    decide
  refine ⟨pairTree_perfect _ _, (pairInput_root rfl).symm, ?_⟩
  intro i salted
  fin_cases i
  · refine ⟨pairInput_injective rfl small, ?_⟩
    revert registered
    decide
  · exact absurd rfl salted
  · refine ⟨pairInput_injective rfl small, ?_⟩
    revert registered
    decide
  · exact absurd rfl salted

theorem sampleCharged_fee (registered : Bool) : (publicInputs toyPrims (sampleCharged registered)).fee = 3 := by
  revert registered
  decide

theorem feeBacking_iff_sample : FeeBacking toyPrims (sampleCharged true) (pairTree sampleNote (feeNote true))
      (registeredFeeToken Contract.sampleEnvironment) := by
  apply (feeBacking_iff _ _ _ Contract.sampleEnvironment (sampleCharged_satisfied true)
    (by rw [sampleCharged_fee]; decide) (sampleCharged_committed true)).mpr
  exact ⟨registeredFeeToken_sample.symm, by decide, by decide⟩

/-- A fee of 3 with no fee token behind it. -/
theorem fee_paid_in_other_token :
    Satisfied toyPrims (sampleCharged false) ∧ (publicInputs toyPrims (sampleCharged false)).fee = 3 ∧
      CommitmentTree toyPrims (sampleCharged false) (pairTree sampleNote (feeNote false)) ∧
      Consumed toyPrims (sampleCharged false) (pairTree sampleNote (feeNote false)) 2 ∧
      slotTokenId toyPrims (sampleCharged false) 2 ≠ registeredFeeToken Contract.sampleEnvironment ∧
      ¬ FeeBacking toyPrims (sampleCharged false) (pairTree sampleNote (feeNote false))
        (registeredFeeToken Contract.sampleEnvironment) := by
  have satisfied := sampleCharged_satisfied false
  have committed := sampleCharged_committed false
  have consumed := (consumed_iff_salted satisfied (by decide) committed 2).mpr (by decide)
  have different : slotTokenId toyPrims (sampleCharged false) 2 ≠
      registeredFeeToken Contract.sampleEnvironment := by
    rw [slotTokenId_fee _ _ (by decide), registeredFeeToken_sample]
    decide
  exact ⟨satisfied, sampleCharged_fee false, committed, consumed, different,
    fun backing => different (backing.token 2 (by decide) consumed)⟩

end Nightfall.Plonk
