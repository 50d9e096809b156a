import Nightfall.Noir.Accepted

/-! Value conservation of the UltraHonk statement. -/

namespace Nightfall.Noir

def Consumed (hashes : Hashes) (inp : StatementInputs) (zkpPubKey : Point)
    (tree : Merkle.Tree Fr254) (words : List Fr254) (i : Fin 4) : Prop :=
  slotCommitment hashes inp zkpPubKey i ∈ tree.leaves ∧ slotNullifier hashes inp zkpPubKey i ≠ 0 ∧
    words[11 + i.val]? = some (slotNullifier hashes inp zkpPubKey i)

instance (hashes : Hashes) (inp : StatementInputs) (zkpPubKey : Point) (tree : Merkle.Tree Fr254)
    (words : List Fr254) : DecidablePred (Consumed hashes inp zkpPubKey tree words) :=
  fun _ => inferInstanceAs (Decidable (_ ∧ _ ∧ _))

def consumedValue (hashes : Hashes) (inp : StatementInputs) (zkpPubKey : Point)
    (tree : Merkle.Tree Fr254) (words : List Fr254) (slots : Finset (Fin 4)) : ℕ :=
  ∑ i ∈ slots with Consumed hashes inp zkpPubKey tree words i, (inp.nullifiersValues i).val

/-- The hash behaves on what is hashed for slot `i`: no collision between its path
and the tree, and a nullifier that is not zero. -/
structure SlotHashing (hashes : Hashes) (inp : StatementInputs) (zkpPubKey : Point)
    (tree : Merkle.Tree Fr254) (i : Fin 4) : Prop where
  injective : Set.InjOn (fun pair : Fr254 × Fr254 => hashes.hash2 pair.1 pair.2)
    (Merkle.pathPairs hashes.hash2 (slotCommitment hashes inp zkpPubKey i)
      (inp.membershipProofs i).toList ∪ tree.pairs hashes.hash2)
  nonzero : slotNullifier hashes inp zkpPubKey i ≠ 0

structure ValueConserved (hashes : Hashes) (inp : StatementInputs) (zkpPubKey : Point)
    (tree : Merkle.Tree Fr254) (words : List Fr254) : Prop where
  value : (transferValue inp zkpPubKey).val + (inp.commitmentsValues 0).val =
    consumedValue hashes inp zkpPubKey tree words {0, 1}
  fee : inp.fee.val + (inp.commitmentsValues 1).val = consumedValue hashes inp zkpPubKey tree words {2, 3}

/-- Deposit mode: no nullifier, fee, root, swap or withdrawal data, and each
commitment beside the SHA-256 word of the same slot. -/
structure DepositOnly (hashes : Hashes) (inp : StatementInputs) (words : List Fr254) : Prop where
  fee : words[2]? = some 0
  root : words[4]? = some 0
  nullifiers : ∀ i : Fin 4, words[11 + i.val]? = some 0
  swap : words[22]? = some 0 ∧ words[24]? = some 0 ∧ words[26]? = some 0
  withdrawal : inp.withdrawAddress = 0 ∧ words[20]? = some 0
  slots : ∀ i : Fin 4, (words[6 + i.val]? = some 0 ∧ words[16 + i.val]? = some 0) ∨
    (words[6 + i.val]? = some (hashes.hash6 (inp.depositTokenIds i) (inp.depositSlotIds i)
        (inp.depositValues i) 0 1 (inp.depositSecretHashes i)) ∧
      words[16 + i.val]? = some (sha256Shift hashes [inp.depositTokenIds i, inp.depositSlotIds i,
        inp.depositValues i, inp.depositSecretHashes i]))

theorem words_nullifier (pub : PublicInputs) (i : Fin 4) : pub.words[11 + i.val]? = some (pub.nullifiers i) := by
  fin_cases i <;> rfl

theorem words_commitment (pub : PublicInputs) (i : Fin 4) : pub.words[6 + i.val]? = some (pub.commitments i) := by
  fin_cases i <;> rfl

theorem words_secret (pub : PublicInputs) (i : Fin 5) : pub.words[16 + i.val]? = some (pub.secrets i) := by
  fin_cases i <;> rfl

theorem val_add_eq_of_lt {a b c d : Fr254} (equal : a + b = c + d) (ha : a.val < 2 ^ 96) (hb : b.val < 2 ^ 96)
    (hc : c.val < 2 ^ 96) (hd : d.val < 2 ^ 96) : a.val + b.val = c.val + d.val := by
  have room : 2 ^ 97 < fr254Modulus := by decide
  have vals := congrArg ZMod.val equal
  rw [ZMod.val_add_of_lt (by omega), ZMod.val_add_of_lt (by omega)] at vals
  exact vals

section

variable {hashes : Hashes} {inp : StatementInputs} {zkpPubKey sharedSecret epk : Point}
  (accepted : Accepted hashes inp zkpPubKey sharedSecret epk) (spends : inp.nullifiersSalts 0 ≠ 0)
  {tree : Merkle.Tree Fr254} (perfect : tree.Perfect depth) (rooted : tree.root hashes.hash2 = inp.root)
  (hashing : ∀ i, inp.nullifiersSalts i ≠ 0 → SlotHashing hashes inp zkpPubKey tree i)

include accepted perfect rooted hashing

theorem slotCommitment_mem (i : Fin 4) (salted : inp.nullifiersSalts i ≠ 0) :
    slotCommitment hashes inp zkpPubKey i ∈ tree.leaves := by
  apply Merkle.mem_leaves_of_computeRoot hashes.hash2 depth tree _ (inp.membershipProofs i).toList
    perfect (by simp) (hashing i salted).injective
  rw [rooted]
  exact (accepted.slots i).member salted

include spends

theorem consumed_of_value (i : Fin 4) (valued : inp.nullifiersValues i ≠ 0) : Consumed hashes inp zkpPubKey tree
      (publicInputs hashes inp zkpPubKey sharedSecret epk).words i := by
  have salted : inp.nullifiersSalts i ≠ 0 := fun zero => valued ((accepted.slots i).dummy zero)
  refine ⟨slotCommitment_mem accepted perfect rooted hashing i salted, (hashing i salted).nonzero, ?_⟩
  rw [words_nullifier]
  simp [publicInputs, nullifierOut, isDeposit, cs, spends, salted]

theorem consumedValue_eq (i j : Fin 4) (different : i ≠ j) : consumedValue hashes inp zkpPubKey tree
        (publicInputs hashes inp zkpPubKey sharedSecret epk).words {i, j} =
      (inp.nullifiersValues i).val + (inp.nullifiersValues j).val := by
  rw [consumedValue, Finset.sum_filter_of_ne, Finset.sum_pair different]
  intro slot _ valued
  apply consumed_of_value accepted spends perfect rooted hashing
  intro zero
  exact valued (by rw [zero, ZMod.val_zero])

theorem accepted_valueConserved : ValueConserved hashes inp zkpPubKey tree
      (publicInputs hashes inp zkpPubKey sharedSecret epk).words := by
  have balance := accepted.balance
  constructor
  · rw [consumedValue_eq accepted spends perfect rooted hashing 0 1 (by decide)]
    exact val_add_eq_of_lt balance.value balance.valueRange (balance.changeRange 0)
      (balance.spentRange 0) (balance.spentRange 1)
  · rw [consumedValue_eq accepted spends perfect rooted hashing 2 3 (by decide)]
    exact val_add_eq_of_lt balance.fee balance.feeRange (balance.changeRange 1)
      (balance.spentRange 2) (balance.spentRange 3)

end

theorem accepted_depositOnly {hashes : Hashes} {inp : StatementInputs} {zkpPubKey sharedSecret epk : Point}
    (accepted : Accepted hashes inp zkpPubKey sharedSecret epk) (deposit : inp.nullifiersSalts 0 = 0) :
    DepositOnly hashes inp (publicInputs hashes inp zkpPubKey sharedSecret epk).words := by
  have mode : isDeposit inp = true := decide_eq_true deposit
  have noWithdrawal : inp.withdrawAddress = 0 := by
    have modes := accepted.modes
    simp only [modeChecks, mode, Revert.bind_eq_ok, Revert.require_eq_ok, if_true] at modes
    obtain ⟨_, _, _, _, _, _, _, _, _, _, _, withdraw, _⟩ := modes
    exact withdraw
  constructor
  · simp [PublicInputs.words, publicInputs, mode, cs]
  · simp [PublicInputs.words, publicInputs, mode, cs]
  · intro i
    rw [words_nullifier]
    simp [publicInputs, mode, cs]
  · simp [PublicInputs.words, publicInputs, mode, cs]
  · refine ⟨noWithdrawal, ?_⟩
    rw [show (20 : ℕ) = 16 + (4 : Fin 5).val by rfl, words_secret]
    simp [publicInputs, mode, cs, depositPublicData]
  · intro i
    rw [words_commitment, show 16 + i.val = 16 + i.castSucc.val by rfl, words_secret]
    by_cases real : depositFlag inp i = true
    · right
      simp [publicInputs, mode, cs, depositCommitment, depositPublicData, real]
    · left
      simp [publicInputs, mode, cs, depositCommitment, depositPublicData, real]

theorem statement_conserves_value (hashes : Hashes) (inp : StatementInputs) (words : List Fr254)
    (proved : proveStatement hashes inp = .ok words) :
    (inp.nullifiersSalts 0 ≠ 0 → ∃ zkpPubKey, mulByGenerator inp.zkpPriv = .ok zkpPubKey ∧
      words[2]? = some inp.fee ∧ words[4]? = some inp.root ∧
      ∀ tree : Merkle.Tree Fr254, tree.Perfect depth → tree.root hashes.hash2 = inp.root →
        (∀ i, inp.nullifiersSalts i ≠ 0 → SlotHashing hashes inp zkpPubKey tree i) →
        ValueConserved hashes inp zkpPubKey tree words) ∧
    (inp.nullifiersSalts 0 = 0 → DepositOnly hashes inp words) := by
  obtain ⟨zkpPubKey, sharedSecret, epk, accepted, rfl⟩ :=
    (proveStatement_eq_ok hashes inp words).mp proved
  constructor
  · intro spends
    have mode : isDeposit inp = false := decide_eq_false spends
    refine ⟨zkpPubKey, accepted.publicKey, ?_, ?_, ?_⟩
    · simp [PublicInputs.words, publicInputs, mode, cs]
    · simp [PublicInputs.words, publicInputs, mode, cs]
    · intro tree perfect rooted hashing
      exact accepted_valueConserved accepted spends perfect rooted hashing
  · intro deposit
    exact accepted_depositOnly accepted deposit

def additiveHashes : Hashes where
  hash2 := fun a b => a + b + 1
  hash3 := fun a b c => a + b + c + 1
  hash4 := fun a b c d => a + b + c + d + 1
  hash6 := fun a b c d e f => a + b + c + d + e + f + 1
  permutation := id
  sha256 := fun _ => List.replicate 32 0

theorem additiveHashes_reduction : KeyReduction additiveHashes (-privateKeyPrefix) 1 0 :=
  ⟨by decide, by decide, by decide, by decide, by decide⟩

def sampleNote : Note := ⟨9, 9, 5, identity, 1⟩

def sampleTree : Merkle.Tree Fr254 :=
  Merkle.Tree.uniform (.leaf (sampleNote.commitment additiveHashes)) depth

def samplePath : Vector (Merkle.PathElement Fr254) depth :=
  ⟨(Merkle.uniformPath additiveHashes.hash2 (.leaf (sampleNote.commitment additiveHashes)) depth).toArray,
    by simp [Merkle.uniformPath]⟩

def sampleWithdrawal : StatementInputs :=
  withdrawal additiveHashes (-privateKeyPrefix) 1 0 generator sampleNote (fun _ => 0) samplePath

theorem sampleWithdrawal_proved : proveStatement additiveHashes sampleWithdrawal =
      .ok (publicInputs additiveHashes sampleWithdrawal generator identity identity).words :=
  (proveStatement_eq_ok _ _ _).mpr ⟨generator, identity, identity,
    withdrawal_accepted additiveHashes_reduction mulByGenerator_one (by decide) (by decide)
      (fun _ => by decide) (Or.inl (by decide)), rfl⟩

theorem sampleWithdrawal_hashing (i : Fin 4) (salted : sampleWithdrawal.nullifiersSalts i ≠ 0) :
    SlotHashing additiveHashes sampleWithdrawal generator sampleTree i := by
  have first : i = 0 := by
    fin_cases i
    · rfl
    all_goals exact absurd rfl salted
  subst first
  refine ⟨(injOn_diagonal_of_sum fun _ _ => rfl).mono ?_, by decide⟩
  exact Merkle.uniform_leaf_pairs_subset _ (sampleNote.commitment additiveHashes) depth

theorem statement_conserves_value_sample : ∃ words, proveStatement additiveHashes sampleWithdrawal = .ok words ∧
      ValueConserved additiveHashes sampleWithdrawal generator sampleTree words := by
  obtain ⟨spending, _⟩ := statement_conserves_value _ _ _ sampleWithdrawal_proved
  obtain ⟨zkpPubKey, derived, _, _, conserved⟩ := spending (by decide)
  have same : generator = zkpPubKey := Except.ok.inj (mulByGenerator_one.symm.trans derived)
  subst same
  exact ⟨_, sampleWithdrawal_proved, conserved sampleTree (Merkle.Tree.uniform_leaf_perfect _ _)
    (Merkle.computeRoot_uniformPath _ _ _).symm sampleWithdrawal_hashing⟩

end Nightfall.Noir
