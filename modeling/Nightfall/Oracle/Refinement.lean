import Nightfall.Noir.Delivery
import Nightfall.Noir.Spending
import Nightfall.Oracle.Statement

/-! The Noir statement against its Rust reference. The two share their inputs up to
the witnessed reduction of the private key, which the reference computes; they check
the same conditions in another order, and build the same words. -/

namespace Nightfall.Oracle

open Revert List

structure Agrees (hashes : Noir.Hashes) (lib : Libraries) : Prop where
  hash2 : ∀ a b, lib.poseidon [a, b] = hashes.hash2 a b
  hash3 : ∀ a b c, lib.poseidon [a, b, c] = hashes.hash3 a b c
  hash4 : ∀ a b c d, lib.poseidon [a, b, c, d] = hashes.hash4 a b c d
  hash6 : ∀ a b c d e f, lib.poseidon [a, b, c, d, e, f] = hashes.hash6 a b c d e f
  sponge : ∀ inputs, lib.sponge inputs = Noir.sponge hashes inputs
  sha256 : ∀ bytes, lib.sha256 bytes = hashes.sha256 bytes
  digestLength : ∀ bytes, (hashes.sha256 bytes).length = 32
  generator : lib.generator = Noir.generator
  mul : ∀ (p : Noir.babyJubJub.Group) (scalar : BjjFr), lib.mul p.point scalar = (scalar.val • p).point
  isOnCurve : ∀ p, lib.isOnCurve p = true ↔ Noir.isOnCurve p
  isInCorrectSubgroup : ∀ p : Noir.babyJubJub.Group,
    lib.isInCorrectSubgroup p.point = true ↔ Noir.subgroupOrder • p = 0

structure DeepInputs where
  inputs : StatementInputs
  depths : ∀ i, (inputs.membershipProofs i).toArray.size = Noir.depth

def noirInputs (deep : DeepInputs) (zkpPriv lambda : Fr254) : Noir.StatementInputs :=
  { deep.inputs with
    zkpPriv := zkpPriv
    zkpPrivLambda := lambda
    ephemeralKey := (deep.inputs.ephemeralKey.val : ℕ)
    membershipProofs := fun i => ⟨(deep.inputs.membershipProofs i).toArray, deep.depths i⟩ }

theorem pointsEqual_eq (p q : Point) : pointsEqual p q = decide (p = q) := by
  simp [pointsEqual, Edwards.Point.ext_iff]

theorem isNeutral_eq (p : Point) : isNeutral p = Noir.isNeutral p := by
  rw [isNeutral, Noir.isNeutral, Bool.decide_and]

theorem privateKeyPrefix_eq : privateKeyPrefix = Noir.privateKeyPrefix := by decide

theorem nullifierPrefix_eq : nullifierPrefix = Noir.nullifierPrefix := by decide

theorem depositNullifierDomain_eq : depositNullifierDomain = Noir.depositNullifierDomain := by decide

theorem domainSharedSalt_eq : domainSharedSalt = Noir.domainSharedSalt := by decide

theorem domainKem_eq : domainKem = Noir.domainKem := by decide

theorem domainDem_eq : domainDem = Noir.domainDem := by decide

theorem swapDomain_eq : swapDomain = Noir.swapDomain := by decide

theorem publicInputsFraming_eq : publicInputsFraming = Noir.publicInputsFraming := by decide

section

variable {deep : DeepInputs} {zkpPriv lambda : Fr254} {zkpPubKey : Point}

theorem isPartyA_eq : Noir.isPartyA (noirInputs deep zkpPriv lambda) zkpPubKey = isPartyA deep.inputs zkpPubKey :=
  (pointsEqual_eq _ _).symm

theorem isPartyB_eq : Noir.isPartyB (noirInputs deep zkpPriv lambda) zkpPubKey = isPartyB deep.inputs zkpPubKey :=
  (pointsEqual_eq _ _).symm

theorem isPartyBSwap_eq :
    Noir.isPartyBSwap (noirInputs deep zkpPriv lambda) zkpPubKey = isPartyBSwap deep.inputs zkpPubKey := by
  rw [Noir.isPartyBSwap, isPartyB_eq]
  rfl

theorem transferValue_eq :
    Noir.transferValue (noirInputs deep zkpPriv lambda) zkpPubKey = transferValue deep.inputs zkpPubKey := by
  rw [Noir.transferValue, isPartyBSwap_eq]
  rfl

theorem nfTokenId_eq :
    Noir.nfTokenId (noirInputs deep zkpPriv lambda) zkpPubKey = nfTokenId deep.inputs zkpPubKey := by
  rw [Noir.nfTokenId, isPartyBSwap_eq]
  rfl

theorem recipientPublicKey_eq :
    Noir.recipientPublicKey (noirInputs deep zkpPriv lambda) zkpPubKey = recipientPublicKey deep.inputs zkpPubKey := by
  rw [Noir.recipientPublicKey, isPartyBSwap_eq]
  rfl

theorem scalar_eq_zero (scalar : BjjFr) : ((scalar.val : ℕ) : Fr254) = 0 ↔ scalar = 0 := by
  have bound : scalar.val < fr254Modulus := (ZMod.val_lt scalar).trans (by decide)
  rw [← ZMod.val_eq_zero, ZMod.val_natCast_of_lt bound, ZMod.val_eq_zero]

theorem scalar_val (scalar : BjjFr) : ((scalar.val : ℕ) : Fr254).val = scalar.val :=
  ZMod.val_natCast_of_lt ((ZMod.val_lt scalar).trans (by decide))

theorem scalar_lt (scalar : BjjFr) : ((scalar.val : ℕ) : Fr254).val < Noir.subgroupOrder := by
  rw [scalar_val]
  exact ZMod.val_lt scalar

theorem exclusivityChecks_eq_ok (inp : StatementInputs) : exclusivityChecks inp = .ok () ↔ (isDeposit inp = true →
        (∀ i, inp.nullifiersSalts i = 0) ∧ inp.withdrawAddress = 0 ∧ inp.swapNonce = 0) ∧
      (isDeposit inp = false → ∀ i, inp.depositTokenIds i = 0 ∧ inp.depositSlotIds i = 0 ∧
        inp.depositValues i = 0 ∧ inp.depositSecretHashes i = 0) := by
  cases mode : isDeposit inp with
  | false => simp [exclusivityChecks, mode]
  | true =>
    have first : inp.nullifiersSalts 0 = 0 := of_decide_eq_true mode
    simp [exclusivityChecks, mode, Fin.forall_fin_succ, first, and_assoc]

theorem modesChecked_iff : Noir.ModesChecked (noirInputs deep zkpPriv lambda) zkpPubKey ↔
    roleChecks deep.inputs zkpPubKey = .ok () ∧ exclusivityChecks deep.inputs = .ok () := by
  have ephemeral : (noirInputs deep zkpPriv lambda).ephemeralKey ≠ 0 ↔
      deep.inputs.ephemeralKey ≠ 0 := not_congr (scalar_eq_zero _)
  rw [exclusivityChecks_eq_ok, roleChecks]
  simp only [bind_eq_ok, require_eq_ok, exists_and_left, exists_const, ← ephemeral, ← @isPartyA_eq deep zkpPriv lambda]
  constructor
  · intro checked
    exact ⟨⟨checked.ephemeral, checked.tokenB, checked.valueB, checked.author⟩, checked.deposit, checked.noDeposit⟩
  · rintro ⟨⟨used, tokenB, valueB, author⟩, deposit, noDeposit⟩
    exact ⟨used, tokenB, valueB, author, deposit, noDeposit⟩

theorem balanced_iff : Noir.Balanced (noirInputs deep zkpPriv lambda) zkpPubKey ↔
    balanceChecks deep.inputs zkpPubKey = .ok () := by
  rw [← Noir.balanceChecks_eq_ok _ _ (), Noir.balanceChecks, balanceChecks, transferValue_eq]
  simp only [Noir.assertMaxBitSize, assertMaxBits, bind_eq_ok, require_eq_ok, forM_eq_ok]
  rfl

theorem ownership_iff : (∀ i, (Noir.isNeutral ((noirInputs deep zkpPriv lambda).publicKeys i) ||
        decide ((noirInputs deep zkpPriv lambda).nullifiersValues i = 0)) = true ∨
      zkpPubKey = (noirInputs deep zkpPriv lambda).publicKeys i) ↔
    ownershipChecks deep.inputs zkpPubKey = .ok () := by
  simp only [ownershipChecks, forM_eq_ok, require_eq_ok, mem_finRange, true_imp_iff,
    isNeutral_eq, pointsEqual_eq, decide_eq_true_eq]
  rfl

theorem swapChecked_iff : Noir.SwapChecked (noirInputs deep zkpPriv lambda) zkpPubKey ↔
    swapChecks deep.inputs zkpPubKey = .ok () := by
  rw [← Noir.swapChecks_eq_ok _ _ (), Noir.swapChecks, swapChecks, isPartyA_eq, isPartyB_eq]
  simp only [Noir.assertMaxBitSize, assertMaxBits, bind_eq_ok, require_eq_ok, isNeutral_eq,
    pointsEqual_eq, decide_eq_false_iff_not]
  rfl

end

section

variable {hashes : Noir.Hashes} {lib : Libraries} (agrees : Agrees hashes lib) {deep : DeepInputs}
  {zkpPriv lambda : Fr254} {zkpPubKey : Point}

include agrees

theorem sharedSalt_eq (sharedSecret : Point) : sharedSalt lib sharedSecret = Noir.sharedSalt hashes sharedSecret := by
  rw [sharedSalt, agrees.hash3, domainSharedSalt_eq]
  rfl

theorem verifyCommitments_eq (salt : Fr254) :
    Noir.verifyCommitments hashes (noirInputs deep zkpPriv lambda) zkpPubKey salt =
      verifyCommitments lib deep.inputs zkpPubKey salt := by
  simp only [verifyCommitments, agrees.hash6, Noir.verifyCommitments, transferValue_eq, nfTokenId_eq,
    recipientPublicKey_eq]
  rfl

theorem slotCommitment_eq (i : Fin 4) : Noir.slotCommitment hashes (noirInputs deep zkpPriv lambda) zkpPubKey i =
    slotCommitment lib deep.inputs zkpPubKey i := by
  simp only [Noir.slotCommitment, Noir.slotTokenId, ← agrees.hash6, nfTokenId_eq]
  rfl

theorem nullifierOut_eq : Noir.nullifierOut hashes (noirInputs deep zkpPriv lambda) zkpPubKey =
    nullifierOut lib deep.inputs zkpPubKey := by
  funext i
  simp only [nullifierOut, slotNullifier, nullifierKey, agrees.hash2, agrees.hash4, isNeutral_eq,
    ← @slotCommitment_eq _ _ agrees deep zkpPriv lambda, nullifierPrefix_eq, depositNullifierDomain_eq]
  rfl

theorem slotChecked_iff (i : Fin 4) : Noir.SlotChecked hashes (noirInputs deep zkpPriv lambda) zkpPubKey i ↔
      verifyNullifier lib deep.inputs zkpPubKey i = .ok () := by
  have node : nodeHash lib = hashes.hash2 := by
    funext left right
    exact agrees.hash2 left right
  rw [← Noir.nullifierChecks_eq_ok _ _ _ _ (), Noir.nullifierChecks, verifyNullifier]
  simp only [bind_eq_ok, require_eq_ok, agrees.hash3, isNeutral_eq, node, slotCommitment_eq agrees]
  by_cases zero : deep.inputs.nullifiersSalts i = 0
  · simp [noirInputs, Noir.cs, cs, zero]
  · simp [noirInputs, Noir.cs, cs, zero]

theorem verifyEncryption_eq (sharedSecret epk : Point) :
    Noir.verifyEncryption hashes (noirInputs deep zkpPriv lambda) zkpPubKey sharedSecret epk =
      verifyEncryption lib deep.inputs zkpPubKey sharedSecret epk := by
  simp only [verifyEncryption, demEncrypt, demEncryptField, deriveEncKey, agrees.hash3, domainKem_eq,
    domainDem_eq, Noir.verifyEncryption, transferValue_eq, nfTokenId_eq, mapIdx_cons, mapIdx_nil, getD_cons_zero,
    getD_cons_succ, Nat.cast_zero, Nat.cast_one, Nat.zero_add, Nat.reduceAdd, Nat.cast_ofNat]
  rfl

theorem computedSwapLink_eq :
    Noir.swapLink hashes (noirInputs deep zkpPriv lambda) = computedSwapLink lib deep.inputs := by
  rw [computedSwapLink, agrees.sponge, swapDomain_eq]
  rfl

omit agrees in
theorem cast_beNat (bytes : List UInt8) : ((Bytes.beNat bytes : ℕ) : Fr254) =
    bytes.foldl (fun top byte => top * 256 + (byte.toNat : Fr254)) 0 := by
  induction bytes using reverseRecOn with
  | nil => rfl
  | append_singleton front last ih =>
    rw [Bytes.beNat_concat, foldl_append, ← ih]
    push_cast
    rfl

theorem sha256Shift_eq (inputs : List Fr254) : sha256Shift lib inputs = Noir.sha256Shift hashes inputs := by
  simp only [sha256Shift, Noir.sha256Shift, agrees.sha256]
  have length := agrees.digestLength (inputs.flatMap fun input => Bytes.beBytes 32 input.val)
  generalize hashes.sha256 _ = digest at length
  have split : digest = digest.take 31 ++ [digest.getD 31 0] := by
    have last : 31 < digest.length := by omega
    have entry : digest.getD 31 0 = digest[31] := by
      simp [last]
    rw [entry, take_append_getElem last, take_of_length_le (by omega)]
  have shifted : Bytes.beNat digest / 16 = Bytes.beNat (digest.take 31) * 16 + (digest.getD 31 0).toNat / 16 := by
    conv_lhs => rw [split, Bytes.beNat_concat]
    omega
  rw [shifted, ← cast_beNat]
  push_cast
  rfl

theorem publicInputs_eq (scalar : BjjFr) (digest quotient : Fr254) {sharedSecret epk : Point}
    (secret : lib.mul (recipientPublicKey deep.inputs (mulByGenerator lib scalar))
      deep.inputs.ephemeralKey = sharedSecret)
    (ephemeral : mulByGenerator lib deep.inputs.ephemeralKey = epk) :
    (trace lib deep.inputs scalar digest quotient).publicInputs =
      (Noir.publicInputs hashes (noirInputs deep zkpPriv lambda) (mulByGenerator lib scalar)
        sharedSecret epk).words := by
  have depositCommitments : depositCommitment lib deep.inputs =
      Noir.depositCommitment hashes (noirInputs deep zkpPriv lambda) := by
    funext i
    simp only [depositCommitment, agrees.hash6]
    rfl
  have depositData : depositPublicData lib deep.inputs =
      Noir.depositPublicData hashes (noirInputs deep zkpPriv lambda) := by
    funext i
    simp only [depositPublicData, sha256Shift_eq agrees]
    rfl
  simp only [trace, secret, ephemeral, sharedSalt_eq agrees, Noir.publicInputs, verifyCommitments_eq agrees,
    nullifierOut_eq agrees, verifyEncryption_eq agrees, computedSwapLink_eq agrees, isPartyA_eq,
    publicInputsFraming_eq, depositCommitments, depositData]
  rfl

end

section

variable {hashes : Noir.Hashes} {lib : Libraries} (agrees : Agrees hashes lib)

include agrees

theorem mulByGenerator_eq (scalar : BjjFr) :
    Noir.mulByGenerator ((scalar.val : ℕ) : Fr254) = .ok (mulByGenerator lib scalar) ∧
      Noir.isOnCurve (mulByGenerator lib scalar) := by
  have multiple : mulByGenerator lib scalar = (scalar.val • Noir.generatorPoint).point := by
    rw [mulByGenerator, agrees.generator]
    exact agrees.mul Noir.generatorPoint scalar
  rw [Noir.mulByGenerator_eq _ (scalar_lt scalar).le, scalar_val, multiple]
  exact ⟨rfl, Edwards.Curve.Group.onCurve _⟩

theorem scalarMul_eq (scalar : BjjFr) {p : Point} (member : Noir.assertInSubgroup p = .ok ()) :
    Noir.scalarMul ((scalar.val : ℕ) : Fr254) p = .ok (lib.mul p scalar) ∧ Noir.isOnCurve (lib.mul p scalar) := by
  obtain ⟨point, rfl, _⟩ := (Noir.assertInSubgroup_eq_ok _ _).mp member
  rw [Noir.scalarMul_eq _ (scalar_lt scalar).le, scalar_val, agrees.mul]
  exact ⟨rfl, Edwards.Curve.Group.onCurve _⟩

theorem assertInSubgroup_iff (p : Point) : assertInSubgroup lib p = .ok () ↔ Noir.assertInSubgroup p = .ok () := by
  rw [Noir.assertInSubgroup_eq_ok]
  simp only [assertInSubgroup, bind_eq_ok, require_eq_ok, exists_and_left, exists_const, agrees.isOnCurve]
  constructor
  · rintro ⟨onCurve, member⟩
    exact ⟨⟨p, onCurve⟩, rfl, (agrees.isInCorrectSubgroup ⟨p, onCurve⟩).mp member⟩
  · rintro ⟨point, rfl, member⟩
    exact ⟨point.onCurve, (agrees.isInCorrectSubgroup point).mpr member⟩

theorem zkpPrivateKeyWitness_eq (rootKey : Fr254) :
    zkpPrivateKeyWitness lib rootKey = .ok (((hashes.hash2 rootKey Noir.privateKeyPrefix).val : ℕ),
        hashes.hash2 rootKey Noir.privateKeyPrefix,
        (((hashes.hash2 rootKey Noir.privateKeyPrefix).val / Noir.subgroupOrder : ℕ) : Fr254)) := by
  rw [zkpPrivateKeyWitness, agrees.hash2, privateKeyPrefix_eq]
  generalize hashes.hash2 rootKey Noir.privateKeyPrefix = h
  have bound := ZMod.val_lt h
  have sizes : fr254Modulus < 8 * Noir.subgroupOrder ∧ 0 < Noir.subgroupOrder := by decide
  have scalar : ((h.val : ℕ) : BjjFr).val = h.val % Noir.subgroupOrder := ZMod.val_natCast _ _
  have division := Nat.mod_add_div h.val Noir.subgroupOrder
  have quotient : (h.val - h.val % Noir.subgroupOrder) / Noir.subgroupOrder = h.val / Noir.subgroupOrder := by
    rw [show h.val - h.val % Noir.subgroupOrder = Noir.subgroupOrder * (h.val / Noir.subgroupOrder) by
      omega, Nat.mul_div_cancel_left _ sizes.2]
  have small : h.val / Noir.subgroupOrder < 8 := by
    rw [Nat.div_lt_iff_lt_mul sizes.2]
    omega
  have noWrap : h.val % Noir.subgroupOrder + h.val / Noir.subgroupOrder * Noir.subgroupOrder < fr254Modulus := by
    rw [Nat.mul_comm, division]
    exact bound
  simp only [scalar, quotient, require_pos small, require_pos noWrap]
  rfl

omit agrees in
theorem verifyDuplicates_eq_ok (nullifiers commitments : Fin 4 → Fr254) :
    verifyDuplicates nullifiers commitments = .ok () ↔
      Noir.NoDuplicates nullifiers ∧ Noir.NoDuplicates commitments := by
  simp only [verifyDuplicates, forM_eq_ok, require_eq_ok, mem_finRange, true_imp_iff,
    forall_mem_cons, not_mem_nil, false_imp_iff, implies_true, and_true, Noir.NoDuplicates]

variable {deep : DeepInputs} {scalar : BjjFr} {lambda : Fr254}

theorem Accepted.passed {zkpPubKey sharedSecret epk : Point}
    (accepted : Noir.Accepted hashes (noirInputs deep (scalar.val : ℕ) lambda) zkpPubKey sharedSecret epk) :
    Passed lib deep.inputs scalar ∧ zkpPubKey = mulByGenerator lib scalar ∧
      lib.mul (recipientPublicKey deep.inputs (mulByGenerator lib scalar)) deep.inputs.ephemeralKey = sharedSecret ∧
      mulByGenerator lib deep.inputs.ephemeralKey = epk := by
  obtain rfl : mulByGenerator lib scalar = zkpPubKey :=
    Except.ok.inj ((mulByGenerator_eq agrees scalar).1.symm.trans accepted.publicKey)
  have ephemeral : mulByGenerator lib deep.inputs.ephemeralKey = epk :=
    Except.ok.inj ((mulByGenerator_eq agrees _).1.symm.trans accepted.ephemeral)
  have recipient := accepted.recipient
  have isSecret := accepted.secret
  rw [recipientPublicKey_eq] at recipient isSecret
  have secret := Except.ok.inj ((scalarMul_eq agrees deep.inputs.ephemeralKey recipient).1.symm.trans isSecret)
  obtain ⟨roles, exclusivity⟩ :=
    modesChecked_iff.mp ((Noir.modeChecks_eq_ok _ _ _).mp accepted.modes)
  refine ⟨?_, rfl, secret, ephemeral⟩
  constructor
  · exact accepted.withdrawRange
  · exact accepted.addressRange
  · exact fun zero => accepted.reduction.nonzero ((scalar_eq_zero scalar).mpr zero)
  · exact roles
  · exact balanced_iff.mp accepted.balance
  · exact exclusivity
  · exact ownership_iff.mp accepted.ownership
  · exact (assertInSubgroup_iff agrees _).mpr recipient
  · exact fun i => (slotChecked_iff agrees i).mp (accepted.slots i)
  · have duplicates := (Noir.verifyDuplicates_eq_ok _ _ _).mp accepted.duplicates
    rw [nullifierOut_eq agrees, verifyCommitments_eq agrees] at duplicates
    rwa [secret, verifyDuplicates_eq_ok, sharedSalt_eq agrees]
  · have withdrawal := accepted.withdrawal
    rwa [recipientPublicKey_eq, ← isNeutral_eq] at withdrawal
  · exact swapChecked_iff.mp ((Noir.swapChecks_eq_ok _ _ _).mp accepted.swap)

theorem Passed.accepted (passed : Passed lib deep.inputs scalar)
    (reduction : Noir.KeyReduction hashes deep.inputs.rootKey (scalar.val : ℕ) lambda) :
    Noir.Accepted hashes (noirInputs deep (scalar.val : ℕ) lambda) (mulByGenerator lib scalar)
      (lib.mul (recipientPublicKey deep.inputs (mulByGenerator lib scalar)) deep.inputs.ephemeralKey)
      (mulByGenerator lib deep.inputs.ephemeralKey) := by
  have recipient := (assertInSubgroup_iff agrees _).mp passed.recipient
  obtain ⟨secret, secretOnCurve⟩ := scalarMul_eq agrees deep.inputs.ephemeralKey recipient
  obtain ⟨ephemeral, epkOnCurve⟩ := mulByGenerator_eq agrees deep.inputs.ephemeralKey
  constructor
  · exact passed.withdrawRange
  · exact passed.addressRange
  · exact reduction
  · exact scalar_lt _
  · exact (mulByGenerator_eq agrees scalar).1
  · exact (Noir.modeChecks_eq_ok _ _ _).mpr (modesChecked_iff.mpr ⟨passed.roles, passed.exclusivity⟩)
  · exact balanced_iff.mpr passed.balance
  · exact ownership_iff.mpr passed.ownership
  · rwa [recipientPublicKey_eq]
  · rw [recipientPublicKey_eq]
    exact secret
  · exact ephemeral
  · exact secretOnCurve
  · exact epkOnCurve
  · exact fun i => (slotChecked_iff agrees i).mpr (passed.nullifiers i)
  · have duplicates := passed.duplicates
    rw [verifyDuplicates_eq_ok, sharedSalt_eq agrees] at duplicates
    rwa [Noir.verifyDuplicates_eq_ok, nullifierOut_eq agrees, verifyCommitments_eq agrees]
  · rw [recipientPublicKey_eq, ← isNeutral_eq]
    exact passed.withdrawal
  · exact (Noir.swapChecks_eq_ok _ _ _).mpr (swapChecked_iff.mpr passed.swap)

end

theorem keyReduction_witness {hashes : Noir.Hashes} {lib : Libraries} (agrees : Agrees hashes lib)
    {rootKey : Fr254} {scalar : BjjFr} {digest lambda zkpPriv quotient : Fr254}
    (witnessed : zkpPrivateKeyWitness lib rootKey = .ok (scalar, digest, lambda)) :
    Noir.KeyReduction hashes rootKey zkpPriv quotient ↔
      scalar ≠ 0 ∧ zkpPriv = (scalar.val : ℕ) ∧ quotient = lambda := by
  obtain ⟨rfl, -, rfl⟩ : ((hashes.hash2 rootKey Noir.privateKeyPrefix).val : ℕ) = scalar ∧
      hashes.hash2 rootKey Noir.privateKeyPrefix = digest ∧
      (((hashes.hash2 rootKey Noir.privateKeyPrefix).val / Noir.subgroupOrder : ℕ) : Fr254) = lambda := by
    simpa using (zkpPrivateKeyWitness_eq agrees rootKey).symm.trans witnessed
  have key : ((((hashes.hash2 rootKey Noir.privateKeyPrefix).val : ℕ) : BjjFr).val : Fr254) =
      Noir.zkpPrivateKey hashes rootKey := by
    rfl
  have usable : Noir.zkpPrivateKey hashes rootKey ≠ 0 ↔
      (((hashes.hash2 rootKey Noir.privateKeyPrefix).val : ℕ) : BjjFr) ≠ 0 := by
    rw [← key, ne_eq, scalar_eq_zero]
  rw [key, ← usable]
  constructor
  · intro reduction
    have unique := Noir.keyReduction_unique reduction
    have nonzero : Noir.zkpPrivateKey hashes rootKey ≠ 0 := unique ▸ reduction.nonzero
    have order : (Noir.subgroupOrder : Fr254) ≠ 0 := by decide
    refine ⟨nonzero, unique, mul_right_cancel₀ order ?_⟩
    have canonical := (Noir.keyReduction_exists nonzero).digest.trans reduction.digest.symm
    rw [unique] at canonical
    exact (add_left_cancel canonical).symm
  · rintro ⟨nonzero, rfl, rfl⟩
    exact Noir.keyReduction_exists nonzero

/-- With the reference's reduction the two accept together and give the same words; with
any other the statement aborts. -/
theorem statement_matches_oracle (hashes : Noir.Hashes) (lib : Libraries)
    (agrees : Agrees hashes lib) (deep : DeepInputs) :
    ∃ scalar digest lambda, zkpPrivateKeyWitness lib deep.inputs.rootKey = .ok (scalar, digest, lambda) ∧
      (∀ words, Noir.proveStatement hashes (noirInputs deep (scalar.val : ℕ) lambda) = .ok words ↔
        ∃ trace, computeStatement lib deep.inputs = .ok trace ∧ trace.publicInputs = words) ∧
      ∀ zkpPriv quotient, (zkpPriv, quotient) ≠ (((scalar.val : ℕ) : Fr254), lambda) →
        ∃ message, Noir.proveStatement hashes (noirInputs deep zkpPriv quotient) = .error message := by
  have witnessed := zkpPrivateKeyWitness_eq agrees deep.inputs.rootKey
  refine ⟨_, _, _, witnessed, ?_, ?_⟩
  · intro words
    rw [Noir.proveStatement_eq_ok]
    simp only [computeStatement_eq_ok witnessed]
    constructor
    · rintro ⟨zkpPubKey, sharedSecret, epk, accepted, rfl⟩
      obtain ⟨passed, rfl, secret, ephemeral⟩ := Accepted.passed agrees accepted
      exact ⟨_, ⟨passed, rfl⟩, publicInputs_eq agrees _ _ _ secret ephemeral⟩
    · rintro ⟨_, ⟨passed, rfl⟩, rfl⟩
      have reduction := (keyReduction_witness agrees witnessed).mpr ⟨passed.nonzero, rfl, rfl⟩
      exact ⟨_, _, _, Passed.accepted agrees passed reduction, publicInputs_eq agrees _ _ _ rfl rfl⟩
  · intro zkpPriv quotient other
    cases outcome : Noir.proveStatement hashes (noirInputs deep zkpPriv quotient) with
    | error message => exact ⟨message, rfl⟩
    | ok words =>
      obtain ⟨_, _, _, accepted, _⟩ := (Noir.proveStatement_eq_ok _ _ _).mp outcome
      obtain ⟨_, rfl, rfl⟩ := (keyReduction_witness agrees witnessed).mp accepted.reduction
      exact absurd rfl other

def ofNoir (inp : Noir.StatementInputs) : DeepInputs where
  inputs :=
    { inp with
      ephemeralKey := (inp.ephemeralKey.val : ℕ)
      membershipProofs := fun i => (inp.membershipProofs i).toList }
  depths := fun i => (inp.membershipProofs i).size_toArray

theorem noirInputs_ofNoir (inp : Noir.StatementInputs) (ephemeralRange : inp.ephemeralKey.val < Noir.subgroupOrder) :
    noirInputs (ofNoir inp) inp.zkpPriv inp.zkpPrivLambda = inp := by
  have ephemeral : ((((inp.ephemeralKey.val : ℕ) : BjjFr).val : ℕ) : Fr254) = inp.ephemeralKey := by
    rw [ZMod.val_natCast_of_lt ephemeralRange, ZMod.natCast_zmod_val]
  simp only [noirInputs, ofNoir, ephemeral]
  rfl

def sampleLibraries : Libraries where
  poseidon := fun inputs => inputs.sum + 1
  sponge := Noir.sponge Noir.additiveHashes
  sha256 := Noir.additiveHashes.sha256
  generator := Noir.generator
  mul := fun p scalar => (Noir.scalarMul (scalar.val : ℕ) p).toOption.getD p
  isOnCurve := fun p => decide (Noir.isOnCurve p)
  isInCorrectSubgroup := fun p => (Noir.assertInSubgroup p).toOption.isSome

theorem sampleLibraries_agrees : Agrees Noir.additiveHashes sampleLibraries := by
  constructor
  · intro a b
    simp [sampleLibraries, Noir.additiveHashes]
  · intro a b c
    simp [sampleLibraries, Noir.additiveHashes, add_assoc]
  · intro a b c d
    simp [sampleLibraries, Noir.additiveHashes, add_assoc]
  · intro a b c d e f
    simp [sampleLibraries, Noir.additiveHashes, add_assoc]
  · exact fun _ => rfl
  · exact fun _ => rfl
  · exact fun _ => length_replicate
  · rfl
  · intro p scalar
    simp only [sampleLibraries, Noir.scalarMul_eq _ (scalar_lt scalar).le p, scalar_val]
    rfl
  · exact fun p => decide_eq_true_iff
  · intro p
    have member := Noir.assertInSubgroup_eq_ok p.point ()
    have unique : (∃ q : Noir.babyJubJub.Group, q.point = p.point ∧ Noir.subgroupOrder • q = 0) ↔
        Noir.subgroupOrder • p = 0 := by
      constructor
      · rintro ⟨q, same, cleared⟩
        rwa [← Edwards.Curve.Group.ext same]
      · exact fun cleared => ⟨p, rfl, cleared⟩
    rw [← unique, ← member]
    simp only [sampleLibraries]
    cases Noir.assertInSubgroup p.point with
    | error message | ok value => simp [Except.toOption]

theorem statement_matches_oracle_sample : ∃ trace,
    computeStatement sampleLibraries (ofNoir Noir.sampleTransfer).inputs = .ok trace ∧
      Noir.proveStatement Noir.additiveHashes Noir.sampleTransfer = .ok trace.publicInputs := by
  obtain ⟨words, proved⟩ := Noir.sampleTransfer_proved
  obtain ⟨scalar, digest, lambda, _, together, others⟩ :=
    statement_matches_oracle _ _ sampleLibraries_agrees (ofNoir Noir.sampleTransfer)
  have same := noirInputs_ofNoir Noir.sampleTransfer (by decide)
  have pair : (Noir.sampleTransfer.zkpPriv, Noir.sampleTransfer.zkpPrivLambda) =
      (((scalar.val : ℕ) : Fr254), lambda) := by
    by_contra other
    obtain ⟨message, aborted⟩ := others _ _ other
    rw [same, proved] at aborted
    cases aborted
  obtain ⟨key, quotient⟩ := Prod.mk.inj pair
  rw [← key, ← quotient, same] at together
  obtain ⟨trace, computed, rfl⟩ := (together words).mp proved
  exact ⟨trace, computed, proved⟩

end Nightfall.Oracle
