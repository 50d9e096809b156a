import Nightfall.Plonk.Circuit

/-! The enforcing gates of the unified circuit and what each says in words. -/

namespace Nightfall.Plonk

variable (prims : Primitives) {a : Assignment}

def SubgroupGate (p : Point) : Prop :=
  -(flag (isNeutralPoint p) * flag (isNeutralPoint (timesEight prims p))) +
    flag (isNeutralPoint (timesEight prims p)) = 0

def OrGate (left right : Bool) : Prop := flag left + flag right - flag left * flag right = 1

structure Satisfied (prims : Primitives) (a : Assignment) : Prop where
  publicKeyGate : ∀ i, SubgroupGate prims (a.publicKeys i)
  partyAGate : SubgroupGate prims a.partyAPublicKey
  partyBGate : 2 * flag (withdrawFlag a) - flag (isNeutralPoint a.partyBPublicKey) -
    flag (isNeutralPoint (timesEight prims a.partyBPublicKey)) = 0
  withdrawRange : a.withdrawAddress.val < 2 ^ 160
  addressRange : a.nfAddress.val < 2 ^ 160
  reductionGate : a.zkpPrivateKey + (bjjOrder : Fr254) * a.lambda = frZkpPrivKey prims a
  privateKeyRange : a.zkpPrivateKey.val < bjjOrder
  lambdaRange : a.lambda.val < 8
  tokenBGate : flag (isZero a.swapNonce) * a.nfTokenBId = 0
  valueBGate : flag (isZero a.swapNonce) * a.valueB = 0
  authorGate : flag ((isZero a.swapNonce && !isDeposit a) && !isPartyA prims a) = 0
  balanceGate : transferValue prims a + a.commitmentsValues 0 - a.nullifiersValues 0 - a.nullifiersValues 1 = 0
  feeBalanceGate : a.fee + a.commitmentsValues 1 - a.nullifiersValues 2 - a.nullifiersValues 3 = 0
  valueRange : (transferValue prims a).val < 2 ^ 96
  feeRange : a.fee.val < 2 ^ 96
  changeRange : ∀ i, (a.commitmentsValues i).val < 2 ^ 96
  ownershipGate : ∀ i, OrGate (isNeutralPoint (a.publicKeys i) || isZero (a.nullifiersValues i))
    (pointsEqual (zkpPubKey prims a) (a.publicKeys i))
  swapPartyAGate : flag (isSwap a && isNeutralPoint a.partyAPublicKey) = 0
  swapPartyBGate : flag (isSwap a && isNeutralPoint a.partyBPublicKey) = 0
  swapDistinctGate : flag (isSwap a && pointsEqual a.partyAPublicKey a.partyBPublicKey) = 0
  swapNonceRange : a.swapNonce.val < 2 ^ 64
  deadlineRange : a.deadline.val < 2 ^ 64
  deadlineGate : flag (isZero a.swapNonce) * a.deadline = 0
  roleGate : conditionalSelect (isSwap a) 1
    (flag (decide (flag (isPartyA prims a) + flag (isPartyB prims a) = 1))) = 1
  swapWithdrawGate : flag (isSwap a && withdrawFlag a) = 0
  membershipGate : ∀ i, conditionalSelect (isZero (a.nullifiersSalts i))
    (flag (decide (calcRoot prims a i = conditionalSelect (isZero (a.nullifiersSalts i)) a.root 0))) 1 = 1
  saltGate : ∀ i, conditionalSelect (isZero (a.nullifiersSalts i))
    (conditionalSelect (isNeutralPoint (a.publicKeys i)) (a.nullifiersSalts i)
      (secretHash prims a i)) 0 = a.nullifiersSalts i
  nullifiersDistinct : ∀ i j, i < j → OrGate (decide (nullifierOut prims a j = 0))
    (!decide (nullifierOut prims a j = nullifierOut prims a i))
  commitmentsDistinct : ∀ i j, i < j → OrGate (decide (verifyCommitments prims a j = 0))
    (!decide (verifyCommitments prims a j = verifyCommitments prims a i))
  recipientGate : -flag (isNeutralPoint (recipientPublicKey prims a)) - flag (withdrawFlag a) +
    2 * (flag (isNeutralPoint (recipientPublicKey prims a)) * flag (withdrawFlag a)) + 1 = 1

@[simp] theorem flag_true : flag true = 1 := rfl

@[simp] theorem flag_false : flag false = 0 := rfl

@[simp] theorem flag_eq_zero (b : Bool) : flag b = 0 ↔ b = false := by
  cases b <;> simp

@[simp] theorem flag_eq_one (b : Bool) : flag b = 1 ↔ b = true := by
  cases b <;> simp

@[simp] theorem flag_mul_eq_zero (b : Bool) (x : Fr254) : flag b * x = 0 ↔ (b = true → x = 0) := by
  cases b <;> simp

theorem isNeutralPoint_iff (p : Point) : isNeutralPoint p = true ↔ p = neutral := by
  simp [isNeutralPoint, neutral, Edwards.neutral, Edwards.Point.ext_iff]

theorem pointsEqual_iff (p q : Point) : pointsEqual p q = true ↔ p = q := by
  simp [pointsEqual, Edwards.Point.ext_iff]

theorem isZero_iff (x : Fr254) : isZero x = true ↔ x = 0 := by
  simp [isZero]

theorem isZero_eq_false (x : Fr254) : isZero x = false ↔ x ≠ 0 := by
  rw [Bool.eq_false_iff, ne_eq, isZero_iff]

@[simp] theorem conditionalSelect_true (x₀ x₁ : Fr254) : conditionalSelect true x₀ x₁ = x₁ := rfl

@[simp] theorem conditionalSelect_false (x₀ x₁ : Fr254) : conditionalSelect false x₀ x₁ = x₀ := rfl

@[simp] theorem conditionalSelect_self (b : Bool) (x : Fr254) : conditionalSelect b x x = x := by
  cases b <;> rfl

theorem orGate_iff (left right : Bool) : OrGate left right ↔ left = true ∨ right = true := by
  cases left <;> cases right <;> simp [OrGate]

theorem subgroupGate_iff (p : Point) : SubgroupGate prims p ↔ (timesEight prims p = neutral → p = neutral) := by
  rw [← isNeutralPoint_iff, ← isNeutralPoint_iff, SubgroupGate]
  cases isNeutralPoint p <;> cases isNeutralPoint (timesEight prims p) <;> simp

theorem recipientGate_iff (isNeutral withdraws : Bool) :
    -flag isNeutral - flag withdraws + 2 * (flag isNeutral * flag withdraws) + 1 = 1 ↔ isNeutral = withdraws := by
  revert isNeutral withdraws
  decide

theorem partyBGate_iff (withdraws isNeutral smallOrder : Bool) :
    2 * flag withdraws - flag isNeutral - flag smallOrder = 0 ↔ isNeutral = withdraws ∧ smallOrder = withdraws := by
  revert withdraws isNeutral smallOrder
  decide

theorem roleGate_iff (swaps partyA partyB : Bool) :
    conditionalSelect swaps 1 (flag (decide (flag partyA + flag partyB = 1))) = 1 ↔
      (swaps = true → partyA ≠ partyB) := by
  revert swaps partyA partyB
  decide

theorem isSwap_iff (a : Assignment) : isSwap a = true ↔ a.swapNonce ≠ 0 := by
  rw [isSwap, Bool.not_eq_true', isZero_eq_false]

theorem swapGate_iff (a : Assignment) (refused : Bool) :
    flag (isSwap a && refused) = 0 ↔ (a.swapNonce ≠ 0 → ¬ refused = true) := by
  rw [flag_eq_zero, Bool.and_eq_false_imp, isSwap_iff, Bool.not_eq_true]

theorem membershipGate_iff (salt root calculated : Fr254) : conditionalSelect (isZero salt)
        (flag (decide (calculated = conditionalSelect (isZero salt) root 0))) 1 = 1 ↔
      (salt ≠ 0 → calculated = root) := by
  by_cases zero : salt = 0
  · simp [conditionalSelect, isZero, zero]
  · simp [conditionalSelect, isZero, zero]

theorem saltGate_iff (salt secret : Fr254) (isNeutral : Bool) :
    conditionalSelect (isZero salt) (conditionalSelect isNeutral salt secret) 0 = salt ↔
      (salt ≠ 0 → isNeutral = true → secret = salt) := by
  by_cases zero : salt = 0
  · simp [conditionalSelect, isZero, zero]
  · cases isNeutral <;> simp [conditionalSelect, isZero, zero]

section

variable {prims : Primitives} {a : Assignment} (satisfied : Satisfied prims a)

include satisfied

theorem Satisfied.owned (i : Fin 4) : a.publicKeys i = neutral ∨ a.nullifiersValues i = 0 ∨
    zkpPubKey prims a = a.publicKeys i := by
  have gate := satisfied.ownershipGate i
  rw [orGate_iff, Bool.or_eq_true, isNeutralPoint_iff, isZero_iff, pointsEqual_iff, or_assoc] at gate
  exact gate

theorem Satisfied.member (i : Fin 4) (salted : a.nullifiersSalts i ≠ 0) : calcRoot prims a i = a.root :=
  (membershipGate_iff _ _ _).mp (satisfied.membershipGate i) salted

theorem Satisfied.salt (i : Fin 4) (salted : a.nullifiersSalts i ≠ 0)
    (owner : a.publicKeys i = neutral) : secretHash prims a i = a.nullifiersSalts i :=
  (saltGate_iff _ _ _).mp (satisfied.saltGate i) salted ((isNeutralPoint_iff _).mpr owner)

theorem Satisfied.balance : transferValue prims a + a.commitmentsValues 0 =
    a.nullifiersValues 0 + a.nullifiersValues 1 := by
  linear_combination satisfied.balanceGate

theorem Satisfied.feeBalance : a.fee + a.commitmentsValues 1 = a.nullifiersValues 2 + a.nullifiersValues 3 := by
  linear_combination satisfied.feeBalanceGate

end

theorem words_nullifier (pub : PublicInputs) (i : Fin 4) : pub.words[11 + i.val]? = some (pub.nullifiers i) := by
  fin_cases i <;> rfl

theorem words_commitment (pub : PublicInputs) (i : Fin 4) : pub.words[6 + i.val]? = some (pub.commitments i) := by
  fin_cases i <;> rfl

theorem publicWords_nullifier (spends : a.nullifiersSalts 0 ≠ 0) (i : Fin 4) :
    (publicWords prims a)[11 + i.val]? = some (nullifierOut prims a i) := by
  rw [publicWords, words_nullifier]
  simp [publicInputs, isDeposit, isZero, conditionalSelect, spends]

theorem nullifierOut_salted {i : Fin 4}
    (salted : a.nullifiersSalts i ≠ 0) : nullifierOut prims a i = slotNullifier prims a i := by
  simp [nullifierOut, isZero, conditionalSelect, salted]

theorem nullifierOut_dummy {i : Fin 4} (dummy : a.nullifiersSalts i = 0) : nullifierOut prims a i = 0 := by
  simp [nullifierOut, isZero, conditionalSelect, dummy]

end Nightfall.Plonk
