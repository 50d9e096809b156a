import Nightfall.Plonk.Gates

/-! Assignments of the unified circuit from what a sender chooses: a note in slot 0, a slot 1
without salt, a fee note in slot 2, a recipient and the swap terms. -/

namespace Nightfall.Plonk

variable (prims : Primitives) (rootKey : Fr254)

structure Note where
  tokenId : Fr254
  slotId : Fr254
  value : Fr254
  owner : Point
  salt : Fr254
deriving DecidableEq

def Note.commitment (note : Note) : Fr254 :=
  prims.poseidonHash [note.tokenId, note.slotId, note.value, note.owner.x, note.owner.y, note.salt]

structure Input where
  note : Note
  secretPreimage : Fin 3 → Fr254
  path : Vector (Merkle.PathElement Fr254) depth

def Input.root (input : Input) : Fr254 :=
  Merkle.computeRoot (nodeHash prims) (input.note.commitment prims) input.path.toList

def Input.nullifier (input : Input) : Fr254 :=
  prims.poseidonHash [conditionalSelect (isNeutralPoint input.note.owner)
      (prims.poseidonHash [rootKey, nullifierPrefix])
      (prims.poseidonHash [input.secretPreimage 0, input.secretPreimage 1, input.secretPreimage 2,
        depositNullifierDomain]), input.note.commitment prims]

def Input.none : Input where
  note := ⟨0, 0, 0, neutral, 0⟩
  secretPreimage := fun _ => 0
  path := Vector.replicate depth ⟨0, false⟩

structure SwapTerms where
  nonce : Fr254
  deadline : Fr254
  nfTokenBId : Fr254
  valueB : Fr254

def SwapTerms.none : SwapTerms := ⟨0, 0, 0, 0⟩

def reducedPrivateKey : Fr254 :=
  ((prims.poseidonHash [rootKey, privateKeyPrefix]).val % bjjOrder : ℕ)

def reductionQuotient : Fr254 :=
  ((prims.poseidonHash [rootKey, privateKeyPrefix]).val / bjjOrder : ℕ)

def derivedPublicKey : Point :=
  prims.scalarMul (reducedPrivateKey prims rootKey) prims.generator

theorem reducedPrivateKey_val :
    (reducedPrivateKey prims rootKey).val = (prims.poseidonHash [rootKey, privateKeyPrefix]).val % bjjOrder := by
  have sizes : 0 < bjjOrder ∧ bjjOrder < fr254Modulus := by decide
  have remainder := Nat.mod_lt (prims.poseidonHash [rootKey, privateKeyPrefix]).val sizes.1
  exact ZMod.val_natCast_of_lt (by omega)

theorem reducedPrivateKey_lt : (reducedPrivateKey prims rootKey).val < bjjOrder := by
  rw [reducedPrivateKey_val]
  exact Nat.mod_lt _ (by decide)

theorem reductionQuotient_lt : (reductionQuotient prims rootKey).val < 8 := by
  have sizes : 8 < fr254Modulus ∧ fr254Modulus < bjjOrder * 8 := by decide
  have digest := ZMod.val_lt (prims.poseidonHash [rootKey, privateKeyPrefix])
  have quotient : (prims.poseidonHash [rootKey, privateKeyPrefix]).val / bjjOrder < 8 :=
    Nat.div_lt_of_lt_mul (by omega)
  rw [reductionQuotient, ZMod.val_natCast_of_lt (by omega)]
  exact quotient

theorem reduction_sum : reducedPrivateKey prims rootKey + (bjjOrder : Fr254) * reductionQuotient prims rootKey =
      prims.poseidonHash [rootKey, privateKeyPrefix] := by
  rw [reducedPrivateKey, reductionQuotient, ← Nat.cast_mul, ← Nat.cast_add, Nat.mod_add_div, ZMod.natCast_zmod_val]

structure Plan where
  rootKey : Fr254
  input : Input
  /-- The value put in slot 1, whose salt is zero. -/
  unsalted : Fr254
  feeInput : Input
  withdrawAddress : Fr254
  recipient : Point
  ephemeralKey : Fr254
  swap : SwapTerms
  domainSharedSalt : Fr254
  domainKem : Fr254
  domainDem : Fr254
  demIndex : Fin 3 → Fr254

def Plan.assignment (plan : Plan) : Assignment where
  fee := plan.feeInput.note.value
  root := plan.input.root prims
  feeTokenId := plan.feeInput.note.tokenId
  nfAddress := 0
  nfSlotId := plan.input.note.slotId
  nullifiersValues := ![plan.input.note.value, plan.unsalted, plan.feeInput.note.value, 0]
  nullifiersSalts := ![plan.input.note.salt, 0, plan.feeInput.note.salt, 0]
  membershipProofs := ![plan.input.path, plan.input.path, plan.feeInput.path, plan.input.path]
  commitmentsValues := fun _ => 0
  senderCommitmentSalts := fun _ => 0
  publicKeys := ![plan.input.note.owner, neutral, plan.feeInput.note.owner, neutral]
  rootKey := plan.rootKey
  ephemeralKey := plan.ephemeralKey
  withdrawAddress := plan.withdrawAddress
  secretPreimages := ![plan.input.secretPreimage, plan.input.secretPreimage,
    plan.feeInput.secretPreimage, plan.input.secretPreimage]
  depositData := fun _ => ⟨0, 0, 0, 0⟩
  partyAPublicKey := derivedPublicKey prims plan.rootKey
  partyBPublicKey := plan.recipient
  nfTokenAId := plan.input.note.tokenId
  valueA := plan.input.note.value + plan.unsalted
  nfTokenBId := plan.swap.nfTokenBId
  valueB := plan.swap.valueB
  swapNonce := plan.swap.nonce
  deadline := plan.swap.deadline
  zkpPrivateKey := reducedPrivateKey prims plan.rootKey
  lambda := reductionQuotient prims plan.rootKey
  domainSharedSalt := plan.domainSharedSalt
  domainKem := plan.domainKem
  domainDem := plan.domainDem
  demIndex := plan.demIndex

structure Spendable (prims : Primitives) (key : Point) (input : Input) : Prop where
  subgroup : SubgroupGate prims input.note.owner
  owned : input.note.owner = neutral ∨ input.note.value = 0 ∨ key = input.note.owner
  opened : input.note.salt ≠ 0 → input.note.owner = neutral →
    prims.poseidonHash [input.secretPreimage 0, input.secretPreimage 1, input.secretPreimage 2] = input.note.salt

structure Plan.Valid (prims : Primitives) (plan : Plan) : Prop where
  neutralDouble : prims.eccAdd neutral neutral = neutral
  keySubgroup : SubgroupGate prims (derivedPublicKey prims plan.rootKey)
  input : Spendable prims (derivedPublicKey prims plan.rootKey) plan.input
  feeInput : Spendable prims (derivedPublicKey prims plan.rootKey) plan.feeInput
  feeSlot : plan.feeInput.note.slotId = plan.feeInput.note.tokenId
  feeMember : plan.feeInput.note.salt ≠ 0 → plan.feeInput.root prims = plan.input.root prims
  valueRange : (plan.input.note.value + plan.unsalted).val < 2 ^ 96
  feeRange : plan.feeInput.note.value.val < 2 ^ 96
  withdrawRange : plan.withdrawAddress.val < 2 ^ 160
  recipient : plan.recipient = neutral ↔ plan.withdrawAddress ≠ 0
  recipientSubgroup : SubgroupGate prims plan.recipient
  nonceRange : plan.swap.nonce.val < 2 ^ 64
  deadlineRange : plan.swap.deadline.val < 2 ^ 64
  terms : plan.swap.nonce = 0 → plan.swap = SwapTerms.none
  parties : plan.swap.nonce ≠ 0 → plan.withdrawAddress = 0 ∧
    derivedPublicKey prims plan.rootKey ≠ neutral ∧ derivedPublicKey prims plan.rootKey ≠ plan.recipient
  nullifiers : plan.feeInput.note.salt ≠ 0 →
    plan.feeInput.nullifier prims plan.rootKey ≠ plan.input.nullifier prims plan.rootKey
  commitments : verifyCommitments prims (plan.assignment prims) 2 = 0 ∨
    verifyCommitments prims (plan.assignment prims) 2 ≠ verifyCommitments prims (plan.assignment prims) 0

section

variable (prims : Primitives) (plan : Plan)

@[simp] theorem Plan.isPartyA_eq : isPartyA prims (plan.assignment prims) = true :=
  (pointsEqual_iff _ _).mpr rfl

@[simp] theorem Plan.transferValue_eq :
    transferValue prims (plan.assignment prims) = plan.input.note.value + plan.unsalted := by
  rw [transferValue, Plan.isPartyA_eq, conditionalSelect_true, conditionalSelect_self]
  rfl

@[simp] theorem Plan.nfTokenId_eq : nfTokenId prims (plan.assignment prims) = plan.input.note.tokenId := by
  rw [nfTokenId, Plan.isPartyA_eq, conditionalSelect_true, conditionalSelect_self]
  rfl

@[simp] theorem Plan.recipientPublicKey_eq : recipientPublicKey prims (plan.assignment prims) = plan.recipient := by
  simp only [recipientPublicKey, Plan.isPartyA_eq, conditionalSelect_true, conditionalSelect_self]
  rfl

theorem Plan.slotCommitment_input :
    slotCommitment prims (plan.assignment prims) 0 = plan.input.note.commitment prims := by
  simp only [slotCommitment, slotTokenId, Plan.nfTokenId_eq]
  rfl

theorem Plan.slotCommitment_feeInput (feeSlot : plan.feeInput.note.slotId = plan.feeInput.note.tokenId) :
    slotCommitment prims (plan.assignment prims) 2 = plan.feeInput.note.commitment prims := by
  rw [Note.commitment, feeSlot]
  rfl

theorem Plan.slotNullifier_input :
    slotNullifier prims (plan.assignment prims) 0 = plan.input.nullifier prims plan.rootKey := by
  rw [slotNullifier, Plan.slotCommitment_input]
  rfl

theorem Plan.slotNullifier_feeInput (feeSlot : plan.feeInput.note.slotId = plan.feeInput.note.tokenId) :
    slotNullifier prims (plan.assignment prims) 2 = plan.feeInput.nullifier prims plan.rootKey := by
  rw [slotNullifier, Plan.slotCommitment_feeInput prims plan feeSlot]
  rfl

theorem Plan.nullifierOut_even (feeSlot : plan.feeInput.note.slotId = plan.feeInput.note.tokenId)
    (different : plan.feeInput.note.salt ≠ 0 →
      plan.feeInput.nullifier prims plan.rootKey ≠ plan.input.nullifier prims plan.rootKey) :
    nullifierOut prims (plan.assignment prims) 2 = 0 ∨
      nullifierOut prims (plan.assignment prims) 2 ≠ nullifierOut prims (plan.assignment prims) 0 := by
  by_cases feeDummy : plan.feeInput.note.salt = 0
  · exact Or.inl (nullifierOut_dummy prims feeDummy)
  · by_cases dummy : plan.input.note.salt = 0
    · rw [nullifierOut_dummy prims (i := 0) dummy]
      exact em _
    · right
      rw [nullifierOut_salted prims (i := 0) dummy, nullifierOut_salted prims (i := 2) feeDummy,
        Plan.slotNullifier_input, Plan.slotNullifier_feeInput prims plan feeSlot]
      exact different feeDummy

theorem Plan.nullifierOut_odd (i : Fin 4) (odd : i = 1 ∨ i = 3) :
    nullifierOut prims (plan.assignment prims) i = 0 := by
  apply nullifierOut_dummy
  rcases odd with rfl | rfl <;> rfl

theorem Plan.verifyCommitments_odd (i : Fin 4) (odd : i = 1 ∨ i = 3) :
    verifyCommitments prims (plan.assignment prims) i = 0 := by
  rcases odd with rfl | rfl <;>
    simp [verifyCommitments, conditionalSelect, isZero, Plan.assignment]

end

theorem distinct_of_even {word : Fin 4 → Fr254} (odd : ∀ i, i = 1 ∨ i = 3 → word i = 0)
    (even : word 2 = 0 ∨ word 2 ≠ word 0) (i j : Fin 4) (before : i < j) :
    OrGate (decide (word j = 0)) (!decide (word j = word i)) := by
  simp only [orGate_iff, decide_eq_true_eq, Bool.not_eq_true', decide_eq_false_iff_not]
  by_cases second : j = 2
  · subst second
    rcases even with zero | different
    · exact Or.inl zero
    · by_cases first : i = 0
      · subst first
        exact Or.inr different
      · rw [odd i (by omega)]
        exact em _
  · exact Or.inl (odd j (by omega))

namespace Plan.Valid

variable {prims : Primitives} {plan : Plan} (valid : plan.Valid prims) (i : Fin 4)

include valid

theorem subgroups : SubgroupGate prims ((plan.assignment prims).publicKeys i) := by
  have neutralGate : SubgroupGate prims neutral := (subgroupGate_iff _ _).mpr fun _ => rfl
  fin_cases i
  · exact valid.input.subgroup
  · exact neutralGate
  · exact valid.feeInput.subgroup
  · exact neutralGate

theorem owners : (plan.assignment prims).publicKeys i = neutral ∨ (plan.assignment prims).nullifiersValues i = 0 ∨
      derivedPublicKey prims plan.rootKey = (plan.assignment prims).publicKeys i := by
  fin_cases i
  · exact valid.input.owned
  · exact Or.inl rfl
  · exact valid.feeInput.owned
  · exact Or.inl rfl

theorem members (salted : (plan.assignment prims).nullifiersSalts i ≠ 0) :
    calcRoot prims (plan.assignment prims) i = (plan.assignment prims).root := by
  fin_cases i
  · exact congrArg (Merkle.computeRoot _ · _) (plan.slotCommitment_input prims)
  · exact absurd rfl salted
  · exact (congrArg (Merkle.computeRoot _ · _)
      (plan.slotCommitment_feeInput prims valid.feeSlot)).trans (valid.feeMember salted)
  · exact absurd rfl salted

theorem secrets (salted : (plan.assignment prims).nullifiersSalts i ≠ 0)
    (owner : (plan.assignment prims).publicKeys i = neutral) :
    secretHash prims (plan.assignment prims) i = (plan.assignment prims).nullifiersSalts i := by
  fin_cases i
  · exact valid.input.opened salted owner
  · exact absurd rfl salted
  · exact valid.feeInput.opened salted owner
  · exact absurd rfl salted

theorem withdraws : withdrawFlag (plan.assignment prims) = isNeutralPoint plan.recipient := by
  rw [Bool.eq_iff_iff, isNeutralPoint_iff, valid.recipient, withdrawFlag, Bool.not_eq_true', isZero_eq_false]
  rfl

theorem recipientCleared : timesEight prims plan.recipient = neutral ↔ plan.recipient = neutral := by
  refine ⟨(subgroupGate_iff _ _).mp valid.recipientSubgroup, ?_⟩
  intro same
  simp only [same, timesEight, valid.neutralDouble]

end Plan.Valid

theorem Plan.satisfied {prims : Primitives} {plan : Plan} (valid : plan.Valid prims) :
    Satisfied prims (plan.assignment prims) := by
  have noSwap : isZero (plan.assignment prims).swapNonce = true → plan.swap = SwapTerms.none :=
    fun zero => valid.terms ((isZero_iff _).mp zero)
  constructor
  case publicKeyGate => exact valid.subgroups
  case partyAGate => exact valid.keySubgroup
  case partyBGate =>
    rw [partyBGate_iff, valid.withdraws]
    refine ⟨rfl, ?_⟩
    rw [Bool.eq_iff_iff, isNeutralPoint_iff, isNeutralPoint_iff]
    exact valid.recipientCleared
  case withdrawRange => exact valid.withdrawRange
  case addressRange =>
    simp only [Plan.assignment]
    decide
  case reductionGate => exact reduction_sum prims plan.rootKey
  case privateKeyRange => exact reducedPrivateKey_lt prims plan.rootKey
  case lambdaRange => exact reductionQuotient_lt prims plan.rootKey
  case tokenBGate =>
    rw [flag_mul_eq_zero]
    intro zero
    simp [Plan.assignment, noSwap zero, SwapTerms.none]
  case valueBGate =>
    rw [flag_mul_eq_zero]
    intro zero
    simp [Plan.assignment, noSwap zero, SwapTerms.none]
  case authorGate => simp
  case balanceGate =>
    rw [Plan.transferValue_eq]
    simp [Plan.assignment]
  case feeBalanceGate => simp [Plan.assignment]
  case valueRange =>
    rw [Plan.transferValue_eq]
    exact valid.valueRange
  case feeRange => exact valid.feeRange
  case changeRange =>
    intro _
    simp [Plan.assignment]
  case ownershipGate =>
    intro i
    rw [orGate_iff, Bool.or_eq_true, isNeutralPoint_iff, isZero_iff, pointsEqual_iff, or_assoc]
    exact valid.owners i
  case swapPartyAGate =>
    rw [swapGate_iff, isNeutralPoint_iff]
    exact fun nonce => (valid.parties nonce).2.1
  case swapPartyBGate =>
    rw [swapGate_iff, isNeutralPoint_iff]
    exact fun nonce same => valid.recipient.mp same (valid.parties nonce).1
  case swapDistinctGate =>
    rw [swapGate_iff, pointsEqual_iff]
    exact fun nonce => (valid.parties nonce).2.2
  case swapNonceRange => exact valid.nonceRange
  case deadlineRange => exact valid.deadlineRange
  case deadlineGate =>
    rw [flag_mul_eq_zero]
    intro zero
    simp [Plan.assignment, noSwap zero, SwapTerms.none]
  case roleGate =>
    rw [roleGate_iff, isSwap_iff, Plan.isPartyA_eq]
    intro nonce same
    exact (valid.parties nonce).2.2 ((pointsEqual_iff _ _).mp same.symm)
  case swapWithdrawGate =>
    rw [swapGate_iff, valid.withdraws, isNeutralPoint_iff]
    exact fun nonce same => valid.recipient.mp same (valid.parties nonce).1
  case membershipGate =>
    intro i
    rw [membershipGate_iff]
    exact valid.members i
  case saltGate =>
    intro i
    rw [saltGate_iff, isNeutralPoint_iff]
    exact valid.secrets i
  case nullifiersDistinct =>
    exact distinct_of_even (plan.nullifierOut_odd prims)
      (plan.nullifierOut_even prims valid.feeSlot valid.nullifiers)
  case commitmentsDistinct =>
    exact distinct_of_even (plan.verifyCommitments_odd prims) valid.commitments
  case recipientGate =>
    rw [recipientGate_iff, valid.withdraws, Plan.recipientPublicKey_eq]

def Plan.withdrawal (input : Input) (unsalted : Fr254) (feeInput : Input) : Plan where
  rootKey := rootKey
  input := input
  unsalted := unsalted
  feeInput := feeInput
  withdrawAddress := 1
  recipient := neutral
  ephemeralKey := 0
  swap := SwapTerms.none
  domainSharedSalt := 0
  domainKem := 0
  domainDem := 0
  demIndex := fun _ => 0

theorem Input.none_spendable (key : Point) : Spendable prims key Input.none :=
  ⟨(subgroupGate_iff _ _).mpr fun _ => rfl, Or.inl rfl, fun salted => absurd rfl salted⟩

section

variable {prims : Primitives} {rootKey unsalted : Fr254} {input : Input}
  (neutralDouble : prims.eccAdd neutral neutral = neutral)
  (keySubgroup : SubgroupGate prims (derivedPublicKey prims rootKey))
  (spendable : Spendable prims (derivedPublicKey prims rootKey) input)
  (valueRange : (input.note.value + unsalted).val < 2 ^ 96)

include neutralDouble keySubgroup spendable valueRange

theorem Plan.withdrawal_valid {feeInput : Input}
    (feeSpendable : Spendable prims (derivedPublicKey prims rootKey) feeInput)
    (feeSlot : feeInput.note.slotId = feeInput.note.tokenId)
    (feeMember : feeInput.note.salt ≠ 0 → feeInput.root prims = input.root prims)
    (feeRange : feeInput.note.value.val < 2 ^ 96)
    (nullifiers : feeInput.note.salt ≠ 0 → feeInput.nullifier prims rootKey ≠ input.nullifier prims rootKey) :
    (withdrawal rootKey input unsalted feeInput).Valid prims := by
  constructor
  case withdrawRange =>
    simp only [withdrawal]
    decide
  case recipient => simp [withdrawal]
  case recipientSubgroup => exact (subgroupGate_iff _ _).mpr fun _ => rfl
  case nonceRange => simp [withdrawal, SwapTerms.none]
  case deadlineRange => simp [withdrawal, SwapTerms.none]
  case terms => exact fun _ => rfl
  case parties => exact fun nonce => absurd rfl nonce
  case commitments =>
    exact em _
  all_goals assumption

theorem Plan.withdrawal_valid_free : (withdrawal rootKey input unsalted Input.none).Valid prims := by
  apply Plan.withdrawal_valid neutralDouble keySubgroup spendable valueRange (Input.none_spendable prims _) rfl
  · exact fun salted => absurd rfl salted
  · simp [Input.none]
  · exact fun salted => absurd rfl salted

end

theorem Plan.transfer_valid {prims : Primitives} {plan : Plan}
    (neutralDouble : prims.eccAdd neutral neutral = neutral)
    (keySubgroup : SubgroupGate prims (derivedPublicKey prims plan.rootKey))
    (spendable : Spendable prims (derivedPublicKey prims plan.rootKey) plan.input)
    (valueRange : (plan.input.note.value + plan.unsalted).val < 2 ^ 96)
    (free : plan.feeInput = Input.none) (transfers : plan.withdrawAddress = 0)
    (recipient : plan.recipient ≠ neutral) (recipientSubgroup : SubgroupGate prims plan.recipient)
    (nonceRange : plan.swap.nonce.val < 2 ^ 64) (deadlineRange : plan.swap.deadline.val < 2 ^ 64)
    (terms : plan.swap.nonce = 0 → plan.swap = SwapTerms.none)
    (parties : plan.swap.nonce ≠ 0 → derivedPublicKey prims plan.rootKey ≠ neutral ∧
      derivedPublicKey prims plan.rootKey ≠ plan.recipient) : plan.Valid prims := by
  constructor
  case feeInput =>
    rw [free]
    exact Input.none_spendable prims _
  case feeSlot => rw [free, Input.none]
  case feeMember =>
    rw [free]
    exact fun salted => absurd rfl salted
  case feeRange => simp [free, Input.none]
  case withdrawRange => simp [transfers]
  case recipient => exact iff_of_false recipient fun withdraws => withdraws transfers
  case parties => exact fun nonce => ⟨transfers, parties nonce⟩
  case nullifiers =>
    rw [free]
    exact fun salted => absurd rfl salted
  case commitments =>
    left
    simp [verifyCommitments, isZero, Plan.assignment, free, Input.none]
  all_goals assumption

end Nightfall.Plonk
