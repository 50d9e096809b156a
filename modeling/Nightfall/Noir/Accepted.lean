import Nightfall.Noir.Statement

/-! What it means for `prove_statement` not to abort, check by check. -/

namespace Nightfall.Noir

open Revert

variable (hashes : Hashes) (inp : StatementInputs) (zkpPubKey : Point)

@[mk_iff] structure KeyReduction (hashes : Hashes) (rootKey zkpPriv lambda : Fr254) : Prop where
  digest : zkpPriv + lambda * subgroupOrder = hashes.hash2 rootKey privateKeyPrefix
  scalar : zkpPriv.val < subgroupOrder
  quotient : lambda.val < 8
  nonzero : zkpPriv ≠ 0
  noWrap : lambda = 7 → zkpPriv.val < noWrapBound

theorem deriveZkpPrivateKey_eq_ok (rootKey zkpPriv lambda result : Fr254) :
    deriveZkpPrivateKey hashes rootKey zkpPriv lambda = .ok result ↔
      KeyReduction hashes rootKey zkpPriv lambda ∧ zkpPriv = result := by
  have guard : (if lambda = 7 then zkpPriv else 0).val < noWrapBound ↔ (lambda = 7 → zkpPriv.val < noWrapBound) := by
    split <;> simp [noWrapBound, *]
  simp [-bind_pure_comp, deriveZkpPrivateKey, guard, keyReduction_iff, and_assoc]

section

variable {inp : StatementInputs} (noSwap : isSwap inp = false) (author : Point)

include noSwap

theorem transferValue_of_not_swap : transferValue inp author = inp.valueA := by
  simp [transferValue, isPartyBSwap, noSwap, cs]

theorem nfTokenId_of_not_swap : nfTokenId inp author = inp.nfTokenAId := by
  simp [nfTokenId, isPartyBSwap, noSwap, cs]

theorem recipientPublicKey_of_not_swap : recipientPublicKey inp author = inp.partyBPublicKey := by
  simp [recipientPublicKey, isPartyBSwap, noSwap]

end

@[mk_iff] structure Balanced (inp : StatementInputs) (zkpPubKey : Point) : Prop where
  value : transferValue inp zkpPubKey + inp.commitmentsValues 0 = inp.nullifiersValues 0 + inp.nullifiersValues 1
  fee : inp.fee + inp.commitmentsValues 1 = inp.nullifiersValues 2 + inp.nullifiersValues 3
  valueRange : (transferValue inp zkpPubKey).val < 2 ^ 96
  feeRange : inp.fee.val < 2 ^ 96
  changeRange : ∀ i, (inp.commitmentsValues i).val < 2 ^ 96
  spentRange : ∀ i, (inp.nullifiersValues i).val < 2 ^ 96
  depositRange : ∀ i, (inp.depositValues i).val < 2 ^ 96
  partyRange : inp.valueA.val < 2 ^ 96 ∧ inp.valueB.val < 2 ^ 96

theorem balanceChecks_eq_ok (result : Unit) : balanceChecks inp zkpPubKey = .ok result ↔ Balanced inp zkpPubKey := by
  simp [balanceChecks, assertMaxBitSize, balanced_iff, Fin.forall_fin_two, forall_and, and_assoc]

/-- The checks of one input slot: a dummy carries no value, a real one is in the
tree, and a slot under the neutral key opens its salt. -/
@[mk_iff] structure SlotChecked (hashes : Hashes) (inp : StatementInputs) (zkpPubKey : Point) (i : Fin 4) : Prop where
  dummy : inp.nullifiersSalts i = 0 → inp.nullifiersValues i = 0
  member : inp.nullifiersSalts i ≠ 0 → Merkle.computeRoot hashes.hash2 (slotCommitment hashes inp zkpPubKey i)
      (inp.membershipProofs i).toList = inp.root
  salt : inp.nullifiersSalts i ≠ 0 → isNeutral (inp.publicKeys i) = true →
    hashes.hash3 (inp.secretPreimages i 0) (inp.secretPreimages i 1) (inp.secretPreimages i 2) = inp.nullifiersSalts i

theorem nullifierChecks_eq_ok (i : Fin 4) (result : Unit) :
    nullifierChecks hashes inp zkpPubKey i = .ok result ↔ SlotChecked hashes inp zkpPubKey i := by
  by_cases zero : inp.nullifiersSalts i = 0 <;> simp [nullifierChecks, slotChecked_iff, cs, zero]

@[mk_iff] structure ModesChecked (inp : StatementInputs) (zkpPubKey : Point) : Prop where
  ephemeral : isDeposit inp = false ∧ withdrawFlag inp = false → inp.ephemeralKey ≠ 0
  tokenB : isSwap inp = false → inp.nfTokenBId = 0
  valueB : isSwap inp = false → inp.valueB = 0
  author : isSwap inp = false ∧ isDeposit inp = false → isPartyA inp zkpPubKey = true
  deposit : isDeposit inp = true → (∀ i, inp.nullifiersSalts i = 0) ∧ inp.withdrawAddress = 0 ∧ inp.swapNonce = 0
  noDeposit : isDeposit inp = false → ∀ i, inp.depositTokenIds i = 0 ∧ inp.depositSlotIds i = 0 ∧
    inp.depositValues i = 0 ∧ inp.depositSecretHashes i = 0

theorem modeChecks_eq_ok (result : Unit) : modeChecks inp zkpPubKey = .ok result ↔ ModesChecked inp zkpPubKey := by
  cases mode : isDeposit inp with
  | false => simp [modeChecks, modesChecked_iff, mode]
  | true =>
    have first : inp.nullifiersSalts 0 = 0 := of_decide_eq_true mode
    simp [modeChecks, modesChecked_iff, mode, Fin.forall_fin_succ, first, and_assoc]

@[mk_iff] structure SwapChecked (inp : StatementInputs) (zkpPubKey : Point) : Prop where
  partyA : isSwap inp = true → isNeutral inp.partyAPublicKey = false
  partyB : isSwap inp = true → isNeutral inp.partyBPublicKey = false
  distinct : isSwap inp = true → inp.partyAPublicKey ≠ inp.partyBPublicKey
  role : isSwap inp = true → (isPartyA inp zkpPubKey || isPartyB inp zkpPubKey) = true
  noWithdrawal : isSwap inp = true → withdrawFlag inp = false
  nonceRange : inp.swapNonce.val < 2 ^ 64
  deadlineRange : inp.deadline.val < 2 ^ 64
  deadline : isSwap inp = false → inp.deadline = 0

theorem swapChecks_eq_ok (result : Unit) : swapChecks inp zkpPubKey = .ok result ↔ SwapChecked inp zkpPubKey := by
  simp [swapChecks, assertMaxBitSize, swapChecked_iff]

theorem SwapChecked.of_no_swap {inp : StatementInputs} (noSwap : inp.swapNonce = 0)
    (noDeadline : inp.deadline = 0) (zkpPubKey : Point) : SwapChecked inp zkpPubKey := by
  have plain : ¬ isSwap inp = true := by simp [isSwap, noSwap]
  have zero : (0 : Fr254).val < 2 ^ 64 := by decide
  exact ⟨fun swaps => absurd swaps plain, fun swaps => absurd swaps plain,
    fun swaps => absurd swaps plain, fun swaps => absurd swaps plain, fun swaps => absurd swaps plain,
    noSwap.symm ▸ zero, noDeadline.symm ▸ zero, fun _ => noDeadline⟩

def NoDuplicates (entries : Fin 4 → Fr254) : Prop :=
  ∀ i j, i < j → entries j = 0 ∨ entries j ≠ entries i

theorem verifyDuplicates_eq_ok (nullifiers commitments : Fin 4 → Fr254) (result : Unit) :
    verifyDuplicates nullifiers commitments = .ok result ↔ NoDuplicates nullifiers ∧ NoDuplicates commitments := by
  simp only [verifyDuplicates, forM_eq_ok, bind_eq_ok, require_eq_ok, List.mem_finRange, true_imp_iff,
    exists_const, NoDuplicates, ← forall_and]

theorem noDuplicates_of_first {entries : Fin 4 → Fr254} (later : ∀ i, 0 < i → entries i = 0) : NoDuplicates entries :=
  fun _ j before => Or.inl (later j (by omega))

theorem SlotChecked.of_dummy {hashes : Hashes} {inp : StatementInputs} {zkpPubKey : Point} {i : Fin 4}
    (noSalt : inp.nullifiersSalts i = 0) (noValue : inp.nullifiersValues i = 0) :
    SlotChecked hashes inp zkpPubKey i :=
  ⟨fun _ => noValue, fun salted => absurd noSalt salted, fun salted => absurd noSalt salted⟩

@[mk_iff] structure Accepted (hashes : Hashes) (inp : StatementInputs) (zkpPubKey sharedSecret epk : Point) :
    Prop where
  withdrawRange : inp.withdrawAddress.val < 2 ^ 160
  addressRange : inp.nfAddress.val < 2 ^ 160
  reduction : KeyReduction hashes inp.rootKey inp.zkpPriv inp.zkpPrivLambda
  ephemeralRange : inp.ephemeralKey.val < subgroupOrder
  publicKey : mulByGenerator inp.zkpPriv = .ok zkpPubKey
  modes : modeChecks inp zkpPubKey = .ok ()
  balance : Balanced inp zkpPubKey
  ownership : ∀ i, (isNeutral (inp.publicKeys i) || decide (inp.nullifiersValues i = 0)) = true ∨
    zkpPubKey = inp.publicKeys i
  recipient : assertInSubgroup (recipientPublicKey inp zkpPubKey) = .ok ()
  secret : scalarMul inp.ephemeralKey (recipientPublicKey inp zkpPubKey) = .ok sharedSecret
  ephemeral : mulByGenerator inp.ephemeralKey = .ok epk
  secretOnCurve : isOnCurve sharedSecret
  epkOnCurve : isOnCurve epk
  slots : ∀ i, SlotChecked hashes inp zkpPubKey i
  duplicates : verifyDuplicates (nullifierOut hashes inp zkpPubKey)
    (verifyCommitments hashes inp zkpPubKey (sharedSalt hashes sharedSecret)) = .ok ()
  withdrawal : withdrawFlag inp = true → isNeutral (recipientPublicKey inp zkpPubKey) = true
  swap : swapChecks inp zkpPubKey = .ok ()

theorem proveStatement_eq_ok (words : List Fr254) : proveStatement hashes inp = .ok words ↔
      ∃ zkpPubKey sharedSecret epk, Accepted hashes inp zkpPubKey sharedSecret epk ∧
        words = (publicInputs hashes inp zkpPubKey sharedSecret epk).words := by
  simp [-bind_pure_comp, proveStatement, assertMaxBitSize, assertValidScalar, assertOnCurve, ownershipChecks,
    deriveZkpPrivateKey_eq_ok, balanceChecks_eq_ok, nullifierChecks_eq_ok, accepted_iff, and_assoc, @eq_comm _ words]

structure Note where
  tokenId : Fr254
  slotId : Fr254
  value : Fr254
  owner : Point
  salt : Fr254
deriving DecidableEq

def Note.commitment (note : Note) : Fr254 :=
  hashes.hash6 note.tokenId note.slotId note.value note.owner.x note.owner.y note.salt

def withdrawal (rootKey zkpPriv lambda : Fr254) (zkpPubKey : Point) (note : Note) (preimage : Fin 3 → Fr254)
    (path : Vector (Merkle.PathElement Fr254) depth) : StatementInputs where
  root := Merkle.computeRoot hashes.hash2 (note.commitment hashes) path.toList
  rootKey := rootKey
  zkpPriv := zkpPriv
  zkpPrivLambda := lambda
  ephemeralKey := 0
  feeTokenId := 0
  fee := 0
  nfAddress := 0
  nfSlotId := note.slotId
  nullifiersValues := ![note.value, 0, 0, 0]
  nullifiersSalts := ![note.salt, 0, 0, 0]
  publicKeys := ![note.owner, identity, identity, identity]
  membershipProofs := fun _ => path
  secretPreimages := fun _ => preimage
  commitmentsValues := fun _ => 0
  senderCommitmentSalts := fun _ => 0
  depositTokenIds := fun _ => 0
  depositSlotIds := fun _ => 0
  depositValues := fun _ => 0
  depositSecretHashes := fun _ => 0
  withdrawAddress := 1
  partyAPublicKey := zkpPubKey
  partyBPublicKey := identity
  nfTokenAId := note.tokenId
  valueA := note.value
  nfTokenBId := 0
  valueB := 0
  swapNonce := 0
  deadline := 0

def transfer (rootKey zkpPriv lambda ephemeralKey : Fr254) (zkpPubKey recipient : Point) (note : Note)
    (preimage : Fin 3 → Fr254) (path : Vector (Merkle.PathElement Fr254) depth) : StatementInputs :=
  { withdrawal hashes rootKey zkpPriv lambda zkpPubKey note preimage path with
    ephemeralKey := ephemeralKey
    withdrawAddress := 0
    partyBPublicKey := recipient }

section

variable {hashes : Hashes} {rootKey zkpPriv lambda ephemeralKey withdrawAddress : Fr254} {zkpPubKey recipient : Point}
  {note : Note} {preimage : Fin 3 → Fr254} {path : Vector (Merkle.PathElement Fr254) depth} {inp : StatementInputs}

section

-- Withdrawals and transfers spend the note alike: they differ in the three fields named here.
variable (isSpend : inp = { withdrawal hashes rootKey zkpPriv lambda zkpPubKey note preimage path with
  ephemeralKey := ephemeralKey, withdrawAddress := withdrawAddress, partyBPublicKey := recipient })

include isSpend

theorem spend_isSwap : isSwap inp = false := by
  simp [isSpend, isSwap, withdrawal]

theorem spend_balanced (range : note.value.val < 2 ^ 96) : Balanced inp zkpPubKey := by
  have zero : (0 : Fr254).val < 2 ^ 96 := by decide
  have value := transferValue_of_not_swap (spend_isSwap isSpend) zkpPubKey
  subst isSpend
  refine ⟨?_, ?_, ?_, zero, fun _ => zero, ?_, fun _ => zero, range, zero⟩
  · rw [value]
    simp [withdrawal]
  · simp [withdrawal]
  · rw [value]
    exact range
  · intro i
    fin_cases i
    · exact range
    all_goals exact zero

theorem spend_slotChecked (real : note.salt ≠ 0)
    (opened : isNeutral note.owner = true → hashes.hash3 (preimage 0) (preimage 1) (preimage 2) = note.salt)
    (i : Fin 4) : SlotChecked hashes inp zkpPubKey i := by
  subst isSpend
  by_cases first : i = 0
  · subst first
    exact ⟨fun dummy => absurd dummy real, fun _ => rfl, fun _ neutral => opened neutral⟩
  · fin_cases i
    · exact absurd rfl first
    all_goals exact SlotChecked.of_dummy rfl rfl

theorem spend_modeChecks (real : note.salt ≠ 0) (used : withdrawAddress = 0 → ephemeralKey ≠ 0) :
    modeChecks inp zkpPubKey = .ok () := by
  subst isSpend
  rw [modeChecks_eq_ok]
  constructor
  · exact fun modes => used (by simpa [withdrawFlag] using modes.2)
  · exact fun _ => rfl
  · exact fun _ => rfl
  · simp [isPartyA, withdrawal]
  · exact fun deposit => absurd (of_decide_eq_true deposit) real
  · exact fun _ _ => ⟨rfl, rfl, rfl, rfl⟩

theorem spend_duplicates (salt : Fr254) :
    verifyDuplicates (nullifierOut hashes inp zkpPubKey) (verifyCommitments hashes inp zkpPubKey salt) = .ok () := by
  have later : ∀ i : Fin 4, 0 < i →
      nullifierOut hashes inp zkpPubKey i = 0 ∧ verifyCommitments hashes inp zkpPubKey salt i = 0 := by
    intro i later
    fin_cases i
    · exact absurd later (by decide)
    all_goals simp [nullifierOut, verifyCommitments, isSpend, withdrawal, cs]
  rw [verifyDuplicates_eq_ok]
  exact ⟨noDuplicates_of_first fun i after => (later i after).1, noDuplicates_of_first fun i after => (later i after).2⟩

end

variable (reduction : KeyReduction hashes rootKey zkpPriv lambda)
  (derived : mulByGenerator zkpPriv = .ok zkpPubKey) (range : note.value.val < 2 ^ 96) (real : note.salt ≠ 0)
  (opened : isNeutral note.owner = true → hashes.hash3 (preimage 0) (preimage 1) (preimage 2) = note.salt)
  (owned : (isNeutral note.owner || decide (note.value = 0)) = true ∨ zkpPubKey = note.owner)

include reduction derived range real opened owned

theorem spend_accepted {receiver : babyJubJub.Group} (member : subgroupOrder • receiver = 0)
    (isSpend : inp = { withdrawal hashes rootKey zkpPriv lambda zkpPubKey note preimage path with
      ephemeralKey := ephemeralKey, withdrawAddress := withdrawAddress, partyBPublicKey := receiver.point })
    (ephemeralRange : ephemeralKey.val < subgroupOrder) (used : withdrawAddress = 0 → ephemeralKey ≠ 0)
    (withdrawRange : withdrawAddress.val < 2 ^ 160)
    (neutral : withdrawAddress ≠ 0 → isNeutral receiver.point = true) :
    Accepted hashes inp zkpPubKey (ephemeralKey.val • receiver).point (ephemeralKey.val • generatorPoint).point := by
  have recipient := recipientPublicKey_of_not_swap (spend_isSwap isSpend) zkpPubKey
  have modes := spend_modeChecks isSpend real used
  have balance := spend_balanced isSpend range
  have slots := spend_slotChecked isSpend real opened
  have duplicates := spend_duplicates isSpend
  subst isSpend
  constructor
  · exact withdrawRange
  · simp only [withdrawal]
    decide
  · exact reduction
  · exact ephemeralRange
  · exact derived
  · exact modes
  · exact balance
  · intro i
    fin_cases i
    · exact owned
    all_goals exact Or.inl (by simp [withdrawal])
  · rw [recipient]
    exact (assertInSubgroup_eq_ok _ _).mpr ⟨receiver, rfl, member⟩
  · rw [recipient]
    exact scalarMul_eq ephemeralKey ephemeralRange.le receiver
  · exact mulByGenerator_eq ephemeralKey ephemeralRange.le
  · exact (ephemeralKey.val • receiver).onCurve
  · exact (ephemeralKey.val • generatorPoint).onCurve
  · exact slots
  · exact duplicates _
  · intro withdraws
    rw [recipient]
    exact neutral (of_decide_eq_true withdraws)
  · exact (swapChecks_eq_ok _ _ _).mpr (SwapChecked.of_no_swap rfl rfl _)

theorem withdrawal_accepted :
    Accepted hashes (withdrawal hashes rootKey zkpPriv lambda zkpPubKey note preimage path)
      zkpPubKey identity identity :=
  spend_accepted reduction derived range real opened owned (nsmul_zero _) rfl (by decide) (by decide) (by decide)
    (by decide)

theorem transfer_accepted {receiver : babyJubJub.Group} (member : subgroupOrder • receiver = 0)
    (ephemeralRange : ephemeralKey.val < subgroupOrder) (used : ephemeralKey ≠ 0) :
    Accepted hashes (transfer hashes rootKey zkpPriv lambda ephemeralKey zkpPubKey receiver.point note
      preimage path) zkpPubKey (ephemeralKey.val • receiver).point
      (ephemeralKey.val • generatorPoint).point :=
  spend_accepted reduction derived range real opened owned member rfl ephemeralRange (fun _ => used) (by decide)
    (absurd rfl)

end

theorem transfer_recipientPublicKey {rootKey zkpPriv lambda ephemeralKey : Fr254} {zkpPubKey recipient : Point}
    {note : Note} {preimage : Fin 3 → Fr254} {path : Vector (Merkle.PathElement Fr254) depth} (author : Point) :
    recipientPublicKey (transfer hashes rootKey zkpPriv lambda ephemeralKey zkpPubKey recipient note
      preimage path) author = recipient :=
  recipientPublicKey_of_not_swap (spend_isSwap rfl) author

end Nightfall.Noir
