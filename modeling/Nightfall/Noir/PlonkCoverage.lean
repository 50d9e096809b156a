import Nightfall.Noir.Delivery

/-! From the UltraHonk statement to the unified Plonk circuit: an accepted input gives an
assignment of the circuit with the same public words, as long as a transfer names its
recipient. -/

namespace Nightfall.Noir

variable (inp : StatementInputs) (partyA partyB : Point)

structure PlonkLibraries (hashes : Hashes) (prims : Plonk.Primitives) : Prop where
  hash2 : ∀ a b, prims.poseidonHash [a, b] = hashes.hash2 a b
  hash3 : ∀ a b c, prims.poseidonHash [a, b, c] = hashes.hash3 a b c
  hash4 : ∀ a b c d, prims.poseidonHash [a, b, c, d] = hashes.hash4 a b c d
  hash6 : ∀ a b c d e f, prims.poseidonHash [a, b, c, d, e, f] = hashes.hash6 a b c d e f
  sponge : ∀ inputs, prims.spongeHash inputs = sponge hashes inputs
  sha256 : ∀ inputs, prims.shiftedSha256 inputs = sha256Shift hashes inputs
  generator : prims.generator = generator
  eccAdd : ∀ p q : babyJubJub.Group, prims.eccAdd p.point q.point = (p + q).point
  scalarMul : ∀ (scalar : Fr254) (p : babyJubJub.Group), scalar.val < subgroupOrder →
    prims.scalarMul scalar p.point = (scalar.val • p).point

def KeyFits (p : Point) : Prop :=
  ∃ key : babyJubJub.Group, key.point = p ∧ (key = 0 ∨ 8 • key ≠ 0)

def KeysFit : Prop := ∀ i, KeyFits (inp.publicKeys i)

def RecipientNamed : Prop :=
  inp.nullifiersSalts 0 ≠ 0 → inp.withdrawAddress = 0 → inp.swapNonce = 0 → inp.partyBPublicKey ≠ identity

def PlonkCovers (prims : Plonk.Primitives) (words : List Fr254) : Prop :=
  ∃ a, Plonk.Satisfied prims a ∧ Plonk.publicWords prims a = words

def assignment : Plonk.Assignment :=
  { inp with
    depositData := fun i => ⟨inp.depositTokenIds i, inp.depositSlotIds i, inp.depositValues i,
      inp.depositSecretHashes i⟩
    partyAPublicKey := partyA
    partyBPublicKey := partyB
    zkpPrivateKey := inp.zkpPriv
    lambda := inp.zkpPrivLambda
    domainSharedSalt := domainSharedSalt
    domainKem := domainKem
    domainDem := domainDem
    demIndex := fun i => (i.val : Fr254) }

theorem nullifierPrefix_eq : Plonk.nullifierPrefix = nullifierPrefix := by decide

theorem privateKeyPrefix_eq : Plonk.privateKeyPrefix = privateKeyPrefix := by decide

theorem depositNullifierDomain_eq : Plonk.depositNullifierDomain = depositNullifierDomain := by decide

theorem swapDomain_eq : Plonk.swapDomain = swapDomain := by decide

theorem publicInputsTag_eq : Plonk.publicInputsTag = publicInputsFraming := by decide

theorem plonk_isNeutralPoint (p : Point) : Plonk.isNeutralPoint p = isNeutral p := rfl

theorem plonk_pointsEqual (p q : Point) : Plonk.pointsEqual p q = decide (p = q) := by
  simp [Plonk.pointsEqual, Edwards.Point.ext_iff]

def InSubgroup (p : Point) : Prop :=
  ∃ member : babyJubJub.Group, member.point = p ∧ subgroupOrder • member = 0

theorem cofactor_injective {p : babyJubJub.Group} (member : subgroupOrder • p = 0) (cleared : 8 • p = 0) : p = 0 := by
  have split : subgroupOrder = 8 * (subgroupOrder / 8) + 1 := by decide
  rw [split, add_nsmul, one_nsmul, mul_nsmul, cleared, nsmul_zero, zero_add] at member
  exact member

theorem nsmul_generator_inSubgroup (scalar : ℕ) : InSubgroup (scalar • generatorPoint).point := by
  refine ⟨scalar • generatorPoint, rfl, ?_⟩
  rw [nsmul_left_comm, subgroupOrder_nsmul_generator, nsmul_zero]

theorem generator_ne_identity : generator ≠ identity := by decide

theorem plonk_isSwap : Plonk.isSwap (assignment inp partyA partyB) = isSwap inp := decide_not.symm

theorem plonk_withdrawFlag : Plonk.withdrawFlag (assignment inp partyA partyB) = withdrawFlag inp := decide_not.symm

structure Selected (prims : Plonk.Primitives) (a : Plonk.Assignment) (inp : StatementInputs)
    (zkpPubKey : Point) : Prop where
  key : Plonk.zkpPubKey prims a = zkpPubKey
  token : Plonk.nfTokenId prims a = nfTokenId inp zkpPubKey
  value : Plonk.transferValue prims a = transferValue inp zkpPubKey

structure PartyGates (prims : Plonk.Primitives) (a : Plonk.Assignment) : Prop where
  partyA : Plonk.SubgroupGate prims a.partyAPublicKey
  partyB : Plonk.isNeutralPoint a.partyBPublicKey = Plonk.withdrawFlag a ∧
    Plonk.isNeutralPoint (Plonk.timesEight prims a.partyBPublicKey) = Plonk.withdrawFlag a
  author : a.swapNonce = 0 → a.nullifiersSalts 0 ≠ 0 → Plonk.isPartyA prims a = true
  swap : a.swapNonce ≠ 0 → ¬ Plonk.isNeutralPoint a.partyAPublicKey = true ∧
    ¬ Plonk.isNeutralPoint a.partyBPublicKey = true ∧ ¬ Plonk.pointsEqual a.partyAPublicKey a.partyBPublicKey = true ∧
    Plonk.isPartyA prims a ≠ Plonk.isPartyB prims a
  commitments : NoDuplicates (Plonk.verifyCommitments prims a)
  recipient : Plonk.isNeutralPoint (Plonk.recipientPublicKey prims a) = Plonk.withdrawFlag a

theorem orGate_of_noDuplicates {entries : Fin 4 → Fr254} (distinct : NoDuplicates entries) (i j : Fin 4)
    (before : i < j) : Plonk.OrGate (decide (entries j = 0)) (!decide (entries j = entries i)) := by
  rw [Plonk.orGate_iff, decide_eq_true_eq, Bool.not_eq_true', decide_eq_false_iff_not]
  exact distinct i j before

section

variable {hashes : Hashes} {prims : Plonk.Primitives} (same : PlonkLibraries hashes prims)

include same

theorem timesEight_eq (p : babyJubJub.Group) : Plonk.timesEight prims p.point = (8 • p).point := by
  have eight : 8 • p = p + p + (p + p) + (p + p + (p + p)) := by
    rw [← two_nsmul, ← two_nsmul, ← two_nsmul, ← mul_nsmul, ← mul_nsmul]
  rw [Plonk.timesEight, eight]
  simp only [same.eccAdd]

theorem timesEight_neutral {p : Point} (member : InSubgroup p) :
    Plonk.isNeutralPoint (Plonk.timesEight prims p) = isNeutral p := by
  obtain ⟨point, rfl, order⟩ := member
  rw [timesEight_eq same, plonk_isNeutralPoint, Bool.eq_iff_iff, isNeutral_iff, isNeutral_iff]
  constructor
  · intro cleared
    have zero := cofactor_injective order (Edwards.Curve.Group.ext cleared)
    rw [zero]
    rfl
  · intro neutral
    have zero : point = 0 := Edwards.Curve.Group.ext neutral
    rw [zero, nsmul_zero]
    rfl

theorem subgroupGate_of_inSubgroup {p : Point} (member : InSubgroup p) : Plonk.SubgroupGate prims p := by
  rw [Plonk.subgroupGate_iff, ← Plonk.isNeutralPoint_iff, ← Plonk.isNeutralPoint_iff, timesEight_neutral same member]
  exact id

theorem subgroupGate_of_keysFit {inp : StatementInputs} (keys : KeysFit inp) (i : Fin 4) :
    Plonk.SubgroupGate prims (inp.publicKeys i) := by
  obtain ⟨key, isKey, fits⟩ := keys i
  rw [← isKey, Plonk.subgroupGate_iff, timesEight_eq same]
  intro cleared
  have zero : 8 • key = 0 := Edwards.Curve.Group.ext cleared
  rw [fits.resolve_right (absurd zero)]
  rfl

variable {inp : StatementInputs} {partyA partyB zkpPubKey sharedSecret epk : Point}

theorem plonk_slotCommitment (selected : Selected prims (assignment inp partyA partyB) inp zkpPubKey) (i : Fin 4) :
    Plonk.slotCommitment prims (assignment inp partyA partyB) i = slotCommitment hashes inp zkpPubKey i := by
  rw [Plonk.slotCommitment, same.hash6, Plonk.slotTokenId, selected.token]
  rfl

theorem plonk_nullifierOut (selected : Selected prims (assignment inp partyA partyB) inp zkpPubKey) :
    Plonk.nullifierOut prims (assignment inp partyA partyB) = nullifierOut hashes inp zkpPubKey := by
  funext i
  rw [Plonk.nullifierOut, Plonk.slotNullifier, same.hash2, plonk_slotCommitment same selected,
    Plonk.nullifierKey, same.hash2, Plonk.depositNullifierKey, same.hash4, nullifierPrefix_eq,
    depositNullifierDomain_eq]
  rfl

theorem plonk_depositCommitment (i : Fin 4) :
    Plonk.depositCommitment prims ((assignment inp partyA partyB).depositData i) =
      depositCommitment hashes inp i := by
  rw [Plonk.depositCommitment, same.hash6]
  rfl

theorem plonk_depositPublicData :
    Plonk.depositPublicData prims (assignment inp partyA partyB) = depositPublicData hashes inp := by
  funext i
  simp only [Plonk.depositPublicData, same.sha256]
  rfl

variable (accepted : Accepted hashes inp zkpPubKey sharedSecret epk)

include accepted

theorem plonk_zkpPubKey : Plonk.zkpPubKey prims (assignment inp partyA partyB) = zkpPubKey := by
  rw [Plonk.zkpPubKey, same.generator]
  apply (same.scalarMul inp.zkpPriv generatorPoint accepted.reduction.scalar).trans
  exact Except.ok.inj ((mulByGenerator_eq _ accepted.reduction.scalar.le).symm.trans accepted.publicKey)

theorem satisfied_of_parties
    (keys : KeysFit inp) (selected : Selected prims (assignment inp partyA partyB) inp zkpPubKey)
    (parties : PartyGates prims (assignment inp partyA partyB)) :
    Plonk.Satisfied prims (assignment inp partyA partyB) := by
  have modes := (modeChecks_eq_ok _ _ _).mp accepted.modes
  have swap := (swapChecks_eq_ok _ _ _).mp accepted.swap
  have noSwap : Plonk.isZero inp.swapNonce = true → isSwap inp = false := by
    intro zero
    simp [isSwap, (Plonk.isZero_iff _).mp zero]
  have node : Plonk.nodeHash prims = hashes.hash2 := by
    funext left right
    exact same.hash2 left right
  exact {
    publicKeyGate := subgroupGate_of_keysFit same keys
    partyAGate := parties.partyA
    partyBGate := (Plonk.partyBGate_iff _ _ _).mpr parties.partyB
    withdrawRange := accepted.withdrawRange
    addressRange := accepted.addressRange
    reductionGate := by
      rw [Plonk.frZkpPrivKey, same.hash2, privateKeyPrefix_eq, mul_comm]
      exact accepted.reduction.digest
    privateKeyRange := accepted.reduction.scalar
    lambdaRange := accepted.reduction.quotient
    tokenBGate := (Plonk.flag_mul_eq_zero _ _).mpr fun zero => modes.tokenB (noSwap zero)
    valueBGate := (Plonk.flag_mul_eq_zero _ _).mpr fun zero => modes.valueB (noSwap zero)
    authorGate := by
      rw [Plonk.flag_eq_zero, Bool.and_eq_false_imp, Bool.and_eq_true, Plonk.isZero_iff,
        Bool.not_eq_true', Bool.not_eq_false']
      rintro ⟨zero, spends⟩
      exact parties.author zero ((Plonk.isZero_eq_false _).mp spends)
    balanceGate := by
      rw [selected.value]
      simp only [assignment]
      linear_combination accepted.balance.value
    feeBalanceGate := by
      simp only [assignment]
      linear_combination accepted.balance.fee
    valueRange := by
      rw [selected.value]
      exact accepted.balance.valueRange
    feeRange := accepted.balance.feeRange
    changeRange := accepted.balance.changeRange
    ownershipGate := by
      intro i
      rw [Plonk.orGate_iff, selected.key, Plonk.pointsEqual_iff]
      exact accepted.ownership i
    swapPartyAGate := (Plonk.swapGate_iff _ _).mpr fun nonce => (parties.swap nonce).1
    swapPartyBGate := (Plonk.swapGate_iff _ _).mpr fun nonce => (parties.swap nonce).2.1
    swapDistinctGate := (Plonk.swapGate_iff _ _).mpr fun nonce => (parties.swap nonce).2.2.1
    swapNonceRange := swap.nonceRange
    deadlineRange := swap.deadlineRange
    deadlineGate := (Plonk.flag_mul_eq_zero _ _).mpr fun zero => swap.deadline (noSwap zero)
    roleGate := by
      rw [Plonk.roleGate_iff, Plonk.isSwap_iff]
      exact fun nonce => (parties.swap nonce).2.2.2
    swapWithdrawGate := by
      rw [Plonk.swapGate_iff, Bool.not_eq_true, Plonk.withdrawFlag, Bool.not_eq_false', Plonk.isZero_iff]
      intro nonce
      have noWithdrawal := swap.noWithdrawal (decide_eq_true nonce)
      exact not_not.mp (of_decide_eq_false noWithdrawal)
    membershipGate := by
      intro i
      rw [Plonk.membershipGate_iff, Plonk.calcRoot, plonk_slotCommitment same selected, node]
      exact (accepted.slots i).member
    saltGate := by
      intro i
      rw [Plonk.saltGate_iff, Plonk.secretHash, same.hash3]
      exact (accepted.slots i).salt
    nullifiersDistinct := by
      rw [plonk_nullifierOut same selected]
      exact orGate_of_noDuplicates ((verifyDuplicates_eq_ok _ _ _).mp accepted.duplicates).1
    commitmentsDistinct := orGate_of_noDuplicates parties.commitments
    recipientGate := (Plonk.recipientGate_iff _ _).mpr parties.recipient }

section

variable (deposits : inp.nullifiersSalts 0 = 0)

include deposits

omit same in
theorem deposit_empty :
    (∀ i, inp.commitmentsValues i = 0) ∧ inp.fee = 0 ∧ inp.withdrawAddress = 0 ∧ inp.swapNonce = 0 := by
  have modes := (modeChecks_eq_ok _ _ _).mp accepted.modes
  obtain ⟨salts, noWithdrawal, noSwap⟩ := modes.deposit (decide_eq_true deposits)
  have spent : ∀ i, (inp.nullifiersValues i).val = 0 := by
    intro i
    rw [(accepted.slots i).dummy (salts i), ZMod.val_zero]
  have balance := accepted.balance
  have value := val_add_eq_of_lt balance.value balance.valueRange (balance.changeRange 0)
    (balance.spentRange 0) (balance.spentRange 1)
  have fee := val_add_eq_of_lt balance.fee balance.feeRange (balance.changeRange 1)
    (balance.spentRange 2) (balance.spentRange 3)
  rw [spent, spent] at value fee
  refine ⟨?_, (ZMod.val_eq_zero _).mp (by omega), noWithdrawal, noSwap⟩
  rw [Fin.forall_fin_two]
  exact ⟨(ZMod.val_eq_zero _).mp (by omega), (ZMod.val_eq_zero _).mp (by omega)⟩

theorem deposit_covered (keys : KeysFit inp) :
    PlonkCovers prims (publicInputs hashes inp zkpPubKey sharedSecret epk).words := by
  obtain ⟨noChange, noFee, noWithdrawal, noSwap⟩ := deposit_empty accepted deposits
  have plainSwap : isSwap inp = false := by simp [isSwap, noSwap]
  have zeroNonce : Plonk.isSwap (assignment inp generator generator) = false := by
    rw [plonk_isSwap, plainSwap]
  have withdraws : Plonk.withdrawFlag (assignment inp generator generator) = false := by
    simp [plonk_withdrawFlag, withdrawFlag, noWithdrawal]
  have member : InSubgroup generator := by
    have once := nsmul_generator_inSubgroup 1
    rwa [one_nsmul] at once
  have usable : isNeutral generator = false := by decide
  have recipient : Plonk.recipientPublicKey prims (assignment inp generator generator) = generator := by
    simp only [Plonk.recipientPublicKey, zeroNonce, Plonk.conditionalSelect_false]
    rfl
  have selected : Selected prims (assignment inp generator generator) inp zkpPubKey := by
    refine ⟨plonk_zkpPubKey same accepted, ?_, ?_⟩
    · rw [nfTokenId_of_not_swap plainSwap]
      simp only [Plonk.nfTokenId, zeroNonce, Plonk.conditionalSelect_false]
      rfl
    · rw [transferValue_of_not_swap plainSwap]
      simp only [Plonk.transferValue, zeroNonce, Plonk.conditionalSelect_false]
      rfl
  have parties : PartyGates prims (assignment inp generator generator) := by
    constructor
    · exact subgroupGate_of_inSubgroup same member
    · rw [withdraws]
      exact ⟨usable, (timesEight_neutral same member).trans usable⟩
    · exact fun _ spends => absurd deposits spends
    · exact fun nonce => absurd noSwap nonce
    · have noChanges : ∀ i, (assignment inp generator generator).commitmentsValues i = 0 := noChange
      have noFees : (assignment inp generator generator).fee = 0 := noFee
      apply noDuplicates_of_first
      intro i later
      fin_cases i
      · exact absurd later (Fin.not_lt_zero 0)
      all_goals simp [Plonk.verifyCommitments, Plonk.isZero, noChanges, noFees]
    · rw [recipient, withdraws]
      exact usable
  refine ⟨_, satisfied_of_parties same accepted keys selected parties, ?_⟩
  have mode : Plonk.isDeposit (assignment inp generator generator) = true :=
    (Plonk.isZero_iff _).mpr deposits
  have noirMode : isDeposit inp = true := decide_eq_true deposits
  simp [Plonk.publicWords, Plonk.PublicInputs.words, PublicInputs.words, Plonk.publicInputs,
    publicInputs, mode, noirMode, cs, plonk_depositCommitment same, plonk_depositPublicData same, publicInputsTag_eq]

end

variable (spends : inp.nullifiersSalts 0 ≠ 0)

omit same

theorem author_inSubgroup : InSubgroup zkpPubKey := by
  rw [← Except.ok.inj ((mulByGenerator_eq _ accepted.reduction.scalar.le).symm.trans accepted.publicKey)]
  exact nsmul_generator_inSubgroup _

theorem recipient_inSubgroup : InSubgroup (recipientPublicKey inp zkpPubKey) :=
  (assertInSubgroup_eq_ok _ _).mp accepted.recipient

theorem swap_role (swaps : isSwap inp = true) : isPartyA inp zkpPubKey = !isPartyB inp zkpPubKey := by
  have swap := (swapChecks_eq_ok _ _ _).mp accepted.swap
  have role := swap.role swaps
  have distinct := swap.distinct swaps
  simp only [isPartyA, isPartyB, Bool.or_eq_true, decide_eq_true_eq] at role ⊢
  rcases role with partyA | partyB
  · rw [decide_eq_true partyA, decide_eq_false (fun partyB => distinct (partyA.symm.trans partyB))]
    rfl
  · rw [decide_eq_true partyB, decide_eq_false (fun partyA => distinct (partyA.symm.trans partyB))]
    rfl

include spends

theorem parties_inSubgroup : InSubgroup inp.partyAPublicKey ∧ InSubgroup inp.partyBPublicKey := by
  have author := author_inSubgroup accepted
  have recipient := recipient_inSubgroup accepted
  have modes := (modeChecks_eq_ok _ _ _).mp accepted.modes
  cases swaps : isSwap inp
  · have partyA : zkpPubKey = inp.partyAPublicKey :=
      of_decide_eq_true (modes.author ⟨swaps, decide_eq_false spends⟩)
    rw [recipientPublicKey_of_not_swap swaps] at recipient
    exact ⟨partyA ▸ author, recipient⟩
  · have role := swap_role accepted swaps
    cases partyB : isPartyB inp zkpPubKey
    · rw [partyB] at role
      have partyA : zkpPubKey = inp.partyAPublicKey := of_decide_eq_true role
      simp only [recipientPublicKey, isPartyBSwap, swaps, partyB, Bool.and_false, Bool.false_eq_true,
        if_false] at recipient
      exact ⟨partyA ▸ author, recipient⟩
    · have isAuthor : zkpPubKey = inp.partyBPublicKey := of_decide_eq_true partyB
      simp only [recipientPublicKey, isPartyBSwap, swaps, partyB, Bool.and_true, if_true] at recipient
      exact ⟨recipient, isAuthor ▸ author⟩

theorem partyB_neutral (named : RecipientNamed inp) : isNeutral inp.partyBPublicKey = withdrawFlag inp := by
  have swap := (swapChecks_eq_ok _ _ _).mp accepted.swap
  cases swaps : isSwap inp
  · have noNonce : inp.swapNonce = 0 := not_not.mp (of_decide_eq_false swaps)
    cases withdraws : withdrawFlag inp
    · have noWithdrawal : inp.withdrawAddress = 0 := not_not.mp (of_decide_eq_false withdraws)
      rw [Bool.eq_false_iff, ne_eq, isNeutral_iff]
      exact named spends noWithdrawal noNonce
    · have neutral := accepted.withdrawal withdraws
      rwa [recipientPublicKey_of_not_swap swaps] at neutral
  · rw [swap.partyB swaps, swap.noWithdrawal swaps]

theorem recipient_neutral (named : RecipientNamed inp) :
    isNeutral (recipientPublicKey inp zkpPubKey) = withdrawFlag inp := by
  have swap := (swapChecks_eq_ok _ _ _).mp accepted.swap
  cases swaps : isSwap inp
  · rw [recipientPublicKey_of_not_swap swaps]
    exact partyB_neutral accepted spends named
  · rw [swap.noWithdrawal swaps, recipientPublicKey]
    split
    · exact swap.partyA swaps
    · exact swap.partyB swaps

omit accepted spends in
theorem select_role {swaps partyA partyB : Bool} (role : swaps = true → partyA = !partyB) (x y : Fr254) :
    Plonk.conditionalSelect swaps x (Plonk.conditionalSelect partyA y x) = cs (swaps && partyB) x y := by
  cases swaps
  · rfl
  · rw [role rfl]
    cases partyB
    · rfl
    · rfl

omit spends

include same

theorem plonk_isPartyA : Plonk.isPartyA prims
    (assignment inp inp.partyAPublicKey inp.partyBPublicKey) = isPartyA inp zkpPubKey := by
  rw [Plonk.isPartyA, plonk_zkpPubKey same accepted, plonk_pointsEqual]
  rfl

theorem plonk_isPartyB : Plonk.isPartyB prims
    (assignment inp inp.partyAPublicKey inp.partyBPublicKey) = isPartyB inp zkpPubKey := by
  rw [Plonk.isPartyB, plonk_zkpPubKey same accepted, plonk_pointsEqual]
  rfl

theorem spend_selected : Selected prims (assignment inp inp.partyAPublicKey inp.partyBPublicKey) inp zkpPubKey := by
  refine ⟨plonk_zkpPubKey same accepted, ?_, ?_⟩
  · rw [Plonk.nfTokenId, plonk_isPartyA same accepted, plonk_isSwap, select_role (swap_role accepted)]
    rfl
  · rw [Plonk.transferValue, plonk_isPartyA same accepted, plonk_isSwap, select_role (swap_role accepted)]
    rfl

theorem plonk_recipientPublicKey : Plonk.recipientPublicKey prims
    (assignment inp inp.partyAPublicKey inp.partyBPublicKey) = recipientPublicKey inp zkpPubKey := by
  rw [Plonk.recipientPublicKey, plonk_isPartyA same accepted, plonk_isSwap,
    select_role (swap_role accepted), select_role (swap_role accepted), recipientPublicKey, isPartyBSwap]
  cases isSwap inp && isPartyB inp zkpPubKey
  · rfl
  · rfl

theorem plonk_sharedSecret : Plonk.sharedSecret prims
    (assignment inp inp.partyAPublicKey inp.partyBPublicKey) = sharedSecret := by
  obtain ⟨point, isPoint, _⟩ := recipient_inSubgroup accepted
  have secret := accepted.secret
  rw [← isPoint, scalarMul_eq _ accepted.ephemeralRange.le] at secret
  rw [Plonk.sharedSecret, plonk_recipientPublicKey same accepted, ← isPoint]
  exact (same.scalarMul _ _ accepted.ephemeralRange).trans (Except.ok.inj secret)

theorem plonk_epk : Plonk.epk prims (assignment inp inp.partyAPublicKey inp.partyBPublicKey) = epk := by
  rw [Plonk.epk, same.generator]
  apply (same.scalarMul inp.ephemeralKey generatorPoint accepted.ephemeralRange).trans
  exact Except.ok.inj ((mulByGenerator_eq _ accepted.ephemeralRange.le).symm.trans accepted.ephemeral)

theorem plonk_verifyCommitments :
    Plonk.verifyCommitments prims (assignment inp inp.partyAPublicKey inp.partyBPublicKey) =
      verifyCommitments hashes inp zkpPubKey (sharedSalt hashes sharedSecret) := by
  have selected := spend_selected same accepted
  simp only [Plonk.verifyCommitments, Plonk.sharedSalt, same.hash6, same.hash3, selected.key,
    selected.token, selected.value, plonk_recipientPublicKey same accepted,
    plonk_sharedSecret same accepted, plonk_withdrawFlag]
  rfl

theorem plonk_verifyEncryption :
    Plonk.verifyEncryption prims (assignment inp inp.partyAPublicKey inp.partyBPublicKey) =
      verifyEncryption hashes inp zkpPubKey sharedSecret epk := by
  have selected := spend_selected same accepted
  have parity : ∀ x, Plonk.flag (Plonk.xParity x) = xParity x := by
    intro x
    simp [Plonk.flag, Plonk.xParity, xParity]
  simp only [Plonk.verifyEncryption, Plonk.demCipher, Plonk.encryptionKey, same.hash3, selected.token,
    selected.value, plonk_sharedSecret same accepted, plonk_epk same accepted, parity, plonk_withdrawFlag]
  rfl

include spends

theorem spend_words : Plonk.publicWords prims (assignment inp inp.partyAPublicKey inp.partyBPublicKey) =
      (publicInputs hashes inp zkpPubKey sharedSecret epk).words := by
  have mode : Plonk.isDeposit (assignment inp inp.partyAPublicKey inp.partyBPublicKey) = false :=
    (Plonk.isZero_eq_false _).mpr spends
  have noirMode : isDeposit inp = false := decide_eq_false spends
  have link : Plonk.computedSwapLink prims
      (assignment inp inp.partyAPublicKey inp.partyBPublicKey) = swapLink hashes inp := by
    rw [Plonk.computedSwapLink, same.sponge, swapDomain_eq]
    rfl
  simp only [Plonk.publicWords, Plonk.PublicInputs.words, PublicInputs.words, Plonk.publicInputs,
    publicInputs, mode, noirMode, plonk_verifyCommitments same accepted,
    plonk_nullifierOut same (spend_selected same accepted), plonk_verifyEncryption same accepted,
    plonk_isSwap, plonk_isPartyA same accepted, link, publicInputsTag_eq]
  rfl

theorem spend_covered (keys : KeysFit inp) (named : RecipientNamed inp) :
    PlonkCovers prims (publicInputs hashes inp zkpPubKey sharedSecret epk).words := by
  have swap := (swapChecks_eq_ok _ _ _).mp accepted.swap
  have modes := (modeChecks_eq_ok _ _ _).mp accepted.modes
  obtain ⟨memberA, memberB⟩ := parties_inSubgroup accepted spends
  have neutralB := partyB_neutral accepted spends named
  have parties : PartyGates prims (assignment inp inp.partyAPublicKey inp.partyBPublicKey) := by
    constructor
    · exact subgroupGate_of_inSubgroup same memberA
    · rw [plonk_withdrawFlag]
      exact ⟨neutralB, (timesEight_neutral same memberB).trans neutralB⟩
    · intro noNonce _
      rw [plonk_isPartyA same accepted]
      exact modes.author ⟨decide_eq_false (not_not.mpr noNonce), decide_eq_false spends⟩
    · intro nonce
      have swaps : isSwap inp = true := decide_eq_true nonce
      rw [plonk_isPartyA same accepted, plonk_isPartyB same accepted, Plonk.pointsEqual_iff, swap_role accepted swaps]
      refine ⟨Bool.not_eq_true _ ▸ swap.partyA swaps, Bool.not_eq_true _ ▸ swap.partyB swaps, swap.distinct swaps, ?_⟩
      cases isPartyB inp zkpPubKey
      · decide
      · decide
    · rw [plonk_verifyCommitments same accepted]
      exact ((verifyDuplicates_eq_ok _ _ _).mp accepted.duplicates).2
    · rw [plonk_recipientPublicKey same accepted, plonk_withdrawFlag]
      exact recipient_neutral accepted spends named
  exact ⟨_, satisfied_of_parties same accepted keys (spend_selected same accepted) parties,
    spend_words same accepted spends⟩

end

end Nightfall.Noir
