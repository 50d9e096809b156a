import Nightfall.Plonk.SwapAtomicity
import Nightfall.Plonk.Spending

/-! The two legs of a swap. The link is a hash over the terms as both parties see
them, and the role gate lets each prover act for one party only, so two legs of one
link and of opposite sides exchange the two agreed amounts. -/

namespace Nightfall.Plonk

open Contract (Environment Call State Block)

structure SwapAgreement where
  partyA : Point
  partyB : Point
  tokenA : Fr254
  valueA : Fr254
  tokenB : Fr254
  valueB : Fr254
  nonce : Fr254
deriving DecidableEq

def Assignment.agreement (a : Assignment) : SwapAgreement :=
  ⟨a.partyAPublicKey, a.partyBPublicKey, a.nfTokenAId, a.valueA, a.nfTokenBId, a.valueB, a.swapNonce⟩

def SwapAgreement.words (terms : SwapAgreement) : List Fr254 :=
  [swapDomain, terms.partyA.x, terms.partyA.y, terms.partyB.x, terms.partyB.y, terms.tokenA,
    terms.valueA, terms.tokenB, terms.valueB, terms.nonce]

theorem SwapAgreement.words_injective : Function.Injective SwapAgreement.words := by
  rintro ⟨⟨_, _⟩, ⟨_, _⟩, _, _, _, _, _⟩ ⟨⟨_, _⟩, ⟨_, _⟩, _, _, _, _, _⟩ same
  obtain ⟨rfl, rfl, rfl, rfl, rfl, rfl, rfl, rfl, rfl⟩ := same
  rfl

/-- One leg: its author spends `value` of `token`, change apart, and commitment 0 is a
note of that token and value under the recipient's key. -/
structure Leg (prims : Primitives) (a : Assignment) (author recipient : Point) (token value : Fr254) : Prop where
  authored : zkpPubKey prims a = author
  spent : slotTokenId prims a 0 = token ∧ slotTokenId prims a 1 = token ∧
    value + a.commitmentsValues 0 = a.nullifiersValues 0 + a.nullifiersValues 1
  committed : ∃ slotId salt, (publicInputs prims a).commitments 0 =
    Note.commitment prims ⟨token, slotId, value, recipient, salt⟩

section

variable {prims : Primitives} {a : Assignment}

theorem publicInputs_swapLink (spends : a.nullifiersSalts 0 ≠ 0) :
    (publicInputs prims a).swapLink = if a.swapNonce = 0 then 0 else prims.spongeHash a.agreement.words := by
  by_cases transfers : a.swapNonce = 0
  · simp [publicInputs, isSwap, isZero, transfers]
  · simp [publicInputs, isDeposit, isSwap, isZero, transfers, spends, computedSwapLink,
      SwapAgreement.words, Assignment.agreement]

variable (satisfied : Satisfied prims a) (spends : a.nullifiersSalts 0 ≠ 0) (swaps : a.swapNonce ≠ 0)

include spends swaps in
theorem publicInputs_swapSide : (publicInputs prims a).swapSide = flag (isPartyA prims a) := by
  simp [publicInputs, isDeposit, isSwap, isZero, swaps, spends]

include satisfied swaps

theorem swap_transfers : a.withdrawAddress = 0 := by
  have gate := (swapGate_iff a (withdrawFlag a)).mp satisfied.swapWithdrawGate swaps
  rwa [withdrawFlag, Bool.not_eq_true', isZero_eq_false, not_not] at gate

theorem swap_role : isPartyA prims a ≠ isPartyB prims a :=
  (roleGate_iff _ _ _).mp satisfied.roleGate ((isSwap_iff a).mpr swaps)

theorem leg_of_role (spends : a.nullifiersSalts 0 ≠ 0) {author recipient : Point}
    {token value : Fr254} (authored : zkpPubKey prims a = author)
    (recipientKey : recipientPublicKey prims a = recipient) (tokenId : nfTokenId prims a = token)
    (amount : transferValue prims a = value) : Leg prims a author recipient token value where
  authored := authored
  spent := ⟨tokenId, tokenId, amount ▸ satisfied.balance⟩
  committed := by
    refine ⟨a.nfSlotId, sharedSalt prims a, ?_⟩
    rw [transfer_commitment (swap_transfers satisfied swaps) spends, recipientKey, tokenId, amount]
    rfl

theorem leg_partyA (spends : a.nullifiersSalts 0 ≠ 0) (role : isPartyA prims a = true) :
    Leg prims a a.partyAPublicKey a.partyBPublicKey a.nfTokenAId a.valueA := by
  have selected := (isSwap_iff a).mpr swaps
  apply leg_of_role satisfied swaps spends
  · exact (pointsEqual_iff _ _).mp role
  · simp [recipientPublicKey, selected, role]
  · simp [nfTokenId, selected, role]
  · simp [transferValue, selected, role]

theorem leg_partyB (spends : a.nullifiersSalts 0 ≠ 0) (role : isPartyA prims a = false) :
    Leg prims a a.partyBPublicKey a.partyAPublicKey a.nfTokenBId a.valueB := by
  have selected := (isSwap_iff a).mpr swaps
  have other : isPartyB prims a = true := by
    have exclusive := swap_role satisfied swaps
    rw [role] at exclusive
    exact Bool.eq_true_of_not_eq_false exclusive.symm
  apply leg_of_role satisfied swaps spends
  · exact (pointsEqual_iff _ _).mp other
  · simp [recipientPublicKey, selected, role]
  · simp [nfTokenId, selected, role]
  · simp [transferValue, selected, role]

end

/-- The transaction is one side's half of the agreement, and publishes that side. -/
def SwapAgreement.Half (prims : Primitives) (terms : SwapAgreement) (a : Assignment) : Prop :=
  ((publicInputs prims a).swapSide = 1 ∧ Leg prims a terms.partyA terms.partyB terms.tokenA terms.valueA) ∨
    ((publicInputs prims a).swapSide = 0 ∧ Leg prims a terms.partyB terms.partyA terms.tokenB terms.valueB)

section

variable {prims : Primitives} {a b : Assignment} (linked : (publicInputs prims a).swapLink ≠ 0)
include linked

theorem linked_swaps : a.nullifiersSalts 0 ≠ 0 ∧ a.swapNonce ≠ 0 := by
  have spends : a.nullifiersSalts 0 ≠ 0 := by
    intro zero
    exact linked (by simp [publicInputs, isDeposit, isZero, zero])
  refine ⟨spends, ?_⟩
  intro zero
  rw [publicInputs_swapLink spends, if_pos zero] at linked
  exact linked rfl

theorem linked_swapLink : (publicInputs prims a).swapLink = prims.spongeHash a.agreement.words := by
  obtain ⟨spends, swaps⟩ := linked_swaps linked
  rw [publicInputs_swapLink spends, if_neg swaps]

theorem linked_half (satisfied : Satisfied prims a) : a.agreement.Half prims a := by
  obtain ⟨spends, swaps⟩ := linked_swaps linked
  rw [SwapAgreement.Half, publicInputs_swapSide spends swaps, flag_eq_one, flag_eq_zero]
  cases role : isPartyA prims a with
  | true => exact Or.inl ⟨rfl, leg_partyA satisfied swaps spends role⟩
  | false => exact Or.inr ⟨rfl, leg_partyB satisfied swaps spends role⟩

theorem agreement_of_link (sameLink : (publicInputs prims b).swapLink = (publicInputs prims a).swapLink)
    (injective : Set.InjOn prims.spongeHash {a.agreement.words, b.agreement.words}) :
    b.agreement = a.agreement := by
  apply SwapAgreement.words_injective
  apply injective (by simp) (by simp)
  rw [← linked_swapLink linked, ← sameLink, linked_swapLink (sameLink ▸ linked)]

end

/-- Two legs of one link and of opposite sides: the same terms, and what each side
gives is what the other receives. -/
theorem swap_legs_match (prims : Primitives) (a b : Assignment) (satisfiedA : Satisfied prims a)
    (satisfiedB : Satisfied prims b) (linked : (publicInputs prims a).swapLink ≠ 0)
    (sameLink : (publicInputs prims b).swapLink = (publicInputs prims a).swapLink)
    (sideA : (publicInputs prims a).swapSide = 1) (sideB : (publicInputs prims b).swapSide = 0)
    (injective : Set.InjOn prims.spongeHash {a.agreement.words, b.agreement.words}) :
    b.agreement = a.agreement ∧ Leg prims a a.partyAPublicKey a.partyBPublicKey a.nfTokenAId a.valueA ∧
      Leg prims b a.partyBPublicKey a.partyAPublicKey a.nfTokenBId a.valueB := by
  have terms := agreement_of_link linked sameLink injective
  obtain ⟨spendsA, swapsA⟩ := linked_swaps linked
  have linkedB : (publicInputs prims b).swapLink ≠ 0 := sameLink ▸ linked
  rw [publicInputs_swapSide spendsA swapsA, flag_eq_one] at sideA
  have half := linked_half linkedB satisfiedB
  rw [SwapAgreement.Half, sideB, terms] at half
  refine ⟨terms, leg_partyA satisfiedA swapsA spendsA sideA, ?_⟩
  rcases half with ⟨one, _⟩ | ⟨_, leg⟩
  · exact absurd one zero_ne_one
  · exact leg

def Assignment.mirror (a : Assignment) : Assignment :=
  { a with
    partyAPublicKey := a.partyBPublicKey
    partyBPublicKey := a.partyAPublicKey
    nfTokenAId := a.nfTokenBId
    valueA := a.valueB
    nfTokenBId := a.nfTokenAId
    valueB := a.valueA }

section

variable {prims : Primitives} {a : Assignment} (satisfied : Satisfied prims a)
  (swaps : a.swapNonce ≠ 0) (role : isPartyA prims a = true)

include satisfied swaps role

theorem mirror_isPartyA : isPartyA prims a.mirror = false := by
  have exclusive := swap_role satisfied swaps
  rw [role] at exclusive
  exact Bool.eq_false_of_not_eq_true exclusive.symm

theorem mirror_selected : transferValue prims a.mirror = transferValue prims a ∧
    nfTokenId prims a.mirror = nfTokenId prims a ∧ recipientPublicKey prims a.mirror = recipientPublicKey prims a := by
  have selected := (isSwap_iff a).mpr swaps
  have mirrored : isSwap a.mirror = true := selected
  simp only [transferValue, nfTokenId, recipientPublicKey, selected, mirrored, role,
    mirror_isPartyA satisfied swaps role]
  exact ⟨rfl, rfl, rfl⟩

theorem mirror_slotCommitment : slotCommitment prims a.mirror = slotCommitment prims a := by
  funext i
  simp only [slotCommitment, slotTokenId, (mirror_selected satisfied swaps role).2.1]
  rfl

theorem mirror_nullifierOut : nullifierOut prims a.mirror = nullifierOut prims a := by
  funext i
  simp only [nullifierOut, slotNullifier, mirror_slotCommitment satisfied swaps role]
  rfl

theorem mirror_satisfied : Satisfied prims a.mirror := by
  have transfers := swap_transfers satisfied swaps
  have noWithdraw : withdrawFlag a = false := by simp [withdrawFlag, isZero, transfers]
  obtain ⟨partyB, clearedB⟩ := (partyBGate_iff _ _ _).mp satisfied.partyBGate
  rw [noWithdraw] at partyB clearedB
  have partyA : ¬ isNeutralPoint a.partyAPublicKey = true :=
    (swapGate_iff _ _).mp satisfied.swapPartyAGate swaps
  have clearedA : ¬ isNeutralPoint (timesEight prims a.partyAPublicKey) = true := by
    rw [isNeutralPoint_iff] at partyA ⊢
    exact fun cleared => partyA ((subgroupGate_iff _ _).mp satisfied.partyAGate cleared)
  have nonce : isZero a.mirror.swapNonce = false := (isZero_eq_false _).mpr swaps
  obtain ⟨value, tokenId, recipient⟩ := mirror_selected satisfied swaps role
  exact { satisfied with
    partyAGate := by
      rw [subgroupGate_iff]
      intro cleared
      rw [← isNeutralPoint_iff] at cleared
      exact absurd (clearedB.symm.trans cleared) (by decide)
    partyBGate := by
      rw [partyBGate_iff]
      refine ⟨?_, ?_⟩
      · exact (Bool.eq_false_of_not_eq_true partyA).trans noWithdraw.symm
      · exact (Bool.eq_false_of_not_eq_true clearedA).trans noWithdraw.symm
    tokenBGate := by rw [nonce, flag_false, zero_mul]
    valueBGate := by rw [nonce, flag_false, zero_mul]
    authorGate := by rw [nonce, Bool.false_and, Bool.false_and, flag_false]
    balanceGate := by
      rw [value]
      exact satisfied.balanceGate
    valueRange := by
      rw [value]
      exact satisfied.valueRange
    swapPartyAGate := satisfied.swapPartyBGate
    swapPartyBGate := satisfied.swapPartyAGate
    swapDistinctGate := by
      have distinct := (swapGate_iff _ _).mp satisfied.swapDistinctGate swaps
      rw [swapGate_iff, pointsEqual_iff]
      rw [pointsEqual_iff] at distinct
      exact fun _ same => distinct same.symm
    deadlineGate := by rw [nonce, flag_false, zero_mul]
    roleGate := by
      rw [roleGate_iff]
      intro _ same
      exact swap_role satisfied swaps same.symm
    membershipGate := by
      intro i
      rw [calcRoot, mirror_slotCommitment satisfied swaps role]
      exact satisfied.membershipGate i
    nullifiersDistinct := by
      rw [mirror_nullifierOut satisfied swaps role]
      exact satisfied.nullifiersDistinct
    commitmentsDistinct := by
      simp only [verifyCommitments, sharedSalt, sharedSecret, value, tokenId, recipient]
      exact satisfied.commitmentsDistinct
    recipientGate := by
      rw [recipient]
      exact satisfied.recipientGate }

end

def legA : Assignment :=
  (swapPlan sampleRootKey sampleNote (Noir.doublings 1) 7 2).assignment toyPrims

def legB : Assignment :=
  ((swapPlan strangerRootKey ⟨7, 7, 2, neutral, 1⟩ Noir.generator 9 5).assignment toyPrims).mirror

theorem strangerLeg_satisfied : Satisfied toyPrims
    ((swapPlan strangerRootKey ⟨7, 7, 2, neutral, 1⟩ Noir.generator 9 5).assignment toyPrims) := by
  apply swapPlan_satisfied strangerRootKey_subgroup rfl rfl (by decide)
  · rw [strangerRootKey_derived]
    decide
  · decide
  · exact toyPrims_doubling 0

theorem legB_satisfied : Satisfied toyPrims legB :=
  mirror_satisfied strangerLeg_satisfied one_ne_zero (Plan.isPartyA_eq _ _)

theorem legs_agreement : legB.agreement = legA.agreement := by
  have partyA : legA.partyAPublicKey = Noir.generator := sampleRootKey_derived
  have partyB : legB.partyBPublicKey = Noir.doublings 1 := strangerRootKey_derived
  simp only [Assignment.agreement, partyA, partyB]
  decide

theorem legs_sameLink : (publicInputs toyPrims legB).swapLink = (publicInputs toyPrims legA).swapLink := by
  rw [publicInputs_swapLink (by decide), publicInputs_swapLink (by decide), legs_agreement]
  rfl

theorem legs_injective : Set.InjOn toyPrims.spongeHash {legA.agreement.words, legB.agreement.words} := by
  rw [legs_agreement, Set.pair_eq_singleton]
  exact Set.injOn_singleton _ _

theorem legB_swapSide : (publicInputs toyPrims legB).swapSide = 0 := by
  rw [publicInputs_swapSide (by decide) one_ne_zero, flag_eq_zero]
  exact mirror_isPartyA strangerLeg_satisfied one_ne_zero (Plan.isPartyA_eq _ _)

theorem swap_legs_match_sample :
    legB.agreement = legA.agreement ∧ Leg toyPrims legA Noir.generator (Noir.doublings 1) 9 5 ∧
      Leg toyPrims legB (Noir.doublings 1) Noir.generator 7 2 := by
  have partyA : legA.partyAPublicKey = Noir.generator := sampleRootKey_derived
  have matched := swap_legs_match toyPrims legA legB sampleLeg_satisfied legB_satisfied
    sampleLeg_swapLink legs_sameLink ?_ legB_swapSide legs_injective
  · rw [partyA] at matched
    exact matched
  · rw [publicInputs_swapSide (by decide) one_ne_zero, flag_eq_one]
    exact Plan.isPartyA_eq _ _

end Nightfall.Plonk
