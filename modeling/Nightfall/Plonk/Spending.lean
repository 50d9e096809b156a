import Nightfall.Plonk.Conservation

/-! Spending authority of the unified circuit. The ownership gate is waived for a slot without
value: such a note is spent by any root key, each with a nullifier of its own. For every other note
the owner decides. -/

namespace Nightfall.Plonk

/-- The linear gate of the key reduction with its two range gates. -/
def ReductionGates (prims : Primitives) (rootKey zkpPrivateKey lambda : Fr254) : Prop :=
  zkpPrivateKey + (bjjOrder : Fr254) * lambda = prims.poseidonHash [rootKey, privateKeyPrefix] ∧
    zkpPrivateKey.val < bjjOrder ∧ lambda.val < 8

theorem reductionGates_canonical (prims : Primitives) (rootKey : Fr254) :
    ReductionGates prims rootKey (reducedPrivateKey prims rootKey) (reductionQuotient prims rootKey) :=
  ⟨reduction_sum prims rootKey, reducedPrivateKey_lt prims rootKey, reductionQuotient_lt prims rootKey⟩

theorem ReductionGates.eq_canonical {prims : Primitives} {rootKey scalar lambda : Fr254}
    (large : 8 * bjjOrder - fr254Modulus ≤ (prims.poseidonHash [rootKey, privateKeyPrefix]).val)
    (gates : ReductionGates prims rootKey scalar lambda) :
    scalar = reducedPrivateKey prims rootKey ∧ lambda = reductionQuotient prims rootKey := by
  obtain ⟨sum, scalarRange, lambdaRange⟩ := gates
  have sizes : fr254Modulus < 8 * bjjOrder ∧ 8 * bjjOrder < 2 * fr254Modulus := by decide
  have product : bjjOrder * lambda.val ≤ bjjOrder * 7 := Nat.mul_le_mul_left _ (by omega)
  have digest : prims.poseidonHash [rootKey, privateKeyPrefix] =
      ((scalar.val + bjjOrder * lambda.val : ℕ) : Fr254) := by
    rw [← sum, Nat.cast_add, Nat.cast_mul, ZMod.natCast_zmod_val, ZMod.natCast_zmod_val]
  have noWrap : scalar.val + bjjOrder * lambda.val < fr254Modulus := by
    by_contra wraps
    rw [digest, ZMod.val_natCast, Nat.mod_eq_sub_mod (by omega), Nat.mod_eq_of_lt (by omega)] at large
    omega
  rw [reducedPrivateKey, reductionQuotient, digest, ZMod.val_natCast_of_lt noWrap, Nat.add_mul_mod_self_left,
    Nat.mod_eq_of_lt scalarRange, Nat.add_mul_div_left _ _ (by decide), Nat.div_eq_of_lt scalarRange, Nat.zero_add]
  simp

/-- A digest below `8 * bjjOrder - fr254Modulus` has a second pair, that of the digest plus the modulus. -/
theorem reductionGates_wrapped {prims : Primitives} {rootKey : Fr254}
    (small : (prims.poseidonHash [rootKey, privateKeyPrefix]).val < 8 * bjjOrder - fr254Modulus) :
    ReductionGates prims rootKey
      (((prims.poseidonHash [rootKey, privateKeyPrefix]).val + (fr254Modulus - 7 * bjjOrder) : ℕ) : Fr254) 7 := by
  have sizes : 7 * bjjOrder < fr254Modulus ∧ bjjOrder < fr254Modulus := by decide
  refine ⟨?_, ?_, by decide⟩
  · rw [Nat.cast_add, Nat.cast_sub sizes.1.le, ZMod.natCast_self, ZMod.natCast_zmod_val]
    push_cast
    ring
  · rw [ZMod.val_natCast_of_lt (by omega)]
    omega

theorem reduction_unique_iff (prims : Primitives) (rootKey : Fr254) :
    ReductionGates prims rootKey (reducedPrivateKey prims rootKey) (reductionQuotient prims rootKey) ∧
    ((∃! pair : Fr254 × Fr254, ReductionGates prims rootKey pair.1 pair.2) ↔
      8 * bjjOrder - fr254Modulus ≤ (prims.poseidonHash [rootKey, privateKeyPrefix]).val) := by
  refine ⟨reductionGates_canonical prims rootKey, ?_, fun large => ⟨(_, _), reductionGates_canonical prims rootKey,
    fun pair gates => Prod.ext_iff.mpr (gates.eq_canonical large)⟩⟩
  rintro ⟨pair, _, only⟩
  by_contra small
  have same : (reducedPrivateKey prims rootKey, reductionQuotient prims rootKey) = (_, 7) :=
    (only (_, _) (reductionGates_canonical prims rootKey)).trans
      (only (_, _) (reductionGates_wrapped (not_le.mp small))).symm
  have sizes : 8 * bjjOrder - fr254Modulus < bjjOrder ∧ (0 : Fr254) ≠ 7 := by decide
  rw [reductionQuotient, Nat.div_eq_of_lt (by omega), Nat.cast_zero] at same
  exact sizes.2 (congrArg Prod.snd same)

/-- The digest zero reduces to the zero key, and to another one with quotient 7. -/
theorem reduction_of_zero : ∃ prims : Primitives, prims.poseidonHash [0, privateKeyPrefix] = 0 ∧
    ReductionGates prims 0 0 0 ∧ ReductionGates prims 0 ((fr254Modulus - 7 * bjjOrder : ℕ) : Fr254) 7 ∧
    ((fr254Modulus - 7 * bjjOrder : ℕ) : Fr254) ≠ 0 :=
  ⟨{ toyPrims with poseidonHash := fun _ => 0 }, rfl, ⟨by decide, by decide, by decide⟩,
    ⟨by decide, by decide, by decide⟩, by decide⟩

def Derives (prims : Primitives) (rootKey : Fr254) (key : Point) : Prop :=
  ∃ zkpPrivateKey lambda : Fr254,
    zkpPrivateKey + (bjjOrder : Fr254) * lambda = prims.poseidonHash [rootKey, privateKeyPrefix] ∧
    zkpPrivateKey.val < bjjOrder ∧ lambda.val < 8 ∧ key = prims.scalarMul zkpPrivateKey prims.generator

theorem Satisfied.derives {prims : Primitives} {a : Assignment} (satisfied : Satisfied prims a) :
    Derives prims a.rootKey (zkpPubKey prims a) :=
  ⟨a.zkpPrivateKey, a.lambda, satisfied.reductionGate, satisfied.privateKeyRange, satisfied.lambdaRange, rfl⟩

theorem derivedPublicKey_derives (prims : Primitives) (rootKey : Fr254) :
    Derives prims rootKey (derivedPublicKey prims rootKey) :=
  ⟨reducedPrivateKey prims rootKey, reductionQuotient prims rootKey, reduction_sum prims rootKey,
    reducedPrivateKey_lt prims rootKey, reductionQuotient_lt prims rootKey, rfl⟩

theorem derives_unique {prims : Primitives} {rootKey : Fr254} {key : Point}
    (large : 8 * bjjOrder - fr254Modulus ≤ (prims.poseidonHash [rootKey, privateKeyPrefix]).val)
    (derives : Derives prims rootKey key) : key = derivedPublicKey prims rootKey := by
  obtain ⟨scalar, lambda, sum, scalarRange, lambdaRange, rfl⟩ := derives
  have gates : ReductionGates prims rootKey scalar lambda := ⟨sum, scalarRange, lambdaRange⟩
  rw [(gates.eq_canonical large).1, derivedPublicKey]

def Opens (prims : Primitives) (a : Assignment) (i : Fin 4) (note : Note) : Prop :=
  slotTokenId prims a i = note.tokenId ∧ slotSlotId a i = note.slotId ∧
    a.nullifiersValues i = note.value ∧ a.publicKeys i = note.owner ∧ a.nullifiersSalts i = note.salt

/-- The assignment satisfies the circuit in a mode that spends, slot `i` opens the
note, and the nullifier is the word published for the slot. -/
structure Spend (prims : Primitives) (a : Assignment) (i : Fin 4) (note : Note) (nullifier : Fr254) : Prop where
  satisfied : Satisfied prims a
  spends : a.nullifiersSalts 0 ≠ 0
  opens : Opens prims a i note
  published : (publicWords prims a)[11 + i.val]? = some nullifier

structure SpendingAuthority (prims : Primitives) (note : Note) : Prop where
  owner : ∀ a i nullifier, Spend prims a i note nullifier → note.owner ≠ neutral → Derives prims a.rootKey note.owner
  unique : ∀ first i firstNullifier second j secondNullifier,
    Spend prims first i note firstNullifier → Spend prims second j note secondNullifier →
    Set.InjOn (fun preimage : Fin 3 → Fr254 =>
        prims.poseidonHash [preimage 0, preimage 1, preimage 2])
      {first.secretPreimages i, second.secretPreimages j} →
    (∀ key, Derives prims first.rootKey key → Derives prims second.rootKey key → first.rootKey = second.rootKey) →
    firstNullifier = secondNullifier

section

variable {prims : Primitives} {a : Assignment} {i : Fin 4} {note : Note} {nullifier : Fr254}
  (spend : Spend prims a i note nullifier)

include spend

theorem Spend.owned : note.owner = neutral ∨ note.value = 0 ∨ Derives prims a.rootKey note.owner := by
  obtain ⟨_, _, value, owner, _⟩ := spend.opens
  have owned := spend.satisfied.owned i
  rw [owner, value] at owned
  rcases owned with neutral | zero | same
  · exact Or.inl neutral
  · exact Or.inr (Or.inl zero)
  · exact Or.inr (Or.inr (same ▸ spend.satisfied.derives))

theorem Spend.subgroup : timesEight prims note.owner = neutral → note.owner = neutral := by
  obtain ⟨_, _, _, owner, _⟩ := spend.opens
  rw [← subgroupGate_iff, ← owner]
  exact spend.satisfied.publicKeyGate i

theorem Spend.secret (real : note.salt ≠ 0) (neutralOwner : note.owner = neutral) :
    secretHash prims a i = note.salt := by
  obtain ⟨_, _, _, owner, salt⟩ := spend.opens
  rw [← salt]
  exact spend.satisfied.salt i (salt ▸ real) (owner.trans neutralOwner)

theorem Spend.nullifier_eq (real : note.salt ≠ 0) :
    nullifier = prims.poseidonHash [conditionalSelect (isNeutralPoint note.owner)
      (nullifierKey prims a) (depositNullifierKey prims a i), note.commitment prims] := by
  obtain ⟨token, slot, value, owner, salt⟩ := spend.opens
  have published := spend.published
  rw [publicWords_nullifier prims spend.spends, nullifierOut_salted prims (salt ▸ real),
    Option.some.injEq] at published
  rw [← published, slotNullifier, slotCommitment, token, slot, value, owner, salt, Note.commitment]

end

theorem spendingAuthority_of_checked {prims : Primitives} {note : Note} (real : note.salt ≠ 0)
    (checked : note.owner = neutral ∨ note.value ≠ 0 ∨ timesEight prims note.owner = neutral) :
    SpendingAuthority prims note := by
  have owner : ∀ a i nullifier, Spend prims a i note nullifier → note.owner ≠ neutral →
      Derives prims a.rootKey note.owner := by
    intro a i nullifier spend owned
    rcases checked with neutral | valued | small
    · exact absurd neutral owned
    · exact (spend.owned.resolve_left owned).resolve_left valued
    · exact absurd (spend.subgroup small) owned
  refine ⟨owner, ?_⟩
  intro first i firstNullifier second j secondNullifier firstSpend secondSpend injective binding
  rw [firstSpend.nullifier_eq real, secondSpend.nullifier_eq real]
  by_cases neutralOwner : note.owner = neutral
  · have samePreimage : first.secretPreimages i = second.secretPreimages j :=
      injective (by simp) (by simp)
        ((firstSpend.secret real neutralOwner).trans (secondSpend.secret real neutralOwner).symm)
    rw [(isNeutralPoint_iff _).mpr neutralOwner, conditionalSelect_true, conditionalSelect_true,
      depositNullifierKey, depositNullifierKey, samePreimage]
  · have sameRoot := binding note.owner (owner _ _ _ firstSpend neutralOwner) (owner _ _ _ secondSpend neutralOwner)
    have owned : isNeutralPoint note.owner = false := by
      rw [Bool.eq_false_iff, ne_eq, isNeutralPoint_iff]
      exact neutralOwner
    rw [owned, conditionalSelect_false, conditionalSelect_false, nullifierKey, nullifierKey, sameRoot]

theorem spend_of_zero_value {prims : Primitives} (rootKey : Fr254) (input : Input)
    (neutralDouble : prims.eccAdd neutral neutral = neutral)
    (keySubgroup : SubgroupGate prims (derivedPublicKey prims rootKey))
    (real : input.note.salt ≠ 0) (owned : input.note.owner ≠ neutral) (zero : input.note.value = 0)
    (ownerSubgroup : SubgroupGate prims input.note.owner) :
    Spend prims ((Plan.withdrawal rootKey input 0 Input.none).assignment prims) 0 input.note
      (input.nullifier prims rootKey) := by
  have spendable : Spendable prims (derivedPublicKey prims rootKey) input :=
    ⟨ownerSubgroup, Or.inr (Or.inl zero), fun _ neutralOwner => absurd neutralOwner owned⟩
  constructor
  · apply Plan.satisfied
    exact Plan.withdrawal_valid_free neutralDouble keySubgroup spendable (by rw [zero]; decide)
  · exact real
  · refine ⟨?_, rfl, rfl, rfl, rfl⟩
    rfl
  · rw [publicWords_nullifier prims real, nullifierOut_salted prims real, Plan.slotNullifier_input]
    rfl

/-- A note is spent by its owner only, and under one nullifier only, exactly when it
is under the neutral key, has value, or has an owner that no gate admits. -/
theorem unified_spendingAuthority_iff (prims : Primitives) (firstRootKey secondRootKey : Fr254)
    (neutralDouble : prims.eccAdd neutral neutral = neutral)
    (firstSubgroup : SubgroupGate prims (derivedPublicKey prims firstRootKey))
    (secondSubgroup : SubgroupGate prims (derivedPublicKey prims secondRootKey))
    (binding : ∀ key, Derives prims firstRootKey key → ¬ Derives prims secondRootKey key)
    (note : Note) (real : note.salt ≠ 0) :
    SpendingAuthority prims note ↔ note.owner = neutral ∨ note.value ≠ 0 ∨ timesEight prims note.owner = neutral := by
  constructor
  · intro authority
    by_contra unchecked
    rw [not_or, not_or, not_not] at unchecked
    obtain ⟨owned, zero, large⟩ := unchecked
    have ownerSubgroup : SubgroupGate prims note.owner :=
      (subgroupGate_iff _ _).mpr fun small => absurd small large
    have everyKey : ∀ rootKey, SubgroupGate prims (derivedPublicKey prims rootKey) →
        Derives prims rootKey note.owner := by
      intro rootKey keySubgroup
      have spend := spend_of_zero_value rootKey
        ⟨note, fun _ => 0, Vector.replicate depth ⟨0, false⟩⟩ neutralDouble keySubgroup real owned zero ownerSubgroup
      exact authority.owner _ _ _ spend owned
    exact binding note.owner (everyKey _ firstSubgroup) (everyKey _ secondSubgroup)
  · exact spendingAuthority_of_checked real

def strangerRootKey : Fr254 := bjjOrder + 1 - privateKeyPrefix

theorem strangerRootKey_derived : derivedPublicKey toyPrims strangerRootKey = Noir.doublings 1 := by
  have scalar : reducedPrivateKey toyPrims strangerRootKey = 2 := by decide
  rw [derivedPublicKey, scalar]
  simp only [toyPrims, show (2 : Fr254).val = 2 by rfl, Function.iterate_succ,
    Function.comp_apply, Function.iterate_zero, id_eq]
  rw [show Edwards.add Noir.coeffD Noir.generator neutral = Noir.generator from
    Edwards.add_neutral _ _]
  exact Noir.doublings_succ 0

theorem strangerRootKey_subgroup : SubgroupGate toyPrims (derivedPublicKey toyPrims strangerRootKey) := by
  rw [strangerRootKey_derived]
  exact toyPrims_doubling 1

theorem strangerRootKey_not_derives (key : Point) (derives : Derives toyPrims sampleRootKey key) :
    ¬ Derives toyPrims strangerRootKey key := by
  intro stranger
  have first := derives_unique (by decide) derives
  have second := derives_unique (by decide) stranger
  rw [sampleRootKey_derived] at first
  rw [strangerRootKey_derived, first] at second
  revert second
  decide

theorem unified_spendingAuthority_iff_sample : SpendingAuthority toyPrims sampleNote := by
  apply (unified_spendingAuthority_iff toyPrims sampleRootKey strangerRootKey
    toyPrims_neutralDouble sampleRootKey_subgroup strangerRootKey_subgroup
    strangerRootKey_not_derives sampleNote (by decide)).mpr
  exact Or.inl rfl

def tokenNote : Note := ⟨9, 9, 0, Noir.generator, 1⟩

/-- The owner of a token and a stranger both spend it, with two nullifiers. -/
theorem unified_token_spent_by_stranger :
    ∃ owner stranger ownerNullifier strangerNullifier, Spend toyPrims owner 0 tokenNote ownerNullifier ∧
      Spend toyPrims stranger 0 tokenNote strangerNullifier ∧
      tokenNote.owner ≠ neutral ∧ Derives toyPrims owner.rootKey tokenNote.owner ∧
      ¬ Derives toyPrims stranger.rootKey tokenNote.owner ∧ ownerNullifier ≠ strangerNullifier := by
  have real : tokenNote.salt ≠ 0 := by decide
  have owned : tokenNote.owner ≠ neutral := by decide
  have ownerSubgroup : SubgroupGate toyPrims tokenNote.owner := toyPrims_doubling 0
  have derives : Derives toyPrims sampleRootKey tokenNote.owner := by
    have canonical := derivedPublicKey_derives toyPrims sampleRootKey
    rwa [sampleRootKey_derived] at canonical
  have ownerSpend := spend_of_zero_value sampleRootKey (soleInput tokenNote)
    toyPrims_neutralDouble sampleRootKey_subgroup real owned rfl
    ownerSubgroup
  have strangerSpend := spend_of_zero_value strangerRootKey (soleInput tokenNote)
    toyPrims_neutralDouble strangerRootKey_subgroup real owned rfl ownerSubgroup
  exact ⟨_, _, _, _, ownerSpend, strangerSpend, owned, derives, strangerRootKey_not_derives _ derives, by decide⟩

end Nightfall.Plonk
