import Nightfall.Noir.Conservation

/-! Spending authority of the UltraHonk statement. The reduction of the root key is unique, so a
root key has one public key. -/

namespace Nightfall.Noir

def zkpPrivateKey (hashes : Hashes) (rootKey : Fr254) : Fr254 :=
  ((hashes.hash2 rootKey privateKeyPrefix).val % subgroupOrder : ℕ)

def derivedPublicKey (hashes : Hashes) (rootKey : Fr254) : Except String Point :=
  mulByGenerator (zkpPrivateKey hashes rootKey)

theorem keyReduction_unique {hashes : Hashes} {rootKey zkpPriv lambda : Fr254}
    (reduction : KeyReduction hashes rootKey zkpPriv lambda) : zkpPriv = zkpPrivateKey hashes rootKey := by
  have sizes : 7 * subgroupOrder < fr254Modulus ∧ noWrapBound + 7 * subgroupOrder = fr254Modulus := by decide
  have scalar := reduction.scalar
  have quotient := reduction.quotient
  have noWrap : zkpPriv.val + lambda.val * subgroupOrder < fr254Modulus := by
    by_cases seven : lambda = 7
    · have guarded := reduction.noWrap seven
      rw [seven, show (7 : Fr254).val = 7 by rfl]
      omega
    · have smaller : lambda.val ≠ 7 := by
        intro same
        apply seven
        rw [← ZMod.natCast_zmod_val lambda, same]
        rfl
      have product : lambda.val * subgroupOrder ≤ 6 * subgroupOrder :=
        Nat.mul_le_mul_right _ (by omega)
      omega
  have digest : hashes.hash2 rootKey privateKeyPrefix = ((zkpPriv.val + lambda.val * subgroupOrder : ℕ) : Fr254) := by
    rw [← reduction.digest]
    push_cast
    rw [ZMod.natCast_zmod_val, ZMod.natCast_zmod_val]
  rw [zkpPrivateKey, digest, ZMod.val_natCast_of_lt noWrap, Nat.add_mul_mod_self_right,
    Nat.mod_eq_of_lt scalar, ZMod.natCast_zmod_val]

theorem keyReduction_exists {hashes : Hashes} {rootKey : Fr254} (nonzero : zkpPrivateKey hashes rootKey ≠ 0) :
    KeyReduction hashes rootKey (zkpPrivateKey hashes rootKey)
      ((hashes.hash2 rootKey privateKeyPrefix).val / subgroupOrder : ℕ) := by
  have sizes : 8 < subgroupOrder ∧ fr254Modulus < 8 * subgroupOrder ∧
      noWrapBound + 7 * subgroupOrder = fr254Modulus := by decide
  have digestBound := ZMod.val_lt (hashes.hash2 rootKey privateKeyPrefix)
  have split := Nat.mod_add_div (hashes.hash2 rootKey privateKeyPrefix).val subgroupOrder
  have positive : 0 < subgroupOrder := by omega
  have remainder := Nat.mod_lt (hashes.hash2 rootKey privateKeyPrefix).val positive
  have quotient : (hashes.hash2 rootKey privateKeyPrefix).val / subgroupOrder < 8 := by
    rw [Nat.div_lt_iff_lt_mul positive]
    omega
  have scalarVal : (zkpPrivateKey hashes rootKey).val =
      (hashes.hash2 rootKey privateKeyPrefix).val % subgroupOrder := ZMod.val_natCast_of_lt (by omega)
  have quotientVal : (((hashes.hash2 rootKey privateKeyPrefix).val / subgroupOrder : ℕ) : Fr254).val =
      (hashes.hash2 rootKey privateKeyPrefix).val / subgroupOrder := ZMod.val_natCast_of_lt (by omega)
  refine ⟨?_, by rw [scalarVal]; exact remainder, by rw [quotientVal]; exact quotient, nonzero, ?_⟩
  · rw [zkpPrivateKey, mul_comm]
    rw [← Nat.cast_mul, ← Nat.cast_add, split, ZMod.natCast_zmod_val]
  · intro seven
    rw [seven, show (7 : Fr254).val = 7 by rfl] at quotientVal
    rw [← quotientVal] at split
    omega

def Opens (inp : StatementInputs) (zkpPubKey : Point) (i : Fin 4) (note : Note) : Prop :=
  slotTokenId inp zkpPubKey i = note.tokenId ∧ slotSlotId inp i = note.slotId ∧
    inp.nullifiersValues i = note.value ∧ inp.publicKeys i = note.owner ∧ inp.nullifiersSalts i = note.salt

/-- The statement accepts `inp` in a mode that spends, slot `i` opens the note, and
the nullifier is the word published for the slot. -/
def Spend (hashes : Hashes) (inp : StatementInputs) (i : Fin 4) (note : Note) (nullifier : Fr254) : Prop :=
  ∃ words zkpPubKey, proveStatement hashes inp = .ok words ∧ inp.nullifiersSalts 0 ≠ 0 ∧
    derivedPublicKey hashes inp.rootKey = .ok zkpPubKey ∧ Opens inp zkpPubKey i note ∧
    words[11 + i.val]? = some nullifier

structure SpendingAuthority (hashes : Hashes) (note : Note) : Prop where
  owner : ∀ inp i nullifier, Spend hashes inp i note nullifier → note.owner ≠ identity →
    derivedPublicKey hashes inp.rootKey = .ok note.owner
  unique : ∀ first i firstNullifier second j secondNullifier,
    Spend hashes first i note firstNullifier → Spend hashes second j note secondNullifier →
    Set.InjOn (fun preimage : Fin 3 → Fr254 => hashes.hash3 (preimage 0) (preimage 1) (preimage 2))
      {first.secretPreimages i, second.secretPreimages j} →
    (derivedPublicKey hashes first.rootKey = derivedPublicKey hashes second.rootKey →
      first.rootKey = second.rootKey) →
    firstNullifier = secondNullifier

structure SpendFacts (hashes : Hashes) (inp : StatementInputs) (i : Fin 4) (note : Note)
    (nullifier : Fr254) : Prop where
  owned : note.owner = identity ∨ note.value = 0 ∨ derivedPublicKey hashes inp.rootKey = .ok note.owner
  salt : note.owner = identity → hashes.hash3 (inp.secretPreimages i 0) (inp.secretPreimages i 1)
    (inp.secretPreimages i 2) = note.salt
  nullifier : nullifier = hashes.hash2 (cs (isNeutral note.owner) (nullifierKey hashes inp.rootKey)
    (depositNullifierKey hashes (inp.secretPreimages i))) (note.commitment hashes)

theorem spend_facts {hashes : Hashes} {inp : StatementInputs} {i : Fin 4} {note : Note} {nullifier : Fr254}
    (real : note.salt ≠ 0) (spend : Spend hashes inp i note nullifier) : SpendFacts hashes inp i note nullifier := by
  obtain ⟨words, key, proved, spends, derived, ⟨token, slot, value, owner, salt⟩, published⟩ := spend
  obtain ⟨zkpPubKey, sharedSecret, epk, accepted, rfl⟩ :=
    (proveStatement_eq_ok hashes inp words).mp proved
  have publicKey := accepted.publicKey
  rw [keyReduction_unique accepted.reduction] at publicKey
  have same : zkpPubKey = key := Except.ok.inj (publicKey.symm.trans derived)
  subst same
  have salted : inp.nullifiersSalts i ≠ 0 := salt ▸ real
  refine ⟨?_, ?_, ?_⟩
  · have checked := accepted.ownership i
    rw [owner, value] at checked
    rcases checked with waived | matches_
    · simp only [Bool.or_eq_true, decide_eq_true_eq, isNeutral_iff] at waived
      rcases waived with neutral | zero
      · exact Or.inl neutral
      · exact Or.inr (Or.inl zero)
    · exact Or.inr (Or.inr (matches_ ▸ derived))
  · intro neutral
    rw [← salt]
    exact (accepted.slots i).salt salted (by rw [owner, neutral]; decide)
  · rw [words_nullifier, Option.some.injEq] at published
    rw [← published]
    simp only [publicInputs, isDeposit, cs, decide_eq_false spends, Bool.false_eq_true, if_false,
      nullifierOut, decide_eq_false real, slotNullifier, slotCommitment, token, slot, value, owner,
      salt, Note.commitment]

theorem spendingAuthority_of_checked {hashes : Hashes} {note : Note} (real : note.salt ≠ 0)
    (checked : note.owner = identity ∨ note.value ≠ 0) : SpendingAuthority hashes note := by
  have owner : ∀ inp i nullifier, Spend hashes inp i note nullifier → note.owner ≠ identity →
      derivedPublicKey hashes inp.rootKey = .ok note.owner := by
    intro inp i nullifier spend owned
    rcases (spend_facts real spend).owned with neutral | zero | derived
    · exact absurd neutral owned
    · exact absurd zero (checked.resolve_left owned)
    · exact derived
  refine ⟨owner, ?_⟩
  intro first i firstNullifier second j secondNullifier firstSpend secondSpend injective binding
  have firstFacts := spend_facts real firstSpend
  have secondFacts := spend_facts real secondSpend
  rw [firstFacts.nullifier, secondFacts.nullifier]
  by_cases neutral : note.owner = identity
  · have samePreimage : first.secretPreimages i = second.secretPreimages j :=
      injective (by simp) (by simp) ((firstFacts.salt neutral).trans (secondFacts.salt neutral).symm)
    simp [cs, (isNeutral_iff note.owner).mpr neutral, samePreimage]
  · have firstOwner := owner first i firstNullifier firstSpend neutral
    have secondOwner := owner second j secondNullifier secondSpend neutral
    have sameRoot := binding (firstOwner.trans secondOwner.symm)
    have owned : isNeutral note.owner = false := by
      rw [Bool.eq_false_iff, ne_eq, isNeutral_iff]
      exact neutral
    simp [cs, owned, sameRoot]

theorem spend_of_zero_value (hashes : Hashes) (rootKey : Fr254) {note : Note} (real : note.salt ≠ 0)
    (owned : note.owner ≠ identity) (zero : note.value = 0) (usable : zkpPrivateKey hashes rootKey ≠ 0)
    (path : Vector (Merkle.PathElement Fr254) depth) :
    ∃ inp nullifier, inp.rootKey = rootKey ∧ Spend hashes inp 0 note nullifier := by
  have reduction := keyReduction_exists usable
  have derived := mulByGenerator_eq _ reduction.scalar.le
  have notNeutral : isNeutral note.owner = true → False := fun neutral =>
    owned ((isNeutral_iff note.owner).mp neutral)
  have accepted : Accepted hashes (withdrawal hashes rootKey _ _ _ note (fun _ => 0) path)
      _ identity identity :=
    withdrawal_accepted reduction derived (by rw [zero]; decide) real
      (fun neutral => (notNeutral neutral).elim) (Or.inl (by simp [zero]))
  refine ⟨_, _, ?_, _, _, (proveStatement_eq_ok _ _ _).mpr ⟨_, _, _, accepted, rfl⟩, real,
    derived, ?_, words_nullifier _ 0⟩
  · rfl
  · simp [Opens, slotTokenId, slotSlotId, nfTokenId, isPartyBSwap, isSwap, withdrawal, cs]

/-- A note is spent by its owner only, and under one nullifier only, exactly when it
is under the neutral key or has value. -/
theorem spendingAuthority_iff (hashes : Hashes) (firstRootKey secondRootKey : Fr254)
    (firstUsable : zkpPrivateKey hashes firstRootKey ≠ 0) (secondUsable : zkpPrivateKey hashes secondRootKey ≠ 0)
    (different : derivedPublicKey hashes firstRootKey ≠ derivedPublicKey hashes secondRootKey) (note : Note)
    (real : note.salt ≠ 0) : SpendingAuthority hashes note ↔ note.owner = identity ∨ note.value ≠ 0 := by
  constructor
  · intro authority
    by_contra unchecked
    rw [not_or, not_not] at unchecked
    obtain ⟨owned, zero⟩ := unchecked
    have everyKey : ∀ rootKey, zkpPrivateKey hashes rootKey ≠ 0 →
        derivedPublicKey hashes rootKey = .ok note.owner := by
      intro rootKey usable
      obtain ⟨inp, nullifier, same, spend⟩ := spend_of_zero_value hashes rootKey real owned zero usable
        (Vector.replicate depth ⟨0, false⟩)
      rw [← same]
      exact authority.owner inp 0 nullifier spend owned
    exact different ((everyKey _ firstUsable).trans (everyKey _ secondUsable).symm)
  · exact spendingAuthority_of_checked real

def ownerRootKey : Fr254 := -privateKeyPrefix

def strangerRootKey : Fr254 := 1 - privateKeyPrefix

theorem ownerRootKey_derived : derivedPublicKey additiveHashes ownerRootKey = .ok generator := by
  have scalar : zkpPrivateKey additiveHashes ownerRootKey = 1 := by decide
  rw [derivedPublicKey, scalar, mulByGenerator_one]

theorem strangerRootKey_derived :
    derivedPublicKey additiveHashes strangerRootKey = .ok (Edwards.add coeffD generator generator) := by
  have scalar : zkpPrivateKey additiveHashes strangerRootKey = 2 := by decide
  rw [derivedPublicKey, scalar, mulByGenerator_two]

theorem derivedPublicKeys_differ :
    derivedPublicKey additiveHashes ownerRootKey ≠ derivedPublicKey additiveHashes strangerRootKey := by
  rw [ownerRootKey_derived, strangerRootKey_derived]
  intro same
  exact generator_ne_double (Except.ok.inj same)

theorem spendingAuthority_iff_sample :
    SpendingAuthority additiveHashes sampleNote ↔ sampleNote.owner = identity ∨ sampleNote.value ≠ 0 :=
  spendingAuthority_iff additiveHashes ownerRootKey strangerRootKey (by decide) (by decide)
    derivedPublicKeys_differ sampleNote (by decide)

def tokenNote : Note := ⟨9, 9, 0, generator, 1⟩

theorem token_note_spent_by_stranger :
    ∃ owner stranger ownerNullifier strangerNullifier, Spend additiveHashes owner 0 tokenNote ownerNullifier ∧
      Spend additiveHashes stranger 0 tokenNote strangerNullifier ∧ tokenNote.owner ≠ identity ∧
      derivedPublicKey additiveHashes owner.rootKey = .ok tokenNote.owner ∧
      derivedPublicKey additiveHashes stranger.rootKey ≠ .ok tokenNote.owner ∧
      ownerNullifier ≠ strangerNullifier := by
  have real : tokenNote.salt ≠ 0 := by decide
  have owned : tokenNote.owner ≠ identity := by decide
  obtain ⟨owner, ownerNullifier, ownerKey, ownerSpend⟩ :=
    spend_of_zero_value additiveHashes ownerRootKey real owned rfl (by decide) samplePath
  obtain ⟨stranger, strangerNullifier, strangerKey, strangerSpend⟩ :=
    spend_of_zero_value additiveHashes strangerRootKey real owned rfl (by decide) samplePath
  refine ⟨owner, stranger, ownerNullifier, strangerNullifier, ownerSpend, strangerSpend, owned, ?_, ?_, ?_⟩
  · rw [ownerKey]
    exact ownerRootKey_derived
  · rw [strangerKey]
    exact fun same => derivedPublicKeys_differ (ownerRootKey_derived.trans same.symm)
  · rw [(spend_facts real ownerSpend).nullifier, (spend_facts real strangerSpend).nullifier, ownerKey, strangerKey]
    simp only [cs, show isNeutral tokenNote.owner = false by decide, Bool.false_eq_true, if_false]
    decide

end Nightfall.Noir
