import Nightfall.Noir.PlonkCoverage

/-! A transfer to the neutral key. The statement lets that key pass as a recipient, and
the circuit keeps it for withdrawals: no assignment has the words of such a transfer. -/

namespace Nightfall.Noir

variable {receiver : babyJubJub.Group}

section

def notePreimage (prims : Plonk.Primitives) (a : Plonk.Assignment) : List Fr254 :=
  [Plonk.nfTokenId prims a, a.nfSlotId, Plonk.transferValue prims a,
    (Plonk.recipientPublicKey prims a).x, (Plonk.recipientPublicKey prims a).y, Plonk.sharedSalt prims a]

def neutralNote (hashes : Hashes) (inp : StatementInputs) : List Fr254 :=
  [inp.nfTokenAId, inp.nfSlotId, inp.valueA, 0, 1, hashes.hash3 0 1 domainSharedSalt]

/-- The hash behaves on this transaction: a transfer publishes no hash that is zero, and
no assignment with the same words gives a second preimage of its note. -/
structure NoHashAccident (hashes : Hashes) (prims : Plonk.Primitives) (inp : StatementInputs)
    (words : List Fr254) : Prop where
  nonzero : inp.nullifiersSalts 0 ≠ 0 → inp.withdrawAddress = 0 → words[6]? ≠ some 0 ∧ words[11]? ≠ some 0
  injective : ∀ a, Plonk.Satisfied prims a → Plonk.publicWords prims a = words →
    Set.InjOn prims.poseidonHash {notePreimage prims a, neutralNote hashes inp}

variable {hashes : Hashes} {prims : Plonk.Primitives} {inp : StatementInputs}

theorem note_of_words {a : Plonk.Assignment} (satisfied : Plonk.Satisfied prims a)
    (commitment : (Plonk.publicWords prims a)[6]? ≠ some 0) (nullifier : (Plonk.publicWords prims a)[11]? ≠ some 0) :
    Plonk.recipientPublicKey prims a ≠ Plonk.neutral ∧
      (Plonk.publicWords prims a)[6]? = some (prims.poseidonHash (notePreimage prims a)) := by
  have sixth : (Plonk.publicWords prims a)[6]? = some ((Plonk.publicInputs prims a).commitments 0) :=
    Plonk.words_commitment _ 0
  have eleventh : (Plonk.publicWords prims a)[11]? = some ((Plonk.publicInputs prims a).nullifiers 0) :=
    Plonk.words_nullifier _ 0
  have mode : Plonk.isDeposit a = false := by
    by_contra deposits
    rw [eleventh] at nullifier
    simp [Plonk.publicInputs, deposits] at nullifier
  have withdraws : Plonk.withdrawFlag a = false := by
    by_contra withdraws
    rw [sixth] at commitment
    simp [Plonk.publicInputs, mode, Plonk.verifyCommitments, withdraws] at commitment
  constructor
  · have recipient := (Plonk.recipientGate_iff _ _).mp satisfied.recipientGate
    rw [withdraws, Bool.eq_false_iff, ne_eq, Plonk.isNeutralPoint_iff] at recipient
    exact recipient
  · rw [sixth]
    simp [Plonk.publicInputs, mode, Plonk.verifyCommitments, withdraws, notePreimage]

variable {zkpPubKey sharedSecret epk : Point} (same : PlonkLibraries hashes prims)
  (accepted : Accepted hashes inp zkpPubKey sharedSecret epk)

include same accepted

variable (spends : inp.nullifiersSalts 0 ≠ 0) (transfers : inp.withdrawAddress = 0) (noSwap : inp.swapNonce = 0)
  (unnamed : inp.partyBPublicKey = identity)
include spends transfers noSwap unnamed

theorem neutral_transfer_commitment : (publicInputs hashes inp zkpPubKey sharedSecret epk).words[6]? =
      some (prims.poseidonHash (neutralNote hashes inp)) := by
  have plainSwap : isSwap inp = false := by simp [isSwap, noSwap]
  have recipient := recipientPublicKey_of_not_swap plainSwap zkpPubKey
  have secret := accepted.secret
  rw [recipient, unnamed, scalarMul_neutral _ accepted.ephemeralRange.le] at secret
  rw [show 6 = 6 + (0 : Fin 4).val from rfl, words_commitment, transfer_commitment spends transfers,
    Note.commitment, newNote, recipient, unnamed, ← Except.ok.inj secret,
    nfTokenId_of_not_swap plainSwap, transferValue_of_not_swap plainSwap, neutralNote, same.hash6]
  rfl

theorem neutral_transfer_refused
    (hashing : NoHashAccident hashes prims inp (publicInputs hashes inp zkpPubKey sharedSecret epk).words) :
    ¬ PlonkCovers prims (publicInputs hashes inp zkpPubKey sharedSecret epk).words := by
  rintro ⟨a, satisfied, words⟩
  have published := neutral_transfer_commitment same accepted spends transfers noSwap unnamed
  obtain ⟨commitment, nullifier⟩ := hashing.nonzero spends transfers
  rw [← words] at commitment nullifier
  obtain ⟨named, note⟩ := note_of_words satisfied commitment nullifier
  rw [words, published] at note
  have preimages := hashing.injective a satisfied words (by simp) (by simp) (Option.some.inj note)
  simp only [neutralNote, notePreimage, List.cons.injEq] at preimages
  obtain ⟨_, _, _, x, y, _⟩ := preimages
  exact named (Edwards.Point.ext x.symm y.symm)

end

/-- The circuit covers an accepted input exactly when a transfer names its recipient. -/
theorem plonkCovers_iff (hashes : Hashes) (prims : Plonk.Primitives) (same : PlonkLibraries hashes prims)
    (inp : StatementInputs) (words : List Fr254) (proved : proveStatement hashes inp = .ok words) (keys : KeysFit inp)
    (hashing : NoHashAccident hashes prims inp words) : PlonkCovers prims words ↔ RecipientNamed inp := by
  obtain ⟨zkpPubKey, sharedSecret, epk, accepted, rfl⟩ :=
    (proveStatement_eq_ok hashes inp words).mp proved
  constructor
  · intro covered spends transfers noSwap unnamed
    exact neutral_transfer_refused same accepted spends transfers noSwap unnamed hashing covered
  · intro named
    by_cases deposits : inp.nullifiersSalts 0 = 0
    · exact deposit_covered same accepted deposits keys
    · exact spend_covered same accepted deposits keys named

def ownerHashes : Hashes where
  hash2 := fun _ _ => 1
  hash3 := fun _ _ _ => 1
  hash4 := fun _ _ _ _ => 1
  hash6 := fun _ _ _ x y _ => if x = 0 ∧ y = 1 then 1 else 2
  permutation := id
  sha256 := fun _ => List.replicate 32 0

def ownerPrimitives : Plonk.Primitives where
  poseidonHash := fun inputs =>
    if inputs.length = 6 ∧ ¬ (inputs.getD 3 0 = 0 ∧ inputs.getD 4 0 = 1) then 2 else 1
  spongeHash := sponge ownerHashes
  shiftedSha256 := sha256Shift ownerHashes
  eccAdd := Edwards.add coeffD
  scalarMul := fun scalar p => (scalarMul scalar p).toOption.getD p
  generator := generator

theorem ownerPrimitives_same : PlonkLibraries ownerHashes ownerPrimitives := by
  constructor
  · intro a b
    simp [ownerPrimitives, ownerHashes]
  · intro a b c
    simp [ownerPrimitives, ownerHashes]
  · intro a b c d
    simp [ownerPrimitives, ownerHashes]
  · intro a b c x y f
    by_cases neutral : x = 0 ∧ y = 1
    · simp [ownerPrimitives, ownerHashes, neutral]
    · simp [ownerPrimitives, ownerHashes, neutral]
  · exact fun _ => rfl
  · exact fun _ => rfl
  · rfl
  · exact fun _ _ => rfl
  · intro scalar p range
    simp [ownerPrimitives, scalarMul_eq scalar range.le p, Except.toOption]

theorem ownerHashes_reduction : KeyReduction ownerHashes 0 1 0 :=
  ⟨by decide, by decide, by decide, by decide, by decide⟩

def ownerTransfer (receiver : babyJubJub.Group) : StatementInputs :=
  transfer ownerHashes 0 1 0 1 generator receiver.point sampleNote (fun _ => 0) (Vector.replicate depth ⟨0, false⟩)

theorem ownerTransfer_accepted (member : subgroupOrder • receiver = 0) :
    Accepted ownerHashes (ownerTransfer receiver) generator ((1 : Fr254).val • receiver).point
      ((1 : Fr254).val • generatorPoint).point :=
  transfer_accepted ownerHashes_reduction mulByGenerator_one (by decide) (by decide)
    (fun _ => rfl) (Or.inl (by decide)) member (by decide) (by decide)

theorem keyFits_identity : KeyFits identity := ⟨0, rfl, Or.inl rfl⟩

theorem keyFits_generator : KeyFits generator := by
  refine ⟨generatorPoint, rfl, Or.inr fun cleared => ?_⟩
  have zero := cofactor_injective subgroupOrder_nsmul_generator cleared
  exact generator_ne_identity (congrArg Edwards.Curve.Group.point zero)

theorem ownerTransfer_keysFit (receiver : babyJubJub.Group) : KeysFit (ownerTransfer receiver) := by
  intro i
  fin_cases i
  all_goals exact keyFits_identity

theorem ownerTransfer_words (sharedSecret epk : Point) :
    (publicInputs ownerHashes (ownerTransfer receiver) generator sharedSecret epk).words[6]? =
        some (if receiver.point.x = 0 ∧ receiver.point.y = 1 then 1 else 2) ∧
      (publicInputs ownerHashes (ownerTransfer receiver) generator sharedSecret epk).words[11]? = some 1 := by
  have spends : (ownerTransfer receiver).nullifiersSalts 0 ≠ 0 := one_ne_zero
  have mode : isDeposit (ownerTransfer receiver) = false := decide_eq_false spends
  constructor
  · rw [show 6 = 6 + (0 : Fin 4).val from rfl, words_commitment, transfer_commitment spends rfl,
      Note.commitment, newNote, ownerTransfer, transfer_recipientPublicKey]
    rfl
  · rw [show 11 = 11 + (0 : Fin 4).val from rfl, words_nullifier]
    simp [publicInputs, mode, cs, nullifierOut, spends, slotNullifier, ownerHashes]

theorem ownerTransfer_hashing (sharedSecret epk : Point) :
    NoHashAccident ownerHashes ownerPrimitives (ownerTransfer receiver)
      (publicInputs ownerHashes (ownerTransfer receiver) generator sharedSecret epk).words := by
  obtain ⟨sixth, eleventh⟩ := @ownerTransfer_words receiver sharedSecret epk
  have nonzero : (publicInputs ownerHashes (ownerTransfer receiver) generator sharedSecret epk).words[6]? ≠ some 0 ∧
        (publicInputs ownerHashes (ownerTransfer receiver) generator sharedSecret epk).words[11]? ≠ some 0 := by
    rw [sixth, eleventh]
    refine ⟨?_, by decide⟩
    split
    · decide
    · decide
  refine ⟨fun _ _ => nonzero, ?_⟩
  intro a satisfied words
  rw [← words] at nonzero
  obtain ⟨named, _⟩ := note_of_words satisfied nonzero.1 nonzero.2
  have different : ownerPrimitives.poseidonHash (notePreimage ownerPrimitives a) = 2 := by
    have owner : ¬ ((Plonk.recipientPublicKey ownerPrimitives a).x = 0 ∧
        (Plonk.recipientPublicKey ownerPrimitives a).y = 1) :=
      fun owner => named (Edwards.Point.ext owner.1 owner.2)
    exact if_pos ⟨rfl, owner⟩
  have neutral : ownerPrimitives.poseidonHash (neutralNote ownerHashes (ownerTransfer receiver)) = 1 := by
    simp [ownerPrimitives, neutralNote]
  rw [Set.injOn_pair, different, neutral]
  intro equal
  exact absurd equal (by decide)

theorem plonkCovers_iff_sample : ∃ words, proveStatement ownerHashes (ownerTransfer generatorPoint) = .ok words ∧
      PlonkCovers ownerPrimitives words := by
  have accepted := ownerTransfer_accepted subgroupOrder_nsmul_generator
  have proved := (proveStatement_eq_ok _ _ _).mpr ⟨_, _, _, accepted, rfl⟩
  refine ⟨_, proved, (plonkCovers_iff _ _ ownerPrimitives_same _ _ proved
    (ownerTransfer_keysFit generatorPoint) (ownerTransfer_hashing _ _)).mpr ?_⟩
  exact fun _ _ _ => generator_ne_identity

/-- A transfer to the neutral key passes the statement, and no assignment of the circuit
has its words. -/
theorem neutral_transfer_not_covered : ∃ inp words,
    proveStatement ownerHashes inp = .ok words ∧ inp.nullifiersSalts 0 ≠ 0 ∧
      inp.withdrawAddress = 0 ∧ inp.swapNonce = 0 ∧ inp.partyBPublicKey = identity ∧ KeysFit inp ∧
      KeyFits inp.partyAPublicKey ∧ KeyFits inp.partyBPublicKey ∧
      PlonkLibraries ownerHashes ownerPrimitives ∧ ¬ PlonkCovers ownerPrimitives words := by
  have accepted := @ownerTransfer_accepted 0 (nsmul_zero _)
  have proved := (proveStatement_eq_ok _ _ _).mpr ⟨_, _, _, accepted, rfl⟩
  refine ⟨ownerTransfer 0, _, proved, one_ne_zero, rfl, rfl, rfl, ownerTransfer_keysFit 0,
    keyFits_generator, keyFits_identity, ownerPrimitives_same, ?_⟩
  exact neutral_transfer_refused ownerPrimitives_same accepted one_ne_zero rfl rfl rfl (ownerTransfer_hashing _ _)

end Nightfall.Noir
