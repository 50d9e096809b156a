import Nightfall.Noir.Conservation
import Nightfall.Plonk.Delivery

/-! Delivery of the new note by the UltraHonk statement. The domain tags are
constants there, and the two sides reach one shared secret because the multiples
of a point of the curve commute. Point decompression is library code of the client. -/

namespace Nightfall.Noir

/-- The documented behaviour of the client's libraries: the same Poseidon, multiples in
the group of the curve, and the ephemeral key of this transaction recovered from its
compressed form, whose top bit says whether `x` exceeds `-x`. -/
structure ClientLibraries (hashes : Hashes) (prims : Plonk.Primitives)
    (decompress : ℕ → Option Point) (inp : StatementInputs) : Prop where
  hash3 : ∀ a b c, prims.poseidonHash [a, b, c] = hashes.hash3 a b c
  scalarMul : ∀ (scalar : Fr254) (p : babyJubJub.Group), scalar.val < subgroupOrder →
    prims.scalarMul scalar p.point = (scalar.val • p).point
  decompression : ∀ epk, mulByGenerator inp.ephemeralKey = .ok epk →
    decompress (epk.y.val + (xParity epk.x).val * 2 ^ 255) = some epk

/-- The recipient reads token, slot, value and salt from the published secrets, directly
and from the four words on chain, and they open the first commitment. -/
structure Delivered (hashes : Hashes) (prims : Plonk.Primitives)
    (decompress : ℕ → Option Point) (secretKey : Fr254) (note : Note)
    (words : List Fr254) (secrets : Fin 5 → Fr254) (chain : Fin 4 → Contract.Word) : Prop where
  published : ∀ i : Fin 5, words[16 + i.val]? = some (secrets i)
  direct : Plonk.kemdemDecrypt prims decompress secretKey secrets =
    some ![note.tokenId, note.slotId, note.value, note.salt]
  packed : Plonk.secretsToWords secrets = some chain
  onChain : (Plonk.wordsToSecrets chain).bind (Plonk.kemdemDecrypt prims decompress secretKey) =
    some ![note.tokenId, note.slotId, note.value, note.salt]
  commitment : words[6]? = some (note.commitment hashes)

def newNote (hashes : Hashes) (inp : StatementInputs) (zkpPubKey sharedSecret : Point) : Note :=
  ⟨nfTokenId inp zkpPubKey, inp.nfSlotId, transferValue inp zkpPubKey,
    recipientPublicKey inp zkpPubKey, sharedSalt hashes sharedSecret⟩

theorem xParity_val_lt (x : Fr254) : (xParity x).val < 2 := by
  rw [xParity]
  split
  · decide
  · decide

theorem domainKem_eq : Plonk.domainKem = domainKem := by decide

theorem domainDem_eq : Plonk.domainDem = domainDem := by decide

theorem domainSharedSalt_eq : Plonk.domainSharedSalt = domainSharedSalt := by decide

theorem sharedSecret_agrees {prims : Plonk.Primitives} {hashes : Hashes} {decompress : ℕ → Option Point}
    {inp : StatementInputs} (client : ClientLibraries hashes prims decompress inp)
    {secretKey : Fr254} (keyRange : secretKey.val < subgroupOrder)
    (ephemeralRange : inp.ephemeralKey.val < subgroupOrder) {recipient sharedSecret epk : Point}
    (derived : mulByGenerator secretKey = .ok recipient)
    (secret : scalarMul inp.ephemeralKey recipient = .ok sharedSecret)
    (ephemeral : mulByGenerator inp.ephemeralKey = .ok epk) :
    prims.scalarMul secretKey epk = sharedSecret := by
  have recipientMultiple : recipient = (secretKey.val • generatorPoint).point :=
    Except.ok.inj (derived.symm.trans (mulByGenerator_eq _ keyRange.le))
  have epkMultiple : epk = (inp.ephemeralKey.val • generatorPoint).point :=
    Except.ok.inj (ephemeral.symm.trans (mulByGenerator_eq _ ephemeralRange.le))
  rw [recipientMultiple, scalarMul_eq _ ephemeralRange.le] at secret
  rw [epkMultiple, client.scalarMul _ _ keyRange, nsmul_left_comm]
  exact Except.ok.inj secret

section

variable {hashes : Hashes} {inp : StatementInputs} {zkpPubKey sharedSecret epk : Point}

theorem transfer_secrets (spends : inp.nullifiersSalts 0 ≠ 0) (transfers : inp.withdrawAddress = 0) :
    (publicInputs hashes inp zkpPubKey sharedSecret epk).secrets =
      ![demEncryptField hashes (deriveEncKey hashes sharedSecret) 0 (nfTokenId inp zkpPubKey),
        demEncryptField hashes (deriveEncKey hashes sharedSecret) 1 inp.nfSlotId,
        demEncryptField hashes (deriveEncKey hashes sharedSecret) 2 (transferValue inp zkpPubKey),
        epk.y, xParity epk.x] := by
  have mode : isDeposit inp = false := decide_eq_false spends
  funext i
  simp [publicInputs, mode, cs, verifyEncryption, withdrawFlag, transfers]

theorem transfer_commitment (spends : inp.nullifiersSalts 0 ≠ 0) (transfers : inp.withdrawAddress = 0) :
    (publicInputs hashes inp zkpPubKey sharedSecret epk).commitments 0 =
      (newNote hashes inp zkpPubKey sharedSecret).commitment hashes := by
  have mode : isDeposit inp = false := decide_eq_false spends
  simp [publicInputs, mode, cs, verifyCommitments, withdrawFlag, transfers, Note.commitment, newNote, commitment]

theorem transfer_decrypt (spends : inp.nullifiersSalts 0 ≠ 0) (transfers : inp.withdrawAddress = 0)
    {prims : Plonk.Primitives} {decompress : ℕ → Option Point}
    (client : ClientLibraries hashes prims decompress inp)
    (ephemeral : mulByGenerator inp.ephemeralKey = .ok epk) {secretKey : Fr254}
    (agreement : prims.scalarMul secretKey epk = sharedSecret) :
    Plonk.kemdemDecrypt prims decompress secretKey (publicInputs hashes inp zkpPubKey sharedSecret epk).secrets =
      some ![nfTokenId inp zkpPubKey, inp.nfSlotId, transferValue inp zkpPubKey, sharedSalt hashes sharedSecret] := by
  have bit := xParity_val_lt epk.x
  have bytes : Plonk.pointBytes epk.y (xParity epk.x) = epk.y.val + (xParity epk.x).val * 2 ^ 255 := by
    rw [Plonk.pointBytes]
    omega
  rw [transfer_secrets spends transfers, Plonk.kemdemDecrypt]
  simp only [Matrix.cons_val, bytes, client.decompression epk ephemeral, Option.bind_eq_bind,
    Option.bind_some, Option.pure_def, agreement, client.hash3, domainKem_eq, domainDem_eq,
    domainSharedSalt_eq, demEncryptField, demKeystream, deriveEncKey, add_sub_cancel_left, sharedSalt]

theorem withdrawal_published (accepted : Accepted hashes inp zkpPubKey sharedSecret epk)
    (withdraws : inp.withdrawAddress ≠ 0) : (publicInputs hashes inp zkpPubKey sharedSecret epk).commitments 0 = 0 ∧
      (publicInputs hashes inp zkpPubKey sharedSecret epk).secrets =
        ![nfTokenId inp zkpPubKey, inp.withdrawAddress, transferValue inp zkpPubKey, 0, 0] := by
  have modes := (modeChecks_eq_ok _ _ _).mp accepted.modes
  have mode : isDeposit inp = false := by
    by_contra deposits
    rw [Bool.not_eq_false] at deposits
    exact withdraws (modes.deposit deposits).2.1
  constructor
  · simp [publicInputs, mode, cs, verifyCommitments, withdrawFlag, withdraws]
  · funext i
    simp [publicInputs, mode, cs, verifyEncryption, withdrawFlag, withdraws]

end

theorem statement_delivers (hashes : Hashes) (prims : Plonk.Primitives) (decompress : ℕ → Option Point)
    (inp : StatementInputs) (words : List Fr254) (proved : proveStatement hashes inp = .ok words) :
    ∃ zkpPubKey, mulByGenerator inp.zkpPriv = .ok zkpPubKey ∧
      (inp.nullifiersSalts 0 ≠ 0 → inp.withdrawAddress = 0 → ∀ secretKey : Fr254, secretKey.val < subgroupOrder →
        mulByGenerator secretKey = .ok (recipientPublicKey inp zkpPubKey) →
        ClientLibraries hashes prims decompress inp →
        ∃ salt secrets chain, Delivered hashes prims decompress secretKey
          ⟨nfTokenId inp zkpPubKey, inp.nfSlotId, transferValue inp zkpPubKey,
            recipientPublicKey inp zkpPubKey, salt⟩ words secrets chain) ∧
      (inp.withdrawAddress ≠ 0 → words[6]? = some 0 ∧ ∀ i : Fin 5, words[16 + i.val]? =
        some (![nfTokenId inp zkpPubKey, inp.withdrawAddress, transferValue inp zkpPubKey, 0, 0] i)) := by
  obtain ⟨zkpPubKey, sharedSecret, epk, accepted, rfl⟩ :=
    (proveStatement_eq_ok hashes inp words).mp proved
  refine ⟨zkpPubKey, accepted.publicKey, ?_, ?_⟩
  · intro spends transfers secretKey keyRange derived client
    have agreement := sharedSecret_agrees client keyRange accepted.ephemeralRange derived
      accepted.secret accepted.ephemeral
    have decrypted := @transfer_decrypt hashes inp zkpPubKey sharedSecret epk spends transfers _ _
      client accepted.ephemeral _ agreement
    have bit : ((publicInputs hashes inp zkpPubKey sharedSecret epk).secrets 4).val < 2 := by
      rw [transfer_secrets spends transfers]
      exact xParity_val_lt _
    obtain ⟨chain, packed, unpacked⟩ := Plonk.wordsToSecrets_secretsToWords bit
    refine ⟨sharedSalt hashes sharedSecret, _, chain, words_secret _, decrypted, packed, ?_, ?_⟩
    · rw [unpacked]
      exact decrypted
    · rw [show 6 = 6 + (0 : Fin 4).val from rfl, words_commitment, transfer_commitment spends transfers]
      rfl
  · intro withdraws
    obtain ⟨noNote, secrets⟩ := withdrawal_published accepted withdraws
    constructor
    · rw [show 6 = 6 + (0 : Fin 4).val from rfl, words_commitment, noNote]
    · intro i
      rw [words_secret, secrets]

def toyPrims : Plonk.Primitives where
  poseidonHash := fun inputs => inputs.sum + 1
  spongeHash := fun inputs => inputs.sum
  shiftedSha256 := fun _ => 0
  eccAdd := Edwards.add coeffD
  scalarMul := fun scalar p => (scalarMul scalar p).toOption.getD p
  generator := generator

/-- The note of `sampleNote`, sent to the owner of the private key 2. -/
def sampleTransfer : StatementInputs :=
  transfer additiveHashes (-privateKeyPrefix) 1 0 1 generator (2 • generatorPoint).point sampleNote
    (fun _ => 0) samplePath

theorem sampleTransfer_proved : ∃ words, proveStatement additiveHashes sampleTransfer = .ok words := by
  have member : subgroupOrder • 2 • generatorPoint = 0 := by
    rw [nsmul_left_comm, subgroupOrder_nsmul_generator, nsmul_zero]
  have accepted : Accepted additiveHashes sampleTransfer generator _ _ :=
    transfer_accepted additiveHashes_reduction mulByGenerator_one (by decide) (by decide)
      (fun _ => by decide) (Or.inl (by decide)) member (by decide) (by decide)
  exact ⟨_, (proveStatement_eq_ok _ _ _).mpr ⟨_, _, _, accepted, rfl⟩⟩

theorem sampleTransfer_client : ClientLibraries additiveHashes toyPrims Plonk.sampleDecompress sampleTransfer := by
  constructor
  · intro a b c
    simp [toyPrims, additiveHashes, add_assoc]
  · intro scalar p range
    simp [toyPrims, scalarMul_eq scalar range.le p, Except.toOption]
  · intro epk derived
    have same : generator = epk := Except.ok.inj (mulByGenerator_one.symm.trans derived)
    subst same
    decide

theorem statement_delivers_sample : ∃ words salt secrets chain,
    proveStatement additiveHashes sampleTransfer = .ok words ∧
      Delivered additiveHashes toyPrims Plonk.sampleDecompress 2
        ⟨sampleNote.tokenId, sampleNote.slotId, sampleNote.value, (2 • generatorPoint).point, salt⟩
        words secrets chain := by
  obtain ⟨words, proved⟩ := sampleTransfer_proved
  obtain ⟨zkpPubKey, _, delivers, _⟩ := statement_delivers additiveHashes toyPrims
    Plonk.sampleDecompress sampleTransfer words proved
  have recipient : mulByGenerator 2 = .ok (recipientPublicKey sampleTransfer zkpPubKey) := by
    exact mulByGenerator_eq 2 (by decide)
  obtain ⟨salt, secrets, chain, delivered⟩ :=
    delivers (by decide) rfl 2 (by decide) recipient sampleTransfer_client
  refine ⟨words, salt, secrets, chain, proved, ?_⟩
  exact delivered

end Nightfall.Noir
