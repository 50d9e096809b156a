import Nightfall.Contract.Types
import Nightfall.Plonk.Conservation

/-! Delivery of the new note. The recipient decrypts the five public words, taken from the proof or
read back from the four words on chain, and hashes what comes out. -/

namespace Nightfall.Plonk

variable (saltTag : Fr254)

def domainKem : Fr254 :=
  (21033365405711675223813179268586447041622169155539365736392974498519442361181 : ℕ)
def domainDem : Fr254 :=
  (1241463701002173366467794894814691939898321302682516549591039420117995599097 : ℕ)
def domainSharedSalt : Fr254 :=
  (4832298308599927878911686715232824310149976768223104556783163253807065458 : ℕ)

section

variable (prims : Primitives) (decompress : ℕ → Option Point)

/-- The little-endian bytes of `y`, with the flag's low bit added on top of the last one. -/
def pointBytes (y flag : Fr254) : ℕ := y.val + flag.val % 256 * 128 % 256 * 2 ^ 248

def kemdemDecrypt (secretKey : Fr254) (cipherText : Fin 5 → Fr254) : Option (Fin 4 → Fr254) := do
  let epk ← decompress (pointBytes (cipherText 3) (cipherText 4))
  let secret := prims.scalarMul secretKey epk
  let decryptionKey := prims.poseidonHash [secret.x, secret.y, domainKem]
  return ![cipherText 0 - prims.poseidonHash [decryptionKey, domainDem, 0],
    cipherText 1 - prims.poseidonHash [decryptionKey, domainDem, 1],
    cipherText 2 - prims.poseidonHash [decryptionKey, domainDem, 2],
    prims.poseidonHash [secret.x, secret.y, domainSharedSalt]]

def Recovers (secretKey : Fr254) (recipient : Point) (cipherText : Fin 5 → Fr254) (commitment : Fr254) : Prop :=
  ∃ plain, kemdemDecrypt prims decompress secretKey cipherText = some plain ∧
    Note.commitment prims ⟨plain 0, plain 1, plain 2, recipient, plain 3⟩ = commitment

end

/-- `[U256; 4]` from `CompressedSecrets`; `none` where the conversion panics. -/
def secretsToWords (cipherText : Fin 5 → Fr254) : Option (Fin 4 → Contract.Word) :=
  let compressedPoint := (cipherText 3).val + (cipherText 4).val * 2 ^ 255
  if compressedPoint < 2 ^ 256 then
    some ![BitVec.ofNat 256 (cipherText 0).val, BitVec.ofNat 256 (cipherText 1).val,
      BitVec.ofNat 256 (cipherText 2).val, BitVec.ofNat 256 compressedPoint]
  else none

def frFromWord (word : Contract.Word) : Option Fr254 :=
  if fr254Modulus < word.toNat then none else some (word.toNat : ℕ)

def wordsToSecrets (words : Fin 4 → Contract.Word) : Option (Fin 5 → Fr254) := do
  let topBit := (words 3).toNat / 2 ^ 255
  let yCoord := (words 3).toNat - topBit * 2 ^ 255
  let first ← frFromWord (words 0)
  let second ← frFromWord (words 1)
  let third ← frFromWord (words 2)
  return ![first, second, third, (yCoord : ℕ), (topBit : ℕ)]

theorem frFromWord_val (x : Fr254) : frFromWord (BitVec.ofNat 256 x.val) = some x := by
  have bound := ZMod.val_lt x
  have room : fr254Modulus < 2 ^ 255 := by decide
  have same : (BitVec.ofNat 256 x.val).toNat = x.val := by
    exact Nat.mod_eq_of_lt (by omega)
  rw [frFromWord, same, if_neg (by omega), ZMod.natCast_zmod_val]

theorem wordsToSecrets_secretsToWords {cipherText : Fin 5 → Fr254} (bit : (cipherText 4).val < 2) :
    ∃ words, secretsToWords cipherText = some words ∧ wordsToSecrets words = some cipherText := by
  have bound := ZMod.val_lt (cipherText 3)
  have room : fr254Modulus < 2 ^ 255 := by decide
  have fits : (cipherText 3).val + (cipherText 4).val * 2 ^ 255 < 2 ^ 256 := by omega
  refine ⟨_, if_pos fits, ?_⟩
  have word : (BitVec.ofNat 256 ((cipherText 3).val + (cipherText 4).val * 2 ^ 255)).toNat =
      (cipherText 3).val + (cipherText 4).val * 2 ^ 255 := by
    rw [BitVec.toNat_ofNat]
    exact Nat.mod_eq_of_lt fits
  have top : ((cipherText 3).val + (cipherText 4).val * 2 ^ 255) / 2 ^ 255 = (cipherText 4).val := by
    omega
  simp only [wordsToSecrets, Matrix.cons_val, frFromWord_val, word, top, Nat.add_sub_cancel,
    ZMod.natCast_zmod_val, Option.bind_eq_bind, Option.bind_some, Option.pure_def, Option.some.injEq]
  funext i
  fin_cases i <;> rfl

section

variable (prims : Primitives) (decompress : ℕ → Option Point) (a : Assignment)

structure Delivered (secretKey : Fr254) : Prop where
  direct : Recovers prims decompress secretKey (recipientPublicKey prims a)
    (publicInputs prims a).compressedSecrets ((publicInputs prims a).commitments 0)
  onChain : ∃ words cipherText, secretsToWords (publicInputs prims a).compressedSecrets = some words ∧
    wordsToSecrets words = some cipherText ∧
    Recovers prims decompress secretKey (recipientPublicKey prims a) cipherText
      ((publicInputs prims a).commitments 0)

structure TagsConstant : Prop where
  sharedSalt : a.domainSharedSalt = domainSharedSalt
  kem : a.domainKem = domainKem
  dem : a.domainDem = domainDem
  index : ∀ i, a.demIndex i = (i.val : Fr254)

def decryptionKey : Fr254 :=
  prims.poseidonHash [(sharedSecret prims a).x, (sharedSecret prims a).y, domainKem]

def keyStream (i : Fin 3) : Fr254 :=
  prims.poseidonHash [decryptionKey prims a, domainDem, (i.val : Fr254)]

def plainText : Fin 3 → Fr254 := ![nfTokenId prims a, a.nfSlotId, transferValue prims a]

def decryptedText (i : Fin 3) : Fr254 := demCipher prims a i (plainText prims a i) - keyStream prims a i

def decryptedSalt : Fr254 :=
  prims.poseidonHash [(sharedSecret prims a).x, (sharedSecret prims a).y, domainSharedSalt]

structure DeliveryHashing : Prop where
  note : Set.InjOn prims.poseidonHash {[decryptedText prims a 0, decryptedText prims a 1, decryptedText prims a 2,
        (recipientPublicKey prims a).x, (recipientPublicKey prims a).y, decryptedSalt prims a],
      [nfTokenId prims a, a.nfSlotId, transferValue prims a, (recipientPublicKey prims a).x,
        (recipientPublicKey prims a).y, sharedSalt prims a]}
  stream : ∀ i : Fin 3, Set.InjOn prims.poseidonHash {[encryptionKey prims a, a.domainDem, a.demIndex i],
      [decryptionKey prims a, domainDem, (i.val : Fr254)]}
  key : Set.InjOn prims.poseidonHash {[(sharedSecret prims a).x, (sharedSecret prims a).y, a.domainKem],
      [(sharedSecret prims a).x, (sharedSecret prims a).y, domainKem]}
  salt : Set.InjOn prims.poseidonHash {[(sharedSecret prims a).x, (sharedSecret prims a).y, a.domainSharedSalt],
      [(sharedSecret prims a).x, (sharedSecret prims a).y, domainSharedSalt]}

/-- The documented behaviour of the curve library on this transaction: multiples of the
generator commute, and a point is recovered from its compressed form, whose top bit
says whether `x` exceeds `-x`. -/
structure CurveLaws (secretKey : Fr254) : Prop where
  commute : prims.scalarMul secretKey (prims.scalarMul a.ephemeralKey prims.generator) =
    prims.scalarMul a.ephemeralKey (prims.scalarMul secretKey prims.generator)
  decompression : decompress
    ((epk prims a).y.val + (flag (xParity (epk prims a).x)).val * 2 ^ 255) = some (epk prims a)

end

section

variable {prims : Primitives} {decompress : ℕ → Option Point} {a : Assignment}
  (transfers : a.withdrawAddress = 0) (spends : a.nullifiersSalts 0 ≠ 0)

theorem flag_val_lt (b : Bool) : (flag b).val < 2 := by
  cases b <;> decide

include transfers spends

theorem transfer_commitment : (publicInputs prims a).commitments 0 =
    prims.poseidonHash [nfTokenId prims a, a.nfSlotId, transferValue prims a,
      (recipientPublicKey prims a).x, (recipientPublicKey prims a).y, sharedSalt prims a] := by
  simp [publicInputs, isDeposit, isZero, spends, verifyCommitments, withdrawFlag, transfers]

theorem transfer_secrets : (publicInputs prims a).compressedSecrets =
    ![demCipher prims a 0 (plainText prims a 0), demCipher prims a 1 (plainText prims a 1),
      demCipher prims a 2 (plainText prims a 2), (epk prims a).y, flag (xParity (epk prims a).x)] := by
  funext i
  simp only [publicInputs, isDeposit, isZero, decide_eq_false spends, conditionalSelect_false,
    verifyEncryption, withdrawFlag, transfers, decide_true, Bool.not_true]
  rfl

variable {secretKey : Fr254} (recipient : recipientPublicKey prims a = prims.scalarMul secretKey prims.generator)

include recipient

theorem transfer_decrypt (laws : CurveLaws prims decompress a secretKey) : kemdemDecrypt prims decompress secretKey
        (publicInputs prims a).compressedSecrets =
      some ![decryptedText prims a 0, decryptedText prims a 1, decryptedText prims a 2, decryptedSalt prims a] := by
  have bit := flag_val_lt (xParity (epk prims a).x)
  have bytes : pointBytes (epk prims a).y (flag (xParity (epk prims a).x)) =
      (epk prims a).y.val + (flag (xParity (epk prims a).x)).val * 2 ^ 255 := by
    rw [pointBytes]
    omega
  have agreement : prims.scalarMul secretKey (epk prims a) = sharedSecret prims a := by
    rw [epk, laws.commute, sharedSecret, recipient]
  rw [transfer_secrets transfers spends, kemdemDecrypt]
  simp only [Matrix.cons_val, bytes, laws.decompression, Option.bind_eq_bind, Option.bind_some,
    Option.pure_def, agreement]
  rfl

theorem recovers_iff (laws : CurveLaws prims decompress a secretKey) (hashing : DeliveryHashing prims a) :
    Recovers prims decompress secretKey (recipientPublicKey prims a)
      (publicInputs prims a).compressedSecrets ((publicInputs prims a).commitments 0) ↔
      (∀ i, decryptedText prims a i = plainText prims a i) ∧ decryptedSalt prims a = sharedSalt prims a := by
  have opened : Recovers prims decompress secretKey (recipientPublicKey prims a)
      (publicInputs prims a).compressedSecrets ((publicInputs prims a).commitments 0) ↔
      prims.poseidonHash [decryptedText prims a 0, decryptedText prims a 1, decryptedText prims a 2,
        (recipientPublicKey prims a).x, (recipientPublicKey prims a).y, decryptedSalt prims a] =
      prims.poseidonHash [nfTokenId prims a, a.nfSlotId, transferValue prims a,
        (recipientPublicKey prims a).x, (recipientPublicKey prims a).y, sharedSalt prims a] := by
    rw [Recovers, transfer_decrypt transfers spends recipient laws, transfer_commitment transfers spends]
    simp [Note.commitment]
  rw [opened, hashing.note.eq_iff (by simp) (by simp), Fin.forall_fin_succ, Fin.forall_fin_two]
  simp [plainText, and_assoc]

end

section

variable {prims : Primitives} {a : Assignment} (hashing : DeliveryHashing prims a)

include hashing

theorem decryptedText_eq_iff (i : Fin 3) : decryptedText prims a i = plainText prims a i ↔
    a.domainKem = domainKem ∧ a.domainDem = domainDem ∧ a.demIndex i = (i.val : Fr254) := by
  have key : encryptionKey prims a = decryptionKey prims a ↔ a.domainKem = domainKem := by
    rw [encryptionKey, decryptionKey, hashing.key.eq_iff (by simp) (by simp)]
    simp
  rw [decryptedText, demCipher, add_sub_right_comm, add_eq_right, sub_eq_zero, keyStream,
    (hashing.stream i).eq_iff (by simp) (by simp)]
  simp [key]

theorem decryptedSalt_eq_iff :
    decryptedSalt prims a = sharedSalt prims a ↔ a.domainSharedSalt = domainSharedSalt := by
  rw [eq_comm, decryptedSalt, sharedSalt, hashing.salt.eq_iff (by simp) (by simp)]
  simp

end

/-- The gates do not enter: the wires alone decide what the recipient can read. -/
theorem delivered_iff (prims : Primitives) (decompress : ℕ → Option Point) (a : Assignment)
    (secretKey : Fr254) (transfers : a.withdrawAddress = 0) (spends : a.nullifiersSalts 0 ≠ 0)
    (recipient : recipientPublicKey prims a = prims.scalarMul secretKey prims.generator)
    (laws : CurveLaws prims decompress a secretKey) (hashing : DeliveryHashing prims a) :
    Delivered prims decompress a secretKey ↔ TagsConstant a := by
  have tags : Recovers prims decompress secretKey (recipientPublicKey prims a)
      (publicInputs prims a).compressedSecrets ((publicInputs prims a).commitments 0) ↔
      TagsConstant a := by
    rw [recovers_iff transfers spends recipient laws hashing, decryptedSalt_eq_iff hashing]
    simp only [decryptedText_eq_iff hashing]
    constructor
    · rintro ⟨stream, salt⟩
      exact ⟨salt, (stream 0).1, (stream 0).2.1, fun i => (stream i).2.2⟩
    · intro constant
      exact ⟨fun i => ⟨constant.kem, constant.dem, constant.index i⟩, constant.sharedSalt⟩
  constructor
  · intro delivered
    exact tags.mp delivered.direct
  · intro constant
    have recovers := tags.mpr constant
    have bit : ((publicInputs prims a).compressedSecrets 4).val < 2 := by
      rw [transfer_secrets transfers spends]
      exact flag_val_lt _
    obtain ⟨words, packed, unpacked⟩ := wordsToSecrets_secretsToWords bit
    exact ⟨recovers, words, _, packed, unpacked, recovers⟩

/-- A transfer of `sampleNote` to the owner of the private key 1, with the given tag
for the shared salt and the constants in the other free variables. -/
def sampleTransfer : Plan where
  rootKey := sampleRootKey
  input := soleInput sampleNote
  unsalted := 0
  feeInput := Input.none
  withdrawAddress := 0
  recipient := Noir.generator
  ephemeralKey := 1
  swap := SwapTerms.none
  domainSharedSalt := saltTag
  domainKem := domainKem
  domainDem := domainDem
  demIndex := fun i => (i.val : Fr254)

theorem sampleTransfer_satisfied : Satisfied toyPrims ((sampleTransfer saltTag).assignment toyPrims) := by
  apply Plan.satisfied
  apply Plan.transfer_valid toyPrims_neutralDouble
  · exact sampleRootKey_subgroup
  · exact neutral_spendable _ rfl rfl rfl
  · simp only [sampleTransfer]
    decide
  · rfl
  · rfl
  · simp only [sampleTransfer]
    decide
  · exact toyPrims_doubling 0
  · simp [sampleTransfer, SwapTerms.none]
  · simp [sampleTransfer, SwapTerms.none]
  · exact fun _ => rfl
  · exact fun nonce => absurd rfl nonce

def sampleDecompress (bytes : ℕ) : Option Point :=
  if bytes = Noir.generator.y.val + 2 ^ 255 then some Noir.generator else none

theorem sampleTransfer_laws : CurveLaws toyPrims sampleDecompress
    ((sampleTransfer saltTag).assignment toyPrims) 1 := by
  have ephemeral : epk toyPrims ((sampleTransfer saltTag).assignment toyPrims) = Noir.generator := by
    exact toyPrims_scalarMul_one _
  constructor
  · rfl
  · rw [ephemeral]
    decide

theorem sampleTransfer_recipient : recipientPublicKey toyPrims ((sampleTransfer saltTag).assignment toyPrims) =
      toyPrims.scalarMul 1 toyPrims.generator := by
  rw [Plan.recipientPublicKey_eq, toyPrims_scalarMul_one]
  rfl

theorem sampleTransfer_decryptedText (i : Fin 3) :
    decryptedText toyPrims ((sampleTransfer saltTag).assignment toyPrims) i =
      plainText toyPrims ((sampleTransfer saltTag).assignment toyPrims) i :=
  add_sub_cancel_left _ _

theorem toyPrims_injOn_last (front : List Fr254) (x y : Fr254) :
    Set.InjOn toyPrims.poseidonHash {front ++ [x], front ++ [y]} := by
  rw [Set.injOn_pair]
  intro same
  simp only [toyPrims, List.sum_append, List.sum_singleton, add_left_inj, add_right_inj] at same
  rw [same]

theorem sampleTransfer_hashing : DeliveryHashing toyPrims ((sampleTransfer saltTag).assignment toyPrims) := by
  constructor
  · rw [sampleTransfer_decryptedText, sampleTransfer_decryptedText, sampleTransfer_decryptedText]
    exact toyPrims_injOn_last [_, _, _, _, _] _ _
  · intro i
    exact toyPrims_injOn_last [_, _] _ _
  · exact toyPrims_injOn_last [_, _] _ _
  · exact toyPrims_injOn_last [_, _] _ _

theorem delivered_iff_sample : Delivered toyPrims sampleDecompress
    ((sampleTransfer domainSharedSalt).assignment toyPrims) 1 := by
  apply (delivered_iff _ _ _ _ rfl (by decide) (sampleTransfer_recipient _)
    (sampleTransfer_laws _) (sampleTransfer_hashing _)).mpr
  exact ⟨rfl, rfl, rfl, fun _ => rfl⟩

/-- A transfer with the tag 0 for its shared salt: the recipient reads the token, the
slot and the value, and finds no salt that opens the commitment. -/
theorem transfer_not_delivered : Satisfied toyPrims ((sampleTransfer 0).assignment toyPrims) ∧
      ((sampleTransfer 0).assignment toyPrims).withdrawAddress = 0 ∧
      ((sampleTransfer 0).assignment toyPrims).nullifiersSalts 0 ≠ 0 ∧
      recipientPublicKey toyPrims ((sampleTransfer 0).assignment toyPrims) =
        toyPrims.scalarMul 1 toyPrims.generator ∧ CurveLaws toyPrims sampleDecompress
        ((sampleTransfer 0).assignment toyPrims) 1 ∧
      DeliveryHashing toyPrims ((sampleTransfer 0).assignment toyPrims) ∧
      ¬ Recovers toyPrims sampleDecompress 1 (recipientPublicKey toyPrims ((sampleTransfer 0).assignment toyPrims))
        (publicInputs toyPrims ((sampleTransfer 0).assignment toyPrims)).compressedSecrets
        ((publicInputs toyPrims ((sampleTransfer 0).assignment toyPrims)).commitments 0) := by
  have spends : ((sampleTransfer 0).assignment toyPrims).nullifiersSalts 0 ≠ 0 := by decide
  have recipient := sampleTransfer_recipient 0
  have laws := sampleTransfer_laws 0
  have hashing := sampleTransfer_hashing 0
  refine ⟨sampleTransfer_satisfied 0, rfl, spends, recipient, laws, hashing, ?_⟩
  rw [recovers_iff rfl spends recipient laws hashing, decryptedSalt_eq_iff hashing]
  rintro ⟨_, salt⟩
  revert salt
  decide

end Nightfall.Plonk
