import Mathlib.Data.Vector.Defs
import Nightfall.Contract.NovaVerifier

/-! The attestation envelope on the Rust side: `NovaProof` with its bincode form, the preimage that
attestors sign, and the structural check that they make before. -/

namespace Nightfall.Nova

open Bytes Contract Revert
open List hiding Vector

variable (proof : NovaProof) (chainId : UInt64) (verifier : Address) (publicInputs : Vector Bytes32 4)

abbrev ByteVec := { bytes : ByteString // bytes.length < 2 ^ 64 }

structure NovaProof where
  snarkProof : ByteVec
  commitmentsRoot : ByteVec
  nullifiersRoot : ByteVec
  historicRootRoot : ByteVec
  transactionCount : UInt64
deriving DecidableEq

def serializeVec (vec : ByteVec) : ByteString := leBytes 8 vec.val.length ++ vec.val

/-- `bincode::serialize`: fixed-width little-endian lengths and integers. -/
def NovaProof.serialize : ByteString :=
  serializeVec proof.snarkProof ++ serializeVec proof.commitmentsRoot ++
    serializeVec proof.nullifiersRoot ++ serializeVec proof.historicRootRoot ++ leBytes 8 proof.transactionCount.toNat

def readU64 (input : ByteString) : Except String (UInt64 × ByteString) := do
  require (8 ≤ input.length) "unexpected end of file"
  return (UInt64.ofNat (leNat (input.take 8)), input.drop 8)

theorem take_fits (length : UInt64) (bytes : ByteString) : (bytes.take length.toNat).length < 2 ^ 64 :=
  Nat.lt_of_le_of_lt (length_take_le _ _) length.toNat_lt

def deserializeVec (input : ByteString) : Except String (ByteVec × ByteString) := do
  let (length, rest) ← readU64 input
  require (length.toNat ≤ rest.length) "unexpected end of file"
  return (⟨rest.take length.toNat, take_fits length rest⟩, rest.drop length.toNat)

def NovaProof.deserialize (blob : ByteString) : Except String NovaProof := do
  let (snarkProof, rest) ← deserializeVec blob
  let (commitmentsRoot, rest) ← deserializeVec rest
  let (nullifiersRoot, rest) ← deserializeVec rest
  let (historicRootRoot, rest) ← deserializeVec rest
  let (transactionCount, _) ← readU64 rest
  return ⟨snarkProof, commitmentsRoot, nullifiersRoot, historicRootRoot, transactionCount⟩

abbrev Bytes32 := Vector UInt8 32

def Bytes32.word (bytes : Bytes32) : Word := BitVec.ofNat 256 (beNat bytes.toList)

def attestDomain : ByteString := ascii "NF4_NOVA_ATTEST_V1"

def maxSteps : ℕ := 10000

def toWord (field : String) (vec : ByteVec) : Except String Bytes32 :=
  if size : vec.val.length = 32 then .ok ⟨vec.val.toArray, size⟩
  else .error (field ++ " is not 32 bytes (got " ++ toString vec.val.length ++ ")")

def attestationPreimage (snarkProof : ByteString) (commitmentsRoot nullifiersRoot historicRootRoot : Bytes32)
    (transactionCount : UInt64) (publicInputs : Vector Bytes32 4) : ByteString :=
  attestDomain ++ (replicate 24 0 ++ beBytes 8 chainId.toNat) ++ addressBytes verifier ++
    snarkProof ++ commitmentsRoot.toList ++ nullifiersRoot.toList ++ historicRootRoot.toList ++
    beBytes 8 transactionCount.toNat ++ publicInputs.toList.flatMap Vector.toList

def preimageFromProof (proof : NovaProof) (publicInputs : Vector Bytes32 4) : Except String ByteString := do
  let commitmentsRoot ← toWord "commitments_root" proof.commitmentsRoot
  let nullifiersRoot ← toWord "nullifiers_root" proof.nullifiersRoot
  let historicRootRoot ← toWord "historic_root_root" proof.historicRootRoot
  return attestationPreimage chainId verifier proof.snarkProof.val commitmentsRoot nullifiersRoot
    historicRootRoot proof.transactionCount publicInputs

def checkStructuralBinding : Except String Unit := do
  require (64 ≤ proof.snarkProof.val.length) ("structural check failed: snark_proof too short (" ++
    toString proof.snarkProof.val.length ++ " < 64)")
  let commitmentsRoot ← toWord "commitments_root" proof.commitmentsRoot
  let nullifiersRoot ← toWord "nullifiers_root" proof.nullifiersRoot
  let historicRootRoot ← toWord "historic_root_root" proof.historicRootRoot
  require (commitmentsRoot = publicInputs.get 0) "structural check failed: commitments_root != publicInputs[0]"
  require (nullifiersRoot = publicInputs.get 1) "structural check failed: nullifiers_root != publicInputs[1]"
  require (historicRootRoot = publicInputs.get 2) "structural check failed: historic_root_root != publicInputs[2]"
  require (proof.transactionCount.toNat ≤ maxSteps) ("structural check failed: transaction_count " ++
    toString proof.transactionCount.toNat ++ " > MAX_STEPS " ++ toString maxSteps)

theorem swapped_bytes (b0 b1 b2 b3 b4 b5 b6 b7 : UInt8) (value : ℕ)
    (isValue : value = beNat [b0, b1, b2, b3, b4, b5, b6, b7]) :
    (let byte := fun index => (value >>> (8 * index)) &&& 0xff
    byte 0 <<< 56 ||| byte 1 <<< 48 ||| byte 2 <<< 40 ||| byte 3 <<< 32 |||
      byte 4 <<< 24 ||| byte 5 <<< 16 ||| byte 6 <<< 8 ||| byte 7) =
      leNat [b0, b1, b2, b3, b4, b5, b6, b7] := by
  have byte : ∀ value index, (value >>> (8 * index)) &&& 0xff = value / 256 ^ index % 256 := by
    intro value index
    rw [Nat.shiftRight_eq_div_pow, Nat.pow_mul, show (0xff : ℕ) = 2 ^ 8 - 1 from rfl, Nat.and_two_pow_sub_one_eq_mod]
  have digit0 : value / 256 ^ 0 % 256 = b7.toNat :=
    isValue ▸ beNat_byte [b0, b1, b2, b3, b4, b5, b6] b7 []
  have digit1 : value / 256 ^ 1 % 256 = b6.toNat :=
    isValue ▸ beNat_byte [b0, b1, b2, b3, b4, b5] b6 [b7]
  have digit2 : value / 256 ^ 2 % 256 = b5.toNat :=
    isValue ▸ beNat_byte [b0, b1, b2, b3, b4] b5 [b6, b7]
  have digit3 : value / 256 ^ 3 % 256 = b4.toNat :=
    isValue ▸ beNat_byte [b0, b1, b2, b3] b4 [b5, b6, b7]
  have digit4 : value / 256 ^ 4 % 256 = b3.toNat :=
    isValue ▸ beNat_byte [b0, b1, b2] b3 [b4, b5, b6, b7]
  have digit5 : value / 256 ^ 5 % 256 = b2.toNat :=
    isValue ▸ beNat_byte [b0, b1] b2 [b3, b4, b5, b6, b7]
  have digit6 : value / 256 ^ 6 % 256 = b1.toNat :=
    isValue ▸ beNat_byte [b0] b1 [b2, b3, b4, b5, b6, b7]
  have digit7 : value / 256 ^ 7 % 256 = b0.toNat :=
    isValue ▸ beNat_byte [] b0 [b1, b2, b3, b4, b5, b6, b7]
  have last : b0.toNat = b0.toNat <<< 0 := rfl
  simp only [byte, digit0, digit1, digit2, digit3, digit4, digit5, digit6, digit7]
  rw [shiftLeft_or_byte _ _ 48 b6.toNat_lt, shiftLeft_or_byte _ _ 40 b5.toNat_lt,
    shiftLeft_or_byte _ _ 32 b4.toNat_lt, shiftLeft_or_byte _ _ 24 b3.toNat_lt,
    shiftLeft_or_byte _ _ 16 b2.toNat_lt, shiftLeft_or_byte _ _ 8 b1.toNat_lt, last,
    shiftLeft_or_byte _ _ 0 b0.toNat_lt, Nat.shiftLeft_zero]
  simp [leNat, beNat]

theorem readUint64LE_eq (proof : ByteString) (cursor : ℕ) (fits : cursor + 8 ≤ proof.length) :
    readUint64LE proof cursor = leNat ((proof.drop cursor).take 8) := by
  have size : ((proof.drop cursor).take 8).length = 8 := by
    rw [length_take, length_drop]
    omega
  rw [readUint64LE]
  generalize (proof.drop cursor).take 8 = bytes at size
  match bytes, size with
  | [b0, b1, b2, b3, b4, b5, b6, b7], _ => exact swapped_bytes b0 b1 b2 b3 b4 b5 b6 b7 _ rfl

theorem readUint64LE_leBytes (front rest : ByteString) {value : ℕ} (fits : value < 2 ^ 64) :
    readUint64LE (front ++ leBytes 8 value ++ rest) front.length = value := by
  rw [readUint64LE_eq _ _ (by simp only [length_append, leBytes_length]; omega),
    append_assoc, drop_left, take_left' (leBytes_length 8 value),
    leNat_leBytes 8 fits]

theorem readByteVec_serializeVec (front rest : ByteString) (vec : ByteVec) :
    readByteVec (front ++ serializeVec vec ++ rest) front.length =
      some ((front ++ serializeVec vec).length, vec.val) := by
  have length : readUint64LE (front ++ serializeVec vec ++ rest) front.length = vec.val.length := by
    rw [serializeVec, ← append_assoc, append_assoc]
    exact readUint64LE_leBytes front (vec.val ++ rest) vec.property
  have body : (front ++ serializeVec vec ++ rest).drop (front.length + 8) = vec.val ++ rest := by
    rw [serializeVec, ← append_assoc, append_assoc]
    exact drop_left' (by simp)
  have total : (front ++ serializeVec vec ++ rest).length = front.length + 8 + vec.val.length + rest.length := by
    simp only [serializeVec, length_append, leBytes_length]
    omega
  rw [readByteVec, if_neg (by omega)]
  simp only [length, body, take_left]
  simp [serializeVec, Nat.add_assoc]

/-- The roots that `to_word` accepts. -/
structure NovaProof.RootsFit (proof : NovaProof) : Prop where
  commitments : proof.commitmentsRoot.val.length = 32
  nullifiers : proof.nullifiersRoot.val.length = 32
  historic : proof.historicRootRoot.val.length = 32

def NovaProof.parsed : NovaProofData where
  snarkProof := proof.snarkProof.val
  commitmentsRoot := BitVec.ofNat 256 (beNat proof.commitmentsRoot.val)
  nullifiersRoot := BitVec.ofNat 256 (beNat proof.nullifiersRoot.val)
  historicRootRoot := BitVec.ofNat 256 (beNat proof.historicRootRoot.val)
  transactionCount := proof.transactionCount.toNat

theorem readByteVec_fields (rest : ByteString) :
    ∃ first second third fourth, readByteVec (proof.serialize ++ rest) 0 = some (first, proof.snarkProof.val) ∧
      readByteVec (proof.serialize ++ rest) first = some (second, proof.commitmentsRoot.val) ∧
      readByteVec (proof.serialize ++ rest) second = some (third, proof.nullifiersRoot.val) ∧
      readByteVec (proof.serialize ++ rest) third = some (fourth, proof.historicRootRoot.val) ∧
      readUint64LE (proof.serialize ++ rest) fourth = proof.transactionCount.toNat ∧
      proof.serialize.length = fourth + 8 := by
  let first := serializeVec proof.snarkProof
  let second := first ++ serializeVec proof.commitmentsRoot
  let third := second ++ serializeVec proof.nullifiersRoot
  let fourth := third ++ serializeVec proof.historicRootRoot
  let count := leBytes 8 proof.transactionCount.toNat
  refine ⟨first.length, second.length, third.length, fourth.length, ?_, ?_, ?_, ?_, ?_, ?_⟩
  · have read := readByteVec_serializeVec [] (serializeVec proof.commitmentsRoot ++
      serializeVec proof.nullifiersRoot ++ serializeVec proof.historicRootRoot ++ count ++ rest)
      proof.snarkProof
    simpa [NovaProof.serialize, first, count] using read
  · have read := readByteVec_serializeVec first (serializeVec proof.nullifiersRoot ++
      serializeVec proof.historicRootRoot ++ count ++ rest) proof.commitmentsRoot
    simpa [NovaProof.serialize, first, second, count] using read
  · have read := readByteVec_serializeVec second
      (serializeVec proof.historicRootRoot ++ count ++ rest) proof.nullifiersRoot
    simpa [NovaProof.serialize, first, second, third, count] using read
  · have read := readByteVec_serializeVec third (count ++ rest) proof.historicRootRoot
    simpa [NovaProof.serialize, first, second, third, fourth, count] using read
  · exact readUint64LE_leBytes fourth rest proof.transactionCount.toNat_lt
  · rw [← leBytes_length 8 proof.transactionCount.toNat, ← length_append]
    rfl

theorem readRoot_of_vec {bytes root : ByteString} {cursor next : ℕ}
    (read : readByteVec bytes cursor = some (next, root)) :
    readRoot bytes cursor = if root.length = 32 then some (next, BitVec.ofNat 256 (beNat root)) else none := by
  rw [readRoot, read]
  by_cases size : root.length = 32
  · simp [size]
  · simp [size]

theorem parseProof_serialize (fits : proof.RootsFit) (rest : ByteString) :
    parseProof (proof.serialize ++ rest) = some (proof.parsed, proof.serialize.length) := by
  obtain ⟨first, second, third, fourth, snark, commitments, nullifiers, historic, count, total⟩ :=
    readByteVec_fields proof rest
  simp [parseProof, snark, readRoot_of_vec commitments, readRoot_of_vec nullifiers, readRoot_of_vec historic,
    fits.commitments, fits.nullifiers, fits.historic, count, total, NovaProof.parsed]

theorem parseProof_misfit (misfit : ¬ proof.RootsFit) (rest : ByteString) :
    parseProof (proof.serialize ++ rest) = none := by
  obtain ⟨first, second, third, fourth, snark, commitments, nullifiers, historic, _, _⟩ :=
    readByteVec_fields proof rest
  rw [parseProof, snark]
  simp only [Option.bind_eq_bind, Option.bind_some, readRoot_of_vec commitments]
  by_cases commitmentsFit : proof.commitmentsRoot.val.length = 32
  · simp only [commitmentsFit, if_true, Option.bind_some, readRoot_of_vec nullifiers]
    by_cases nullifiersFit : proof.nullifiersRoot.val.length = 32
    · have historicMisfit : proof.historicRootRoot.val.length ≠ 32 :=
        fun historicFit => misfit ⟨commitmentsFit, nullifiersFit, historicFit⟩
      simp [nullifiersFit, readRoot_of_vec historic, if_neg historicMisfit]
    · simp [if_neg nullifiersFit]
  · simp [if_neg commitmentsFit]

theorem wordBytes_injective {left right : Word} (same : wordBytes left = wordBytes right) : left = right :=
  BitVec.eq_of_toNat_eq (beBytes_injective 32 left.isLt right.isLt same)

theorem addressBytes_injective {left right : Address}
    (same : addressBytes left = addressBytes right) : left = right :=
  BitVec.eq_of_toNat_eq (beBytes_injective 20 left.isLt right.isLt same)

theorem wordBytes_length (word : Word) : (wordBytes word).length = 32 := beBytes_length _ _

theorem wordBytes_ofBytes {bytes : ByteString} (size : bytes.length = 32) :
    wordBytes (BitVec.ofNat 256 (beNat bytes)) = bytes := by
  have fits : beNat bytes < 2 ^ 256 := by
    have bound := beNat_lt bytes
    rwa [size] at bound
  rw [wordBytes, BitVec.toNat_ofNat, Nat.mod_eq_of_lt fits, ← size, beBytes_beNat]

theorem Bytes32.wordBytes_word (bytes : Bytes32) : wordBytes bytes.word = bytes.toList :=
  wordBytes_ofBytes (by simp)

theorem Bytes32.word_injective {left right : Bytes32} (same : left.word = right.word) : left = right := by
  have bytes := congrArg wordBytes same
  rw [Bytes32.wordBytes_word, Bytes32.wordBytes_word] at bytes
  exact Vector.toList_inj.mp bytes

theorem flatMap_wordBytes_length (words : List Word) : (words.flatMap wordBytes).length = 32 * words.length := by
  induction words with
  | nil => rfl
  | cons word rest ih =>
    rw [flatMap_cons, length_append, ih, wordBytes_length, length_cons]
    omega

theorem flatMap_wordBytes_injective {left : List Word} : ∀ {right : List Word},
    left.flatMap wordBytes = right.flatMap wordBytes → left.length = right.length → left = right := by
  induction left with
  | nil =>
    intro right _ sameLength
    exact (length_eq_zero_iff.mp sameLength.symm).symm
  | cons word rest ih =>
    intro right same sameLength
    cases right with
    | nil => simp at sameLength
    | cons other others =>
      obtain ⟨first, later⟩ := append_inj same ((wordBytes_length word).trans (wordBytes_length other).symm)
      rw [wordBytes_injective first, ih later (by simpa using sameLength)]

theorem attestPreimage_injective {chain other : Chain} {self otherSelf : Address} {proof otherProof : NovaProofData}
    {inputs otherInputs : List Word} (sameInputs : inputs.length = otherInputs.length)
    (fits : proof.transactionCount < 2 ^ 64) (otherFits : otherProof.transactionCount < 2 ^ 64)
    (same : attestPreimage chain self proof inputs = attestPreimage other otherSelf otherProof otherInputs) :
    chain.chainId = other.chainId ∧ self = otherSelf ∧ proof = otherProof ∧ inputs = otherInputs := by
  have words : ∀ left right : Word, (wordBytes left).length = (wordBytes right).length :=
    fun left right => (wordBytes_length left).trans (wordBytes_length right).symm
  obtain ⟨same, inputBytes⟩ := append_inj' same (by
    rw [flatMap_wordBytes_length, flatMap_wordBytes_length, sameInputs])
  obtain ⟨same, count⟩ := append_inj' same (by rw [beBytes_length, beBytes_length])
  obtain ⟨same, historic⟩ := append_inj' same (words _ _)
  obtain ⟨same, nullifiers⟩ := append_inj' same (words _ _)
  obtain ⟨same, commitments⟩ := append_inj' same (words _ _)
  have addresses : (addressBytes self).length = (addressBytes otherSelf).length :=
    (beBytes_length _ _).trans (beBytes_length _ _).symm
  obtain ⟨same, snark⟩ := append_inj same (by
    simp only [length_append, words chain.chainId other.chainId, addresses])
  obtain ⟨same, verifier⟩ := append_inj' same addresses
  obtain ⟨_, chainId⟩ := append_inj' same (words _ _)
  refine ⟨wordBytes_injective chainId, addressBytes_injective verifier, ?_,
    flatMap_wordBytes_injective inputBytes sameInputs⟩
  cases proof
  cases otherProof
  simp only [NovaProofData.mk.injEq]
  exact ⟨snark, wordBytes_injective commitments, wordBytes_injective nullifiers,
    wordBytes_injective historic, beBytes_injective 8 fits otherFits count⟩

theorem toWord_eq_ok (field : String) (vec : ByteVec) (root : Bytes32) :
    toWord field vec = .ok root ↔ vec.val = root.toList := by
  unfold toWord
  split
  · simp [← Vector.toList_inj]
  · grind

/-- What `check_structural_binding` accepts. -/
@[mk_iff] structure Bound (proof : NovaProof) (inputs : Vector Bytes32 4) : Prop where
  snark : 64 ≤ proof.snarkProof.val.length
  commitments : proof.commitmentsRoot.val = (inputs.get 0).toList
  nullifiers : proof.nullifiersRoot.val = (inputs.get 1).toList
  historic : proof.historicRootRoot.val = (inputs.get 2).toList
  steps : proof.transactionCount.toNat ≤ maxSteps

theorem checkStructuralBinding_eq_ok (inputs : Vector Bytes32 4)
    (result : Unit) : checkStructuralBinding proof inputs = .ok result ↔ Bound proof inputs := by
  simp [checkStructuralBinding, toWord_eq_ok, bound_iff]

theorem Bound.rootsFit {proof : NovaProof} {inputs : Vector Bytes32 4}
    (bound : Bound proof inputs) : proof.RootsFit := by
  refine ⟨?_, ?_, ?_⟩
  · rw [bound.commitments, Vector.length_toList]
  · rw [bound.nullifiers, Vector.length_toList]
  · rw [bound.historic, Vector.length_toList]

theorem preimageFromProof_eq_ok (proof : NovaProof) (publicInputs : Vector Bytes32 4) (preimage : ByteString) :
    preimageFromProof chainId verifier proof publicInputs = .ok preimage ↔
      proof.RootsFit ∧ attestDomain ++ (replicate 24 0 ++ beBytes 8 chainId.toNat) ++
        addressBytes verifier ++ proof.snarkProof.val ++ proof.commitmentsRoot.val ++
        proof.nullifiersRoot.val ++ proof.historicRootRoot.val ++
        beBytes 8 proof.transactionCount.toNat ++ publicInputs.toList.flatMap Vector.toList = preimage := by
  simp only [preimageFromProof, bind_eq_ok, toWord_eq_ok, pure_eq_ok, attestationPreimage]
  constructor
  · rintro ⟨commitments, commitmentsIs, nullifiers, nullifiersIs, historic, historicIs, rfl⟩
    rw [commitmentsIs, nullifiersIs, historicIs]
    exact ⟨⟨by rw [commitmentsIs, Vector.length_toList], by rw [nullifiersIs, Vector.length_toList],
      by rw [historicIs, Vector.length_toList]⟩, rfl⟩
  · rintro ⟨fits, rfl⟩
    exact ⟨⟨proof.commitmentsRoot.val.toArray, fits.commitments⟩, rfl,
      ⟨proof.nullifiersRoot.val.toArray, fits.nullifiers⟩, rfl,
      ⟨proof.historicRootRoot.val.toArray, fits.historic⟩, rfl, rfl⟩

theorem flatMap_toList :
    publicInputs.toList.flatMap Vector.toList = (publicInputs.toList.map Bytes32.word).flatMap wordBytes := by
  rw [flatMap_map]
  simp only [Bytes32.wordBytes_word]

theorem preimageFromProof_eq (chain : Chain) (chainId : UInt64)
    (configured : chain.chainId = BitVec.ofNat 256 chainId.toNat) (verifier : Address)
    (proof : NovaProof) (fits : proof.RootsFit) (publicInputs : Vector Bytes32 4) :
    preimageFromProof chainId verifier proof publicInputs = .ok (attestPreimage chain verifier proof.parsed
        (publicInputs.toList.map Bytes32.word)) := by
  have chainBytes : wordBytes chain.chainId = replicate 24 0 ++ beBytes 8 chainId.toNat := by
    have small := chainId.toNat_lt
    rw [configured, wordBytes, BitVec.toNat_ofNat, Nat.mod_eq_of_lt (by omega)]
    exact beBytes_pad 24 8 small
  rw [preimageFromProof_eq_ok]
  refine ⟨fits, ?_⟩
  rw [attestPreimage, chainBytes, flatMap_toList, NovaProof.parsed,
    wordBytes_ofBytes fits.commitments, wordBytes_ofBytes fits.nullifiers, wordBytes_ofBytes fits.historic]
  rfl

theorem parsed_injective {proof other : NovaProof} (fits : proof.RootsFit)
    (otherFits : other.RootsFit) (same : proof.parsed = other.parsed) : proof = other := by
  have root : ∀ left right : ByteVec, left.val.length = 32 → right.val.length = 32 →
      BitVec.ofNat 256 (beNat left.val) = BitVec.ofNat 256 (beNat right.val) → left = right := by
    intro left right leftSize rightSize words
    have bytes := congrArg wordBytes words
    rw [wordBytes_ofBytes leftSize, wordBytes_ofBytes rightSize] at bytes
    exact Subtype.ext bytes
  simp only [NovaProof.parsed, NovaProofData.mk.injEq] at same
  obtain ⟨snark, commitments, nullifiers, historic, count⟩ := same
  have commitmentsSame := root _ _ fits.commitments otherFits.commitments commitments
  have nullifiersSame := root _ _ fits.nullifiers otherFits.nullifiers nullifiers
  have historicSame := root _ _ fits.historic otherFits.historic historic
  cases proof
  cases other
  simp only [NovaProof.mk.injEq]
  exact ⟨Subtype.ext snark, commitmentsSame, nullifiersSame, historicSame, UInt64.toNat_inj.mp count⟩

/-- Attestors and the contract hash the same bytes, and no two requests share them. -/
theorem attestation_preimage_shared (chain : Chain) (chainId : UInt64)
    (configured : chain.chainId = BitVec.ofNat 256 chainId.toNat) (verifier : Address) (proof : NovaProof)
    (fits : proof.RootsFit) (publicInputs : Vector Bytes32 4) (signature : ByteString) :
    (∃ parsed, parseProof (proof.serialize ++ signature) = some (parsed, proof.serialize.length) ∧
      preimageFromProof chainId verifier proof publicInputs =
        .ok (attestPreimage chain verifier parsed (publicInputs.toList.map Bytes32.word))) ∧
    ∀ otherId otherVerifier otherProof otherInputs, preimageFromProof chainId verifier proof publicInputs =
        preimageFromProof otherId otherVerifier otherProof otherInputs →
      chainId = otherId ∧ verifier = otherVerifier ∧ proof = otherProof ∧ publicInputs = otherInputs := by
  have here := preimageFromProof_eq chain chainId configured verifier proof fits publicInputs
  refine ⟨⟨proof.parsed, parseProof_serialize proof fits signature, here⟩, ?_⟩
  intro otherId otherVerifier otherProof otherInputs same
  rw [here] at same
  have otherFits := ((preimageFromProof_eq_ok _ _ _ _ _).mp same.symm).1
  let otherChain : Chain := { chain with chainId := BitVec.ofNat 256 otherId.toNat }
  rw [preimageFromProof_eq otherChain otherId rfl otherVerifier otherProof otherFits] at same
  obtain ⟨ids, verifiers, parsed, inputs⟩ := attestPreimage_injective (by simp)
    proof.transactionCount.toNat_lt otherProof.transactionCount.toNat_lt (Except.ok.inj same)
  refine ⟨?_, verifiers, parsed_injective fits otherFits parsed, ?_⟩
  · have small := chainId.toNat_lt
    have otherSmall := otherId.toNat_lt
    have numbers := congrArg BitVec.toNat (configured.symm.trans ids)
    rw [BitVec.toNat_ofNat, BitVec.toNat_ofNat, Nat.mod_eq_of_lt (by omega), Nat.mod_eq_of_lt (by omega)] at numbers
    exact UInt64.toNat_inj.mp numbers
  · exact Vector.toList_inj.mp ((map_inj_right fun _ _ => Bytes32.word_injective).mp inputs)

theorem sampleSnark_fits : (replicate 64 (7 : UInt8)).length < 2 ^ 64 := by decide

theorem sampleRoot_fits : (replicate 32 (1 : UInt8)).length < 2 ^ 64 := by decide

def sampleNovaProof : NovaProof :=
  ⟨⟨_, sampleSnark_fits⟩, ⟨_, sampleRoot_fits⟩, ⟨_, sampleRoot_fits⟩, ⟨_, sampleRoot_fits⟩, 20⟩

theorem sampleNovaProof_rootsFit : sampleNovaProof.RootsFit := ⟨rfl, rfl, rfl⟩

def localChain : Chain :=
  ⟨fun _ => 0, fun _ => 0, 31337, fun _ _ => none, fun _ _ => none, fun _ _ => none, fun _ => none⟩

theorem attestation_preimage_shared_sample :
    ∃ parsed, parseProof (sampleNovaProof.serialize ++ [1, 2]) = some (parsed, 200) ∧
      preimageFromProof 31337 5 sampleNovaProof (Vector.replicate 4 (Vector.replicate 32 1)) =
        .ok (attestPreimage localChain 5 parsed
          ((Vector.replicate 4 (Vector.replicate 32 (1 : UInt8))).toList.map Bytes32.word)) :=
  (attestation_preimage_shared localChain 31337 rfl 5 sampleNovaProof sampleNovaProof_rootsFit
    (Vector.replicate 4 (Vector.replicate 32 1)) [1, 2]).1

end Nightfall.Nova
