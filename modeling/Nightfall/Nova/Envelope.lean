import Nightfall.Contract.Parsing
import Nightfall.Nova.Attestation

/-! The proof envelope on both sides: the bytes that `bincode` writes are what the two
Solidity parsers read back, and the check that an attestor makes before signing is the
structural part of the contract's gate. -/

namespace Nightfall.Nova

open Bytes Contract Revert
open List hiding Vector

structure ReadBack (envelope : NovaProof) (result : ParseResult) : Prop where
  accepted : result.ok = true
  snark : result.parsedProof.snarkProof = envelope.snarkProof.val
  commitments : wordBytes result.parsedProof.commitmentsRoot = envelope.commitmentsRoot.val
  nullifiers : wordBytes result.parsedProof.nullifiersRoot = envelope.nullifiersRoot.val
  historic : wordBytes result.parsedProof.historicRootRoot = envelope.historicRootRoot.val
  count : result.parsedProof.transactionCount = envelope.transactionCount.toNat
  cursor : result.cursor.toNat = envelope.serialize.length

theorem readBack_serialize {envelope : NovaProof} (fits : envelope.RootsFit) {suffix : ByteString}
    {proof : Calldata} (isProof : proof.bytes = envelope.serialize ++ suffix) :
    ∃ result, NovaRollupVerifier.parseProof proof = .ok result ∧ ReadBack envelope result := by
  have short : proof.bytes.length < 2 ^ 64 := by
    rw [proof.bytes_length]
    exact proof.decoded
  obtain ⟨result, parsed, _, verdict⟩ := parseProof_reads short
  rw [isProof, parseProof_serialize envelope fits] at verdict
  split at verdict
  · rename_i accepted
    obtain ⟨isParsed, isCursor⟩ := Prod.mk.inj (Option.some.inj verdict)
    refine ⟨result, parsed proof rfl, accepted, ?_, ?_, ?_, ?_, ?_, isCursor.symm⟩
    · rw [← isParsed]
      rfl
    · rw [← isParsed]
      exact wordBytes_ofBytes fits.commitments
    · rw [← isParsed]
      exact wordBytes_ofBytes fits.nullifiers
    · rw [← isParsed]
      exact wordBytes_ofBytes fits.historic
    · rw [← isParsed]
      rfl
  · cases verdict

/-- Both parsers read an envelope back and leave the cursor at its trailer. On any bytes at
all they agree, do not overflow, keep the cursor inside the proof, and see nothing of the
calldata around it. -/
theorem parsers_read_envelope :
    (∀ (envelope : NovaProof) (suffix : ByteString) (proof : Calldata), envelope.RootsFit →
      proof.bytes = envelope.serialize ++ suffix → ∃ result, NovaRollupVerifier.parseProof proof = .ok result ∧
        NovaProofParsing.parseProof proof = .ok result ∧ ReadBack envelope result ∧
        proof.bytes.drop result.cursor.toNat = suffix) ∧
    ∀ proof : Calldata, ∃ result, result.cursor.toNat ≤ proof.length ∧ ∀ other : Calldata, other.bytes = proof.bytes →
        NovaRollupVerifier.parseProof other = .ok result ∧ NovaProofParsing.parseProof other = .ok result := by
  constructor
  · intro envelope suffix proof fits isProof
    obtain ⟨result, parsed, readBack⟩ := readBack_serialize fits isProof
    refine ⟨result, parsed, parsed, readBack, ?_⟩
    rw [isProof, readBack.cursor, drop_left]
  · intro proof
    have short : proof.bytes.length < 2 ^ 64 := by
      rw [proof.bytes_length]
      exact proof.decoded
    obtain ⟨result, parsed, inside, _⟩ := parseProof_reads short
    rw [proof.bytes_length] at inside
    exact ⟨result, inside, fun other same => ⟨parsed other same, parsed other same⟩⟩

theorem replicate_fits (length : Fin 256) (byte : UInt8) : (replicate length byte).length < 2 ^ 64 := by
  rw [length_replicate]
  omega

def sampleVec (length : Fin 256) (byte : UInt8) : ByteVec :=
  ⟨replicate length byte, replicate_fits length byte⟩

def smallEnvelope : NovaProof :=
  ⟨sampleVec 64 7, sampleVec 32 1, sampleVec 32 2, sampleVec 32 3, 5⟩

theorem smallEnvelope_fits : smallEnvelope.RootsFit := ⟨by decide, by decide, by decide⟩

theorem smallEnvelope_length : smallEnvelope.serialize.length = 200 := by
  rfl

theorem sample_decoded : (smallEnvelope.serialize ++ [4]).length < 2 ^ 64 := by
  simp [smallEnvelope_length]

theorem sample_sized : (replicate 68 9 ++ (smallEnvelope.serialize ++ [4]) ++ replicate 31 9).length < 2 ^ 256 := by
  simp [smallEnvelope_length]

def sampleCalldata : Calldata :=
  .around (replicate 68 9) (smallEnvelope.serialize ++ [4]) (replicate 31 9) sample_decoded sample_sized

theorem parsers_read_envelope_sample :
    smallEnvelope.RootsFit ∧ sampleCalldata.bytes = smallEnvelope.serialize ++ [4] ∧
      ∃ result, NovaRollupVerifier.parseProof sampleCalldata = .ok result ∧
        NovaProofParsing.parseProof sampleCalldata = .ok result ∧
        ReadBack smallEnvelope result ∧ sampleCalldata.bytes.drop result.cursor.toNat = [4] :=
  have bytes : sampleCalldata.bytes = smallEnvelope.serialize ++ [4] :=
    Calldata.around_bytes _ _ _ _ _
  ⟨smallEnvelope_fits, bytes, parsers_read_envelope.1 smallEnvelope [4] sampleCalldata smallEnvelope_fits bytes⟩

/-- `verifyProof` up to the signature: the input count, the parse, the roots and bounds, and
room for a signature. -/
def structuralPart (proof : ByteString) (publicInputs : List Word) : Bool :=
  publicInputs.length = 4 &&
    match parseProof proof with
    | none => false
    | some (novaProof, cursor) =>
      structuralBinding novaProof publicInputs && decide (cursor + 65 ≤ proof.length)

def signaturePart (chain : Chain) (verifier : NovaRollupVerifier) (proof : ByteString)
    (publicInputs : List Word) : Bool :=
  match parseProof proof with
  | none => false
  | some (novaProof, cursor) =>
    chain.tryRecover (toEthSignedMessageHash chain
        (chain.keccak256 (attestPreimage chain verifier.self novaProof publicInputs)))
      ((proof.drop cursor).take 65) = some verifier.attestor

theorem verifyProof_parts (chain : Chain) {verifier : NovaRollupVerifier}
    (initialized : verifier.isInitialized = true) (configured : verifier.attestor ≠ 0)
    (proof : ByteString) (publicInputs : List Word) :
    verifier.verifyProof chain proof publicInputs = .ok (structuralPart proof publicInputs &&
        signaturePart chain verifier proof publicInputs) := by
  rw [NovaRollupVerifier.verifyProof, require_pos initialized, structuralPart, signaturePart]
  simp only [bind, Except.bind, if_neg configured]
  by_cases four : publicInputs.length = 4
  · rw [if_neg (not_not.mpr four), decide_eq_true four, Bool.true_and]
    cases parsed : parseProof proof with
    | none => rfl
    | some found =>
      by_cases bound : structuralBinding found.1 publicInputs = true
      · by_cases room : found.2 + 65 ≤ proof.length
        · simp [bound, room, Nat.not_lt.mpr room, pure, Except.pure]
        · simp [bound, room, Nat.lt_of_not_le room, pure, Except.pure]
      · simp [bound, pure, Except.pure]
  · simp [four, pure, Except.pure]

theorem word_ofBytes_eq_iff {root : ByteString} (size : root.length = 32) (word : Bytes32) :
    word.word = BitVec.ofNat 256 (beNat root) ↔ root = word.toList := by
  constructor
  · intro same
    rw [← wordBytes_ofBytes size, ← same, Bytes32.wordBytes_word]
  · rintro rfl
    rfl

theorem structuralBinding_parsed {envelope : NovaProof} (words : Vector Bytes32 4) (fits : envelope.RootsFit) :
    structuralBinding envelope.parsed (words.toList.map Bytes32.word) = true ↔ Bound envelope words := by
  have input : ∀ i : Fin 4, (words.toList.map Bytes32.word)[i.val]? = some (words.get i).word := by
    intro i
    simp [Vector.get]
  have first : (words.toList.map Bytes32.word)[0]? = some (words.get 0).word := input 0
  have second : (words.toList.map Bytes32.word)[1]? = some (words.get 1).word := input 1
  have third : (words.toList.map Bytes32.word)[2]? = some (words.get 2).word := input 2
  rw [structuralBinding, decide_eq_true_eq, first, second, third]
  simp only [NovaProof.parsed, Option.some.injEq, word_ofBytes_eq_iff fits.commitments,
    word_ofBytes_eq_iff fits.nullifiers, word_ofBytes_eq_iff fits.historic]
  constructor
  · rintro ⟨snark, commitments, nullifiers, historic, steps⟩
    exact ⟨snark, commitments, nullifiers, historic, steps⟩
  · intro bound
    exact ⟨bound.snark, bound.commitments, bound.nullifiers, bound.historic, bound.steps⟩

/-- The attestor's check accepts an envelope exactly when the structural part of the contract's
gate passes on its bytes with a signature behind them, and that part is all that stands in
the gate before the signature. -/
theorem structural_checks_agree (envelope : NovaProof) (publicInputs : List Bytes32)
    (signature : ByteString) (size : signature.length = 65) :
    ((∃ words : Vector Bytes32 4, words.toList = publicInputs ∧ checkStructuralBinding envelope words = .ok ()) ↔
      structuralPart (envelope.serialize ++ signature) (publicInputs.map Bytes32.word) = true) ∧
    ∀ (chain : Chain) (verifier : NovaRollupVerifier), verifier.isInitialized = true → verifier.attestor ≠ 0 →
      verifier.verifyProof chain (envelope.serialize ++ signature) (publicInputs.map Bytes32.word) =
        .ok (structuralPart (envelope.serialize ++ signature) (publicInputs.map Bytes32.word) &&
          signaturePart chain verifier (envelope.serialize ++ signature) (publicInputs.map Bytes32.word)) := by
  refine ⟨?_, fun chain verifier initialized configured =>
    verifyProof_parts chain initialized configured _ _⟩
  have room : envelope.serialize.length + 65 ≤ (envelope.serialize ++ signature).length := by
    rw [length_append, size]
  simp only [checkStructuralBinding_eq_ok]
  constructor
  · rintro ⟨words, rfl, bound⟩
    rw [structuralPart, parseProof_serialize envelope bound.rootsFit]
    simp only [(structuralBinding_parsed words bound.rootsFit).mpr bound, decide_eq_true room]
    simp
  · intro passed
    by_cases fits : envelope.RootsFit
    · simp only [structuralPart, parseProof_serialize envelope fits, Bool.and_eq_true,
        decide_eq_true_eq, length_map] at passed
      obtain ⟨four, bound, _⟩ := passed
      refine ⟨⟨publicInputs.toArray, four⟩, rfl, ?_⟩
      exact (structuralBinding_parsed ⟨publicInputs.toArray, four⟩ fits).mp bound
    · simp [structuralPart, parseProof_misfit envelope fits] at passed

theorem structural_checks_agree_sample : (replicate 65 (0 : UInt8)).length = 65 ∧ ((∃ words : Vector Bytes32 4,
          words.toList = [.replicate 32 1, .replicate 32 2, .replicate 32 3, .replicate 32 0] ∧
          checkStructuralBinding smallEnvelope words = .ok ()) ↔
        structuralPart (smallEnvelope.serialize ++ replicate 65 0)
          ([.replicate 32 1, .replicate 32 2, .replicate 32 3, .replicate 32 0].map Bytes32.word) = true) :=
  ⟨length_replicate, (structural_checks_agree smallEnvelope
    [.replicate 32 1, .replicate 32 2, .replicate 32 3, .replicate 32 0] (replicate 65 0)
    length_replicate).1⟩

end Nightfall.Nova
