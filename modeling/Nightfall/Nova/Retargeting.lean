import Nightfall.Nova.Attestor

/-! One verified SNARK and the state transitions it is attested for. The service compares
the roots of the envelope with the public inputs only, so any other roots pass as well. -/

namespace Nightfall.Nova

open Bytes Contract Revert

variable (root : Bytes32) (label : String)

structure Signing.Reliable (signing : Signing) : Prop where
  signs : ∀ key message, ∃ signature address, signing.signMessage key message = .ok signature ∧
    signing.recoverAddress message signature = .ok address

def AttestRequest.Forwards (request : AttestRequest) (forwarded : Forwarded) : Prop :=
  ∃ proof, request.forwarded = .ok (proof, forwarded)

section

variable (engine : NovaEngine) (signing : Signing) (settings : Settings)

def AcceptsRequest (request : AttestRequest) : Prop :=
  ∃ response, handleAttest engine signing settings request = .ok response

def OneTransition (forwarded : Forwarded) : Prop :=
  ∀ first second : AttestRequest, AcceptsRequest engine signing settings first →
    AcceptsRequest engine signing settings second → first.Forwards forwarded →
    second.Forwards forwarded → first.inputWords = second.inputWords

end

theorem readU64_leBytes (value : UInt64) (rest : ByteString) :
    readU64 (leBytes 8 value.toNat ++ rest) = .ok (value, rest) := by
  simp only [readU64, bind_eq_ok, require_eq_ok, pure_eq_ok, Prod.mk.injEq, exists_const]
  refine ⟨by simp, ?_, List.drop_left' (leBytes_length _ _)⟩
  rw [List.take_left' (leBytes_length _ _), leNat_leBytes 8 value.toNat_lt, UInt64.ofNat_toNat]

theorem deserializeVec_serializeVec (vec : ByteVec) (rest : ByteString) :
    deserializeVec (serializeVec vec ++ rest) = .ok (vec, rest) := by
  have length : (UInt64.ofNat vec.val.length).toNat = vec.val.length :=
    UInt64.toNat_ofNat_of_lt' vec.property
  have read := readU64_leBytes (UInt64.ofNat vec.val.length) (vec.val ++ rest)
  rw [length] at read
  simp only [deserializeVec, bind_eq_ok, require_eq_ok, pure_eq_ok]
  refine ⟨_, by rw [serializeVec, List.append_assoc]; exact read, (), ?_, ?_⟩
  · simp [length]
  · simp [length]

theorem deserialize_append (proof : NovaProof) (rest : ByteString) :
    NovaProof.deserialize (proof.serialize ++ rest) = .ok proof := by
  have count := readU64_leBytes proof.transactionCount rest
  simp only [NovaProof.deserialize, NovaProof.serialize, List.append_assoc, bind_eq_ok, pure_eq_ok]
  exact ⟨_, deserializeVec_serializeVec _ _, _, deserializeVec_serializeVec _ _, _,
    deserializeVec_serializeVec _ _, _, deserializeVec_serializeVec _ _, _, count, rfl⟩

theorem deserialize_serialize (proof : NovaProof) : NovaProof.deserialize proof.serialize = .ok proof := by
  simpa using deserialize_append proof []

def hexText (bytes : ByteString) : String := String.ofList (Hex.encode bytes)

variable {text : List Char} {request : AttestRequest} {proof : NovaProof} {forwarded : Forwarded}
  {signing : Signing} {inputs : Vector Bytes32 4}

theorem trim_eq_self (solid : ∀ letter ∈ text, isWhitespace letter = false) : trim text = text := by
  have kept : ∀ letters : List Char, (∀ letter ∈ letters, isWhitespace letter = false) →
      letters.dropWhile isWhitespace = letters := by
    intro letters all
    cases letters with
    | nil => rfl
    | cons letter rest => rw [List.dropWhile_cons, all letter List.mem_cons_self]; rfl
  rw [trim, kept text solid, kept, List.reverse_reverse]
  intro letter member
  exact solid letter (List.mem_reverse.mp member)

theorem trimStartMatches_eq_self (noX : 'x' ∉ text) : trimStartMatches text = text := by
  rw [trimStartMatches]
  rintro rest rfl
  exact noX (by simp)

theorem decodeHex_hexText (bytes : ByteString) : decodeHex label (hexText bytes) = .ok bytes := by
  have solid := Hex.forall_mem_encode (fun letter => isWhitespace letter = false) (by decide) bytes
  have noX := Hex.forall_mem_encode (fun letter => letter ≠ 'x') (by decide) bytes
  rw [decodeHex, mapError_eq_ok, hexText, String.toList_ofList, trim_eq_self solid,
    trimStartMatches_eq_self fun member => noX 'x' member rfl, Hex.decode_encode]

theorem decodeWord_hexText (bytes : Bytes32) : decodeWord label (hexText bytes.toList) = .ok bytes := by
  simp only [decodeWord, decodeHex_hexText, bind_eq_ok]
  refine ⟨_, rfl, ?_⟩
  rw [dif_pos (by simp), pure_eq_ok]
  apply Vector.toList_inj.mp
  simp

theorem decodeRoot_hexText (bytes : Bytes32) : decodeRoot label (hexText bytes.toList) = .ok bytes := by
  simp only [decodeRoot, decodeHex_hexText, bind_eq_ok]
  refine ⟨_, rfl, ?_⟩
  rw [dif_pos (by simp), pure_eq_ok]
  apply Vector.toList_inj.mp
  simp

theorem forwarded_novaProof (decoded : request.forwarded = .ok (proof, forwarded)) :
    request.novaProof = .ok proof ∧ forwarded.snarkProof = proof.snarkProof := by
  simp only [AttestRequest.forwarded, bind_eq_ok, pure_eq_ok, Prod.mk.injEq] at decoded
  obtain ⟨decodedProof, isProof, _, _, _, _, _, _, _, _, rfl, rfl⟩ := decoded
  exact ⟨isProof, rfl⟩

def NovaEngine.Verifies (engine : NovaEngine) (forwarded : Forwarded) (transactionCount : UInt64) : Prop :=
  engine.verifyAttestation forwarded.snarkProof forwarded.neptuneCommitmentsRoot
    forwarded.neptuneNullifiersRoot forwarded.neptuneHistoricRootRoot transactionCount
    forwarded.numSteps.toNat forwarded.preNullifiersRoot = .ok true

theorem verifyForwardedProof_eq_ok (engine : NovaEngine) (request : AttestRequest)
    (result : Unit) : verifyForwardedProof engine request = .ok result ↔
      ∃ proof forwarded, request.forwarded = .ok (proof, forwarded) ∧
        engine.Verifies forwarded proof.transactionCount := by
  simp [verifyForwardedProof, NovaEngine.Verifies]

theorem buildAttestation_eq_ok (reliable : signing.Reliable) (settings : Settings) (request : AttestRequest) :
    (∃ attestation, buildAttestation signing settings.chainId settings.verifier
      settings.attestorKey request = .ok attestation) ↔
    trim settings.attestorKey.toList ≠ [] ∧ (∃ key, signing.parseKey (trim settings.attestorKey.toList) = .ok key) ∧
      ∃ proof inputs, request.novaProof = .ok proof ∧ request.inputWords = .ok inputs ∧ Bound proof inputs := by
  simp only [buildAttestation]
  split
  · rename_i empty
    exact iff_of_false (by simp) fun signs => signs.1 empty
  · rename_i configured
    simp only [bind_eq_ok, mapError_eq_ok, checkStructuralBinding_eq_ok, signAttestation, recoverAttestor, pure_eq_ok]
    constructor
    · rintro ⟨_, proof, isProof, inputs, areInputs, _, bound, _, _, _, ⟨key, parsed, _⟩, _⟩
      exact ⟨configured, ⟨key, parsed⟩, proof, inputs, isProof, areInputs, bound⟩
    · rintro ⟨_, ⟨key, parsed⟩, proof, inputs, isProof, areInputs, bound⟩
      have packed := (preimageFromProof_eq_ok settings.chainId settings.verifier proof inputs _).mpr
        ⟨bound.rootsFit, rfl⟩
      obtain ⟨signature, address, signed, recovered⟩ := reliable.signs key (signing.keccak256 _)
      exact ⟨_, proof, isProof, inputs, areInputs, (), bound, _, packed, signature,
        ⟨key, parsed, signed⟩, address, recovered, rfl⟩

theorem acceptsRequest_iff (engine : NovaEngine) (reliable : signing.Reliable)
    (settings : Settings) (request : AttestRequest) :
    AcceptsRequest engine signing settings request ↔ trim settings.attestorKey.toList ≠ [] ∧
      (∃ key, signing.parseKey (trim settings.attestorKey.toList) = .ok key) ∧
      ∃ proof forwarded inputs, request.forwarded = .ok (proof, forwarded) ∧
        engine.Verifies forwarded proof.transactionCount ∧ request.inputWords = .ok inputs ∧ Bound proof inputs := by
  simp only [AcceptsRequest, handleAttest, bind_eq_ok, pure_eq_ok, verifyForwardedProof_eq_ok]
  constructor
  · rintro ⟨_, _, ⟨proof, forwarded, decoded, verified⟩, attestation, built, _⟩
    obtain ⟨configured, key, other, inputs, isOther, areInputs, bound⟩ :=
      (buildAttestation_eq_ok reliable settings request).mp ⟨attestation, built⟩
    obtain rfl := Except.ok.inj ((forwarded_novaProof decoded).1.symm.trans isOther)
    exact ⟨configured, key, proof, forwarded, inputs, decoded, verified, areInputs, bound⟩
  · rintro ⟨configured, key, proof, forwarded, inputs, decoded, verified, areInputs, bound⟩
    obtain ⟨attestation, built⟩ := (buildAttestation_eq_ok reliable settings request).mpr
      ⟨configured, key, proof, inputs, (forwarded_novaProof decoded).1, areInputs, bound⟩
    exact ⟨_, (), ⟨proof, forwarded, decoded, verified⟩, attestation, built, rfl⟩

def AttestRequest.retargeted (request : AttestRequest) (proof : NovaProof) (root : Bytes32) : AttestRequest :=
  { request with
    proof := hexText { proof with commitmentsRoot := root.toVec }.serialize
    publicInputs := request.publicInputs.set 0 (hexText root.toList) }

theorem retargeted_forwarded (decoded : request.forwarded = .ok (proof, forwarded)) (root : Bytes32) :
    (request.retargeted proof root).forwarded = .ok ({ proof with commitmentsRoot := root.toVec }, forwarded) := by
  have reread : (request.retargeted proof root).novaProof = .ok { proof with commitmentsRoot := root.toVec } := by
    simp only [AttestRequest.novaProof, AttestRequest.retargeted, decodeHex_hexText, bind_eq_ok, mapError_eq_ok]
    exact ⟨_, rfl, deserialize_serialize _⟩
  simp only [AttestRequest.forwarded, bind_eq_ok, pure_eq_ok, Prod.mk.injEq] at decoded ⊢
  obtain ⟨_, _, commitments, isCommitments, nullifiers, isNullifiers, historic, isHistoric, pre,
    isPre, rfl, rfl⟩ := decoded
  exact ⟨_, reread, commitments, isCommitments, nullifiers, isNullifiers, historic, isHistoric, pre, isPre, rfl, rfl⟩

theorem get_set_self {α : Type} (vector : Vector α 4) (value : α) : (vector.set 0 value).get 0 = value :=
  Vector.getElem_set_self (by decide)

theorem get_set_of_ne {α : Type} (vector : Vector α 4) (value : α) {position : Fin 4}
    (later : position ≠ 0) : (vector.set 0 value).get position = vector.get position :=
  Vector.getElem_set_ne (by decide) position.isLt fun same => later (Fin.ext same.symm)

theorem retargeted_inputWords (decoded : request.inputWords = .ok inputs) (proof : NovaProof) (root : Bytes32) :
    (request.retargeted proof root).inputWords = .ok (inputs.set 0 root) := by
  simp only [AttestRequest.inputWords, AttestRequest.retargeted, bind_eq_ok, pure_eq_ok] at decoded ⊢
  obtain ⟨first, _, second, isSecond, third, isThird, fourth, isFourth, rfl⟩ := decoded
  refine ⟨root, ?_, second, ?_, third, ?_, fourth, ?_, ?_⟩
  · rw [get_set_self]
    exact decodeWord_hexText _ root
  · rw [get_set_of_ne _ _ (by decide)]
    exact isSecond
  · rw [get_set_of_ne _ _ (by decide)]
    exact isThird
  · rw [get_set_of_ne _ _ (by decide)]
    exact isFourth
  · simp [Vector.set]

theorem Bound.retargeted (bound : Bound proof inputs) (root : Bytes32) :
    Bound { proof with commitmentsRoot := root.toVec } (inputs.set 0 root) := by
  refine ⟨bound.snark, ?_, ?_, ?_, bound.steps⟩
  · rw [get_set_self, Bytes32.toVec]
  · rw [get_set_of_ne _ _ (by decide)]
    exact bound.nullifiers
  · rw [get_set_of_ne _ _ (by decide)]
    exact bound.historic

theorem exists_other_root : ∃ other : Bytes32, other ≠ root := by
  by_cases zero : root = Vector.replicate 32 0
  · refine ⟨Vector.replicate 32 1, ?_⟩
    rw [zero]
    decide
  · exact ⟨_, Ne.symm zero⟩

/-- A statement that is attested at all is attested for more than one transition. -/
theorem one_transition_iff (engine : NovaEngine) (signing : Signing) (reliable : signing.Reliable)
    (settings : Settings) (forwarded : Forwarded) :
    OneTransition engine signing settings forwarded ↔ ∀ request : AttestRequest, request.Forwards forwarded →
        ¬ AcceptsRequest engine signing settings request := by
  constructor
  · rintro once request forwards accepted
    obtain ⟨configured, key, proof, found, inputs, decoded, verified, areInputs, bound⟩ :=
      (acceptsRequest_iff engine reliable settings request).mp accepted
    obtain ⟨_, alsoDecoded⟩ := forwards
    obtain ⟨rfl, rfl⟩ := Prod.mk.inj (Except.ok.inj (decoded.symm.trans alsoDecoded))
    obtain ⟨root, different⟩ := exists_other_root (inputs.get 0)
    have redecoded := retargeted_forwarded decoded root
    have reread := retargeted_inputWords areInputs proof root
    have alsoAccepted : AcceptsRequest engine signing settings (request.retargeted proof root) :=
      (acceptsRequest_iff engine reliable settings _).mpr ⟨configured, key, _, found, _, redecoded,
        verified, reread, bound.retargeted root⟩
    have same := once request _ accepted alsoAccepted ⟨proof, decoded⟩ ⟨_, redecoded⟩
    rw [areInputs, reread, Except.ok.injEq] at same
    have sameRoot := congrArg (fun words => words.get 0) same
    rw [get_set_self] at sameRoot
    exact different sameRoot.symm
  · intro never first second accepted _ forwards
    exact absurd accepted (never first forwards)

theorem f1ToBytes_size (value : Fr254) : (f1ToBytes value).toArray.size = 32 := by
  rw [f1ToBytes, List.size_toArray, leBytes_length]

def neptuneRoot (value : Fr254) : Bytes32 := ⟨(f1ToBytes value).toArray, f1ToBytes_size value⟩

theorem neptuneRoot_toVec (value : Fr254) : (neptuneRoot value).toVec.val = f1ToBytes value := by
  simp [neptuneRoot, Bytes32.toVec]

def fixedEngine : NovaEngine := ⟨Vector.replicate 5 0, fun _ _ _ => .ok [1, 2, 3, 20]⟩

def plainSigning : Signing where
  Key := Unit
  keccak256 := fun _ => 0
  parseKey := fun _ => .ok ()
  signMessage := fun _ _ => .ok (Vector.replicate 65 0)
  recoverAddress := fun _ _ => .ok 9
  blsSign := fun _ _ => .error "no key"
  parseAddress := fun _ => none

theorem plainSigning_reliable : plainSigning.Reliable :=
  ⟨fun _ _ => ⟨Vector.replicate 65 0, 9, rfl, rfl⟩⟩

def plainSettings : Settings := ⟨31337, 5, "1", "", 0, ""⟩

theorem longSnark_fits : (List.replicate 512 (7 : UInt8)).length < 2 ^ 64 := by
  rw [List.length_replicate]
  decide

def longSnark : ByteVec := ⟨_, longSnark_fits⟩

theorem longSnark_length : longSnark.val.length = 512 := List.length_replicate

def provenStatement : Forwarded :=
  ⟨longSnark, neptuneRoot 1, neptuneRoot 2, neptuneRoot 3, 0, 20⟩

def envelope : NovaProof :=
  ⟨longSnark, root.toVec, root.toVec, root.toVec, 20⟩

def requestFor : AttestRequest where
  proof := hexText (envelope root).serialize
  publicInputs := Vector.replicate 4 (hexText root.toList)
  neptuneCommitmentsRoot := hexText (neptuneRoot 1).toList
  neptuneNullifiersRoot := hexText (neptuneRoot 2).toList
  neptuneHistoricRootRoot := hexText (neptuneRoot 3).toList
  preNullifiersRoot := "0"
  numSteps := 20

theorem requestFor_forwarded : (requestFor root).forwarded = .ok (envelope root, provenStatement) := by
  have zero : f1FromHex (trim "0".toList) = .ok 0 := by decide
  simp only [AttestRequest.forwarded, AttestRequest.novaProof, requestFor, decodeHex_hexText,
    decodeRoot_hexText, zero, bind_eq_ok, mapError_eq_ok, pure_eq_ok]
  exact ⟨_, ⟨_, rfl, deserialize_serialize _⟩, _, rfl, _, rfl, _, rfl, _, rfl, rfl⟩

theorem requestFor_inputWords : (requestFor root).inputWords = .ok (Vector.replicate 4 root) := by
  have text : ∀ position, (requestFor root).publicInputs.get position = hexText root.toList := by
    intro position
    exact Vector.getElem_replicate position.isLt
  simp only [AttestRequest.inputWords, text, decodeWord_hexText, bind_eq_ok, pure_eq_ok]
  exact ⟨root, rfl, root, rfl, root, rfl, root, rfl, rfl⟩

theorem fixedEngine_verifies : fixedEngine.Verifies provenStatement 20 := by
  have nonempty : longSnark.val ≠ [] :=
    List.ne_nil_of_length_pos (by rw [longSnark_length]; decide)
  simp only [NovaEngine.Verifies, NovaEngine.verifyAttestation, NovaEngine.verifyWithSteps,
    NovaEngine.verifyInner, provenStatement, nonempty, longSnark_length, fixedEngine, neptuneRoot_toVec]
  rfl

theorem requestFor_accepted : AcceptsRequest fixedEngine plainSigning plainSettings (requestFor root) := by
  have roots : ∀ position, (Vector.replicate 4 root).get position = root := by
    intro position
    exact Vector.getElem_replicate position.isLt
  refine (acceptsRequest_iff fixedEngine plainSigning_reliable plainSettings _).mpr
    ⟨by decide, ⟨(), rfl⟩, _, _, _, requestFor_forwarded root, fixedEngine_verifies, requestFor_inputWords root, ?_⟩
  refine ⟨?_, ?_, ?_, ?_, ?_⟩
  · rw [envelope, longSnark_length]
    decide
  · rw [roots, envelope, Bytes32.toVec]
  · rw [roots, envelope, Bytes32.toVec]
  · rw [roots, envelope, Bytes32.toVec]
  · have count : (20 : UInt64).toNat ≤ maxSteps := by decide
    exact count

theorem one_transition_iff_sample :
    plainSigning.Reliable ∧ ¬ OneTransition fixedEngine plainSigning plainSettings provenStatement := by
  refine ⟨plainSigning_reliable, fun once => ?_⟩
  exact (one_transition_iff fixedEngine plainSigning plainSigning_reliable plainSettings
    provenStatement).mp once _ ⟨_, requestFor_forwarded (neptuneRoot 1)⟩
    (requestFor_accepted (neptuneRoot 1))

/-- One proof of the roots 1, 2, 3 is signed for the roots 4 and for the roots 5. -/
theorem statement_attested_twice :
    ∃ first second : AttestRequest, AcceptsRequest fixedEngine plainSigning plainSettings first ∧
      AcceptsRequest fixedEngine plainSigning plainSettings second ∧
      first.Forwards provenStatement ∧ second.Forwards provenStatement ∧
      first.inputWords = .ok (Vector.replicate 4 (neptuneRoot 4)) ∧
      second.inputWords = .ok (Vector.replicate 4 (neptuneRoot 5)) ∧ neptuneRoot 4 ≠ neptuneRoot 5 := by
  refine ⟨requestFor (neptuneRoot 4), requestFor (neptuneRoot 5), requestFor_accepted _,
    requestFor_accepted _, ⟨_, requestFor_forwarded _⟩, ⟨_, requestFor_forwarded _⟩,
    requestFor_inputWords _, requestFor_inputWords _, ?_⟩
  decide

end Nightfall.Nova
