import Nightfall.Field
import Nightfall.Library.Hex
import Nightfall.Nova.Attestation

/-! The attestation service: it decodes a request, runs the SNARK verifier on the roots that were
forwarded beside the proof, checks the structure of the envelope and signs. -/

namespace Nightfall.Nova

open Bytes Contract Revert

variable (engine : NovaEngine) (signing : Signing) (request : AttestRequest) (label text : String)
  (settings : Settings)

inductive AttestationServiceError where
  | noKey
  | badRequest (message : String)
  | attestation (message : String)
deriving DecidableEq

/-- The body of `POST /attest`. -/
structure AttestRequest where
  proof : String
  publicInputs : Vector String 4
  neptuneCommitmentsRoot : String
  neptuneNullifiersRoot : String
  neptuneHistoricRootRoot : String
  preNullifiersRoot : String
  numSteps : UInt64

def isWhitespace (letter : Char) : Bool :=
  let code := letter.toNat
  (9 ≤ code && code ≤ 13) || code = 0x20 || code = 0x85 || code = 0xA0 || code = 0x1680 ||
    (0x2000 ≤ code && code ≤ 0x200A) || code = 0x2028 || code = 0x2029 || code = 0x202F ||
    code = 0x205F || code = 0x3000

def trim (text : List Char) : List Char :=
  ((text.dropWhile isWhitespace).reverse.dropWhile isWhitespace).reverse

def trimStartMatches : List Char → List Char
  | '0' :: 'x' :: rest => trimStartMatches rest
  | text => text

def decodeHex : Except AttestationServiceError ByteString :=
  (Hex.decode (trimStartMatches (trim text.toList))).mapError fun reason =>
    .badRequest (label ++ " is not valid hex: " ++ reason)

theorem padded_size {bytes : ByteString} (short : bytes.length ≤ 32) :
    (List.replicate (32 - bytes.length) 0 ++ bytes).toArray.size = 32 := by
  rw [List.size_toArray, List.length_append, List.length_replicate]
  omega

def decodeWord : Except AttestationServiceError Bytes32 := do
  let bytes ← decodeHex label text
  if short : bytes.length ≤ 32 then
    return ⟨(List.replicate (32 - bytes.length) 0 ++ bytes).toArray, padded_size short⟩
  else .error (.badRequest (label ++ " is " ++ toString bytes.length ++ " bytes, expected <= 32"))

def decodeRoot : Except AttestationServiceError Bytes32 := do
  let bytes ← decodeHex label text
  if size : bytes.length = 32 then return ⟨bytes.toArray, size⟩
  else .error (.badRequest (label ++ " must be exactly 32 bytes (got " ++ toString bytes.length ++ ")"))

/-- `u8::from_str_radix` on two letters; it takes a leading plus sign. -/
def byteFromHex (high low : Char) : Except String UInt8 :=
  match Hex.digitValue high, Hex.digitValue low with
  | some highValue, some lowValue => .ok (UInt8.ofNat (16 * highValue + lowValue))
  | none, some lowValue =>
    if high = '+' then .ok (UInt8.ofNat lowValue) else .error "invalid digit found in string"
  | _, none => .error "invalid digit found in string"

def bytesFromHex : List Char → Except String ByteString
  | high :: low :: rest => do
      let byte ← byteFromHex high low
      let bytes ← bytesFromHex rest
      return byte :: bytes
  | _ => .ok []

def stripPrefix : List Char → List Char
  | '0' :: 'x' :: rest => rest
  | text => text

def f1FromHex (text : List Char) : Except String Fr254 := do
  let stripped := stripPrefix text
  require (stripped.length ≤ 64) ("F1 hex string too long: " ++ toString stripped.length ++ " chars")
  let bytes ← bytesFromHex (List.replicate (64 - stripped.length) '0' ++ stripped)
  require (beNat bytes < fr254Modulus) "F1::from_repr returned None"
  return (beNat bytes : Fr254)

def f1ToBytes (value : Fr254) : ByteString := leBytes 32 value.val

/-- The SNARK library with its keys: the output state of a verified proof. Loading the keys,
decoding the proof and verifying it may fail or panic. -/
structure NovaEngine where
  initialZ0 : Vector Fr254 5
  verifySnark : ByteString → ℕ → Vector Fr254 5 → Except String (List Fr254)

def NovaEngine.verifyInner (numSteps : ℕ) (z0 : Vector Fr254 5) (proof : NovaProof) : Except String Bool := do
  let zn ← engine.verifySnark proof.snarkProof.val numSteps z0
  match zn with
  | commitments :: nullifiers :: historic :: count :: _ =>
    return decide (f1ToBytes commitments = proof.commitmentsRoot.val ∧
      f1ToBytes nullifiers = proof.nullifiersRoot.val ∧ f1ToBytes historic = proof.historicRootRoot.val ∧
      count = (proof.transactionCount.toNat : Fr254))
  | _ => return false

def NovaEngine.verifyWithSteps (proof : NovaProof) (z0 : Vector Fr254 5) (numSteps : ℕ) : Except String Bool :=
  if proof.snarkProof.val = [] ∧ proof.transactionCount = 0 then return true
  else if proof.snarkProof.val = [] then .error "Empty snark_proof for non-empty block"
  else engine.verifyInner numSteps z0 proof

theorem Bytes32.fits (bytes : Bytes32) : bytes.toList.length < 2 ^ 64 := by
  rw [Vector.length_toList]
  decide

def Bytes32.toVec (bytes : Bytes32) : ByteVec := ⟨bytes.toList, bytes.fits⟩

def NovaEngine.verifyAttestation (snarkProof : ByteVec)
    (neptuneCommitmentsRoot neptuneNullifiersRoot neptuneHistoricRootRoot : Bytes32)
    (transactionCount : UInt64) (numSteps : ℕ) (preNullifiersRoot : Fr254) : Except String Bool :=
  if snarkProof.val = [] ∧ transactionCount = 0 then return true
  else if snarkProof.val.length < 512 then return false
  else engine.verifyWithSteps ⟨snarkProof, neptuneCommitmentsRoot.toVec,
    neptuneNullifiersRoot.toVec, neptuneHistoricRootRoot.toVec, transactionCount⟩
    (engine.initialZ0.set 1 preNullifiersRoot) numSteps

def AttestRequest.novaProof : Except AttestationServiceError NovaProof := do
  let blob ← decodeHex "proof" request.proof
  (NovaProof.deserialize blob).mapError fun reason =>
    .badRequest ("proof is not a valid NovaProof: " ++ reason)

def AttestRequest.inputWords : Except AttestationServiceError (Vector Bytes32 4) := do
  let first ← decodeWord "public_inputs[0]" (request.publicInputs.get 0)
  let second ← decodeWord "public_inputs[1]" (request.publicInputs.get 1)
  let third ← decodeWord "public_inputs[2]" (request.publicInputs.get 2)
  let fourth ← decodeWord "public_inputs[3]" (request.publicInputs.get 3)
  return ⟨#[first, second, third, fourth], rfl⟩

structure Forwarded where
  snarkProof : ByteVec
  neptuneCommitmentsRoot : Bytes32
  neptuneNullifiersRoot : Bytes32
  neptuneHistoricRootRoot : Bytes32
  preNullifiersRoot : Fr254
  numSteps : UInt64

def AttestRequest.forwarded : Except AttestationServiceError (NovaProof × Forwarded) := do
  let proof ← request.novaProof
  let commitments ← decodeRoot "neptune_commitments_root" request.neptuneCommitmentsRoot
  let nullifiers ← decodeRoot "neptune_nullifiers_root" request.neptuneNullifiersRoot
  let historic ← decodeRoot "neptune_historic_root_root" request.neptuneHistoricRootRoot
  let preNullifiersRoot ← (f1FromHex (trim request.preNullifiersRoot.toList)).mapError
    fun reason => .badRequest ("pre_nullifiers_root: " ++ reason)
  return (proof, ⟨proof.snarkProof, commitments, nullifiers, historic, preNullifiersRoot, request.numSteps⟩)

def verifyForwardedProof : Except AttestationServiceError Unit := do
  let (proof, forwarded) ← request.forwarded
  let verified ← (engine.verifyAttestation forwarded.snarkProof forwarded.neptuneCommitmentsRoot
    forwarded.neptuneNullifiersRoot forwarded.neptuneHistoricRootRoot proof.transactionCount
    forwarded.numSteps.toNat forwarded.preNullifiersRoot).mapError fun reason =>
      .attestation ("CompressedSNARK verification error: " ++ reason)
  if verified = true then return ()
  else .error (.attestation "CompressedSNARK::verify did not accept the proof")

/-- The signature libraries. `blsSign` gives a share and the public key it belongs to. -/
structure Signing where
  Key : Type
  keccak256 : ByteString → Word
  parseKey : List Char → Except String Key
  signMessage : Key → Word → Except String (Vector UInt8 65)
  recoverAddress : Word → Vector UInt8 65 → Except String Address
  blsSign : String → Word → Except String (ByteString × ByteString)
  parseAddress : List Char → Option Address

def signAttestation (attestorKey : String) (preimage : ByteString) : Except String (Vector UInt8 65) := do
  let signer ← (signing.parseKey (trim attestorKey.toList)).mapError ("invalid attestor key: " ++ ·)
  (signing.signMessage signer (signing.keccak256 preimage)).mapError ("attestor signing failed: " ++ ·)

def recoverAttestor (preimage : ByteString) (signature : Vector UInt8 65) : Except String Address :=
  (signing.recoverAddress (signing.keccak256 preimage) signature).mapError ("signature recovery failed: " ++ ·)

structure Attestation where
  signature : Vector UInt8 65
  attestor : Address

def buildAttestation (chainId : UInt64) (verifier : Address) (attestorKey : String) (request : AttestRequest) :
    Except AttestationServiceError Attestation := do
  if trim attestorKey.toList = [] then .error .noKey
  else
    let proof ← request.novaProof
    let publicInputs ← request.inputWords
    (checkStructuralBinding proof publicInputs).mapError .attestation
    let preimage ← (preimageFromProof chainId verifier proof publicInputs).mapError .attestation
    let signature ← (signAttestation signing attestorKey preimage).mapError .attestation
    let attestor ← (recoverAttestor signing preimage signature).mapError .attestation
    return ⟨signature, attestor⟩

def buildBlsShare (chainId : UInt64) (committeeVerifier : Address) (blsSecretKey : String) (request : AttestRequest) :
    Except AttestationServiceError (Option (ByteString × ByteString)) := do
  if trim blsSecretKey.toList = [] then return none
  else
    let proof ← request.novaProof
    let publicInputs ← request.inputWords
    (checkStructuralBinding proof publicInputs).mapError .attestation
    let preimage ← (preimageFromProof chainId committeeVerifier proof publicInputs).mapError .attestation
    let share ← (signing.blsSign blsSecretKey (signing.keccak256 preimage)).mapError
      fun reason => .attestation ("bls_secret_key: " ++ reason)
    return some share

structure Settings where
  chainId : UInt64
  verifier : Address
  attestorKey : String
  blsSecretKey : String
  deployedCommitteeVerifier : Address
  committeeVerifier : String

def Settings.committeeAddress (signing : Signing) : Option Address :=
  if settings.deployedCommitteeVerifier ≠ 0 then some settings.deployedCommitteeVerifier
  else if trim settings.committeeVerifier.toList ≠ [] then
    signing.parseAddress (trim settings.committeeVerifier.toList)
  else none

def buildCommitteeShareForHandler (request : AttestRequest) : Option (ByteString × ByteString) :=
  if trim settings.blsSecretKey.toList = [] then none
  else
    match settings.committeeAddress signing with
    | none => none
    | some address =>
      match buildBlsShare signing settings.chainId address settings.blsSecretKey request with
      | .ok share => share
      | .error _ => none

structure AttestResponse where
  signature : Vector UInt8 65
  attestor : Address
  blsShare : Option (ByteString × ByteString)

def handleAttest (request : AttestRequest) : Except AttestationServiceError AttestResponse := do
  verifyForwardedProof engine request
  let attestation ← buildAttestation signing settings.chainId settings.verifier settings.attestorKey request
  return ⟨attestation.signature, attestation.attestor, buildCommitteeShareForHandler signing settings request⟩

end Nightfall.Nova
