import Nightfall.Contract.Types

/-! The on-chain gate for Nova rollup proofs: `NovaRollupVerifier.sol` (one
attestor, proof system 2), `NovaCommitteeVerifier.sol` (a committee, proof
system 3), the parser they share, and `ProofSystemRouter.sol` in front of them. -/

namespace Nightfall.Contract

open Bytes Revert

variable (chain : Chain) (verifier : NovaCommitteeVerifier) (proof : ByteString)

structure NovaProofData where
  snarkProof : ByteString
  commitmentsRoot : Word
  nullifiersRoot : Word
  historicRootRoot : Word
  transactionCount : Nat
deriving DecidableEq

/-- The byte reversal of `_readUint64LE`; callers ensure `cursor + 8 ≤ proof.length`. -/
def readUint64LE (cursor : Nat) : Nat :=
  let valBE := beNat ((proof.drop cursor).take 8)
  let byte := fun index => (valBE >>> (8 * index)) &&& 0xff
  byte 0 <<< 56 ||| byte 1 <<< 48 ||| byte 2 <<< 40 ||| byte 3 <<< 32 |||
    byte 4 <<< 24 ||| byte 5 <<< 16 ||| byte 6 <<< 8 ||| byte 7

def readByteVec (cursor : Nat) : Option (Nat × ByteString) :=
  if cursor + 8 > proof.length then none
  else
    let len := readUint64LE proof cursor
    if cursor + 8 + len > proof.length then none
    else some (cursor + 8 + len, (proof.drop (cursor + 8)).take len)

def readRoot (cursor : Nat) : Option (Nat × Word) :=
  match readByteVec proof cursor with
  | none => none
  | some (newCursor, bytes) =>
    if bytes.length ≠ 32 then none else some (newCursor, BitVec.ofNat 256 (beNat bytes))

def parseProof : Option (NovaProofData × Nat) := do
  let (cursor, snarkProof) ← readByteVec proof 0
  let (cursor, commitmentsRoot) ← readRoot proof cursor
  let (cursor, nullifiersRoot) ← readRoot proof cursor
  let (cursor, historicRootRoot) ← readRoot proof cursor
  if cursor + 8 > proof.length then none
  else some (⟨snarkProof, commitmentsRoot, nullifiersRoot, historicRootRoot, readUint64LE proof cursor⟩, cursor + 8)

def attestDomain : ByteString := ascii "NF4_NOVA_ATTEST_V1"

/-- The packed bytes that `_attestPreimage` hashes, for the verifier at address `self`. -/
def attestPreimage (self : Address) (proof : NovaProofData) (publicInputs : List Word) : ByteString :=
  attestDomain ++ wordBytes chain.chainId ++ addressBytes self ++ proof.snarkProof ++
    wordBytes proof.commitmentsRoot ++ wordBytes proof.nullifiersRoot ++
    wordBytes proof.historicRootRoot ++ beBytes 8 proof.transactionCount ++ publicInputs.flatMap wordBytes

def maxSteps : Nat := 10000

def structuralBinding (proof : NovaProofData) (publicInputs : List Word) : Bool :=
  decide (64 ≤ proof.snarkProof.length ∧ publicInputs[0]? = some proof.commitmentsRoot ∧
    publicInputs[1]? = some proof.nullifiersRoot ∧ publicInputs[2]? = some proof.historicRootRoot ∧
    proof.transactionCount ≤ maxSteps)

structure NovaRollupVerifier where
  self : Address
  isInitialized : Bool
  attestor : Address

def toEthSignedMessageHash (digest : Word) : Word :=
  chain.keccak256 (UInt8.ofNat 0x19 :: ascii "Ethereum Signed Message:\n32" ++ wordBytes digest)

def NovaRollupVerifier.verifyProof (verifier : NovaRollupVerifier)
    (proof : ByteString) (publicInputs : List Word) : Except String Bool := do
  require (verifier.isInitialized = true) "NotInitialized"
  if publicInputs.length ≠ 4 then return false
  if verifier.attestor = 0 then return false
  match parseProof proof with
  | none => return false
  | some (novaProof, cursor) =>
    if structuralBinding novaProof publicInputs = false then return false
    if proof.length < cursor + 65 then return false
    let digest := toEthSignedMessageHash chain
      (chain.keccak256 (attestPreimage chain verifier.self novaProof publicInputs))
    return chain.tryRecover digest ((proof.drop cursor).take 65) = some verifier.attestor

structure NovaCommitteeVerifier where
  self : Address
  pubkeys : List ByteString
  threshold : Nat

def negG1 : ByteString :=
  beBytes 64 0x17f1d3a73197d7942695638c4fa9ac0fc3688c4f9774b905a14e3a3f171bac586c55e83ff97a1aeffb3af00adb22c6bb ++
    beBytes 64 0x114d1d6855d545a8aa7d76c8cf2e21f267816aef1db507c96655b9d5caac42364e6f38ba0ecb751bad54dcd6b939c2ca

def sigDst : ByteString := ascii "BLS_SIG_BLS12381G2_XMD:SHA-256_SSWU_RO_POP_"

def NovaCommitteeVerifier.signers (bitmap : Word) : List ByteString :=
  verifier.pubkeys.zipIdx.filterMap fun (pubkey, index) =>
    if bitmap.toNat &&& (1 <<< index) ≠ 0 then some pubkey else none

/-- The running sum `apk` of the signing keys; `none` when a precompile call reverts. -/
def aggregate : List ByteString → Option ByteString
  | [] => some []
  | first :: rest => rest.foldlM chain.g1Add first

/-- `none` stands for a reverting precompile, which `verifyProof` catches. -/
def NovaCommitteeVerifier.verifyDigest (digest : Word) (sigma : ByteString) (bitmap : Word) : Option Bool :=
  let count := verifier.pubkeys.length
  if verifier.threshold = 0 ∨ count = 0 then some false
  else if sigma.length ≠ 256 then some false
  else if bitmap = 0 then some false
  else if count < 256 ∧ bitmap.toNat >>> count ≠ 0 then some false
  else do
    let apk ← aggregate chain (verifier.signers bitmap)
    if (verifier.signers bitmap).length < verifier.threshold then return false
    let hashed ← chain.hashToG2 (wordBytes digest) sigDst
    chain.pairing (negG1 ++ sigma ++ apk ++ hashed)

def NovaCommitteeVerifier.verifyProof (publicInputs : List Word) : Except String Bool :=
  if publicInputs.length ≠ 4 then return false
  else if verifier.threshold = 0 ∨ verifier.pubkeys.length = 0 then return false
  else
    match parseProof proof with
    | none => return false
    | some (novaProof, cursor) =>
      if structuralBinding novaProof publicInputs = false then return false
      else if proof.length < cursor + 288 then return false
      else
        let sigma := (proof.drop cursor).take 256
        let bitmap := BitVec.ofNat 256 (beNat ((proof.drop (cursor + 256)).take 32))
        let digest := chain.keccak256 (attestPreimage chain verifier.self novaProof publicInputs)
        return (verifier.verifyDigest chain digest sigma bitmap).getD false

inductive RollupVerifier where
  | plonk (verifyProof : ByteString → List Word → Except String Bool)
  | novaRollup (verifier : NovaRollupVerifier)
  | novaCommittee (verifier : NovaCommitteeVerifier)

def RollupVerifier.verifyProof (chain : Chain) : RollupVerifier → ByteString → List Word → Except String Bool
  | plonk verifyProof, proof, publicInputs => verifyProof proof publicInputs
  | novaRollup verifier, proof, publicInputs => verifier.verifyProof chain proof publicInputs
  | novaCommittee verifier, proof, publicInputs => verifier.verifyProof chain proof publicInputs

structure ProofSystemRouter where
  verifiers : UInt8 → Option RollupVerifier
  disabled : UInt8 → Bool

def ProofSystemRouter.verify (router : ProofSystemRouter) (blob : ByteString)
    (publicInputs : List Word) : Except String Bool :=
  match blob with
  | [] => .error "ProofTooShort"
  | id :: proof =>
    if router.disabled id = true then .error "ProofSystemDisabled"
    else
      match router.verifiers id with
      | none => .error "UnknownProofSystem"
      | some verifier => verifier.verifyProof chain proof publicInputs

structure ProofSystemRouter.NovaDeployment (router : ProofSystemRouter) : Prop where
  rollup : ∀ verifier, router.verifiers 2 = some verifier → ∃ gate, verifier = .novaRollup gate
  committee : ∀ verifier, router.verifiers 3 = some verifier → ∃ gate, verifier = .novaCommittee gate

theorem rollup_verifyProof_parsed (verifier : NovaRollupVerifier) (proof : ByteString) (publicInputs : List Word)
    (accepted : verifier.verifyProof chain proof publicInputs = .ok true) :
    ∃ novaProof cursor, parseProof proof = some (novaProof, cursor) ∧
      structuralBinding novaProof publicInputs = true := by
  cases parsed : parseProof proof with
  | none => simp [NovaRollupVerifier.verifyProof, parsed] at accepted
  | some data =>
    refine ⟨data.1, data.2, rfl, ?_⟩
    by_contra unbound
    simp [NovaRollupVerifier.verifyProof, parsed, eq_false_of_ne_true unbound] at accepted

theorem committee_verifyProof_parsed (publicInputs : List Word)
    (accepted : verifier.verifyProof chain proof publicInputs = .ok true) :
    ∃ novaProof cursor, parseProof proof = some (novaProof, cursor) ∧
      structuralBinding novaProof publicInputs = true := by
  cases parsed : parseProof proof with
  | none => simp [NovaCommitteeVerifier.verifyProof, parsed] at accepted
  | some data =>
    refine ⟨data.1, data.2, rfl, ?_⟩
    by_contra unbound
    simp [NovaCommitteeVerifier.verifyProof, parsed, eq_false_of_ne_true unbound] at accepted

theorem router_verify_roots (router : ProofSystemRouter) (deployment : router.NovaDeployment) (id : UInt8)
    (proof : ByteString) (nova : id = 2 ∨ id = 3) (publicInputs : List Word)
    (accepted : router.verify chain (id :: proof) publicInputs = .ok true) :
    ∃ novaProof cursor, parseProof proof = some (novaProof, cursor) ∧
      publicInputs[0]? = some novaProof.commitmentsRoot ∧ publicInputs[1]? = some novaProof.nullifiersRoot ∧
      publicInputs[2]? = some novaProof.historicRootRoot := by
  simp only [ProofSystemRouter.verify] at accepted
  split at accepted
  · simp at accepted
  · split at accepted
    · simp at accepted
    · rename_i verifier registered
      have parsed : ∃ novaProof cursor, parseProof proof = some (novaProof, cursor) ∧
          structuralBinding novaProof publicInputs = true := by
        rcases nova with two | three
        · subst two
          obtain ⟨gate, same⟩ := deployment.rollup verifier registered
          subst same
          exact rollup_verifyProof_parsed chain gate proof publicInputs accepted
        · subst three
          obtain ⟨gate, same⟩ := deployment.committee verifier registered
          subst same
          exact committee_verifyProof_parsed chain gate proof publicInputs accepted
      obtain ⟨novaProof, cursor, decoded, bound⟩ := parsed
      simp only [structuralBinding, decide_eq_true_eq] at bound
      exact ⟨novaProof, cursor, decoded, bound.2.1, bound.2.2.1, bound.2.2.2.1⟩

end Nightfall.Contract
