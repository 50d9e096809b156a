import Nightfall.Field
import Nightfall.Library.Bytes
import Nightfall.Library.Edwards
import Nightfall.Library.Merkle

/-! `assess_operation_integrity`: the unified client circuit of the Plonk path, as the set of
assignments that satisfy its gates. -/

namespace Nightfall.Plonk

abbrev Point := Edwards.Point Fr254

structure Primitives where
  poseidonHash : List Fr254 → Fr254
  spongeHash : List Fr254 → Fr254
  shiftedSha256 : List Fr254 → Fr254
  eccAdd : Point → Point → Point
  scalarMul : Fr254 → Point → Point
  generator : Point

def fromLeBytesModOrder (bytes : List UInt8) : Fr254 := (Bytes.beNat bytes.reverse : ℕ)

def nullifierPrefix : Fr254 :=
  (7805187439118198468809896822299973897593108379494079213870562208229492109015 : ℕ)
def privateKeyPrefix : Fr254 :=
  (2708019456231621178814538244712057499818649907582893776052749473028258908910 : ℕ)
def bjjOrder : ℕ :=
  2736030358979909402780800718157159386076813972158567259200215660948447373041
def depositNullifierDomain : Fr254 := fromLeBytesModOrder (Bytes.ascii "DEPOSIT_NULLIFIER_V1")
def swapDomain : Fr254 := fromLeBytesModOrder (Bytes.ascii "SWAP_V1")
def publicInputsTag : Fr254 := fromLeBytesModOrder (Bytes.ascii "public_inputsversion2")

def depth : ℕ := 32

structure DepositData where
  nfTokenId : Fr254
  nfSlotId : Fr254
  value : Fr254
  secretHash : Fr254
deriving DecidableEq

structure Assignment where
  fee : Fr254
  root : Fr254
  feeTokenId : Fr254
  nfAddress : Fr254
  nfSlotId : Fr254
  nullifiersValues : Fin 4 → Fr254
  nullifiersSalts : Fin 4 → Fr254
  membershipProofs : Fin 4 → Vector (Merkle.PathElement Fr254) depth
  commitmentsValues : Fin 2 → Fr254
  senderCommitmentSalts : Fin 3 → Fr254
  publicKeys : Fin 4 → Point
  rootKey : Fr254
  ephemeralKey : Fr254
  withdrawAddress : Fr254
  secretPreimages : Fin 4 → Fin 3 → Fr254
  depositData : Fin 4 → DepositData
  partyAPublicKey : Point
  partyBPublicKey : Point
  nfTokenAId : Fr254
  valueA : Fr254
  nfTokenBId : Fr254
  valueB : Fr254
  swapNonce : Fr254
  deadline : Fr254
  -- created inside the circuit, without a constant gate
  zkpPrivateKey : Fr254
  lambda : Fr254
  domainSharedSalt : Fr254
  domainKem : Fr254
  domainDem : Fr254
  demIndex : Fin 3 → Fr254

def flag (b : Bool) : Fr254 := if b then 1 else 0

/-- `conditional_select(b, x0, x1)`: `x0` when `b` is zero, `x1` when it is one. -/
def conditionalSelect (b : Bool) (x₀ x₁ : Fr254) : Fr254 := if b then x₁ else x₀

def isZero (x : Fr254) : Bool := x = 0

def neutral : Point := Edwards.neutral

def isNeutralPoint (p : Point) : Bool := p.x = 0 ∧ p.y = 1

def pointsEqual (p q : Point) : Bool := p.x = q.x && p.y = q.y

section

variable (prims : Primitives) (a : Assignment)

def timesEight (p : Point) : Point :=
  let double := fun q => prims.eccAdd q q
  double (double (double p))

def withdrawFlag : Bool := !isZero a.withdrawAddress

def nullifierKey : Fr254 := prims.poseidonHash [a.rootKey, nullifierPrefix]

def frZkpPrivKey : Fr254 := prims.poseidonHash [a.rootKey, privateKeyPrefix]

def zkpPubKey : Point := prims.scalarMul a.zkpPrivateKey prims.generator

def isSwap : Bool := !isZero a.swapNonce

def isDeposit : Bool := isZero (a.nullifiersSalts 0)

def isPartyA : Bool := pointsEqual (zkpPubKey prims a) a.partyAPublicKey

def isPartyB : Bool := pointsEqual (zkpPubKey prims a) a.partyBPublicKey

def transferValue : Fr254 :=
  conditionalSelect (isSwap a) a.valueA (conditionalSelect (isPartyA prims a) a.valueB a.valueA)

def nfTokenId : Fr254 :=
  conditionalSelect (isSwap a) a.nfTokenAId (conditionalSelect (isPartyA prims a) a.nfTokenBId a.nfTokenAId)

def recipientPublicKey : Point :=
  ⟨conditionalSelect (isSwap a) a.partyBPublicKey.x
      (conditionalSelect (isPartyA prims a) a.partyAPublicKey.x a.partyBPublicKey.x),
    conditionalSelect (isSwap a) a.partyBPublicKey.y
      (conditionalSelect (isPartyA prims a) a.partyAPublicKey.y a.partyBPublicKey.y)⟩

def computedSwapLink : Fr254 :=
  prims.spongeHash [swapDomain, a.partyAPublicKey.x, a.partyAPublicKey.y, a.partyBPublicKey.x,
    a.partyBPublicKey.y, a.nfTokenAId, a.valueA, a.nfTokenBId, a.valueB, a.swapNonce]

def sharedSecret : Point := prims.scalarMul a.ephemeralKey (recipientPublicKey prims a)

def sharedSalt : Fr254 :=
  prims.poseidonHash [(sharedSecret prims a).x, (sharedSecret prims a).y, a.domainSharedSalt]

def verifyCommitments : Fin 4 → Fr254 :=
  ![conditionalSelect (withdrawFlag a) (prims.poseidonHash [nfTokenId prims a, a.nfSlotId, transferValue prims a,
        (recipientPublicKey prims a).x, (recipientPublicKey prims a).y, sharedSalt prims a]) 0,
    conditionalSelect (isZero (a.commitmentsValues 0))
      (prims.poseidonHash [nfTokenId prims a, a.nfSlotId, a.commitmentsValues 0,
        (zkpPubKey prims a).x, (zkpPubKey prims a).y, a.senderCommitmentSalts 0]) 0, conditionalSelect (isZero a.fee)
      (prims.poseidonHash [a.feeTokenId, a.feeTokenId, a.fee, 0, a.nfAddress, a.senderCommitmentSalts 1]) 0,
    conditionalSelect (isZero (a.commitmentsValues 1))
      (prims.poseidonHash [a.feeTokenId, a.feeTokenId, a.commitmentsValues 1,
        (zkpPubKey prims a).x, (zkpPubKey prims a).y, a.senderCommitmentSalts 2]) 0]

/-- The four blocks of `verify_nullifiers` differ in the token only: slots 0 and 1
spend the transferred token, slots 2 and 3 the fee token. -/
def slotTokenId (i : Fin 4) : Fr254 := if i < 2 then nfTokenId prims a else a.feeTokenId
def slotSlotId (i : Fin 4) : Fr254 := if i < 2 then a.nfSlotId else a.feeTokenId

def slotCommitment (i : Fin 4) : Fr254 :=
  prims.poseidonHash [slotTokenId prims a i, slotSlotId a i, a.nullifiersValues i,
    (a.publicKeys i).x, (a.publicKeys i).y, a.nullifiersSalts i]

def depositNullifierKey (i : Fin 4) : Fr254 :=
  prims.poseidonHash [a.secretPreimages i 0, a.secretPreimages i 1, a.secretPreimages i 2, depositNullifierDomain]

def slotNullifier (i : Fin 4) : Fr254 :=
  prims.poseidonHash [conditionalSelect (isNeutralPoint (a.publicKeys i)) (nullifierKey prims a)
    (depositNullifierKey prims a i), slotCommitment prims a i]

def nodeHash (left right : Fr254) : Fr254 := prims.poseidonHash [left, right]

def calcRoot (i : Fin 4) : Fr254 :=
  Merkle.computeRoot (nodeHash prims) (slotCommitment prims a i) (a.membershipProofs i).toList

def secretHash (i : Fin 4) : Fr254 :=
  prims.poseidonHash [a.secretPreimages i 0, a.secretPreimages i 1, a.secretPreimages i 2]

def nullifierOut (i : Fin 4) : Fr254 :=
  conditionalSelect (isZero (a.nullifiersSalts i)) (slotNullifier prims a i) 0

def encryptionKey : Fr254 :=
  prims.poseidonHash [(sharedSecret prims a).x, (sharedSecret prims a).y, a.domainKem]

def demCipher (i : Fin 3) (plain : Fr254) : Fr254 :=
  prims.poseidonHash [encryptionKey prims a, a.domainDem, a.demIndex i] + plain

def epk : Point := prims.scalarMul a.ephemeralKey prims.generator

def xParity (x : Fr254) : Bool := (-x).val < x.val

def verifyEncryption : Fin 5 → Fr254 :=
  let kemDem : Fin 5 → Fr254 := ![demCipher prims a 0 (nfTokenId prims a),
    demCipher prims a 1 a.nfSlotId, demCipher prims a 2 (transferValue prims a), (epk prims a).y,
    flag (xParity (epk prims a).x)]
  let withdrawCipher : Fin 5 → Fr254 :=
    ![nfTokenId prims a, a.withdrawAddress, transferValue prims a, 0, 0]
  fun i => conditionalSelect (withdrawFlag a) (kemDem i) (withdrawCipher i)

def depositIsReal (deposit : DepositData) : Bool :=
  !(isZero deposit.value && isZero deposit.nfTokenId)

def depositCommitment (deposit : DepositData) : Fr254 :=
  conditionalSelect (depositIsReal deposit) 0 (prims.poseidonHash
    [deposit.nfTokenId, deposit.nfSlotId, deposit.value, 0, 1, deposit.secretHash])

def depositPublicData (i : Fin 5) : Fr254 :=
  if slot : i.val < 4 then
    let deposit := a.depositData ⟨i.val, slot⟩
    conditionalSelect (depositIsReal deposit) 0 (prims.shiftedSha256
      [deposit.nfTokenId, deposit.nfSlotId, deposit.value, deposit.secretHash])
  else 0

end

structure PublicInputs where
  fee : Fr254
  root : Fr254
  commitments : Fin 4 → Fr254
  nullifiers : Fin 4 → Fr254
  compressedSecrets : Fin 5 → Fr254
  swapLink : Fr254
  deadline : Fr254
  swapSide : Fr254

def PublicInputs.words (pub : PublicInputs) : List Fr254 :=
  [publicInputsTag, 1, pub.fee, 1, pub.root,
    4, pub.commitments 0, pub.commitments 1, pub.commitments 2, pub.commitments 3,
    4, pub.nullifiers 0, pub.nullifiers 1, pub.nullifiers 2, pub.nullifiers 3,
    5, pub.compressedSecrets 0, pub.compressedSecrets 1, pub.compressedSecrets 2,
    pub.compressedSecrets 3, pub.compressedSecrets 4, 1, pub.swapLink, 1, pub.deadline, 1, pub.swapSide]

def publicInputs (prims : Primitives) (a : Assignment) : PublicInputs where
  fee := conditionalSelect (isDeposit a) a.fee 0
  root := conditionalSelect (isDeposit a) a.root 0
  commitments := fun i => conditionalSelect (isDeposit a) (verifyCommitments prims a i)
    (depositCommitment prims (a.depositData i))
  nullifiers := fun i => conditionalSelect (isDeposit a) (nullifierOut prims a i) 0
  compressedSecrets := fun i => conditionalSelect (isDeposit a) (verifyEncryption prims a i)
    (depositPublicData prims a i)
  swapLink := conditionalSelect (isDeposit a) (conditionalSelect (isSwap a) 0 (computedSwapLink prims a)) 0
  deadline := conditionalSelect (isDeposit a) (conditionalSelect (isSwap a) 0 a.deadline) 0
  swapSide := conditionalSelect (isDeposit a) (conditionalSelect (isSwap a) 0 (flag (isPartyA prims a))) 0

def publicWords (prims : Primitives) (a : Assignment) : List Fr254 := (publicInputs prims a).words

end Nightfall.Plonk
