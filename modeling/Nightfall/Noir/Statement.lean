import Nightfall.Library.Bytes
import Nightfall.Library.Merkle
import Nightfall.Noir.BabyJubJub

/-! `prove_statement`: the client transaction statement of the UltraHonk path, with the key
derivation, note, encryption, sponge and deposit helpers it calls. -/

namespace Nightfall.Noir

open Revert

structure Hashes where
  hash2 : Fr254 → Fr254 → Fr254
  hash3 : Fr254 → Fr254 → Fr254 → Fr254
  hash4 : Fr254 → Fr254 → Fr254 → Fr254 → Fr254
  hash6 : Fr254 → Fr254 → Fr254 → Fr254 → Fr254 → Fr254 → Fr254
  permutation : Vector Fr254 4 → Vector Fr254 4
  sha256 : List UInt8 → List UInt8

def domainKem : Fr254 :=
  21033365405711675223813179268586447041622169155539365736392974498519442361181
def domainDem : Fr254 :=
  1241463701002173366467794894814691939898321302682516549591039420117995599097
def nullifierPrefix : Fr254 :=
  7805187439118198468809896822299973897593108379494079213870562208229492109015
def privateKeyPrefix : Fr254 :=
  2708019456231621178814538244712057499818649907582893776052749473028258908910
def depositNullifierDomain : Fr254 := 281666715519856569973755053811770304519461684548
def domainSharedSalt : Fr254 :=
  4832298308599927878911686715232824310149976768223104556783163253807065458
def swapDomain : Fr254 := 13887241227163475
def publicInputsFraming : Fr254 := 73705555420127359003726225704438696631444525184368

def noWrapBound : ℕ :=
  2736030358979909402780800718157159386010666595306063529296694559936676884330

section

variable (hashes : Hashes)

/-- `sponge.nr`: chunks of three are added to positions 1, 2, 3; the squeeze is position 0. -/
def sponge (inputs : List Fr254) : Fr254 :=
  let absorb := fun (state : Vector Fr254 4) (chunk : ℕ) =>
    hashes.permutation #v[state.get 0, state.get 1 + inputs.getD (chunk * 3) 0,
      state.get 2 + inputs.getD (chunk * 3 + 1) 0, state.get 3 + inputs.getD (chunk * 3 + 2) 0]
  ((List.range ((inputs.length + 2) / 3)).foldl absorb (Vector.replicate 4 0)).get 0

def nullifierKey (rootKey : Fr254) : Fr254 := hashes.hash2 rootKey nullifierPrefix

def deriveZkpPrivateKey (rootKey zkpPriv lambda : Fr254) : Except String Fr254 := do
  let digest := hashes.hash2 rootKey privateKeyPrefix
  require (zkpPriv + lambda * subgroupOrder = digest) "keys: zkp_priv derivation mismatch"
  require (zkpPriv.val < subgroupOrder) "keys: zkp_priv >= subgroup order"
  require (lambda.val < 8) "keys: reduction quotient out of range"
  require (zkpPriv ≠ 0) "keys: zkp_priv is zero"
  let guarded := if lambda = 7 then zkpPriv else 0
  require (guarded.val < noWrapBound) "keys: zkp_priv reduction wraps the field modulus"
  return zkpPriv

def commitment (tokenId slotId value : Fr254) (owner : Point) (salt : Fr254) : Fr254 :=
  hashes.hash6 tokenId slotId value owner.x owner.y salt

def depositNullifierKey (preimage : Fin 3 → Fr254) : Fr254 :=
  hashes.hash4 (preimage 0) (preimage 1) (preimage 2) depositNullifierDomain

def deriveEncKey (sharedSecret : Point) : Fr254 :=
  hashes.hash3 sharedSecret.x sharedSecret.y domainKem

def demKeystream (encKey counter : Fr254) : Fr254 := hashes.hash3 encKey domainDem counter

def demEncryptField (encKey counter plain : Fr254) : Fr254 :=
  demKeystream hashes encKey counter + plain

def sha256Shift (inputs : List Fr254) : Fr254 :=
  let digest := hashes.sha256 (inputs.flatMap fun input => Bytes.beBytes 32 input.val)
  let top := (digest.take 31).foldl (fun top byte => top * 256 + (byte.toNat : Fr254)) 0
  let highNibble := (digest.getD 31 0).toNat / 16
  top * 16 + highNibble

end

def depth : ℕ := 32

structure StatementInputs where
  root : Fr254
  rootKey : Fr254
  zkpPriv : Fr254
  zkpPrivLambda : Fr254
  ephemeralKey : Fr254
  feeTokenId : Fr254
  fee : Fr254
  nfAddress : Fr254
  nfSlotId : Fr254
  nullifiersValues : Fin 4 → Fr254
  nullifiersSalts : Fin 4 → Fr254
  publicKeys : Fin 4 → Point
  membershipProofs : Fin 4 → Vector (Merkle.PathElement Fr254) depth
  secretPreimages : Fin 4 → Fin 3 → Fr254
  commitmentsValues : Fin 2 → Fr254
  senderCommitmentSalts : Fin 3 → Fr254
  depositTokenIds : Fin 4 → Fr254
  depositSlotIds : Fin 4 → Fr254
  depositValues : Fin 4 → Fr254
  depositSecretHashes : Fin 4 → Fr254
  withdrawAddress : Fr254
  partyAPublicKey : Point
  partyBPublicKey : Point
  nfTokenAId : Fr254
  valueA : Fr254
  nfTokenBId : Fr254
  valueB : Fr254
  swapNonce : Fr254
  deadline : Fr254

def cs (b : Bool) (a t : Fr254) : Fr254 := if b then t else a

def assertMaxBitSize (bits : ℕ) (x : Fr254) : Except String Unit :=
  require (x.val < 2 ^ bits) "call to assert_max_bit_size"

def xParity (x : Fr254) : Fr254 := if (-x).val < x.val then 1 else 0

section

variable (inp : StatementInputs) (zkpPubKey : Point)

def withdrawFlag : Bool := inp.withdrawAddress ≠ 0
def isSwap : Bool := inp.swapNonce ≠ 0
def isDeposit : Bool := inp.nullifiersSalts 0 = 0
def isPartyA : Bool := zkpPubKey = inp.partyAPublicKey
def isPartyB : Bool := zkpPubKey = inp.partyBPublicKey
def isPartyBSwap : Bool := isSwap inp && isPartyB inp zkpPubKey
def transferValue : Fr254 := cs (isPartyBSwap inp zkpPubKey) inp.valueA inp.valueB
def nfTokenId : Fr254 := cs (isPartyBSwap inp zkpPubKey) inp.nfTokenAId inp.nfTokenBId
def recipientPublicKey : Point :=
  if isPartyBSwap inp zkpPubKey then inp.partyAPublicKey else inp.partyBPublicKey

def modeChecks : Except String Unit := do
  require (isDeposit inp = false ∧ withdrawFlag inp = false → inp.ephemeralKey ≠ 0)
    "statement: transfer ephemeral scalar is zero"
  require (isSwap inp = false → inp.nfTokenBId = 0) "non-swap: nf_token_b_id must be 0"
  require (isSwap inp = false → inp.valueB = 0) "non-swap: value_b must be 0"
  require (isSwap inp = false ∧ isDeposit inp = false → isPartyA inp zkpPubKey = true)
    "non-swap non-deposit: author must be party A"
  if isDeposit inp then do
    [1, 2, 3].forM fun i : Fin 4 =>
      require (inp.nullifiersSalts i = 0) "deposit: extra nullifier salt must be 0"
    require (inp.withdrawAddress = 0) "deposit: withdraw_address must be 0"
    require (inp.swapNonce = 0) "deposit: swap_nonce must be 0"
  else (List.finRange 4).forM fun i => do
    require (inp.depositTokenIds i = 0) "non-deposit: deposit token id must be 0"
    require (inp.depositSlotIds i = 0) "non-deposit: deposit slot id must be 0"
    require (inp.depositValues i = 0) "non-deposit: deposit value must be 0"
    require (inp.depositSecretHashes i = 0) "non-deposit: deposit secret hash must be 0"

def balanceChecks : Except String Unit := do
  require (transferValue inp zkpPubKey + inp.commitmentsValues 0 = inp.nullifiersValues 0 + inp.nullifiersValues 1)
    "balance: value + change != nullifier[0] + nullifier[1]"
  require (inp.fee + inp.commitmentsValues 1 = inp.nullifiersValues 2 + inp.nullifiersValues 3)
    "balance: fee + fee_change != fee_nullifier[0] + fee_nullifier[1]"
  assertMaxBitSize 96 (transferValue inp zkpPubKey)
  assertMaxBitSize 96 inp.fee
  assertMaxBitSize 96 (inp.commitmentsValues 0)
  assertMaxBitSize 96 (inp.commitmentsValues 1)
  (List.finRange 4).forM fun i => do
    assertMaxBitSize 96 (inp.nullifiersValues i)
    assertMaxBitSize 96 (inp.depositValues i)
  assertMaxBitSize 96 inp.valueA
  assertMaxBitSize 96 inp.valueB

def ownershipChecks : Except String Unit :=
  (List.finRange 4).forM fun i =>
    require ((isNeutral (inp.publicKeys i) || decide (inp.nullifiersValues i = 0)) = true ∨
      zkpPubKey = inp.publicKeys i) "ownership: key mismatch"

def swapChecks : Except String Unit := do
  require (isSwap inp = true → isNeutral inp.partyAPublicKey = false) "swap: party A neutral"
  require (isSwap inp = true → isNeutral inp.partyBPublicKey = false) "swap: party B neutral"
  require (isSwap inp = true → inp.partyAPublicKey ≠ inp.partyBPublicKey) "swap: parties equal"
  require (isSwap inp = true → (isPartyA inp zkpPubKey || isPartyB inp zkpPubKey) = true)
    "swap: author is neither party"
  require (isSwap inp = true → withdrawFlag inp = false) "swap and withdraw mutually exclusive"
  assertMaxBitSize 64 inp.swapNonce
  assertMaxBitSize 64 inp.deadline
  require (isSwap inp = false → inp.deadline = 0) "non-swap: deadline must be 0"

end

section

variable (hashes : Hashes) (inp : StatementInputs) (zkpPubKey : Point)

def verifyCommitments (sharedSalt : Fr254) : Fin 4 → Fr254 :=
  let token := nfTokenId inp zkpPubKey
  ![cs (withdrawFlag inp) (commitment hashes token inp.nfSlotId (transferValue inp zkpPubKey)
      (recipientPublicKey inp zkpPubKey) sharedSalt) 0,
    cs (inp.commitmentsValues 0 = 0) (commitment hashes token inp.nfSlotId
      (inp.commitmentsValues 0) zkpPubKey (inp.senderCommitmentSalts 0)) 0,
    cs (inp.fee = 0) (hashes.hash6 inp.feeTokenId inp.feeTokenId inp.fee 0 inp.nfAddress
      (inp.senderCommitmentSalts 1)) 0,
    cs (inp.commitmentsValues 1 = 0) (commitment hashes inp.feeTokenId inp.feeTokenId
      (inp.commitmentsValues 1) zkpPubKey (inp.senderCommitmentSalts 2)) 0]

def slotTokenId (i : Fin 4) : Fr254 := if i < 2 then nfTokenId inp zkpPubKey else inp.feeTokenId
def slotSlotId (i : Fin 4) : Fr254 := if i < 2 then inp.nfSlotId else inp.feeTokenId

def slotCommitment (i : Fin 4) : Fr254 :=
  hashes.hash6 (slotTokenId inp zkpPubKey i) (slotSlotId inp i) (inp.nullifiersValues i)
    (inp.publicKeys i).x (inp.publicKeys i).y (inp.nullifiersSalts i)

def slotNullifier (i : Fin 4) : Fr254 :=
  hashes.hash2 (cs (isNeutral (inp.publicKeys i)) (nullifierKey hashes inp.rootKey)
    (depositNullifierKey hashes (inp.secretPreimages i))) (slotCommitment hashes inp zkpPubKey i)

def nullifierChecks (i : Fin 4) : Except String Unit := do
  let salt := inp.nullifiersSalts i
  let isZero : Bool := salt = 0
  require (cs isZero 0 (inp.nullifiersValues i) = 0) "nullifier: dummy slot must carry zero value"
  let calcRoot := Merkle.computeRoot hashes.hash2 (slotCommitment hashes inp zkpPubKey i)
    (inp.membershipProofs i).toList
  require (isZero = true ∨ calcRoot = cs isZero inp.root 0) "nullifier: membership proof failed"
  let preimage := inp.secretPreimages i
  let secretHash := hashes.hash3 (preimage 0) (preimage 1) (preimage 2)
  require (cs isZero (cs (isNeutral (inp.publicKeys i)) salt secretHash) 0 = salt) "nullifier: salt-from-preimage"

def nullifierOut (i : Fin 4) : Fr254 :=
  cs (inp.nullifiersSalts i = 0) (slotNullifier hashes inp zkpPubKey i) 0

def verifyDuplicates (nullifiers commitments : Fin 4 → Fr254) : Except String Unit :=
  (List.finRange 4).forM fun i => (List.finRange 4).forM fun j => do
    require (i < j → nullifiers j = 0 ∨ nullifiers j ≠ nullifiers i) "duplicate nullifier"
    require (i < j → commitments j = 0 ∨ commitments j ≠ commitments i) "duplicate commitment"

def verifyEncryption (sharedSecret epk : Point) : Fin 5 → Fr254 :=
  let encKey := deriveEncKey hashes sharedSecret
  let token := nfTokenId inp zkpPubKey
  let value := transferValue inp zkpPubKey
  let kemDem : Fin 5 → Fr254 := ![demEncryptField hashes encKey 0 token,
    demEncryptField hashes encKey 1 inp.nfSlotId, demEncryptField hashes encKey 2 value, epk.y,
    xParity epk.x]
  let withdrawCipher : Fin 5 → Fr254 := ![token, inp.withdrawAddress, value, 0, 0]
  fun i => cs (withdrawFlag inp) (kemDem i) (withdrawCipher i)

def swapLink : Fr254 :=
  sponge hashes [swapDomain, inp.partyAPublicKey.x, inp.partyAPublicKey.y, inp.partyBPublicKey.x,
    inp.partyBPublicKey.y, inp.nfTokenAId, inp.valueA, inp.nfTokenBId, inp.valueB, inp.swapNonce]

def depositFlag (i : Fin 4) : Bool := !(inp.depositValues i = 0 && inp.depositTokenIds i = 0)

def depositCommitment (i : Fin 4) : Fr254 :=
  cs (depositFlag inp i) 0 (hashes.hash6 (inp.depositTokenIds i) (inp.depositSlotIds i)
    (inp.depositValues i) 0 1 (inp.depositSecretHashes i))

def depositPublicData (i : Fin 5) : Fr254 :=
  if slot : i.val < 4 then
    let i : Fin 4 := ⟨i.val, slot⟩
    cs (depositFlag inp i) 0 (sha256Shift hashes [inp.depositTokenIds i, inp.depositSlotIds i,
      inp.depositValues i, inp.depositSecretHashes i])
  else 0

end

structure PublicInputs where
  fee : Fr254
  root : Fr254
  commitments : Fin 4 → Fr254
  nullifiers : Fin 4 → Fr254
  secrets : Fin 5 → Fr254
  swapLink : Fr254
  deadline : Fr254
  side : Fr254

def PublicInputs.words (pub : PublicInputs) : List Fr254 :=
  [publicInputsFraming, 1, pub.fee, 1, pub.root,
    4, pub.commitments 0, pub.commitments 1, pub.commitments 2, pub.commitments 3,
    4, pub.nullifiers 0, pub.nullifiers 1, pub.nullifiers 2, pub.nullifiers 3,
    5, pub.secrets 0, pub.secrets 1, pub.secrets 2, pub.secrets 3, pub.secrets 4,
    1, pub.swapLink, 1, pub.deadline, 1, pub.side]

def sharedSalt (hashes : Hashes) (sharedSecret : Point) : Fr254 :=
  hashes.hash3 sharedSecret.x sharedSecret.y domainSharedSalt

def publicInputs (hashes : Hashes) (inp : StatementInputs) (zkpPubKey sharedSecret epk : Point) : PublicInputs where
  fee := cs (isDeposit inp) inp.fee 0
  root := cs (isDeposit inp) inp.root 0
  commitments := fun i => cs (isDeposit inp)
    (verifyCommitments hashes inp zkpPubKey (sharedSalt hashes sharedSecret) i)
    (depositCommitment hashes inp i)
  nullifiers := fun i => cs (isDeposit inp) (nullifierOut hashes inp zkpPubKey i) 0
  secrets := fun i => cs (isDeposit inp) (verifyEncryption hashes inp zkpPubKey sharedSecret epk i)
    (depositPublicData hashes inp i)
  swapLink := cs (isDeposit inp) (cs (isSwap inp) 0 (swapLink hashes inp)) 0
  deadline := cs (isDeposit inp) (cs (isSwap inp) 0 inp.deadline) 0
  side := cs (isDeposit inp) (cs (isSwap inp) 0 (if isPartyA inp zkpPubKey then 1 else 0)) 0

def proveStatement (hashes : Hashes) (inp : StatementInputs) : Except String (List Fr254) := do
  assertMaxBitSize 160 inp.withdrawAddress
  assertMaxBitSize 160 inp.nfAddress
  let zkpPriv ← deriveZkpPrivateKey hashes inp.rootKey inp.zkpPriv inp.zkpPrivLambda
  assertValidScalar inp.ephemeralKey
  let zkpPubKey ← mulByGenerator zkpPriv
  modeChecks inp zkpPubKey
  balanceChecks inp zkpPubKey
  ownershipChecks inp zkpPubKey
  assertInSubgroup (recipientPublicKey inp zkpPubKey)
  let sharedSecret ← scalarMul inp.ephemeralKey (recipientPublicKey inp zkpPubKey)
  let epk ← mulByGenerator inp.ephemeralKey
  assertOnCurve sharedSecret
  assertOnCurve epk
  (List.finRange 4).forM (nullifierChecks hashes inp zkpPubKey)
  verifyDuplicates (nullifierOut hashes inp zkpPubKey)
    (verifyCommitments hashes inp zkpPubKey (sharedSalt hashes sharedSecret))
  require (withdrawFlag inp = true → isNeutral (recipientPublicKey inp zkpPubKey) = true)
    "withdraw: recipient must be neutral"
  swapChecks inp zkpPubKey
  return (publicInputs hashes inp zkpPubKey sharedSecret epk).words

end Nightfall.Noir
