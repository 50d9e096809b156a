import Nightfall.Library.Bytes
import Nightfall.Library.Merkle
import Nightfall.Noir.BabyJubJub

/-! `compute_statement`: the Rust reference for the Noir statement, with the helpers of its crate.
-/

namespace Nightfall.Oracle

open Revert

abbrev Point := Edwards.Point Fr254

theorem subgroupOrder_ne_zero : Noir.subgroupOrder ≠ 0 := by decide

instance subgroupOrder_neZero : NeZero Noir.subgroupOrder := ⟨subgroupOrder_ne_zero⟩

abbrev BjjFr := ZMod Noir.subgroupOrder

structure Libraries where
  poseidon : List Fr254 → Fr254
  sponge : List Fr254 → Fr254
  sha256 : List UInt8 → List UInt8
  generator : Point
  mul : Point → BjjFr → Point
  isOnCurve : Point → Bool
  isInCorrectSubgroup : Point → Bool

def fromLeBytesModOrder (bytes : List UInt8) : Fr254 := (Bytes.beNat bytes.reverse : ℕ)

def domainKem : Fr254 :=
  (21033365405711675223813179268586447041622169155539365736392974498519442361181 : ℕ)
def domainDem : Fr254 :=
  (1241463701002173366467794894814691939898321302682516549591039420117995599097 : ℕ)
def nullifierPrefix : Fr254 :=
  (7805187439118198468809896822299973897593108379494079213870562208229492109015 : ℕ)
def privateKeyPrefix : Fr254 :=
  (2708019456231621178814538244712057499818649907582893776052749473028258908910 : ℕ)
def depositNullifierDomain : Fr254 := fromLeBytesModOrder (Bytes.ascii "DEPOSIT_NULLIFIER_V1")
def domainSharedSalt : Fr254 :=
  (4832298308599927878911686715232824310149976768223104556783163253807065458 : ℕ)
def swapDomain : Fr254 := fromLeBytesModOrder (Bytes.ascii "SWAP_V1")
def publicInputsFraming : Fr254 := fromLeBytesModOrder (Bytes.ascii "public_inputsversion2")

structure StatementInputs where
  root : Fr254
  rootKey : Fr254
  ephemeralKey : BjjFr
  feeTokenId : Fr254
  fee : Fr254
  nfAddress : Fr254
  nfSlotId : Fr254
  nullifiersValues : Fin 4 → Fr254
  nullifiersSalts : Fin 4 → Fr254
  publicKeys : Fin 4 → Point
  membershipProofs : Fin 4 → List (Merkle.PathElement Fr254)
  secretPreimages : Fin 4 → Fin 3 → Fr254
  commitmentsValues : Fin 2 → Fr254
  senderCommitmentSalts : Fin 3 → Fr254
  depositTokenIds : Fin 4 → Fr254
  depositSlotIds : Fin 4 → Fr254
  depositValues : Fin 4 → Fr254
  depositSecretHashes : Fin 4 → Fr254
  withdrawAddress : Fr254
  partyAPublicKey : Point
  partyBPublicKey : Point
  nfTokenAId : Fr254
  valueA : Fr254
  nfTokenBId : Fr254
  valueB : Fr254
  swapNonce : Fr254
  deadline : Fr254

structure StatementTrace where
  withdrawFlag : Bool
  isSwap : Bool
  isDeposit : Bool
  isPartyA : Bool
  zkpPriv : BjjFr
  zkpPrivHash : Fr254
  zkpPrivLambda : Fr254
  zkpPubKey : Point
  nullifierKey : Fr254
  value : Fr254
  nfTokenId : Fr254
  recipientPublicKey : Point
  sharedSecret : Point
  epk : Point
  sharedSalt : Fr254
  commitments : Fin 4 → Fr254
  nullifiers : Fin 4 → Fr254
  compressedSecrets : Fin 5 → Fr254
  swapLink : Fr254
  finalFee : Fr254
  finalRoot : Fr254
  finalDeadline : Fr254
  swapSide : Fr254
  publicInputs : List Fr254

def cs (b : Bool) (a t : Fr254) : Fr254 := if b then t else a

def isNeutral (p : Point) : Bool := p.x = 0 && p.y = 1

def pointsEqual (p q : Point) : Bool := p.x = q.x && p.y = q.y

def xParityFlag (x : Fr254) : Fr254 := if (-x).val < x.val then 1 else 0

def assertMaxBits (v : Fr254) (bits : ℕ) (name : String) : Except String Unit :=
  require (v.val < 2 ^ bits) s!"{name} exceeds {bits} bits"

section

variable (lib : Libraries)

def mulByGenerator (scalar : BjjFr) : Point := lib.mul lib.generator scalar

def assertInSubgroup (p : Point) : Except String Unit := do
  require (lib.isOnCurve p = true) "bjj: DH base not on curve"
  require (lib.isInCorrectSubgroup p = true) "bjj: DH base not in prime-order subgroup"

def nullifierKey (rootKey : Fr254) : Fr254 := lib.poseidon [rootKey, nullifierPrefix]

def zkpPrivateKeyWitness (rootKey : Fr254) : Except String (BjjFr × Fr254 × Fr254) := do
  let h := lib.poseidon [rootKey, privateKeyPrefix]
  let scalar : BjjFr := (h.val : ℕ)
  let lambda := (h.val - scalar.val) / Noir.subgroupOrder
  require (lambda < 8) "M2: reduction quotient >= 8"
  require (scalar.val + lambda * Noir.subgroupOrder < fr254Modulus)
    "M2: BN254->BJJ reduction wraps the field modulus"
  return (scalar, h, (lambda : Fr254))

def deriveEncKey (sharedSecret : Point) : Fr254 :=
  lib.poseidon [sharedSecret.x, sharedSecret.y, domainKem]

def demEncryptField (encKey counter plain : Fr254) : Fr254 :=
  lib.poseidon [encKey, domainDem, counter] + plain

def demEncrypt (encKey : Fr254) (plains : List Fr254) : List Fr254 :=
  plains.mapIdx fun i plain => demEncryptField lib encKey (i : Fr254) plain

def sha256Shift (inputs : List Fr254) : Fr254 :=
  let digest := lib.sha256 (inputs.flatMap fun input => Bytes.beBytes 32 input.val)
  (Bytes.beNat digest / 16 : ℕ)

def nodeHash (left right : Fr254) : Fr254 := lib.poseidon [left, right]

end

section

variable (inp : StatementInputs) (zkpPubKey : Point)

def withdrawFlag : Bool := inp.withdrawAddress ≠ 0
def isSwap : Bool := inp.swapNonce ≠ 0
def isDeposit : Bool := inp.nullifiersSalts 0 = 0
def isPartyA : Bool := pointsEqual zkpPubKey inp.partyAPublicKey
def isPartyB : Bool := pointsEqual zkpPubKey inp.partyBPublicKey
def isPartyBSwap : Bool := isSwap inp && isPartyB inp zkpPubKey
def transferValue : Fr254 := cs (isPartyBSwap inp zkpPubKey) inp.valueA inp.valueB
def nfTokenId : Fr254 := cs (isPartyBSwap inp zkpPubKey) inp.nfTokenAId inp.nfTokenBId
def recipientPublicKey : Point :=
  if isPartyBSwap inp zkpPubKey then inp.partyAPublicKey else inp.partyBPublicKey

def roleChecks : Except String Unit := do
  require (isDeposit inp = false ∧ withdrawFlag inp = false → inp.ephemeralKey ≠ 0)
    "statement: transfer ephemeral scalar is zero"
  require (isSwap inp = false → inp.nfTokenBId = 0) "non-swap: nf_token_b_id must be 0"
  require (isSwap inp = false → inp.valueB = 0) "non-swap: value_b must be 0"
  require (isSwap inp = false ∧ isDeposit inp = false → isPartyA inp zkpPubKey = true)
    "non-swap non-deposit: author must be party A"

def balanceChecks : Except String Unit := do
  require (transferValue inp zkpPubKey + inp.commitmentsValues 0 =
    inp.nullifiersValues 0 + inp.nullifiersValues 1) "value + change != nullifier[0] + nullifier[1]"
  require (inp.fee + inp.commitmentsValues 1 = inp.nullifiersValues 2 + inp.nullifiersValues 3)
    "fee + fee_change != fee_nullifier[0] + fee_nullifier[1]"
  assertMaxBits (transferValue inp zkpPubKey) 96 "value"
  assertMaxBits inp.fee 96 "fee"
  assertMaxBits (inp.commitmentsValues 0) 96 "transfer_change"
  assertMaxBits (inp.commitmentsValues 1) 96 "fee_change"
  (List.finRange 4).forM fun i => do
    assertMaxBits (inp.nullifiersValues i) 96 "nullifier_value"
    assertMaxBits (inp.depositValues i) 96 "deposit_value"
  assertMaxBits inp.valueA 96 "value_a"
  assertMaxBits inp.valueB 96 "value_b"

def exclusivityChecks : Except String Unit :=
  if isDeposit inp then do
    [1, 2, 3].forM fun i : Fin 4 =>
      require (inp.nullifiersSalts i = 0) s!"deposit: extra nullifier salt {i} must be zero"
    require (inp.withdrawAddress = 0) "deposit: withdraw_address must be zero"
    require (inp.swapNonce = 0) "deposit: swap_nonce must be zero"
  else (List.finRange 4).forM fun i => do
    require (inp.depositTokenIds i = 0) s!"non-deposit: deposit token id {i} must be zero"
    require (inp.depositSlotIds i = 0) s!"non-deposit: deposit slot id {i} must be zero"
    require (inp.depositValues i = 0) s!"non-deposit: deposit value {i} must be zero"
    require (inp.depositSecretHashes i = 0) s!"non-deposit: deposit secret hash {i} must be zero"

def ownershipChecks : Except String Unit :=
  (List.finRange 4).forM fun i =>
    require ((isNeutral (inp.publicKeys i) || decide (inp.nullifiersValues i = 0)) = true ∨
      pointsEqual zkpPubKey (inp.publicKeys i) = true) s!"ownership: slot {i} key mismatch"

def swapChecks : Except String Unit := do
  require (isSwap inp = true → isNeutral inp.partyAPublicKey = false) "swap: party A neutral"
  require (isSwap inp = true → isNeutral inp.partyBPublicKey = false) "swap: party B neutral"
  require (isSwap inp = true → pointsEqual inp.partyAPublicKey inp.partyBPublicKey = false)
    "swap: parties must differ"
  require (isSwap inp = true → (isPartyA inp zkpPubKey || isPartyB inp zkpPubKey) = true)
    "swap: author is neither party"
  require (isSwap inp = true → withdrawFlag inp = false) "swap and withdraw are mutually exclusive"
  assertMaxBits inp.swapNonce 64 "swap_nonce"
  assertMaxBits inp.deadline 64 "deadline"
  require (isSwap inp = false → inp.deadline = 0) "non-swap: deadline must be 0"

end

section

variable (lib : Libraries) (inp : StatementInputs) (zkpPubKey : Point)

def sharedSalt (sharedSecret : Point) : Fr254 :=
  lib.poseidon [sharedSecret.x, sharedSecret.y, domainSharedSalt]

def verifyCommitments (salt : Fr254) : Fin 4 → Fr254 :=
  let token := nfTokenId inp zkpPubKey
  let value := transferValue inp zkpPubKey
  let recipient := recipientPublicKey inp zkpPubKey
  let change₀ := inp.commitmentsValues 0
  let change₁ := inp.commitmentsValues 1
  ![cs (withdrawFlag inp) (lib.poseidon [token, inp.nfSlotId, value, recipient.x, recipient.y, salt]) 0,
    cs (change₀ = 0) (lib.poseidon [token, inp.nfSlotId, change₀, zkpPubKey.x, zkpPubKey.y,
      inp.senderCommitmentSalts 0]) 0,
    cs (inp.fee = 0) (lib.poseidon [inp.feeTokenId, inp.feeTokenId, inp.fee, 0, inp.nfAddress,
      inp.senderCommitmentSalts 1]) 0,
    cs (change₁ = 0) (lib.poseidon [inp.feeTokenId, inp.feeTokenId, change₁, zkpPubKey.x,
      zkpPubKey.y, inp.senderCommitmentSalts 2]) 0]

def slotCommitment (i : Fin 4) : Fr254 :=
  let token := if i < 2 then nfTokenId inp zkpPubKey else inp.feeTokenId
  let slot := if i < 2 then inp.nfSlotId else inp.feeTokenId
  lib.poseidon [token, slot, inp.nullifiersValues i, (inp.publicKeys i).x, (inp.publicKeys i).y,
    inp.nullifiersSalts i]

def slotNullifier (i : Fin 4) : Fr254 :=
  let preimage := inp.secretPreimages i
  let depositKey := lib.poseidon [preimage 0, preimage 1, preimage 2, depositNullifierDomain]
  let keyToUse := cs (isNeutral (inp.publicKeys i)) (nullifierKey lib inp.rootKey) depositKey
  lib.poseidon [keyToUse, slotCommitment lib inp zkpPubKey i]

def verifyNullifier (i : Fin 4) : Except String Unit := do
  let salt := inp.nullifiersSalts i
  let isZero : Bool := salt = 0
  require (isZero = true → inp.nullifiersValues i = 0) s!"nullifier slot {i}: dummy slot must carry zero value"
  let calcRoot := Merkle.computeRoot (nodeHash lib) (slotCommitment lib inp zkpPubKey i)
    (inp.membershipProofs i)
  require (isZero = true ∨ calcRoot = cs isZero inp.root 0)
    s!"nullifier slot {i}: membership proof failed"
  let preimage := inp.secretPreimages i
  let secretHash := lib.poseidon [preimage 0, preimage 1, preimage 2]
  require (cs isZero (cs (isNeutral (inp.publicKeys i)) salt secretHash) 0 = salt)
    s!"nullifier slot {i}: salt-from-preimage"

def nullifierOut (i : Fin 4) : Fr254 :=
  cs (inp.nullifiersSalts i = 0) (slotNullifier lib inp zkpPubKey i) 0

def verifyDuplicates (nullifiers commitments : Fin 4 → Fr254) : Except String Unit :=
  [nullifiers, commitments].forM fun entries =>
    (List.finRange 4).forM fun i => (List.finRange 4).forM fun j =>
      require (i < j → entries j = 0 ∨ entries j ≠ entries i) "duplicate non-zero entry"

def verifyEncryption (sharedSecret epk : Point) : Fin 5 → Fr254 :=
  let token := nfTokenId inp zkpPubKey
  let value := transferValue inp zkpPubKey
  let ciphers := demEncrypt lib (deriveEncKey lib sharedSecret) [token, inp.nfSlotId, value]
  let kemDem : Fin 5 → Fr254 :=
    ![ciphers.getD 0 0, ciphers.getD 1 0, ciphers.getD 2 0, epk.y, xParityFlag epk.x]
  let withdrawCipher : Fin 5 → Fr254 := ![token, inp.withdrawAddress, value, 0, 0]
  fun i => cs (withdrawFlag inp) (kemDem i) (withdrawCipher i)

def computedSwapLink : Fr254 :=
  lib.sponge [swapDomain, inp.partyAPublicKey.x, inp.partyAPublicKey.y, inp.partyBPublicKey.x,
    inp.partyBPublicKey.y, inp.nfTokenAId, inp.valueA, inp.nfTokenBId, inp.valueB, inp.swapNonce]

def depositFlag (i : Fin 4) : Bool := !(inp.depositValues i = 0 && inp.depositTokenIds i = 0)

def depositCommitment (i : Fin 4) : Fr254 :=
  cs (depositFlag inp i) 0 (lib.poseidon [inp.depositTokenIds i, inp.depositSlotIds i,
    inp.depositValues i, 0, 1, inp.depositSecretHashes i])

def depositPublicData (i : Fin 5) : Fr254 :=
  if slot : i.val < 4 then
    let i : Fin 4 := ⟨i.val, slot⟩
    cs (depositFlag inp i) 0 (sha256Shift lib [inp.depositTokenIds i, inp.depositSlotIds i,
      inp.depositValues i, inp.depositSecretHashes i])
  else 0

def trace (zkpPriv : BjjFr) (zkpPrivHash zkpPrivLambda : Fr254) : StatementTrace :=
  let zkpPubKey := mulByGenerator lib zkpPriv
  let recipient := recipientPublicKey inp zkpPubKey
  let sharedSecret := lib.mul recipient inp.ephemeralKey
  let epk := mulByGenerator lib inp.ephemeralKey
  let salt := sharedSalt lib sharedSecret
  let commitments := verifyCommitments lib inp zkpPubKey salt
  let compressedSecrets := verifyEncryption lib inp zkpPubKey sharedSecret epk
  let finalFee := cs (isDeposit inp) inp.fee 0
  let finalRoot := cs (isDeposit inp) inp.root 0
  let outCommitments : Fin 4 → Fr254 := fun i =>
    cs (isDeposit inp) (commitments i) (depositCommitment lib inp i)
  let outNullifiers : Fin 4 → Fr254 := fun i =>
    cs (isDeposit inp) (nullifierOut lib inp zkpPubKey i) 0
  let outSecrets : Fin 5 → Fr254 := fun i =>
    cs (isDeposit inp) (compressedSecrets i) (depositPublicData lib inp i)
  let outSwapLink := cs (isDeposit inp) (cs (isSwap inp) 0 (computedSwapLink lib inp)) 0
  let finalDeadline := cs (isDeposit inp) (cs (isSwap inp) 0 inp.deadline) 0
  let swapSide := cs (isDeposit inp) (cs (isSwap inp) 0 (if isPartyA inp zkpPubKey then 1 else 0)) 0
  { withdrawFlag := withdrawFlag inp
    isSwap := isSwap inp
    isDeposit := isDeposit inp
    isPartyA := isPartyA inp zkpPubKey
    zkpPriv := zkpPriv
    zkpPrivHash := zkpPrivHash
    zkpPrivLambda := zkpPrivLambda
    zkpPubKey := zkpPubKey
    nullifierKey := nullifierKey lib inp.rootKey
    value := transferValue inp zkpPubKey
    nfTokenId := nfTokenId inp zkpPubKey
    recipientPublicKey := recipient
    sharedSecret := sharedSecret
    epk := epk
    sharedSalt := salt
    commitments := outCommitments
    nullifiers := outNullifiers
    compressedSecrets := outSecrets
    swapLink := outSwapLink
    finalFee := finalFee
    finalRoot := finalRoot
    finalDeadline := finalDeadline
    swapSide := swapSide
    publicInputs := [publicInputsFraming, 1, finalFee, 1, finalRoot, 4] ++
      List.ofFn outCommitments ++ [4] ++ List.ofFn outNullifiers ++ [5] ++ List.ofFn outSecrets ++
      [1, outSwapLink, 1, finalDeadline, 1, swapSide] }

end

def computeStatement (lib : Libraries) (inp : StatementInputs) : Except String StatementTrace := do
  assertMaxBits inp.withdrawAddress 160 "withdraw_address"
  assertMaxBits inp.nfAddress 160 "nf_address"
  let (zkpPriv, zkpPrivHash, zkpPrivLambda) ← zkpPrivateKeyWitness lib inp.rootKey
  require (zkpPriv ≠ 0) "derived zkp_private_key is zero"
  let zkpPubKey := mulByGenerator lib zkpPriv
  roleChecks inp zkpPubKey
  balanceChecks inp zkpPubKey
  exclusivityChecks inp
  ownershipChecks inp zkpPubKey
  assertInSubgroup lib (recipientPublicKey inp zkpPubKey)
  let sharedSecret := lib.mul (recipientPublicKey inp zkpPubKey) inp.ephemeralKey
  (List.finRange 4).forM (verifyNullifier lib inp zkpPubKey)
  verifyDuplicates (nullifierOut lib inp zkpPubKey)
    (verifyCommitments lib inp zkpPubKey (sharedSalt lib sharedSecret))
  require (withdrawFlag inp = true → isNeutral (recipientPublicKey inp zkpPubKey) = true)
    "withdraw: recipient must be neutral"
  swapChecks inp zkpPubKey
  return trace lib inp zkpPriv zkpPrivHash zkpPrivLambda

@[mk_iff] structure Passed (lib : Libraries) (inp : StatementInputs) (zkpPriv : BjjFr) : Prop where
  withdrawRange : inp.withdrawAddress.val < 2 ^ 160
  addressRange : inp.nfAddress.val < 2 ^ 160
  nonzero : zkpPriv ≠ 0
  roles : roleChecks inp (mulByGenerator lib zkpPriv) = .ok ()
  balance : balanceChecks inp (mulByGenerator lib zkpPriv) = .ok ()
  exclusivity : exclusivityChecks inp = .ok ()
  ownership : ownershipChecks inp (mulByGenerator lib zkpPriv) = .ok ()
  recipient : assertInSubgroup lib (recipientPublicKey inp (mulByGenerator lib zkpPriv)) = .ok ()
  nullifiers : ∀ i, verifyNullifier lib inp (mulByGenerator lib zkpPriv) i = .ok ()
  duplicates : verifyDuplicates (nullifierOut lib inp (mulByGenerator lib zkpPriv))
    (verifyCommitments lib inp (mulByGenerator lib zkpPriv) (sharedSalt lib
      (lib.mul (recipientPublicKey inp (mulByGenerator lib zkpPriv)) inp.ephemeralKey))) = .ok ()
  withdrawal : withdrawFlag inp = true → isNeutral (recipientPublicKey inp (mulByGenerator lib zkpPriv)) = true
  swap : swapChecks inp (mulByGenerator lib zkpPriv) = .ok ()

theorem computeStatement_eq_ok {lib : Libraries} {inp : StatementInputs} {zkpPriv : BjjFr}
    {zkpPrivHash zkpPrivLambda : Fr254}
    (witnessed : zkpPrivateKeyWitness lib inp.rootKey = .ok (zkpPriv, zkpPrivHash, zkpPrivLambda))
    (result : StatementTrace) : computeStatement lib inp = .ok result ↔
      Passed lib inp zkpPriv ∧ trace lib inp zkpPriv zkpPrivHash zkpPrivLambda = result := by
  simp [computeStatement, witnessed, assertMaxBits, passed_iff, and_assoc]

end Nightfall.Oracle
