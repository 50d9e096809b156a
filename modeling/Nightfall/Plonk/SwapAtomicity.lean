import Nightfall.Contract.Attestation
import Nightfall.Plonk.Rollup

/-! What acceptance of a block on the Plonk path says about swaps. -/

namespace Nightfall.Plonk

open Contract (Environment Call State Block OnChainTransaction)
open List

/-- `OnChainTransaction::from(&PublicInputs)` and its conversion to the contract's words. -/
def onChainTransaction (pub : PublicInputs) : Option OnChainTransaction := do
  let publicData ← secretsToWords pub.compressedSecrets
  return {
    fee := fieldWord pub.fee
    commitments := Vector.ofFn fun i => fieldWord (pub.commitments i)
    nullifiers := Vector.ofFn fun i => fieldWord (pub.nullifiers i)
    publicData := Vector.ofFn publicData }

theorem PublicInputs.words_separators (pub : PublicInputs) : SeparatorGates pub.words :=
  ⟨rfl, rfl, rfl, rfl, rfl, rfl, Or.inr ⟨rfl, rfl, rfl, rfl⟩⟩

theorem flag_of_fits {low top : Fr254} (fits : low.val + top.val * 2 ^ 255 < 2 ^ 256) :
    (if decide (top = 1) then 2 ^ 255 else 0) = top.val * 2 ^ 255 := by
  have bit : top.val = 0 ∨ top.val = 1 := by omega
  rcases bit with zero | one
  · rw [zero, (ZMod.val_eq_zero top).mp zero]
    rfl
  · have same : top = 1 := by
      rw [← ZMod.natCast_zmod_val top, one]
      exact Nat.cast_one
    rw [same]
    rfl

section

variable {sha : ShaGadget} {env : Environment} (computes : sha.Computes env)
include computes

theorem fieldWord_transactionSha {pub : PublicInputs} {transaction : OnChainTransaction}
    (posted : onChainTransaction pub = some transaction) :
    fieldWord (transactionSha sha (contractFields pub.words)) = Contract.hashTransaction env transaction := by
  simp only [onChainTransaction, secretsToWords, Option.bind_eq_bind, Option.bind_eq_some_iff,
    Option.ite_none_right_eq_some, Option.some.injEq, Option.pure_def] at posted
  obtain ⟨publicData, ⟨fits, rfl⟩, rfl⟩ := posted
  have payload : transactionSha sha (contractFields pub.words) =
      sha.withBit (ofFn pub.commitments ++ ofFn pub.nullifiers ++ (ofFn pub.compressedSecrets).take 3 ++
        [pub.compressedSecrets 3]) (decide (pub.compressedSecrets 4 = 1)) := by
    simp [transactionSha, contractFields, PublicInputs.words]
  rw [payload, computes.withBit, flag_of_fits fits, Contract.hashTransaction]
  refine congrArg (fun words => env.sha256AndShift (Contract.abiEncode words)) ?_
  simp [fieldWord, Vector.toList_ofFn, ofFn_succ]

theorem Rollup.Wired.sha_eq_blockHash {commitments nullifiers : InsertionGadget}
    {rollup : Rollup commitments nullifiers} (wired : rollup.Wired sha) (blk : Block)
    (size : blk.transactions.length = 64)
    (leaves : ∀ n transaction, blk.transactions[n]? = some transaction →
      fieldWord (transactionSha sha (contractFields (rollup.clientWords n))) =
        Contract.hashTransaction env transaction) :
    fieldWord (mergedSha sha rollup.decider) = Contract.blockHash env blk := by
  have power : blk.transactions.length = 2 ^ 6 := size
  rw [wired.decider_sha, Contract.blockHash, power, Contract.hashTree_root env 6 _ (by simp [size]),
    Merkle.levelRoot_map fieldWord computes.pair]
  apply Merkle.levelRoot_congr
  intro n below
  have listed := List.getElem?_eq_getElem (power ▸ below)
  rw [leaves n _ listed]
  simp [getD_eq_getElem?_getD, listed]

end

section

variable (prims : Primitives) (env : Environment) (sha : ShaGadget) (commitments nullifiers : InsertionGadget)

/-- A block of 64 that verification accepts on the Plonk path: the contract takes it,
and there are assignments of the unified circuit for its transactions and of the
rollup circuits over them with the outputs that the contract recomputes. -/
structure Accepted (call : Call) (state next : State) (blk : Block) (clients : List Assignment) : Prop where
  proposed : Contract.proposeBlock env call state blk = .ok next
  plonk : blk.rollupProof.head? = some 1
  size : clients.length = 64
  satisfied : ∀ a ∈ clients, Satisfied prims a
  posted : clients.map (fun a => onChainTransaction (publicInputs prims a)) = blk.transactions.map some
  rolledUp : ∃ rollup : Rollup commitments nullifiers, rollup.Wired sha ∧ rollup.Gates (nodeHash prims) ∧
    (∀ n a, clients[n]? = some a → rollup.clientWords n = publicWords prims a) ∧
    ∃ feeSum, Contract.proofWord blk.rollupProof 1 = .ok feeSum ∧
      (rollup.outputs sha (nodeHash prims)).map fieldWord =
        Contract.plonkPublicInputs state blk (Contract.blockHash env blk) feeSum []

end

/-- Gadgets that compute what the contract does. -/
def contractSha (env : Environment) : ShaGadget where
  pair := fun left right => ((Contract.pairHash env (fieldWord left) (fieldWord right)).toNat : ℕ)
  withBit := fun values bit => ((env.sha256AndShift (Contract.abiEncode (values.dropLast.map fieldWord ++
    [BitVec.ofNat 256 ((values.getLastD 0).val + if bit then 2 ^ 255 else 0)]))).toNat : ℕ)

theorem fieldWord_sha (env : Environment) (bytes : Contract.ByteString) :
    fieldWord ((env.sha256AndShift bytes).toNat : ℕ) = env.sha256AndShift bytes := by
  have shifted : (env.sha256AndShift bytes).toNat < 2 ^ 252 := by
    rw [Environment.sha256AndShift, BitVec.toNat_ushiftRight, Nat.shiftRight_eq_div_pow]
    omega
  have room : 2 ^ 252 < fr254Modulus := by decide
  rw [fieldWord, ZMod.val_natCast_of_lt (by omega), BitVec.ofNat_toNat, BitVec.setWidth_eq]

theorem contractSha_computes (env : Environment) : (contractSha env).Computes env where
  pair := fun _ _ => fieldWord_sha env _
  withBit := by
    intro front last bit
    simp only [contractSha, dropLast_concat, getLastD_concat, fieldWord_sha]

section

def accumulator : InsertionGadget where
  Info := Fr254 × List Fr254
  oldRoot := fun info => info.1
  newRoot := fun info => info.1 + info.2.sum
  Verified := fun info => info.2.length = 8

def accumulated (start : Fr254) (leaves : ℕ → Fin 4 → Fr254) : ℕ → Fr254
  | 0 => start
  | n + 1 => accumulated start leaves n + (List.ofFn (leaves n)).sum

/-- The insertion of what the transactions `n` and `n + 1` publish. -/
def accumulation (start : Fr254) (leaves : ℕ → Fin 4 → Fr254) (n : ℕ) : accumulator.Info :=
  (accumulated start leaves n, List.ofFn (leaves n) ++ List.ofFn (leaves (n + 1)))

theorem accumulation_verified (start : Fr254) (leaves : ℕ → Fin 4 → Fr254) (n : ℕ) :
    accumulator.Verified (accumulation start leaves n) := by
  simp [accumulator, accumulation]

theorem accumulation_newRoot (start : Fr254) (leaves : ℕ → Fin 4 → Fr254) (n : ℕ) :
    accumulator.newRoot (accumulation start leaves n) = accumulated start leaves (n + 2) := by
  simp [accumulator, accumulation, accumulated, add_assoc]

variable (prims : Primitives) (sha : ShaGadget) (clients : ℕ → PublicInputs)

def accumulatingBase (i : ℕ) : Base accumulator accumulator where
  words := fun j => (clients (4 * i + j)).words
  fields := fun j => contractFields (clients (4 * i + j)).words
  halves := fun j => {
    leafRoots := fun k => (clients (4 * i + 2 * j + k)).root
    rootProofs := fun _ => List.replicate depth ⟨0, false⟩
    historicRoots := fun k => Merkle.computeRoot (nodeHash prims)
      (clients (4 * i + 2 * j + k)).root (List.replicate depth ⟨0, false⟩)
    commitmentInfo := accumulation 0 (fun n => (clients n).commitments) (4 * i + 2 * j)
    nullifierInfo := accumulation 0 (fun n => (clients n).nullifiers) (4 * i + 2 * j) }

def accumulatingRollup : Rollup accumulator accumulator :=
  let wires := fun i => (accumulatingBase prims clients i).wires sha
  let first := fun i => (wires (2 * i), wires (2 * i + 1))
  let second := fun i => (grumpkinMerge (first (2 * i)), grumpkinMerge (first (2 * i + 1)))
  let third := fun i => (bn254Merge sha (second (2 * i)), bn254Merge sha (second (2 * i + 1)))
  { bases := accumulatingBase prims clients
    first := first
    second := second
    third := third
    decider := (grumpkinMerge (third 0), grumpkinMerge (third 1))
    historicRootProof := List.replicate depth ⟨0, false⟩
    oldHistoricRoot := Merkle.computeRoot (nodeHash prims) 0 (List.replicate depth ⟨0, false⟩) }

theorem accumulatingRollup_wired : (accumulatingRollup prims sha clients).Wired sha :=
  ⟨fun _ _ => rfl, fun _ => rfl, fun _ => rfl, fun _ => rfl, rfl⟩

theorem accumulatingRollup_gates : (accumulatingRollup prims sha clients).Gates (nodeHash prims) := by
  have chained : ∀ i, RootsMeet ((accumulatingBase prims clients i).wires sha,
      (accumulatingBase prims clients (i + 1)).wires sha) :=
    fun i => ⟨accumulation_newRoot _ _ _, accumulation_newRoot _ _ _⟩
  constructor
  · intro i _
    refine ⟨fun j => PublicInputs.words_separators _, ?_, (accumulation_newRoot _ _ _).symm,
      (accumulation_newRoot _ _ _).symm⟩
    exact fun j => ⟨fun _ => rfl, accumulation_verified _ _ _, accumulation_verified _ _ _⟩
  · exact fun i _ => chained (2 * i)
  · exact fun i _ => chained (2 * (2 * i) + 1)
  · exact fun i _ => chained (2 * (2 * (2 * i) + 1) + 1)
  · exact chained 7
  · rfl

theorem accumulatingRollup_clientWords (n : ℕ) :
    (accumulatingRollup prims sha clients).clientWords n = (clients n).words := by
  have position : 4 * (n / 4) + (Fin.ofNat 4 n).val = n := Nat.div_add_mod n 4
  simp only [Rollup.clientWords, accumulatingRollup, accumulatingBase, position]

theorem accumulatingRollup_fee (free : ∀ n, (clients n).fee = 0) :
    mergedFee (accumulatingRollup prims sha clients).decider = 0 := by
  have base : ∀ i, ((accumulatingBase prims clients i).wires sha).feeSum = 0 := by
    intro i
    have fields : ∀ n, (contractFields (clients n).words).fee = 0 := free
    simp [Base.wires, accumulatingBase, fields]
  simp [accumulatingRollup, mergedFee, grumpkinMerge, bn254Merge, base]

theorem accumulatingRollup_outputs (free : ∀ n, (clients n).fee = 0) :
    (accumulatingRollup prims sha clients).outputs sha (nodeHash prims) =
      let endRoot := accumulated 0 (fun n => (clients n).commitments) 64
      [0, mergedSha sha (accumulatingRollup prims sha clients).decider,
        0, endRoot, 0, accumulated 0 (fun n => (clients n).nullifiers) 64,
        Merkle.computeRoot (nodeHash prims) 0 (List.replicate depth ⟨0, false⟩),
        Merkle.computeRoot (nodeHash prims) endRoot (List.replicate depth ⟨0, false⟩)] := by
  have commitmentEnd : (accumulatingRollup prims sha clients).decider.2.endRootComm =
      accumulated 0 (fun n => (clients n).commitments) 64 := accumulation_newRoot _ _ 62
  have nullifierEnd : (accumulatingRollup prims sha clients).decider.2.endRootNull =
      accumulated 0 (fun n => (clients n).nullifiers) 64 := accumulation_newRoot _ _ 62
  simp only [Rollup.outputs, accumulatingRollup_fee prims sha clients free, commitmentEnd, nullifierEnd]
  rfl

end

def plonkEnvironment : Environment where
  chain := Contract.sampleHashes
  self := 5
  router := {
    verifiers := fun id => if id = 1 then some (.plonk fun _ _ => .ok true) else none
    disabled := fun _ => false }

def plonkProof : Contract.ByteString := 1 :: List.replicate 288 0

theorem plonkProof_fee : Contract.proofWord plonkProof 1 = .ok 0 := by decide +kernel

theorem plonkProof_verified (state : State) (blk : Block) (proof : blk.rollupProof = plonkProof)
    (publicHash : Contract.Word) :
    Contract.verifyRollupProof plonkEnvironment state blk publicHash = .ok (true, 0) := by
  have accumulators : ((List.range 8).mapM fun i => Contract.proofWord plonkProof (33 + 32 * i)) =
      .ok (List.replicate 8 0) := by decide +kernel
  rw [Contract.verifyRollupProof, proof]
  simp only [plonkProof, if_true]
  rw [← plonkProof, plonkProof_fee, accumulators]
  rfl

def sampleLeg : Plan :=
  { sampleTransfer domainSharedSalt with
    recipient := Noir.doublings 1
    swap := ⟨1, 5, 7, 2⟩ }

/-- A swap of 5 units of the token 9 against 2 units of the token 7, seen from one side:
the author's key, the note it spends, the recipient and the other side's terms. -/
def swapPlan (rootKey : Fr254) (note : Note) (recipient : Point) (tokenB valueB : Fr254) : Plan :=
  { sampleTransfer domainSharedSalt with
    rootKey := rootKey
    input := soleInput note
    recipient := recipient
    swap := ⟨1, 5, tokenB, valueB⟩ }

theorem swapPlan_satisfied {rootKey : Fr254} {note : Note} {recipient : Point} {tokenB valueB : Fr254}
    (keySubgroup : SubgroupGate toyPrims (derivedPublicKey toyPrims rootKey))
    (owner : note.owner = neutral) (salt : note.salt = 1) (range : note.value.val < 2 ^ 96)
    (parties : derivedPublicKey toyPrims rootKey ≠ neutral ∧ derivedPublicKey toyPrims rootKey ≠ recipient)
    (usable : recipient ≠ neutral) (recipientSubgroup : SubgroupGate toyPrims recipient) :
    Satisfied toyPrims ((swapPlan rootKey note recipient tokenB valueB).assignment toyPrims) := by
  apply Plan.satisfied
  apply Plan.transfer_valid toyPrims_neutralDouble
  · exact keySubgroup
  · exact neutral_spendable _ owner salt rfl
  · simpa [swapPlan, soleInput, sampleTransfer] using range
  · rfl
  · rfl
  · exact usable
  · exact recipientSubgroup
  · simp only [swapPlan]
    decide
  · simp only [swapPlan]
    decide
  · exact fun zero => absurd zero one_ne_zero
  · exact fun _ => parties

theorem sampleLeg_satisfied : Satisfied toyPrims (sampleLeg.assignment toyPrims) := by
  apply swapPlan_satisfied sampleRootKey_subgroup rfl rfl (by decide)
  · rw [sampleRootKey_derived]
    decide
  · decide
  · exact toyPrims_doubling 1

def defaultDeposit : Assignment :=
  (Plan.withdrawal sampleRootKey Input.none 0 Input.none).assignment toyPrims

theorem defaultDeposit_satisfied : Satisfied toyPrims defaultDeposit := by
  apply Plan.satisfied
  exact Plan.withdrawal_valid_free toyPrims_neutralDouble sampleRootKey_subgroup
    (Input.none_spendable _ _) (by decide)

theorem defaultDeposit_posted :
    onChainTransaction (publicInputs toyPrims defaultDeposit) = some Contract.dummyTransaction := by
  decide +kernel

/-- A leg that a block of free transactions can carry. -/
structure LegPublished (a : Assignment) : Prop where
  satisfied : Satisfied toyPrims a
  fee : (publicInputs toyPrims a).fee = 0
  commitment : (publicInputs toyPrims a).commitments 0 ≠ 0
  nullifier : (publicInputs toyPrims a).nullifiers 0 ≠ 0
  secretsBit : ((publicInputs toyPrims a).compressedSecrets 4).val < 2

theorem sampleLeg_published : LegPublished (sampleLeg.assignment toyPrims) := by
  have spends : isDeposit (sampleLeg.assignment toyPrims) = false := by decide
  constructor
  · exact sampleLeg_satisfied
  · rfl
  · have secret : sharedSecret toyPrims (sampleLeg.assignment toyPrims) = Noir.doublings 1 := by
      rw [sharedSecret, Plan.recipientPublicKey_eq]
      exact toyPrims_scalarMul_one _
    rw [transfer_commitment rfl (by decide), sharedSalt, secret, Plan.recipientPublicKey_eq,
      Plan.nfTokenId_eq, Plan.transferValue_eq]
    decide
  · simp only [publicInputs, spends, conditionalSelect_false]
    rw [nullifierOut_salted]
    rw [Plan.slotNullifier_input]
    · decide
    · decide
  · exact flag_val_lt _

theorem sampleLeg_swapLink : (publicInputs toyPrims (sampleLeg.assignment toyPrims)).swapLink ≠ 0 := by
  simp only [publicInputs, computedSwapLink, Plan.assignment, sampleLeg, sampleTransfer, sampleRootKey_derived]
  decide

theorem fieldWord_eq_zero {x : Fr254} (zero : fieldWord x = 0) : x = 0 := by
  have room : fr254Modulus < 2 ^ 256 := by decide
  have bound := ZMod.val_lt x
  have value := congrArg BitVec.toNat zero
  rw [fieldWord, BitVec.toNat_ofNat, Nat.mod_eq_of_lt (by omega)] at value
  exact (ZMod.val_eq_zero x).mp value

theorem handleTransaction_transfer (env : Environment) (ledger : Contract.Ledger) {pub : PublicInputs}
    {transaction : OnChainTransaction} (posted : onChainTransaction pub = some transaction)
    (nullifier : pub.nullifiers 0 ≠ 0) (commitment : pub.commitments 0 ≠ 0) :
    Contract.handleTransaction env ledger transaction = .ok ledger := by
  simp only [onChainTransaction, Option.bind_eq_bind, Option.bind_eq_some_iff, Option.pure_def,
    Option.some.injEq] at posted
  obtain ⟨publicData, _, rfl⟩ := posted
  have spends : fieldWord (pub.nullifiers 0) ≠ 0 := fun zero => nullifier (fieldWord_eq_zero zero)
  have pays : fieldWord (pub.commitments 0) ≠ 0 := fun zero => commitment (fieldWord_eq_zero zero)
  exact (if_neg spends).trans (if_neg pays)

section

variable (legs : List Assignment)

/-- The clients of a block that starts with the given legs and is filled with default deposits. -/
def clientAt (n : ℕ) : Assignment := legs.getD n defaultDeposit

def inputsAt (n : ℕ) : PublicInputs := publicInputs toyPrims (clientAt legs n)

def transactionAt (n : ℕ) : OnChainTransaction :=
  (onChainTransaction (inputsAt legs n)).getD Contract.dummyTransaction

theorem clientAt_cases (n : ℕ) : clientAt legs n ∈ legs ∨ clientAt legs n = defaultDeposit := by
  rw [clientAt, getD_eq_getElem?_getD]
  cases found : legs[n]? with
  | none => exact Or.inr rfl
  | some a => exact Or.inl (mem_of_getElem? found)

def clientsOf : List Assignment := (range 64).map (clientAt legs)

def rollupOf : Rollup accumulator accumulator :=
  accumulatingRollup toyPrims (contractSha plonkEnvironment) (inputsAt legs)

def stateAtTen : State :=
  plonkEnvironment.initializeState 0 0
    (fieldWord (Merkle.computeRoot (nodeHash toyPrims) 0 (replicate depth ⟨0, false⟩))) 10

def blockOf : Block where
  commitmentsRoot := fieldWord (accumulated 0 (fun n => (inputsAt legs n).commitments) 64)
  nullifierRoot := fieldWord (accumulated 0 (fun n => (inputsAt legs n).nullifiers) 64)
  commitmentsRootRoot := fieldWord (Merkle.computeRoot (nodeHash toyPrims)
    (accumulated 0 (fun n => (inputsAt legs n).commitments) 64) (replicate depth ⟨0, false⟩))
  transactions := (range 64).map (transactionAt legs)
  rollupProof := plonkProof
  blockNumber := 10

def nextOf : State :=
  Contract.afterBlock stateAtTen (blockOf legs) ⟨stateAtTen.feeBinding, stateAtTen.withdrawalIncluded, 0⟩

theorem clientsOf_wired (n : ℕ) (a : Assignment) (listed : (clientsOf legs)[n]? = some a) :
    (rollupOf legs).clientWords n = publicWords toyPrims a := by
  obtain ⟨bound, same⟩ := List.getElem?_eq_some_iff.mp listed
  simp only [clientsOf, getElem_map, getElem_range] at same
  rw [rollupOf, accumulatingRollup_clientWords, inputsAt, same, publicWords]

variable {legs} (published : ∀ a ∈ legs, LegPublished a)
include published

theorem clientAt_satisfied (n : ℕ) : Satisfied toyPrims (clientAt legs n) := by
  rcases clientAt_cases legs n with leg | deposit
  · exact (published _ leg).satisfied
  · rw [deposit]
    exact defaultDeposit_satisfied

theorem transactionAt_posted (n : ℕ) : onChainTransaction (inputsAt legs n) = some (transactionAt legs n) := by
  have posted : ∃ transaction, onChainTransaction (inputsAt legs n) = some transaction := by
    rw [inputsAt]
    rcases clientAt_cases legs n with leg | deposit
    · obtain ⟨words, packed, _⟩ := wordsToSecrets_secretsToWords (published _ leg).secretsBit
      simp only [onChainTransaction, packed]
      exact ⟨_, rfl⟩
    · rw [deposit]
      exact ⟨_, defaultDeposit_posted⟩
  obtain ⟨transaction, found⟩ := posted
  rw [transactionAt, found, Option.getD_some]

theorem inputsAt_free (n : ℕ) : (inputsAt legs n).fee = 0 := by
  rw [inputsAt]
  rcases clientAt_cases legs n with leg | deposit
  · exact (published _ leg).fee
  · rw [deposit]
    decide

theorem transactionAt_handled (ledger : Contract.Ledger) (n : ℕ) :
    Contract.handleTransaction plonkEnvironment ledger (transactionAt legs n) = .ok ledger := by
  have posted := transactionAt_posted published n
  rw [inputsAt] at posted
  rcases clientAt_cases legs n with leg | deposit
  · exact handleTransaction_transfer _ _ posted (published _ leg).nullifier (published _ leg).commitment
  · rw [deposit, defaultDeposit_posted, Option.some.injEq] at posted
    rw [← posted]
    rfl

theorem blockOf_proposed :
    Contract.proposeBlock plonkEnvironment Contract.sampleCall stateAtTen (blockOf legs) = .ok (nextOf legs) := by
  rw [Contract.proposeBlock_eq_ok]
  refine ⟨⟨rfl, rfl, rfl, rfl, Or.inl ?_, rfl, ?_⟩, 0, _, plonkProof_verified _ _ rfl _, ?_, ?_, rfl⟩
  · simp [blockOf]
  · simp only [stateAtTen, Environment.initializeState]
    decide
  · apply Revert.foldlM_fixed
    intro transaction member
    obtain ⟨n, _, rfl⟩ := mem_map.mp member
    exact transactionAt_handled published _ n
  · simp

theorem blockOf_hash : fieldWord (mergedSha (contractSha plonkEnvironment) (rollupOf legs).decider) =
    Contract.blockHash plonkEnvironment (blockOf legs) := by
  apply (accumulatingRollup_wired _ _ _).sha_eq_blockHash (contractSha_computes _)
  · simp [blockOf]
  · intro n transaction listed
    have same : transactionAt legs n = transaction := by
      obtain ⟨bound, same⟩ := List.getElem?_eq_some_iff.mp listed
      simpa [blockOf] using same
    rw [accumulatingRollup_clientWords, ← same]
    exact fieldWord_transactionSha (contractSha_computes _) (transactionAt_posted published n)

theorem clientsOf_posted : (clientsOf legs).map (fun a => onChainTransaction (publicInputs toyPrims a)) =
    (blockOf legs).transactions.map some := by
  rw [clientsOf, blockOf, map_map, map_map]
  apply map_congr_left
  intro n _
  rw [Function.comp_apply, Function.comp_apply, ← transactionAt_posted published, inputsAt]

theorem rollupOf_outputs :
    ((rollupOf legs).outputs (contractSha plonkEnvironment) (nodeHash toyPrims)).map fieldWord =
      Contract.plonkPublicInputs stateAtTen (blockOf legs)
        (Contract.blockHash plonkEnvironment (blockOf legs)) 0 [] := by
  have zero : fieldWord 0 = 0 := by decide
  rw [← blockOf_hash published]
  simp only [rollupOf, accumulatingRollup_outputs _ _ _ (inputsAt_free published), map_cons,
    map_nil, zero, Contract.plonkPublicInputs, flatMap_nil, append_nil, blockOf,
    stateAtTen, Environment.initializeState]

theorem blockOf_accepted : Accepted toyPrims plonkEnvironment (contractSha plonkEnvironment) accumulator accumulator
      Contract.sampleCall stateAtTen (nextOf legs) (blockOf legs) (clientsOf legs) := by
  constructor
  · exact blockOf_proposed published
  · rfl
  · simp [clientsOf]
  · intro a member
    obtain ⟨n, _, rfl⟩ := mem_map.mp member
    exact clientAt_satisfied published n
  · exact clientsOf_posted published
  · exact ⟨rollupOf legs, accumulatingRollup_wired _ _ _, accumulatingRollup_gates _ _ _, clientsOf_wired legs,
      0, plonkProof_fee, rollupOf_outputs published⟩

end

def loneLeg : List Assignment := [sampleLeg.assignment toyPrims]

theorem loneLeg_published : ∀ a ∈ loneLeg, LegPublished a := by
  intro a member
  rw [mem_singleton.mp member]
  exact sampleLeg_published

section

theorem levelRoot_add (height : ℕ) (values : ℕ → ℕ) :
    Merkle.levelRoot (· + ·) height values = ∑ i ∈ Finset.range (2 ^ height), values i := by
  induction height generalizing values with
  | zero => simp [Merkle.levelRoot]
  | succ height ih =>
    have paired : ∀ n, ∑ i ∈ Finset.range (2 * n), values i =
        ∑ i ∈ Finset.range n, (values (2 * i) + values (2 * i + 1)) := by
      intro n
      induction n with
      | zero => rfl
      | succ n step => rw [Finset.sum_range_succ, ← step, Nat.mul_succ, Finset.sum_range_succ, Finset.sum_range_succ,
          add_assoc]
    rw [Merkle.levelRoot, ih, Nat.pow_succ', paired]

theorem feeSum_eq_ok (fees : ℕ → ℕ) (transactions : List OnChainTransaction)
    (listed : ∀ n transaction, transactions[n]? = some transaction → transaction.fee = BitVec.ofNat 256 (fees n))
    (fits : ∑ i ∈ Finset.range transactions.length, fees i < 2 ^ 256) :
    Contract.feeSum transactions = .ok (BitVec.ofNat 256 (∑ i ∈ Finset.range transactions.length, fees i)) := by
  induction transactions using reverseRecOn with
  | nil => rfl
  | append_singleton earlier last ih =>
    rw [length_append, length_singleton, Finset.sum_range_succ] at fits ⊢
    have isFee := listed earlier.length last (by simp)
    have before := ih (fun n transaction found =>
      listed n transaction (by rw [getElem?_append_left (List.getElem?_eq_some_iff.mp found).1, found])) (by omega)
    rw [Contract.feeSum] at before ⊢
    rw [foldlM_append, before]
    simp only [foldlM_cons, foldlM_nil, isFee, Contract.checkedAdd, bind, Except.bind]
    rw [Revert.require_pos (by simp only [BitVec.toNat_ofNat]; omega)]
    simp [pure, Except.pure, BitVec.ofNat_add]

/-- A fee wire that holds the sum of `2 ^ height` fees. -/
structure Carries {modulus : ℕ} (height : ℕ) (wire : ZMod modulus) (fees : ℕ) : Prop where
  same : wire.val = fees
  small : fees < 2 ^ (96 + height)

theorem Carries.merge {m n height left right : ℕ} [NeZero n] {one two : ZMod m} (first : Carries height one left)
    (second : Carries height two right) (room : 2 ^ (97 + height) ≤ n) :
    Carries (height + 1) ((one.val : ℕ) + (two.val : ℕ) : ZMod n) (left + right) := by
  obtain ⟨rfl, leftSmall⟩ := first
  obtain ⟨rfl, rightSmall⟩ := second
  have double : 2 ^ (97 + height) = 2 * 2 ^ (96 + height) := by rw [← Nat.pow_succ']; congr 1; omega
  refine ⟨?_, ?_⟩
  · rw [← Nat.cast_add, ZMod.val_natCast_of_lt (by omega)]
  · rw [show 96 + (height + 1) = 97 + height by omega]
    omega

variable {sha : ShaGadget} {commitments nullifiers : InsertionGadget} {rollup : Rollup commitments nullifiers}
  (wired : rollup.Wired sha)

section

variable (small : ∀ n < 64, (contractFields (rollup.clientWords n)).fee.val < 2 ^ 96)
include wired small

theorem Rollup.Wired.base_carries {i : ℕ} (below : i < 16) :
    let fee := fun n => (contractFields (rollup.clientWords n)).fee.val
    Carries 2 ((rollup.bases i).wires sha).feeSum
      (fee (4 * i) + fee (4 * i + 1) + (fee (4 * i + 2) + fee (4 * i + 3))) := by
  intro fee
  have room : 2 ^ 98 < fr254Modulus := by decide
  have isFee : ∀ j : Fin 4, ((rollup.bases i).fields j).fee = ((fee (4 * i + j) : ℕ) : Fr254) := by
    intro j
    have index : (4 * i + j) / 4 = i := by omega
    have place : Fin.ofNat 4 (4 * i + j) = j := Fin.ext (by simp [Nat.mod_eq_of_lt j.isLt])
    rw [ZMod.natCast_zmod_val, Rollup.clientWords, index, place, wired.base]
  have bound := fun j : Fin 4 => small (4 * i + j) (by omega)
  have zeroth : fee (4 * i) < 2 ^ 96 := bound 0
  have first : fee (4 * i + 1) < 2 ^ 96 := bound 1
  have second : fee (4 * i + 2) < 2 ^ 96 := bound 2
  have third : fee (4 * i + 3) < 2 ^ 96 := bound 3
  have total : fee (4 * i) + fee (4 * i + 1) + (fee (4 * i + 2) + fee (4 * i + 3)) < fr254Modulus := by omega
  refine ⟨?_, by omega⟩
  rw [← ZMod.val_natCast_of_lt total]
  simp [Base.wires, isFee, add_assoc]

theorem Rollup.Wired.decider_fee : Carries 6 (mergedFee rollup.decider)
      (Merkle.levelRoot (· + ·) 6 fun n => (contractFields (rollup.clientWords n)).fee.val) := by
  have base := fun i below => wired.base_carries small (i := i) below
  have first : ∀ i < 8, Carries 3 (grumpkinMerge ((rollup.bases (2 * i)).wires sha,
      (rollup.bases (2 * i + 1)).wires sha)).feeSum _ := fun i below =>
    (base (2 * i) (by omega)).merge (base (2 * i + 1) (by omega)) (by decide)
  simp only [← wired.first] at first
  have second : ∀ i < 4, Carries 4 (bn254Merge sha (grumpkinMerge (rollup.first (2 * i)),
      grumpkinMerge (rollup.first (2 * i + 1)))).feeSum _ := fun i below =>
    (first (2 * i) (by omega)).merge (first (2 * i + 1) (by omega)) (by decide)
  simp only [← wired.second] at second
  have third : ∀ i < 2, Carries 5 (grumpkinMerge (bn254Merge sha (rollup.second (2 * i)),
      bn254Merge sha (rollup.second (2 * i + 1)))).feeSum _ := fun i below =>
    (second (2 * i) (by omega)).merge (second (2 * i + 1) (by omega)) (by decide)
  simp only [← wired.third] at third
  rw [wired.decider]
  exact (third 0 (by omega)).merge (third 1 (by omega)) (by decide)

end

theorem published_fee {prims : Primitives} {a : Assignment} (satisfied : Satisfied prims a) :
    (publicInputs prims a).fee.val < 2 ^ 96 := by
  simp only [publicInputs, conditionalSelect]
  split
  · decide
  · exact satisfied.feeRange

/-- The halving loop of `propose_block` computes the balanced tree, and its root and fee sum are
those that the rollup's circuits compute for the same transactions. -/
theorem rollup_agrees_with_block {env : Environment} {prims : Primitives} {blk : Block} {clients : List Assignment}
    (computes : sha.Computes env) (wired : rollup.Wired sha)
    (size : clients.length = 64) (satisfied : ∀ a ∈ clients, Satisfied prims a)
    (posted : clients.map (fun a => onChainTransaction (publicInputs prims a)) = blk.transactions.map some)
    (clientWords : ∀ n a, clients[n]? = some a → rollup.clientWords n = publicWords prims a) :
    (∀ height hashes, hashes.length = 2 ^ height → (Contract.hashTree env (2 ^ height) hashes).getD 0 0 =
      Merkle.levelRoot (Contract.pairHash env) height fun i => hashes.getD i 0) ∧
    fieldWord (mergedSha sha rollup.decider) = Contract.blockHash env blk ∧
    Contract.feeSum blk.transactions = .ok (fieldWord (mergedFee rollup.decider)) := by
  have length : blk.transactions.length = 64 := by simpa [size] using (congrArg List.length posted).symm
  have client : ∀ n transaction, blk.transactions[n]? = some transaction → ∃ a ∈ clients,
      onChainTransaction (publicInputs prims a) = some transaction ∧ rollup.clientWords n = publicWords prims a := by
    intro n transaction found
    have listed := congrArg (·[n]?) posted
    simp only [getElem?_map, found, Option.map_some, Option.map_eq_some_iff] at listed
    obtain ⟨a, isClient, isPosted⟩ := listed
    exact ⟨a, mem_of_getElem? isClient, isPosted, clientWords n a isClient⟩
  have small : ∀ n < 64, (contractFields (rollup.clientWords n)).fee.val < 2 ^ 96 := by
    intro n below
    obtain ⟨a, member, -, words⟩ := client n _ (List.getElem?_eq_getElem (length ▸ below))
    rw [words]
    exact published_fee (satisfied a member)
  obtain ⟨same, fits⟩ := wired.decider_fee small
  rw [levelRoot_add] at same fits
  refine ⟨fun height hashes full => Contract.hashTree_root env height hashes full.ge,
    wired.sha_eq_blockHash computes blk length ?_, ?_⟩
  · intro n transaction found
    obtain ⟨a, -, isPosted, words⟩ := client n transaction found
    rw [words]
    exact fieldWord_transactionSha computes isPosted
  · rw [feeSum_eq_ok (fun n => (contractFields (rollup.clientWords n)).fee.val), length, fieldWord, same]
    · rfl
    · intro n transaction found
      obtain ⟨a, -, isPosted, words⟩ := client n transaction found
      obtain ⟨_, -, isTransaction⟩ := Option.bind_eq_some_iff.mp isPosted
      cases isTransaction
      rw [words]
      rfl
    · rw [length]
      exact fits.trans (by decide)

theorem rollup_agrees_with_block_sample :
    fieldWord (mergedSha (contractSha plonkEnvironment) (rollupOf loneLeg).decider) =
        Contract.blockHash plonkEnvironment (blockOf loneLeg) ∧
    Contract.feeSum (blockOf loneLeg).transactions = .ok (fieldWord (mergedFee (rollupOf loneLeg).decider)) :=
  (rollup_agrees_with_block (contractSha_computes plonkEnvironment) (accumulatingRollup_wired _ _ _)
    (blockOf_accepted loneLeg_published).size (blockOf_accepted loneLeg_published).satisfied
    (clientsOf_posted loneLeg_published) (clientsOf_wired loneLeg)).2

end

end Nightfall.Plonk
