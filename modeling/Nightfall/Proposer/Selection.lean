import Nightfall.Plonk.Circuit

/-! `prepare_block_data`: what the proposer puts into its next block. -/

namespace Nightfall.Proposer

structure ClientTransaction (Proof : Type) where
  fee : Fr254
  commitments : Fin 4 → Fr254
  swapLink : Fr254
  deadline : Fr254
  swapSide : Fr254
  proof : Proof

structure DepositDataWithFee where
  fee : Fr254
  depositData : Plonk.DepositData

def DepositDataWithFee.default : DepositDataWithFee := ⟨0, ⟨0, 0, 0, 0⟩⟩

section

variable {Proof : Type}

abbrev SwapPair (Proof : Type) := ClientTransaction Proof × ClientTransaction Proof

abbrev Groups (Proof : Type) := List (Fr254 × List (ClientTransaction Proof))

def pushGroup (key : Fr254) (tx : ClientTransaction Proof) : Groups Proof → Groups Proof
  | [] => [(key, [tx])]
  | (other, txs) :: rest =>
    if other = key then (other, txs ++ [tx]) :: rest else (other, txs) :: pushGroup key tx rest

def groupBy (key : ClientTransaction Proof → Fr254) (txs : List (ClientTransaction Proof)) : Groups Proof :=
  txs.foldl (fun groups tx => pushGroup (key tx) tx groups) []

structure GroupedSwapTransactions (Proof : Type) where
  normalTransactions : List (ClientTransaction Proof)
  matchedSwapPairs : List (SwapPair Proof)
  expiredSwaps : List (ClientTransaction Proof)
  unmatchedSwapCount : Nat

def popPairs (partyALegs partyBLegs : List (ClientTransaction Proof)) : List (SwapPair Proof) :=
  partyALegs.reverse.zip partyBLegs.reverse

def matchLegs (currentBlockNumber : Nat) (grouped : GroupedSwapTransactions Proof)
    (sameDeadlineTxs : List (ClientTransaction Proof)) : GroupedSwapTransactions Proof :=
  let deadline := (sameDeadlineTxs.head?.map (·.deadline)).getD 0
  if deadline = 0 ∨ deadline.val < currentBlockNumber then
    { grouped with expiredSwaps := grouped.expiredSwaps ++ sameDeadlineTxs }
  else
    let partyALegs := sameDeadlineTxs.filter (·.swapSide = 1)
    let partyBLegs := sameDeadlineTxs.filter (·.swapSide = 0)
    let pairs := popPairs partyALegs partyBLegs
    { grouped with
      matchedSwapPairs := grouped.matchedSwapPairs ++ pairs
      unmatchedSwapCount :=
        grouped.unmatchedSwapCount + (sameDeadlineTxs.length - 2 * pairs.length) }

structure Iteration (Proof : Type) where
  byLink : Groups Proof → Groups Proof
  byDeadline : Groups Proof → Groups Proof

structure Iteration.Lawful (iteration : Iteration Proof) : Prop where
  byLink : ∀ groups, (iteration.byLink groups).Perm groups
  byDeadline : ∀ groups, (iteration.byDeadline groups).Perm groups

def groupValidSwapPairs (iteration : Iteration Proof) (pendingClientTransactions : List (ClientTransaction Proof))
    (currentBlockNumber : Nat) : GroupedSwapTransactions Proof :=
  let swapTransactions := pendingClientTransactions.filter (·.swapLink ≠ 0)
  let normalTransactions := pendingClientTransactions.filter (·.swapLink = 0)
  let swapGroups := groupBy (·.swapLink) swapTransactions
  (iteration.byLink swapGroups).foldl (fun grouped entry =>
      (iteration.byDeadline (groupBy (·.deadline) entry.2)).foldl
        (fun grouped entry => matchLegs currentBlockNumber grouped entry.2) grouped)
    ⟨normalTransactions, [], [], 0⟩

structure Candidate (Proof : Type) where
  deposits : Option (List DepositDataWithFee)
  clients : Option (List (ClientTransaction Proof))
  fee : Fr254
  slots : Nat

def groupDeposits (deposits : List DepositDataWithFee) : List (List DepositDataWithFee) :=
  match deposits with
  | [] => []
  | [a] => [[a, .default, .default, .default]]
  | [a, b] => [[a, b, .default, .default]]
  | [a, b, c] => [[a, b, c, .default]]
  | a :: b :: c :: d :: rest => [a, b, c, d] :: groupDeposits rest

def candidates (deposits : List DepositDataWithFee) (grouped : GroupedSwapTransactions Proof) :
    List (Candidate Proof) :=
  let sorted := deposits.mergeSort (fun a b => decide (b.fee.val ≤ a.fee.val))
  (groupDeposits sorted).map (fun group =>
      ⟨some group, none, (group.map (·.fee)).sum, 1⟩) ++
    grouped.normalTransactions.map (fun tx => ⟨none, some [tx], tx.fee, 1⟩) ++
    grouped.matchedSwapPairs.map (fun pair =>
      ⟨none, some [pair.1, pair.2], pair.1.fee + pair.2.fee, 2⟩)

def ranksBefore (a b : Candidate Proof) : Bool :=
  decide ((b.fee * (a.slots : Fr254)).val ≤ (a.fee * (b.slots : Fr254)).val)

def selectStep (blockSize : Nat) (state : List (Candidate Proof) × Nat) (tx : Candidate Proof) :
    List (Candidate Proof) × Nat :=
  if state.2 + tx.slots ≤ blockSize then (state.1 ++ [tx], state.2 + tx.slots) else state

def selectTransactions (blockSize : Nat) (ranked : List (Candidate Proof)) : List (Candidate Proof) :=
  (ranked.foldl (selectStep blockSize) ([], 0)).1

def splitPairs (selected : List (Candidate Proof)) : List (SwapPair Proof) × List (ClientTransaction Proof) :=
  selected.foldl (fun state tx =>
      match tx.clients with
      | none => state
      | some [a, b] =>
        if tx.slots = 2 then (state.1 ++ [(a, b)], state.2) else (state.1, state.2 ++ [a, b])
      | some txs => (state.1, state.2 ++ txs))
    ([], [])

/-- Each pair from an even global index on, with a normal transaction as filler. The
remaining pairs are dropped when none is left to fill with. -/
def placePairs (normals : List (ClientTransaction Proof)) (globalIdx : Nat) :
    List (SwapPair Proof) → List (ClientTransaction Proof)
  | [] => normals
  | pair :: rest =>
    if globalIdx % 2 = 0 then pair.1 :: pair.2 :: placePairs normals (globalIdx + 2) rest
    else
      match normals with
      | [] => []
      | normal :: others => normal :: pair.1 :: pair.2 :: placePairs others (globalIdx + 3) rest

def placeSwapPairsOnSiblings (depositCount : Nat) (selected : List (Candidate Proof)) :
    List (ClientTransaction Proof) :=
  placePairs (splitPairs selected).2 depositCount (splitPairs selected).1

inductive BlockAssemblyError where
  | insufficientTransactions
deriving DecidableEq

structure Mempool (Proof : Type) where
  deposits : List DepositDataWithFee
  clientTransactions : List (ClientTransaction Proof)
  commitmentsOnchain : List Fr254

def depositPending (poseidonHash : List Fr254 → Fr254) (mempool : Mempool Proof)
    (deposit : DepositDataWithFee) : Bool :=
  poseidonHash [deposit.depositData.nfTokenId, deposit.depositData.nfSlotId,
    deposit.depositData.value, 0, 1, deposit.depositData.secretHash] ∉ mempool.commitmentsOnchain

def clientPending (mempool : Mempool Proof) (tx : ClientTransaction Proof) : Bool :=
  (List.finRange 4).all fun i =>
    tx.commitments i = 0 || decide (tx.commitments i ∉ mempool.commitmentsOnchain)

def prepareBlockData (poseidonHash : List Fr254 → Fr254) (iteration : Iteration Proof)
    (mempool : Mempool Proof) (blockSize currentBlockNumber : Nat) :
    Except BlockAssemblyError (List (List DepositDataWithFee) × List (ClientTransaction Proof)) :=
  let pendingDeposits := mempool.deposits.filter (depositPending poseidonHash mempool)
  let pendingClientTransactions := mempool.clientTransactions.filter (clientPending mempool)
  if pendingDeposits.isEmpty && pendingClientTransactions.isEmpty then
    .error .insufficientTransactions
  else
    let grouped := groupValidSwapPairs iteration pendingClientTransactions currentBlockNumber
    let ranked := (candidates pendingDeposits grouped).mergeSort ranksBefore
    let selected := selectTransactions blockSize ranked
    let usedDeposits := selected.filterMap (·.deposits)
    let reordered := placeSwapPairsOnSiblings usedDeposits.length selected
    if usedDeposits.isEmpty && reordered.isEmpty then .error .insufficientTransactions
    else .ok (usedDeposits, reordered)

end

end Nightfall.Proposer
