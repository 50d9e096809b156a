import Nightfall.Proposer.Pairing

/-! What `prepare_block_data` takes from the mempool: nothing twice, nothing that is stale, and no more than
fits into a block. -/

namespace Nightfall.Proposer

open List

section

variable {Proof : Type}

def Candidate.transactions (candidate : Candidate Proof) : List (ClientTransaction Proof) :=
  candidate.clients.getD []

/-- What a selection of any size can return: the transactions without a link and the matched pairs. -/
def GroupedSwapTransactions.selectable (grouped : GroupedSwapTransactions Proof) : List (ClientTransaction Proof) :=
  grouped.normalTransactions ++ pairLegs grouped.matchedSwapPairs

def Mempool.selectable (iteration : Iteration Proof) (mempool : Mempool Proof) (now : Nat) :
    List (ClientTransaction Proof) :=
  (groupValidSwapPairs iteration (mempool.clientTransactions.filter (clientPending mempool)) now).selectable

theorem candidates_transactions (deposits : List DepositDataWithFee) (grouped : GroupedSwapTransactions Proof) :
    (candidates deposits grouped).flatMap Candidate.transactions = grouped.selectable := by
  simp [candidates, Candidate.transactions, GroupedSwapTransactions.selectable, pairLegs, flatMap_append, flatMap_map]

theorem splitPairs_perm (selected : List (Candidate Proof)) :
    (pairLegs (splitPairs selected).1 ++ (splitPairs selected).2).Perm (selected.flatMap Candidate.transactions) := by
  induction selected using reverseRecOn with
  | nil => exact .refl _
  | append_singleton earlier candidate ih =>
    rw [flatMap_append, flatMap_singleton]
    refine .trans ?_ (ih.append_right _)
    simp only [splitPairs, foldl_append, foldl_cons, foldl_nil, Candidate.transactions]
    split
    · rename_i clients
      simp [clients]
    · rename_i a b clients
      split
      · simpa [clients, pairLegs] using (@perm_append_comm _ [a, b] _).append_left _
      · simp [clients]
    · rename_i clients
      simp [clients]

theorem placePairs_subperm (pairs : List (SwapPair Proof)) (normals : List (ClientTransaction Proof)) (index : Nat) :
    (placePairs normals index pairs).Subperm (pairLegs pairs ++ normals) := by
  induction pairs generalizing normals index with
  | nil => exact .refl _
  | cons pair rest ih =>
    rw [placePairs.eq_def]
    dsimp only
    split
    · exact (subperm_cons _).mpr ((subperm_cons _).mpr (ih normals (index + 2)))
    · cases normals with
      | nil => exact nil_subperm
      | cons normal others =>
        have later := (subperm_cons pair.1).mpr ((subperm_cons pair.2).mpr (ih others (index + 3)))
        refine ((subperm_cons normal).mpr later).trans (Perm.subperm ?_)
        change (normal :: (pairLegs (pair :: rest) ++ others)).Perm _
        exact perm_middle.symm

theorem placePairs_even (pairs : List (SwapPair Proof)) (normals : List (ClientTransaction Proof)) {index : Nat}
    (even : index % 2 = 0) : placePairs normals index pairs = pairLegs pairs ++ normals := by
  induction pairs generalizing index with
  | nil => rfl
  | cons pair rest ih =>
    have later := @ih (index + 2) (by omega)
    simp [placePairs, even, later, pairLegs]

end

section

variable {Proof : Type} {poseidonHash : List Fr254 → Fr254} {iteration : Iteration Proof} {mempool : Mempool Proof}
  {blockSize now : Nat} {deposits : List (List DepositDataWithFee)}
  {txs : List (ClientTransaction Proof)}

theorem candidates_slots {pending : List DepositDataWithFee} {grouped : GroupedSwapTransactions Proof} :
    ∀ candidate ∈ candidates pending grouped,
      (if candidate.deposits.isSome then 1 else 0) + candidate.transactions.length = candidate.slots := by
  intro candidate member
  simp only [candidates, mem_append, mem_map] at member
  obtain (⟨_, _, rfl⟩ | ⟨_, _, rfl⟩) | ⟨_, _, rfl⟩ := member <;> simp [Candidate.transactions]

theorem groupDeposits_groups (pending : List DepositDataWithFee) :
    (∀ group ∈ groupDeposits pending, group.length = 4) ∧
      ∃ padding, (groupDeposits pending).flatten = pending ++ replicate padding .default := by
  induction pending using groupDeposits.induct with
  | case1 => exact ⟨by simp [groupDeposits], 0, rfl⟩
  | case2 => exact ⟨by simp [groupDeposits], 3, rfl⟩
  | case3 => exact ⟨by simp [groupDeposits], 2, rfl⟩
  | case4 => exact ⟨by simp [groupDeposits], 1, rfl⟩
  | case5 a b c d rest ih =>
    obtain ⟨four, padding, flat⟩ := ih
    exact ⟨by simpa [groupDeposits] using four, padding, by simp [groupDeposits, flat]⟩

theorem placeSwapPairsOnSiblings_subperm (depositCount : Nat) (selected : List (Candidate Proof)) :
    (placeSwapPairsOnSiblings depositCount selected).Subperm (selected.flatMap Candidate.transactions) :=
  (placePairs_subperm _ _ _).trans (splitPairs_perm selected).subperm

theorem slots_used {selected : List (Candidate Proof)} (slots : ∀ candidate ∈ selected,
      (if candidate.deposits.isSome then 1 else 0) + candidate.transactions.length = candidate.slots) :
    (selected.filterMap (·.deposits)).length + (selected.flatMap Candidate.transactions).length =
      (selected.map Candidate.slots).sum := by
  induction selected with
  | nil => rfl
  | cons candidate rest ih =>
    obtain ⟨first, others⟩ := forall_mem_cons.mp slots
    have later := ih others
    cases found : candidate.deposits <;> simp [found] at first later ⊢ <;> omega

theorem prepareBlockData_drawn
    (prepared : prepareBlockData poseidonHash iteration mempool blockSize now = .ok (deposits, txs)) :
    txs.Subperm (mempool.selectable iteration now) := by
  obtain ⟨selected, ranked, inside, -, ranks, rfl, rfl⟩ := prepareBlockData_ok prepared
  rw [Mempool.selectable, ← candidates_transactions (mempool.deposits.filter (depositPending poseidonHash mempool))]
  exact (placeSwapPairsOnSiblings_subperm _ selected).trans
    ((inside.flatMap _).subperm.trans (ranks.flatMap_right _).subperm)

theorem selectable_subperm (lawful : iteration.Lawful) : (mempool.selectable iteration now).Subperm
    (mempool.clientTransactions.filter (clientPending mempool)) := by
  obtain ⟨unmatched, partitioned⟩ := @groupValidSwapPairs_partitioned _ now _ lawful
    (mempool.clientTransactions.filter (clientPending mempool))
  refine .trans ?_ partitioned.perm.symm.subperm
  rw [Mempool.selectable, GroupedSwapTransactions.selectable, ← append_assoc]
  exact (sublist_append_left _ _).subperm

theorem foldl_selectStep_all (ranked : List (Candidate Proof)) (state : List (Candidate Proof) × Nat)
    (fits : state.2 + (ranked.map Candidate.slots).sum ≤ blockSize) :
    (ranked.foldl (selectStep blockSize) state).1 = state.1 ++ ranked := by
  induction ranked generalizing state with
  | nil => simp
  | cons candidate rest ih =>
    rw [map_cons, sum_cons] at fits
    rw [foldl_cons, selectStep, if_pos (by omega), ih _ (by dsimp only; omega), append_assoc, singleton_append]

/-- Without deposits a block that is large enough takes all that a selection can return. -/
theorem prepareBlockData_all (lawful : iteration.Lawful) (undeposited : mempool.deposits = [])
    (some : mempool.selectable iteration now ≠ []) :
    ∃ blockSize txs, prepareBlockData poseidonHash iteration mempool blockSize now = .ok ([], txs) ∧
      txs.Perm (mempool.selectable iteration now) := by
  generalize isGrouped : groupValidSwapPairs iteration (mempool.clientTransactions.filter (clientPending mempool))
    now = grouped
  let ranked := (candidates [] grouped).mergeSort ranksBefore
  have ranks : ranked.Perm (candidates [] grouped) := mergeSort_perm _ _
  have all : selectTransactions (ranked.map Candidate.slots).sum ranked = ranked :=
    foldl_selectStep_all ranked ([], 0) (by omega)
  have noDeposits : ranked.filterMap (·.deposits) = [] := by
    have dropped := ranks.filterMap (·.deposits)
    simpa [candidates, groupDeposits, filterMap_append, filterMap_map, Function.comp_def] using dropped
  have placed : (placeSwapPairsOnSiblings 0 ranked).Perm (mempool.selectable iteration now) := by
    rw [placeSwapPairsOnSiblings, placePairs_even _ _ rfl, Mempool.selectable, isGrouped,
      ← candidates_transactions []]
    exact (splitPairs_perm ranked).trans (ranks.flatMap_right _)
  have pending : mempool.clientTransactions.filter (clientPending mempool) ≠ [] := by
    intro none
    have drawn : (mempool.selectable iteration now).Subperm _ := selectable_subperm lawful
    rw [none] at drawn
    exact some (subperm_nil.mp drawn)
  have returned : placeSwapPairsOnSiblings 0 ranked ≠ [] := fun none => some (by simpa [none] using placed.symm)
  refine ⟨(ranked.map Candidate.slots).sum, placeSwapPairsOnSiblings 0 ranked, ?_, placed⟩
  simp only [prepareBlockData, undeposited, filter_nil, isGrouped]
  rw [all, noDeposits]
  simp [pending, returned]

section

variable (prepared : prepareBlockData poseidonHash iteration mempool blockSize now = .ok (deposits, txs))
include prepared

theorem prepareBlockData_deposits : (∀ group ∈ deposits, group.length = 4) ∧ ∃ padding, deposits.flatten.Subperm
      (mempool.deposits.filter (depositPending poseidonHash mempool) ++ replicate padding .default) := by
  obtain ⟨selected, ranked, inside, -, ranks, rfl, -⟩ := prepareBlockData_ok prepared
  have taken := inside.filterMap (·.deposits)
  have groups := ranks.filterMap (·.deposits)
  simp only [candidates, filterMap_append, filterMap_map, Function.comp_def, filterMap_some,
    filterMap_none, append_nil] at groups
  obtain ⟨four, padding, flat⟩ := groupDeposits_groups ((mempool.deposits.filter
    (depositPending poseidonHash mempool)).mergeSort fun a b => decide (b.fee.val ≤ a.fee.val))
  refine ⟨fun group member => four group (groups.mem_iff.mp (taken.subset member)), padding, ?_⟩
  refine taken.flatten.subperm.trans (groups.flatten.subperm.trans ?_)
  rw [flat]
  exact ((mergeSort_perm _ _).append_right _).subperm

theorem prepareBlockData_slots : deposits.length + txs.length ≤ blockSize := by
  obtain ⟨selected, ranked, inside, fits, ranks, rfl, rfl⟩ := prepareBlockData_ok prepared
  have used := slots_used fun candidate member => candidates_slots candidate (ranks.mem_iff.mp (inside.subset member))
  have placed := (placeSwapPairsOnSiblings_subperm (selected.filterMap (·.deposits)).length selected).length_le
  omega

end

/-- The selection fits into the block and takes nothing twice, nothing stale and no swap without its other leg
at the sibling position. -/
theorem prepareBlockData_selects (lawful : iteration.Lawful)
    (prepared : prepareBlockData poseidonHash iteration mempool blockSize now = .ok (deposits, txs)) :
    deposits.length + txs.length ≤ blockSize ∧ (∀ group ∈ deposits, group.length = 4) ∧
      txs.Subperm (mempool.clientTransactions.filter (clientPending mempool)) ∧ (∃ padding, deposits.flatten.Subperm
        (mempool.deposits.filter (depositPending poseidonHash mempool) ++ replicate padding .default)) ∧
      ∀ i tx, txs[i]? = some tx → tx.swapLink ≠ 0 → ∃ j partner, (∀ k, Sibling deposits.length i k ↔ k = j) ∧
        txs[j]? = some partner ∧ Settles now tx partner := by
  obtain ⟨four, drawn⟩ := prepareBlockData_deposits prepared
  exact ⟨prepareBlockData_slots prepared, four,
    (prepareBlockData_drawn prepared).trans (selectable_subperm lawful), drawn,
    fun i tx found linked => prepareBlockData_sibling lawful prepared found linked⟩

theorem prepareBlockData_selects_sample :
    ([] : List (List DepositDataWithFee)).length + [sampleLeg 1, sampleLeg 0].length ≤ 64 ∧
      [sampleLeg 1, sampleLeg 0].Subperm sampleMempool.clientTransactions := by
  have selects := prepareBlockData_selects ⟨fun _ => .refl _, fun _ => .refl _⟩ sampleMempool_prepared
  exact ⟨selects.1, selects.2.2.1⟩

def richLeg (side : Fr254) : ClientTransaction Unit := { sampleLeg side with fee := 2 }

def twinMempool : Mempool Unit := ⟨[], [sampleLeg 1, sampleLeg 0, richLeg 1, richLeg 0], []⟩

/-- Two pairs of one link and deadline: the second leg stands next to two that would settle with it. -/
theorem prepareBlockData_two_partners : prepareBlockData (fun _ => 0) ⟨id, id⟩ twinMempool 64 5 =
      .ok ([], [richLeg 1, richLeg 0, sampleLeg 1, sampleLeg 0]) ∧
      Settles 5 (richLeg 0) (richLeg 1) ∧ Settles 5 (richLeg 0) (sampleLeg 1) ∧
        (richLeg 1).fee ≠ (sampleLeg 1).fee := by
  refine ⟨?_, ?_, ?_, by decide⟩
  · refine prepareBlockData_ranked
      [⟨none, some [richLeg 1, richLeg 0], 4, 2⟩, ⟨none, some [sampleLeg 1, sampleLeg 0], 2, 2⟩]
      ?_ (by decide) rfl rfl
    change candidates [] _ = _
    simp only [candidates, mergeSort_nil]
    rfl
  · exact ⟨rfl, rfl, Or.inr ⟨rfl, rfl⟩, by decide, by decide⟩
  · exact ⟨rfl, rfl, Or.inr ⟨rfl, rfl⟩, by decide, by decide⟩

end

end Nightfall.Proposer
