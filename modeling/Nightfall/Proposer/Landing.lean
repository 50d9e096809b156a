import Nightfall.Proposer.Pairing

/-! Blocks between their assembly and the chain: `start_block_assembly` queues them, and
`propose_pending_blocks` submits them under the number that the chain has by then. -/

namespace Nightfall.Proposer

open List

variable {Proof : Type}

structure PendingBlock (Proof : Type) where
  assembledFor : ℤ
  transactions : List (ClientTransaction Proof)

structure Submission (Proof : Type) where
  layer2BlockNumber : ℤ
  pendingBlocks : List (PendingBlock Proof)
  landed : List (ℤ × PendingBlock Proof)

inductive SubmissionStep (Proof : Type)
  /-- A block is proved and queued; `number` is what the chain had when its assembly began. -/
  | queue (number : ℤ) (iteration : { order : Iteration Proof // order.Lawful }) (mempool : Mempool Proof)
  | othersBlock
  | propose (accepted : Bool)

def Submission.step (poseidonHash : List Fr254 → Fr254) (blockSize : ℕ) (state : Submission Proof) :
    SubmissionStep Proof → Submission Proof
  | .queue number iteration mempool =>
    match prepareBlockData poseidonHash iteration.1 mempool blockSize (number.toNat % 2 ^ 64) with
    | .ok (_, txs) =>
      if 0 ≤ number ∧ number ≤ state.layer2BlockNumber then
        { state with pendingBlocks := state.pendingBlocks ++ [⟨number, txs⟩] }
      else state
    | .error _ => state
  | .othersBlock => { state with layer2BlockNumber := state.layer2BlockNumber + 1 }
  | .propose accepted =>
    match state.pendingBlocks with
    | [] => state
    | block :: rest =>
      if state.layer2BlockNumber < 0 ∨ 2 ^ 64 ≤ state.layer2BlockNumber then state
      else if accepted then
        ⟨state.layer2BlockNumber + 1, rest, state.landed ++ [(state.layer2BlockNumber, block)]⟩
      else { state with pendingBlocks := [] }

/-- The client's test, on what `extract_swap_deadline` gives. -/
def swapDeadlineHasPassed (deadline : Option Fr254) (currentL2Block : ℤ) : Bool :=
  if currentL2Block < 0 then false
  else
    match deadline with
    | none => false
    | some deadline => decide (deadline.val < currentL2Block.toNat % 2 ^ 64)

def PendingBlock.InTime (block : PendingBlock Proof) : Prop :=
  ∀ tx ∈ block.transactions, tx.swapLink ≠ 0 → block.assembledFor.toNat % 2 ^ 64 ≤ tx.deadline.val

structure Submission.InTime (state : Submission Proof) : Prop where
  pending : ∀ block ∈ state.pendingBlocks, block.InTime
  landed : ∀ landing ∈ state.landed, landing.2.InTime ∧ 0 ≤ landing.1 ∧ landing.1 < 2 ^ 64

variable {poseidonHash : List Fr254 → Fr254} {blockSize : ℕ}

theorem Submission.InTime.step {state : Submission Proof} (inTime : state.InTime) (taken : SubmissionStep Proof) :
    (state.step poseidonHash blockSize taken).InTime := by
  cases taken with
  | queue number iteration mempool =>
    simp only [Submission.step]
    split
    · rename_i prepared
      split
      · refine ⟨?_, inTime.landed⟩
        simp only [forall_mem_append, forall_mem_singleton]
        refine ⟨inTime.pending, fun tx member linked => ?_⟩
        obtain ⟨i, found⟩ := mem_iff_getElem?.mp member
        obtain ⟨_, _, _, _, settles⟩ := prepareBlockData_sibling iteration.2 prepared found linked
        exact settles.inTime
      · exact inTime
    · exact inTime
  | othersBlock => exact ⟨inTime.pending, inTime.landed⟩
  | propose accepted =>
    simp only [Submission.step]
    split
    · exact inTime
    · rename_i block rest isQueue
      obtain ⟨first, others⟩ := forall_mem_cons.mp (isQueue ▸ inTime.pending)
      split
      · exact inTime
      · split
        · refine ⟨others, ?_⟩
          simp only [forall_mem_append, forall_mem_singleton]
          exact ⟨inTime.landed, first, by omega, by omega⟩
        · exact ⟨by simp, inTime.landed⟩

/-- A block that lands as the number it was assembled for holds no swap whose deadline is behind it. -/
theorem landed_deadlines (poseidonHash : List Fr254 → Fr254) (blockSize : ℕ) (number : ℤ)
    (steps : List (SubmissionStep Proof)) :
    ∀ landing ∈ (steps.foldl (Submission.step poseidonHash blockSize) ⟨number, [], []⟩).landed,
      ∀ tx ∈ landing.2.transactions, tx.swapLink ≠ 0 → landing.2.assembledFor = landing.1 →
        landing.1 ≤ tx.deadline.val ∧
          ∀ seen, swapDeadlineHasPassed (some tx.deadline) seen = true → landing.1 < seen := by
  have inTime : (steps.foldl (Submission.step poseidonHash blockSize) ⟨number, [], []⟩).InTime :=
    foldlRecOn steps _ ⟨by simp, by simp⟩ fun state inTime taken _ => inTime.step taken
  intro landing member tx inBlock linked isNumber
  obtain ⟨bound, positive, small⟩ := inTime.landed landing member
  have atLeast := bound tx inBlock linked
  refine ⟨by omega, fun seen passed => ?_⟩
  simp only [swapDeadlineHasPassed, Bool.if_false_left, Bool.and_eq_true, decide_eq_true_eq] at passed
  omega

theorem landed_deadlines_sample : (5 : ℤ) ≤ (sampleLeg 1).deadline.val := by
  have landed := landed_deadlines (fun _ => 0) 64 5
    [.queue 5 ⟨⟨id, id⟩, fun _ => .refl _, fun _ => .refl _⟩ sampleMempool, .propose true]
  simp only [foldl, Submission.step, Int.reduceToNat, Nat.reducePow, Nat.reduceMod, sampleMempool_prepared] at landed
  exact (landed _ mem_cons_self (sampleLeg 1) mem_cons_self (by decide) rfl).1

/-- Five blocks of other proposers, and the swap lands as block 10 with the deadline 9. -/
theorem landed_late : ∃ steps, (foldl (Submission.step (fun _ => 0) 64) ⟨5, [], []⟩ steps).landed =
      [(10, ⟨5, [sampleLeg 1, sampleLeg 0]⟩)] ∧ (sampleLeg 1).swapLink ≠ 0 ∧ (sampleLeg 1).deadline.val = 9 ∧
      swapDeadlineHasPassed (some (sampleLeg 1).deadline) 10 = true := by
  refine ⟨[.queue 5 ⟨⟨id, id⟩, fun _ => .refl _, fun _ => .refl _⟩ sampleMempool, .othersBlock, .othersBlock,
    .othersBlock, .othersBlock, .othersBlock, .propose true], ?_, by decide, by decide, by decide⟩
  simp only [foldl, Submission.step, Int.reduceToNat, Nat.reducePow, Nat.reduceMod, sampleMempool_prepared]
  rfl

end Nightfall.Proposer
