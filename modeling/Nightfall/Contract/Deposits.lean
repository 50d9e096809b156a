import Mathlib.Data.List.Pairwise
import Nightfall.Contract.Attestation

/-! Deposit keys over whole runs. A block redeems exactly the nonzero words of the deposit
transactions that its dispatch loop does not skip, and no word is redeemed twice. -/

namespace Nightfall.Contract

open Revert Runs List

def nonzeroWords (words : List Word) : List Word := words.filter (· ≠ 0)

def depositWords (transaction : OnChainTransaction) : List Word :=
  if transaction.nullifiers.get 0 = 0 then nonzeroWords transaction.publicData.toList else []

def redeemedWords (transaction : OnChainTransaction) : List Word :=
  if transaction.publicData.get 0 = 0 then [] else depositWords transaction

def SkipsOnlyDummies (blk : Block) : Prop :=
  ∀ transaction ∈ blk.transactions, transaction.nullifiers.get 0 = 0 →
    transaction.publicData.get 0 = 0 → ∀ word ∈ transaction.publicData, word = 0

/-- From `before` to `after` the given keys, escrowed and all different, became redeemed. -/
structure Redeems (before after : Word → DepositFeeState) (words : List Word) : Prop where
  once : words.Nodup
  pending : ∀ word ∈ words, (before word).escrowed = 1 ∧ (before word).redeemed = 0
  closed : ∀ word ∈ words, after word = { before word with redeemed := 1 }
  frame : ∀ word, word ∉ words → after word = before word

theorem Redeems.refl (binding : Word → DepositFeeState) : Redeems binding binding [] :=
  ⟨nodup_nil, by simp, by simp, fun _ _ => rfl⟩

theorem Redeems.append {first second third : Word → DepositFeeState} {words more : List Word}
    (earlier : Redeems first second words) (later : Redeems second third more) :
    Redeems first third (words ++ more) := by
  have apart : ∀ word ∈ words, word ∉ more := by
    intro word member again
    have unredeemed := (later.pending word again).2
    rw [earlier.closed word member] at unredeemed
    simp at unredeemed
  have untouched : ∀ word ∈ more, second word = first word := fun word member =>
    earlier.frame word fun already => apart word already member
  refine ⟨nodup_append.mpr ⟨earlier.once, later.once, ?_⟩, ?_, ?_, ?_⟩
  · intro word member other again same
    exact apart word member (same ▸ again)
  · intro word member
    rcases mem_append.mp member with here | there
    · exact earlier.pending word here
    · rw [← untouched word there]
      exact later.pending word there
  · intro word member
    rcases mem_append.mp member with here | there
    · rw [later.frame word (apart word here), earlier.closed word here]
    · rw [later.closed word there, untouched word there]
  · intro word outside
    rw [mem_append, not_or] at outside
    rw [later.frame word outside.2, earlier.frame word outside.1]

theorem redeemWord_redeems {ledger next : Ledger} {word : Word} (redeemed : redeemWord ledger word = .ok next) :
    Redeems ledger.feeBinding next.feeBinding (nonzeroWords [word]) := by
  simp only [redeemWord] at redeemed
  split at redeemed
  · rename_i zero
    simp only [pure_eq_ok] at redeemed
    subst redeemed
    simpa [nonzeroWords, zero] using Redeems.refl ledger.feeBinding
  · rename_i nonzero
    simp only [bind_eq_ok, require_eq_ok, pure_eq_ok] at redeemed
    obtain ⟨_, _, _, unredeemed, same⟩ := redeemed
    subst same
    have single : nonzeroWords [word] = [word] := by simpa [nonzeroWords] using nonzero
    rw [single]
    refine ⟨by simp, ?_, ?_, ?_⟩
    · simpa using unredeemed
    · simp
    · intro other outside
      simp at outside
      simp [outside]

theorem handleTransaction_redeems (env : Environment) (ledger : Ledger) (transaction : OnChainTransaction)
    (next : Ledger) (handled : handleTransaction env ledger transaction = .ok next) :
    Redeems ledger.feeBinding next.feeBinding (redeemedWords transaction) := by
  simp only [handleTransaction] at handled
  split at handled
  · rename_i deposit
    split at handled
    · rename_i skipped
      rw [pure_eq_ok] at handled
      subst handled
      simpa [redeemedWords, skipped] using Redeems.refl ledger.feeBinding
    · rename_i processed
      rw [redeemedWords, if_neg processed, depositWords, if_pos deposit]
      refine foldlM_relates (fun words before after => Redeems before.feeBinding after.feeBinding (nonzeroWords words))
        (fun ledger => Redeems.refl ledger.feeBinding) ?_ _ ledger next handled
      intro word rest state middle result redeemed later
      rw [show word :: rest = [word] ++ rest from rfl, nonzeroWords, filter_append]
      exact (redeemWord_redeems redeemed).append later
  · rename_i spends
    have none : redeemedWords transaction = [] := by
      simp only [redeemedWords, depositWords, if_neg spends, ite_self]
    rw [none]
    split at handled
    · simp only [recordWithdrawal, bind_eq_ok, require_eq_ok, pure_eq_ok] at handled
      obtain ⟨_, _, same⟩ := handled
      subst same
      exact Redeems.refl ledger.feeBinding
    · rw [pure_eq_ok] at handled
      exact handled ▸ Redeems.refl ledger.feeBinding

def Block.redeemedWords (blk : Block) : List Word :=
  blk.transactions.flatMap Contract.redeemedWords

def Block.depositWords (blk : Block) : List Word :=
  blk.transactions.flatMap Contract.depositWords

theorem proposeBlock_redeems (env : Environment) {call : Call} {state next : State} {blk : Block}
    (accepted : proposeBlock env call state blk = .ok next) :
    Redeems state.feeBinding next.feeBinding blk.redeemedWords := by
  rw [proposeBlock_eq_ok] at accepted
  obtain ⟨_, totalFee, ledger, _, dispatched, _, same⟩ := accepted
  subst same
  refine foldlM_relates (fun transactions before after => Redeems before.feeBinding after.feeBinding
    (transactions.flatMap Contract.redeemedWords)) (fun ledger => Redeems.refl ledger.feeBinding)
    ?_ _ _ ledger dispatched
  intro transaction rest state next result handled later
  exact (handleTransaction_redeems env state transaction next handled).append later

def eventWords (words : Block → List Word) (event : Event) : List Word :=
  match event.action with
  | .proposeBlock _ blk => words blk
  | _ => []

theorem eventWords_concat (words : Block → List Word) (past : List Event) (event : Event) :
    (past ++ [event]).flatMap (eventWords words) = past.flatMap (eventWords words) ++ eventWords words event := by
  simp [flatMap_append]

def Creates (event : Event) (key : Word) : Prop :=
  (∃ call fee ercAddress tokenId value secretHash tokenType,
    event.action = .escrowFunds call fee ercAddress tokenId value secretHash tokenType) ∧
  (event.before.feeBinding key).escrowed = 0 ∧ (event.after.feeBinding key).escrowed = 1

structure DepositInvariant (past : List Event) (state : State) : Prop where
  created : ∀ key, (state.feeBinding key).escrowed ≠ 0 → ∃ event ∈ past, Creates event key
  redeemed : ∀ word ∈ past.flatMap (eventWords Block.redeemedWords),
    (state.feeBinding word).escrowed = 1 ∧ (state.feeBinding word).redeemed = 1
  once : (past.flatMap (eventWords Block.redeemedWords)).Nodup

theorem depositInvariant_initial (env : Environment) (nullifierRoot commitmentRoot
    historicRootsRoot blockNumber : Word) :
    DepositInvariant [] (env.initializeState nullifierRoot commitmentRoot historicRootsRoot blockNumber) :=
  ⟨by simp [Environment.initializeState], by simp, by simp⟩

theorem depositInvariant_bindsFresh {past : List Event} {state next : State} {action : Action}
    (holds : DepositInvariant past state)
    (fresh : BindsFresh state.feeBinding next.feeBinding)
    (silent : eventWords Block.redeemedWords ⟨state, action, next⟩ = [])
    (creator : ∀ key, next.feeBinding key ≠ state.feeBinding key →
      ∃ call fee ercAddress tokenId value secretHash tokenType,
        action = .escrowFunds call fee ercAddress tokenId value secretHash tokenType) :
    DepositInvariant (past ++ [⟨state, action, next⟩]) next := by
  have words := eventWords_concat Block.redeemedWords past ⟨state, action, next⟩
  rw [silent, append_nil] at words
  refine ⟨?_, ?_, words ▸ holds.once⟩
  · intro key bound
    rcases fresh key with same | ⟨free, fee, taken⟩
    · rw [same] at bound
      obtain ⟨event, member, creates⟩ := holds.created key bound
      exact ⟨event, by simp [member], creates⟩
    · have changed : next.feeBinding key ≠ state.feeBinding key := by
        intro same
        rw [← same, taken] at free
        simp at free
      exact ⟨⟨state, action, next⟩, by simp, creator key changed, free, by simp [taken]⟩
  · intro word member
    rw [words] at member
    have already := holds.redeemed word member
    rcases fresh word with same | ⟨free, _⟩
    · rw [same]
      exact already
    · omega

theorem depositInvariant_step (env : Environment) (past : List Event) (state : State) (action : Action) (next : State)
    (holds : DepositInvariant past state) (stepped : step env state action = .ok next) :
    DepositInvariant (past ++ [⟨state, action, next⟩]) next := by
  cases action with
  | escrowFunds call fee ercAddress tokenId value secretHash tokenType =>
    obtain ⟨_, _, _, _, fresh, rfl⟩ := escrowFunds_changes env stepped
    exact depositInvariant_bindsFresh holds fresh rfl
      (fun _ _ => ⟨call, fee, ercAddress, tokenId, value, secretHash, tokenType, rfl⟩)
  | descrowFunds call withdrawal tokenType =>
    obtain ⟨_, _, _, rfl⟩ := descrowFunds_changes env stepped
    exact depositInvariant_bindsFresh holds (BindsFresh.refl _) rfl fun key changed => absurd rfl changed
  | proposeBlock call blk =>
    have redeems := proposeBlock_redeems env stepped
    have words := eventWords_concat Block.redeemedWords past ⟨state, .proposeBlock call blk, next⟩
    have escrowed : ∀ key, (next.feeBinding key).escrowed = (state.feeBinding key).escrowed := by
      intro key
      by_cases member : key ∈ blk.redeemedWords
      · rw [redeems.closed key member]
      · rw [redeems.frame key member]
    have apart : ∀ word ∈ past.flatMap (eventWords Block.redeemedWords), word ∉ blk.redeemedWords := by
      intro word before again
      have := (holds.redeemed word before).2
      have := (redeems.pending word again).2
      omega
    refine ⟨?_, ?_, ?_⟩
    · intro key bound
      rw [escrowed] at bound
      obtain ⟨event, member, creates⟩ := holds.created key bound
      exact ⟨event, by simp [member], creates⟩
    · intro word member
      rw [words, mem_append] at member
      rcases member with before | now
      · rw [redeems.frame word (apart word before)]
        exact holds.redeemed word before
      · rw [redeems.closed word now]
        exact ⟨(redeems.pending word now).1, rfl⟩
    · rw [words, nodup_append]
      exact ⟨holds.once, redeems.once, fun word before other now same =>
        apart word before (same ▸ now)⟩

theorem mem_depositWords {transaction : OnChainTransaction} {word : Word} : word ∈ depositWords transaction ↔
      transaction.nullifiers.get 0 = 0 ∧ word ∈ transaction.publicData ∧ word ≠ 0 := by
  by_cases deposit : transaction.nullifiers.get 0 = 0
  · rw [depositWords, if_pos deposit, nonzeroWords, mem_filter, Vector.mem_toList_iff, decide_eq_true_eq]
    exact (and_iff_right deposit).symm
  · rw [depositWords, if_neg deposit]
    exact iff_of_false not_mem_nil fun listed => deposit listed.1

theorem redeemedWords_eq {blk : Block} (skips : SkipsOnlyDummies blk) : blk.redeemedWords = blk.depositWords := by
  simp only [Block.redeemedWords, Block.depositWords, List.flatMap]
  congr 1
  apply map_congr_left
  intro transaction member
  by_cases skipped : transaction.publicData.get 0 = 0
  · rw [redeemedWords, if_pos skipped, eq_comm, eq_nil_iff_forall_not_mem]
    intro word listed
    obtain ⟨deposit, inData, nonzero⟩ := mem_depositWords.mp listed
    exact nonzero (skips transaction member deposit skipped word inData)
  · rw [redeemedWords, if_neg skipped]

theorem depositWords_eq_redeemed {event : Event}
    (skips : ∀ call blk, event.action = .proposeBlock call blk → SkipsOnlyDummies blk) :
    eventWords Block.depositWords event = eventWords Block.redeemedWords event := by
  cases called : event.action with
  | escrowFunds | descrowFunds => simp [eventWords, called]
  | proposeBlock call blk =>
    simp only [eventWords, called]
    exact (redeemedWords_eq (skips call blk called)).symm

/-- Every nonzero word of a deposit transaction in an accepted block was escrowed
earlier in the run and is redeemed by that block, and by no other word of the run. -/
structure DepositsRedeemed (run : List Event) : Prop where
  each : ∀ earlier event later call blk, run = earlier ++ event :: later →
    event.action = .proposeBlock call blk → ∀ transaction ∈ blk.transactions,
    transaction.nullifiers.get 0 = 0 → ∀ word ∈ transaction.publicData, word ≠ 0 →
      (∃ creator ∈ earlier, Creates creator word) ∧
      (event.before.feeBinding word).redeemed = 0 ∧ (event.after.feeBinding word).redeemed = 1
  once : (run.flatMap (eventWords Block.depositWords)).Nodup

theorem skipsOnlyDummies_of_redeemed {blk : Block} (once : blk.depositWords.Nodup)
    (redeemed : ∀ transaction ∈ blk.transactions, transaction.nullifiers.get 0 = 0 →
      ∀ word ∈ transaction.publicData, word ≠ 0 → word ∈ blk.redeemedWords) :
    SkipsOnlyDummies blk := by
  intro transaction member deposit skipped word inData
  by_contra nonzero
  obtain ⟨other, otherMember, listed⟩ :=
    mem_flatMap.mp (redeemed transaction member deposit word inData nonzero)
  have processed : other.publicData.get 0 ≠ 0 := by
    intro zero
    rw [redeemedWords, if_pos zero] at listed
    exact not_mem_nil listed
  rw [redeemedWords, if_neg processed] at listed
  have different : transaction ≠ other := by
    intro same
    rw [same] at skipped
    exact processed skipped
  have : Std.Symm (Function.onFun List.Disjoint depositWords) :=
    ⟨fun _ _ disjoint _ inSecond inFirst => disjoint inFirst inSecond⟩
  have apart := (nodup_flatMap.mp once).2.forall member otherMember different
  exact apart (mem_depositWords.mpr ⟨deposit, inData, nonzero⟩) listed

section

variable (env : Environment) (nullifierRoot commitmentRoot historicRootsRoot blockNumber : Word)
  (actions : List Action)

theorem depositInvariant_at {earlier later : List Event} {event : Event} (split : trace (step env)
      (env.initializeState nullifierRoot commitmentRoot historicRootsRoot blockNumber) actions =
        earlier ++ event :: later) :
    DepositInvariant earlier event.before ∧ step env event.before event.action = .ok event.after :=
  invariant_before (step env) DepositInvariant actions _
    (depositInvariant_initial env nullifierRoot commitmentRoot historicRootsRoot blockNumber)
    (fun past event _ => depositInvariant_step env past event.before event.action event.after) split

theorem redeemedWords_once :
    ((trace (step env) (env.initializeState nullifierRoot commitmentRoot historicRootsRoot blockNumber)
      actions).flatMap (eventWords Block.redeemedWords)).Nodup := by
  have holds := invariant_run (step env) DepositInvariant actions [] _
    (depositInvariant_initial env nullifierRoot commitmentRoot historicRootsRoot blockNumber)
    (fun past event _ => depositInvariant_step env past event.before event.action event.after)
  simpa using holds.once

theorem deposits_redeemed_iff : DepositsRedeemed (trace (step env)
      (env.initializeState nullifierRoot commitmentRoot historicRootsRoot blockNumber) actions) ↔
    ∀ event ∈ trace (step env)
      (env.initializeState nullifierRoot commitmentRoot historicRootsRoot blockNumber) actions,
      ∀ call blk, event.action = .proposeBlock call blk → SkipsOnlyDummies blk := by
  constructor
  · intro sound event member call blk called
    obtain ⟨earlier, later, split⟩ := append_of_mem member
    have accepted := (depositInvariant_at env _ _ _ _ actions split).2
    rw [called] at accepted
    have redeems := proposeBlock_redeems env accepted
    have blockWords : eventWords Block.depositWords event = blk.depositWords := by
      simp [eventWords, called]
    have once := (nodup_flatMap.mp sound.once).1 event member
    rw [blockWords] at once
    apply skipsOnlyDummies_of_redeemed once
    intro transaction inBlock deposit word inData nonzero
    obtain ⟨_, unredeemed, redeemed⟩ := sound.each earlier event later call blk split called
      transaction inBlock deposit word inData nonzero
    by_contra outside
    rw [redeems.frame word outside, unredeemed] at redeemed
    omega
  · intro skips
    constructor
    · intro earlier event later call blk split called transaction member deposit word inData nonzero
      obtain ⟨holds, accepted⟩ := depositInvariant_at env _ _ _ _ actions split
      rw [called] at accepted
      have redeems := proposeBlock_redeems env accepted
      have listed : word ∈ blk.redeemedWords := by
        rw [redeemedWords_eq (skips event (by rw [split]; simp) call blk called)]
        exact mem_flatMap.mpr ⟨transaction, member, mem_depositWords.mpr ⟨deposit, inData, nonzero⟩⟩
      have pending := redeems.pending word listed
      refine ⟨holds.created word (by omega), pending.2, ?_⟩
      rw [redeems.closed word listed]
    · rw [flatMap_congr fun event member => depositWords_eq_redeemed (skips event member)]
      exact redeemedWords_once env nullifierRoot commitmentRoot historicRootsRoot blockNumber actions

end

def hiddenDeposit : OnChainTransaction :=
  ⟨0, Vector.replicate 4 0, Vector.replicate 4 0, #v[0, 5, 0, 0]⟩

def hiddenBlock : Block :=
  { sampleBlock 0 with transactions := hiddenDeposit :: List.replicate 63 dummyTransaction }

theorem hiddenBlock_accepted :
    proposeBlock sampleEnvironment sampleCall sampleState hiddenBlock = .ok (afterBlock sampleState hiddenBlock
        ⟨sampleState.feeBinding, sampleState.withdrawalIncluded, 0⟩) :=
  firstBlock_accepted rfl (by decide +kernel) rfl (by decide)

/-- The key 5 was never escrowed, and the block that carries it is accepted. -/
theorem hidden_deposit_not_redeemed : ¬ DepositsRedeemed
      (trace (step sampleEnvironment) sampleState [.proposeBlock sampleCall hiddenBlock]) := by
  intro sound
  have accepted : step sampleEnvironment sampleState (.proposeBlock sampleCall hiddenBlock) = _ :=
    hiddenBlock_accepted
  obtain ⟨⟨creator, never, _⟩, _⟩ := sound.each [] _ [] sampleCall hiddenBlock
    (trace_cons_ok _ accepted []) rfl hiddenDeposit mem_cons_self rfl 5 (by simp [hiddenDeposit]) (by decide)
  exact not_mem_nil never

end Nightfall.Contract
