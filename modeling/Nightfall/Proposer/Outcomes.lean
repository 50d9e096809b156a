import Nightfall.Proposer.Events

/-! What a call of the proposer's event handler that returns has done to the trees: it confirmed a block
that was in them, it appended the leaves of the block, or it did neither. -/

namespace Nightfall.Proposer

open Store Store.Program MerkleTrees MutableTree IndexedTree Checkpoints

section

variable {F A H T α : Type} {state later : ProposerState F A}

theorem onTrees_ok {message : String} {program : Program Failure (Trees F) α} {value : α} :
    (onTrees message program : Handler F A H α).run state = (.ok value, later) ↔
      ∃ trees, program.run state.journal.current = (.ok value, trees) ∧
        later = { state with journal := { state.journal with current := trees } } := by
  rw [onTrees, mapError_eq_ok, zoom_eq_ok]

variable {root historicRoot : F} {trees : Trees F}

theorem onCommitments_getRoot_eq_ok {after : Trees F} : (onCommitments getRoot).run trees = (.ok root, after) ↔
      trees.commitments.metadata.map TreeMetadata.root = some root ∧ after = trees := by
  simp [onCommitments, zoom_eq_ok, getRoot_eq_ok]

theorem onNullifiers_getRoot_eq_ok {after : Trees F} : (onNullifiers (onTree getRoot)).run trees = (.ok root, after) ↔
      trees.nullifiers.tree.metadata.map TreeMetadata.root = some root ∧ after = trees := by
  simp [onNullifiers, onTree, zoom_eq_ok, getRoot_eq_ok]

theorem convertRoot_eq_ok {fromWord : ℕ → Option F} {event : BlockProposed T A} :
    (convertRoot fromWord event : Handler F A H F).run state = (.ok root, later) ↔
      fromWord event.commitmentsRoot = some root ∧ state = later := by
  unfold convertRoot
  split <;> simp [ioError, *]

theorem getCurrentBlockNumber_eq_ok {event : BlockProposed T A} {current : ℕ} :
    (getCurrentBlockNumber event : Handler F A H ℕ).run state = (.ok current, later) ↔
      event.currentBlockNumber = .ok current ∧ state = later := by
  unfold getCurrentBlockNumber
  split <;> simp [ioError, *]

def statusFor (state : ProposerState F A) (current : ℕ) : Bool := if current = 1 then true else state.synchronised

theorem synchroniseFirst_run (current : ℕ) : (synchroniseFirst current : Handler F A H Unit).run
        ⟨state.journal, state.expected + 1, state.synchronised, state.blocks⟩ =
      (.ok (), ⟨state.journal, state.expected + 1, statusFor state current, state.blocks⟩) := by
  unfold synchroniseFirst statusFor
  split <;> rfl

variable [LinearOrder F] [Zero F] [NatCast F] [ToString F] {hash : F → F → F → F} {node : F → F → F}
  {transactions : List (OnChainTransaction F)}

variable (hash node) in
@[mk_iff] structure Rebuilt (transactions : List (OnChainTransaction F)) (historicRoot : F)
    (trees after : Trees F) : Prop where
  appended : ∃ middle, (appendLeaves hash node (blockCommitments transactions)
      (blockNullifiers transactions)).run trees = (.ok (), middle) ∧
    ∃ root, (appendHistoricCommitmentRoot node historicRoot true).run middle = (.ok root, after)
  readable : ∃ root, after.commitments.metadata.map TreeMetadata.root = some root

omit [LinearOrder F] [Zero F] [NatCast F] [ToString F] in
theorem rollbackOutstanding_run : (rollbackOutstanding : Handler F A H Unit).run state =
      (.ok (), { state with journal := ⟨state.journal.tip, [], state.journal.started⟩ }) := by
  rcases state with ⟨⟨current, pending, started⟩, expected, synchronised, blocks⟩
  cases pending <;> rfl

theorem rebuildTrees_eq_ok {value : Unit} :
    (rebuildTrees hash node transactions historicRoot : Handler F A H Unit).run state = (.ok value, later) ↔
      ∃ trees, Rebuilt hash node transactions historicRoot state.journal.tip trees ∧
        later = { state with journal := ⟨trees, [], state.journal.started⟩ } := by
  simp [-bind_pure_comp, rebuildTrees, bind_eq_ok, rollbackOutstanding_run, onTrees_ok, onCommitments_getRoot_eq_ok,
    rebuilt_iff, appendLeaves]
  grind

variable [DecidableEq A] {fromWord : ℕ → Option F} {ourAddress sender : A} {event : BlockProposed T A}

inductive Updated (hash : F → F → F → F) (node : F → F → F) (ourAddress sender : A)
    (transactions : List (OnChainTransaction F)) (root rootBefore : F) (state : ProposerState F A) :
    ProposerState F A → Prop
  | confirmed (own : ourAddress = sender) (confirms : state.journal.confirms root = true) :
      Updated hash node ourAddress sender transactions root rootBefore state
        { state with journal := state.journal.confirm root }
  | rebuilt (unconfirmed : ourAddress = sender → state.journal.confirms root = false)
      (taken : ourAddress ≠ sender ∨ state.synchronised = false ∨ rootBefore = 0) {trees : Trees F}
      (rebuilt : Rebuilt hash node transactions root state.journal.tip trees) :
      Updated hash node ourAddress sender transactions root rootBefore state
        { state with journal := ⟨trees, [], state.journal.started⟩ }
  | skipped (own : ourAddress = sender) (unconfirmed : state.journal.confirms root = false)
      (synchronised : state.synchronised = true) (nonzero : rootBefore ≠ 0) :
      Updated hash node ourAddress sender transactions root rootBefore state state

omit [Zero F] [NatCast F] [ToString F] [DecidableEq A] in
theorem confirm_unconfirmed (unconfirmed : state.journal.confirms root = false) :
    state.journal.confirm root = state.journal := by
  rw [Journal.confirm, unconfirmed, if_neg Bool.false_ne_true]

omit [Zero F] [NatCast F] [ToString F] in
theorem confirmOwn_run :
    (confirmOwn ourAddress sender root : Handler F A H Bool).run state = if ourAddress = sender then
        (.ok (state.journal.confirms root), { state with journal := state.journal.confirm root })
      else (.ok false, state) := by
  unfold confirmOwn
  split <;> rfl

theorem updateTrees_eq_ok {value : Unit} :
    (updateTrees hash node fromWord ourAddress event sender transactions : Handler F A H Unit).run state =
        (.ok value, later) ↔ ∃ root rootBefore, fromWord event.commitmentsRoot = some root ∧
        state.journal.current.commitments.metadata.map TreeMetadata.root = some rootBefore ∧
        Updated hash node ourAddress sender transactions root rootBefore state later := by
  simp only [updateTrees, bind_eq_ok, onTrees_ok, onCommitments_getRoot_eq_ok, convertRoot_eq_ok, confirmOwn_run,
    reads_run]
  constructor
  · rintro ⟨rootBefore, _, ⟨_, ⟨isBefore, rfl⟩, rfl⟩, root, _, ⟨isRoot, rfl⟩, _, _, afterConfirm, _, _, ⟨⟩, ran⟩
    refine ⟨root, rootBefore, isRoot, isBefore, ?_⟩
    by_cases own : ourAddress = sender
    · rw [if_pos own] at afterConfirm
      cases afterConfirm
      cases isConfirmed : state.journal.confirms root with
      | true =>
        rw [isConfirmed, if_neg (by simp)] at ran
        cases ran
        exact .confirmed own isConfirmed
      | false =>
        rw [isConfirmed, confirm_unconfirmed isConfirmed] at ran
        split at ran
        · next taken =>
          obtain ⟨trees, rebuilt, rfl⟩ := rebuildTrees_eq_ok.mp ran
          exact .rebuilt (fun _ => isConfirmed) taken.2 rebuilt
        · next untaken =>
          cases ran
          simp only [own, ne_eq, not_true_eq_false, false_or, true_and, not_or, Bool.not_eq_false] at untaken
          exact .skipped own isConfirmed untaken.1 untaken.2
    · rw [if_neg own] at afterConfirm
      cases afterConfirm
      rw [if_pos ⟨rfl, .inl own⟩] at ran
      obtain ⟨trees, rebuilt, rfl⟩ := rebuildTrees_eq_ok.mp ran
      exact .rebuilt (absurd · own) (.inl own) rebuilt
  · rintro ⟨root, rootBefore, isRoot, isBefore, outcome⟩
    refine ⟨rootBefore, state, ⟨_, ⟨isBefore, rfl⟩, rfl⟩, root, state, ⟨isRoot, rfl⟩, ?_⟩
    cases outcome with
    | confirmed own confirms => simp [own, confirms]
    | rebuilt unconfirmed taken rebuilt =>
      refine ⟨false, state, ?_, state, state, rfl, ?_⟩
      · simp +contextual [unconfirmed, confirm_unconfirmed]
      · rw [if_pos ⟨rfl, taken⟩]
        exact rebuildTrees_eq_ok.mpr ⟨_, rebuilt, rfl⟩
    | skipped own unconfirmed synchronised nonzero =>
      refine ⟨false, state, ?_, state, state, rfl, ?_⟩
      · rw [if_pos own, unconfirmed, confirm_unconfirmed unconfirmed]
      · simp [own, synchronised, nonzero]

theorem handleNext_eq_ok {value : Unit} :
    (handleNext hash node fromWord ourAddress event sender transactions : Handler F A H Unit).run state =
        (.ok value, later) ↔ ∃ current root rootBefore updated, event.currentBlockNumber = .ok current ∧
        fromWord event.commitmentsRoot = some root ∧
        state.journal.current.commitments.metadata.map TreeMetadata.root = some rootBefore ∧
        Updated hash node ourAddress sender transactions root rootBefore
          ⟨state.journal, state.expected + 1, statusFor state current, state.blocks⟩ updated ∧
        later = ⟨updated.journal, updated.expected, decide (current = event.number + 1),
          storeBlock ⟨event.number, blockCommitments transactions, sender⟩ updated.blocks⟩ := by
  simp [handleNext, advance, setSynchronised, bind_eq_ok, getCurrentBlockNumber_eq_ok,
    synchroniseFirst_run, updateTrees_eq_ok]
  grind

end

end Nightfall.Proposer
