import Nightfall.Proposer.HistoricRoots

/-! `restart_event_listener`: the expected block number and the trees are reset, the stored blocks are not,
and the events of the chain are handled again. -/

namespace Nightfall.Proposer

open Merkle Store Store.Program MerkleTrees MutableTree IndexedTree Checkpoints List

section

variable {F A H T : Type} [LinearOrder F] [Zero F] [NatCast F] [ToString F]

def ignoring {ε ε' σ : Type} (program : Program ε σ Unit) : Program ε' σ Unit :=
  ⟨fun state => (.ok (), (program.run state).2)⟩

theorem ignoring_ok {ε ε' σ : Type} {program : Program ε σ Unit} {state later : σ}
    (ran : program.run state = (.ok (), later)) :
    (ignoring program : Program ε' σ Unit).run state = (.ok (), later) := by
  simp only [ignoring, ran]

def resetTrees {ε : Type} (hash : F → F → F → F) (treeHash : F → F → F) (isNova : Bool) :
    Program ε (Trees F) Unit := do
  ignoring (resetCommitmentTree isNova)
  ignoring resetHistoricRootTree
  ignoring (resetNullifierTree hash treeHash isNova)

def restartEventListener (setting : Setting F A H T) (startBlock : ℕ) : Handler F A H Unit := do
  let state ← reads fun state => .ok state
  if state.synchronised then fail .panicked
  else do
    writes fun state => { state with expected := startBlock, synchronised := false }
    zoom (fun state => state.journal.current)
      (fun state trees => { state with journal := { state.journal with current := trees } })
      (resetTrees setting.hash setting.treeHash setting.isNova)
    writes fun state => { state with journal := state.journal.forget }

def newTree {F : Type} [Zero F] (treeHeight subTreeHeight : ℕ) : MutableDb F :=
  ⟨some ⟨treeHeight, subTreeHeight, 0, 0⟩, fun _ => none, fun _ => none⟩

omit [LinearOrder F] [NatCast F] [ToString F] in
theorem newMutableTree_run {treeHeight subTreeHeight : ℕ} (fits : treeHeight + subTreeHeight < 64) :
    (newMutableTree treeHeight subTreeHeight).run (MutableDb.empty : MutableDb F) =
      (.ok (), newTree treeHeight subTreeHeight) := by
  rw [newMutableTree, if_neg (by omega), if_neg (by omega)]
  rfl

omit [ToString F] in
theorem resetTrees_run {ε : Type} {hash : F → F → F → F} {treeHash : F → F → F} {isNova : Bool} (trees : Trees F)
    {start : Trees F} (isStart : (initialise hash treeHash isNova).run .empty = (.ok (), start)) :
    (resetTrees hash treeHash isNova : Program ε (Trees F) Unit).run trees =
      (.ok (), { start with historic := newTree 32 0 }) := by
  obtain ⟨committed, historic, nullified, _, isCommitted, -, isNullified, appended⟩ := initialise_eq_ok.mp isStart
  obtain ⟨_, -, -, sameCommitments, sameNullifiers⟩ := appendHistoricCommitmentRoot_parts appended
  have isNew := @newMutableTree_run F _ 32 0 (by decide)
  have stepFirst : (resetCommitmentTree isNova).run trees = (.ok (), ⟨committed, trees.nullifiers, trees.historic⟩) :=
    (bind_ok rfl).trans (@onCommitments_ok F _ _ { trees with commitments := .empty } _ _ isCommitted)
  have stepSecond : resetHistoricRootTree.run (⟨committed, trees.nullifiers, trees.historic⟩ : Trees F) =
      (.ok (), ⟨committed, trees.nullifiers, newTree 32 0⟩) :=
    (bind_ok rfl).trans (@onHistoric_ok F _ _ ⟨committed, trees.nullifiers, .empty⟩ _ _ isNew)
  have stepThird : (resetNullifierTree hash treeHash isNova).run
      (⟨committed, trees.nullifiers, newTree 32 0⟩ : Trees F) = (.ok (), ⟨committed, nullified, newTree 32 0⟩) :=
    (bind_ok rfl).trans ((bind_ok rfl).trans
      (@onNullifiers_ok F _ _ ⟨committed, .empty, newTree 32 0⟩ _ _ isNullified))
  rw [resetTrees, bind_ok (ignoring_ok stepFirst), bind_ok (ignoring_ok stepSecond), ignoring_ok stepThird,
    sameCommitments, sameNullifiers]

omit [ToString F] in
theorem restartEventListener_run {setting : Setting F A H T} {state : ProposerState F A} {start : Trees F}
    (isStart : (initialise setting.hash setting.treeHash setting.isNova).run .empty = (.ok (), start))
    (desynchronised : state.synchronised = false) (startBlock : ℕ) :
    (restartEventListener setting startBlock).run state =
      (.ok (), ⟨⟨{ start with historic := newTree 32 0 }, [], state.journal.started⟩, startBlock, false,
        state.blocks⟩) := by
  rw [restartEventListener, reads_bind (fun state => state), if_neg (by rw [desynchronised]; exact Bool.false_ne_true),
    bind_ok (writes_run _ _), bind_ok (zoom_ok (resetTrees_run _ isStart)), writes_run]
  rfl

end

section

variable {F A H T : Type} [LinearOrder F] [Zero F] [NatCast F] [ToString F] [DecidableEq A] [DecidableEq H]
  {setting : Setting F A H T} {events : List (BlockProposed T A)}

omit [LinearOrder F] [Zero F] [NatCast F] [ToString F] in
theorem tip_empty {journal : Journal F (Trees F)} (empty : journal.pending = []) : journal.tip = journal.current := by
  rw [Journal.tip, empty]
  rfl

theorem process_other {state later : ProposerState F A} {event : BlockProposed T A}
    (other : state.expected ≠ event.number) (ran : (setting.process event).run state = (.ok (), later)) :
    later = state := by
  obtain ⟨_, _, got, ran⟩ := bind_eq_ok.mp ran
  obtain ⟨-, rfl⟩ := getSender_eq_ok.mp got
  obtain ⟨_, _, converted, ran⟩ := bind_eq_ok.mp ran
  obtain ⟨-, rfl⟩ := convertAll_eq_ok.mp converted
  obtain ⟨_, _, checked, ran⟩ := bind_eq_ok.mp ran
  obtain ⟨-, rfl, rfl⟩ := checkNumber_ok checked
  rw [if_neg (by simpa using other)] at ran
  cases ran
  rfl

theorem mapM_some_length {α β : Type} {convert : α → Option β} {items : List α} {values : List β}
    (converted : items.mapM convert = some values) : values.length = items.length := by
  induction items generalizing values with
  | nil =>
    cases converted
    rfl
  | cons item rest ih =>
    rw [mapM_cons] at converted
    obtain ⟨value, -, converted⟩ := Option.bind_eq_some_iff.mp converted
    obtain ⟨others, areOthers, converted⟩ := Option.bind_eq_some_iff.mp converted
    cases converted
    rw [length_cons, length_cons, ih areOthers]

variable (setting) in
/-- Nothing is pending, and the trees hold the leaves and the roots of as many blocks of one size, the roots behind
those of `first`. -/
structure Grown (size : ℕ) (first : List F) (state : ProposerState F A) : Prop where
  empty : state.journal.pending = []
  held : ∃ leaves roots, Recorded setting.treeHash (first ++ roots) state.journal.current.historic ∧
    HoldsList setting.treeHash (treeHeight setting.isNova) (subTreeHeight setting.isNova) leaves
      state.journal.current.commitments ∧
    leaves.length ≤ 2 ^ treeHeight setting.isNova * 2 ^ subTreeHeight setting.isNova ∧
    leaves.length = roots.length * (size * 4)

variable {size : ℕ} {first : List F}

theorem Grown.step {event : BlockProposed T A} {state later : ProposerState F A}
    (grown : Grown setting size first state)
    (sized : event.transactions.length = size) (ran : (setting.process event).run state = (.ok (), later)) :
    Grown setting size first later := by
  by_cases isNumber : state.expected = event.number
  · obtain ⟨_, transactions, -, areTransactions, -, handled⟩ := (processProposeBlockEvent_next isNumber).mp ran
    obtain ⟨_, root, _, _, -, -, -, outcome, rfl⟩ := handleNext_eq_ok.mp handled
    obtain ⟨empty, leaves, roots, recorded, holds, fits, isLength⟩ := grown
    cases outcome with
    | confirmed _ confirms =>
      rw [Journal.confirms, empty] at confirms
      cases confirms
    | rebuilt _ _ rebuilt =>
      rw [tip_empty empty] at rebuilt
      obtain ⟨middle, appended, _, isHistoric⟩ := rebuilt.appended
      obtain ⟨_, committed, _, nullified, isCommitted, -, rfl⟩ := appendLeaves_eq_ok.mp appended
      obtain ⟨_, extended, -, sameCommitments, -⟩ := appendHistoricCommitmentRoot_parts isHistoric
      have sum := heights_sum setting.isNova
      obtain ⟨appends, -⟩ := appendSubTrees_ok holds (by omega) fits isCommitted
      refine ⟨rfl, leaves ++ blockCommitments transactions, roots ++ [root], ?_, ?_, appends.room, ?_⟩
      · rw [← append_assoc]
        exact recorded.append extended
      · exact sameCommitments ▸ appends.holds
      · rw [length_append, length_append, length_singleton, blockCommitments_length, mapM_some_length areTransactions,
          sized, isLength, Nat.add_one_mul]
    | skipped => exact ⟨empty, leaves, roots, recorded, holds, fits, isLength⟩
  · rw [process_other isNumber ran]
    exact grown

theorem Grown.run {state later : ProposerState F A} (grown : Grown setting size first state)
    (sized : ∀ event ∈ events, event.transactions.length = size)
    (ran : (events.forM setting.process).run state = (.ok (), later)) : Grown setting size first later := by
  induction events generalizing state with
  | nil =>
    cases ran
    exact grown
  | cons event rest ih =>
    obtain ⟨_, middle, handled, last⟩ := bind_eq_ok.mp ran
    obtain ⟨isSized, areSized⟩ := forall_mem_cons.mp sized
    exact ih (grown.step isSized handled) areSized last

/-- Whatever the start block, replaying a chain of blocks of one size never gives both the commitment tree and the
historic-root tree of a new proposer: the latter lacks the zero leaf that initialisation appends. -/
theorem restart_never_replays (idle : setting.treeHash 0 0 = 0) (positive : 0 < size)
    (sized : ∀ event ∈ events, event.transactions.length = size) {start : Trees F}
    (isStart : (initialise setting.hash setting.treeHash setting.isNova).run .empty = (.ok (), start))
    {fresh state restarted : ProposerState F A} {synchronised : Bool}
    (ran : (events.forM setting.process).run ⟨.fresh start, 0, synchronised, []⟩ = (.ok (), fresh)) (startBlock : ℕ)
    (reran : (do restartEventListener setting startBlock; events.forM setting.process).run state =
      (.ok (), restarted)) :
    ¬(restarted.journal.current.commitments = fresh.journal.current.commitments ∧
      restarted.journal.current.historic = fresh.journal.current.historic) := by
  obtain ⟨_, isSame, standing⟩ := @standing_initialise F _ _ _ setting.hash setting.treeHash setting.isNova idle
  cases isStart.symm.trans isSame
  have desynchronised : state.synchronised = false := by
    by_contra synchronised
    rw [Bool.not_eq_false] at synchronised
    obtain ⟨_, _, stopped, -⟩ := bind_eq_ok.mp reran
    rw [restartEventListener, reads_bind (fun state => state), if_pos synchronised] at stopped
    cases stopped
  rw [bind_ok (restartEventListener_run isStart desynchronised startBlock)] at reran
  have anew : Grown setting size [0] ⟨.fresh start, 0, synchronised, []⟩ :=
    ⟨rfl, [], [], initialise_recorded idle isStart, standing.commitments, Nat.zero_le _, by simp⟩
  have again :
      Grown setting size [] ⟨⟨{ start with historic := newTree 32 0 }, [], state.journal.started⟩, startBlock, false,
      state.blocks⟩ :=
    ⟨rfl, [], [], recorded_new idle (newMutableTree_run (show 32 + 0 < 64 by decide)),
      standing.commitments, Nat.zero_le _, by simp⟩
  obtain ⟨-, leaves, roots, recorded, holds, -, isLength⟩ := anew.run sized ran
  obtain ⟨-, others, kept, alsoRecorded, alsoHolds, -, alsoLength⟩ := again.run sized reran
  rintro ⟨sameCommitments, sameHistoric⟩
  have asMany := holds.length_eq (sameCommitments ▸ alsoHolds)
  have oneMore := recorded.holds.length_eq (sameHistoric ▸ alsoRecorded.holds)
  rw [isLength, alsoLength, Nat.mul_left_inj (by omega)] at asMany
  simp only [nil_append, length_append, length_singleton] at oneMore
  omega

end

section

theorem sample_restart : ∃ (start : Trees ℕ) (lost fresh restarted : ProposerState ℕ ℕ),
    (initialise sampleSetting.hash sampleSetting.treeHash sampleSetting.isNova).run .empty = (.ok (), start) ∧
      lost.synchronised = false ∧
      ([otherBlock].forM sampleSetting.process).run ⟨.fresh start, 0, false, []⟩ = (.ok (), fresh) ∧
      SampleStanding (blockCommitments (sampleBlock 5)) 257 [⟨0, 0⟩] [0, 20] fresh.journal.current ∧
      (do restartEventListener sampleSetting 0; [otherBlock].forM sampleSetting.process).run lost =
        (.ok (), restarted) ∧ HoldsList sampleSetting.treeHash 32 0 [20] restarted.journal.current.historic := by
  obtain ⟨start, isStart, standing⟩ := sample_initialised
  obtain ⟨trees, ran, stands⟩ := standing.process (by decide) 0 (nil_subset _)
  -- a proposer that handled the block and lost its synchronisation
  obtain ⟨lost, desynchronised, areStored⟩ : ∃ lost : ProposerState ℕ ℕ, lost.synchronised = false ∧
      lost.blocks ⊆ [⟨0, blockCommitments (sampleBlock 5), 1⟩] := ⟨⟨⟨trees, [], 0⟩, 1, false, _⟩, rfl, Subset.refl _⟩
  have reset := @restartEventListener_run ℕ ℕ (List ℕ × ℕ) (OnChainTransaction ℕ) _ _ _ sampleSetting lost start
    isStart desynchronised 0
  have isNew := @recorded_new ℕ _ sampleSetting.treeHash _ rfl (newMutableTree_run (show 32 + 0 < 64 by decide))
  have again : SampleStanding [] 1 [⟨0, 0⟩] [] { start with historic := newTree 32 0 } :=
    ⟨standing.commitments, standing.nullifiers, isNew.holds⟩
  obtain ⟨_, reran, restands⟩ := again.process (by decide) lost.journal.started areStored
  exact ⟨start, lost, _, _, isStart, desynchronised, (bind_ok ran).trans rfl, stands,
    (bind_ok reset).trans ((bind_ok reran).trans rfl), restands.historic⟩

theorem restart_never_replays_one : ∃ (state fresh restarted : ProposerState ℕ ℕ) (start : Trees ℕ),
    (initialise sampleSetting.hash sampleSetting.treeHash sampleSetting.isNova).run .empty = (.ok (), start) ∧
      ([otherBlock].forM sampleSetting.process).run ⟨.fresh start, 0, false, []⟩ = (.ok (), fresh) ∧
      (do restartEventListener sampleSetting 0; [otherBlock].forM sampleSetting.process).run state =
        (.ok (), restarted) ∧
      ¬(restarted.journal.current.commitments = fresh.journal.current.commitments ∧
        restarted.journal.current.historic = fresh.journal.current.historic) := by
  obtain ⟨start, _, fresh, restarted, isStart, -, ran, -, reran, -⟩ := sample_restart
  have sized : ∀ event ∈ [otherBlock], event.transactions.length = 64 := by
    intro event isEvent
    rw [mem_singleton.mp isEvent]
    exact sampleBlock_length 5
  exact ⟨_, fresh, restarted, start, isStart, ran, reran,
    restart_never_replays rfl (by decide) sized isStart ran 0 reran⟩

/-- From block 1 on, the first block is passed over; from block 0 on, the historic-root tree lacks its
first leaf. -/
theorem restart_differs : ∃ (state fresh later other : ProposerState ℕ ℕ) (start : Trees ℕ),
    (initialise sampleSetting.hash sampleSetting.treeHash sampleSetting.isNova).run .empty = (.ok (), start) ∧
      ([otherBlock].forM sampleSetting.process).run ⟨.fresh start, 0, false, []⟩ = (.ok (), fresh) ∧
      (do restartEventListener sampleSetting 1; [otherBlock].forM sampleSetting.process).run state = (.ok (), later) ∧
      later.journal.current.commitments ≠ fresh.journal.current.commitments ∧
      (do restartEventListener sampleSetting 0; [otherBlock].forM sampleSetting.process).run state = (.ok (), other) ∧
      other.journal.current.historic ≠ fresh.journal.current.historic := by
  obtain ⟨start, lost, fresh, other, isStart, desynchronised, ran, stands, isOther, listed⟩ := sample_restart
  have reset := @restartEventListener_run ℕ ℕ (List ℕ × ℕ) (OnChainTransaction ℕ) _ _ _ sampleSetting
    lost start isStart desynchronised 1
  have passed : (sampleSetting.process otherBlock).run
      ⟨⟨{ start with historic := newTree 32 0 }, [], lost.journal.started⟩, 1, false, lost.blocks⟩ = (.ok (), _) :=
    processProposeBlockEvent_passed rfl (mapM_some (sampleBlock 5)) Nat.zero_lt_one
  refine ⟨_, _, _, other, start, isStart, ran, (bind_ok reset).trans ((bind_ok passed).trans rfl), ?_, isOther, ?_⟩
  · intro same
    have isEmpty := ((initialise_replayed isStart).held rfl Nat.zero_le).1
    have counts := isEmpty.length_eq (same ▸ stands.commitments)
    rw [blockCommitments_length, sampleBlock_length] at counts
    cases counts
  · intro same
    have counts := stands.historic.length_eq (same ▸ listed)
    cases counts

end

end Nightfall.Proposer
