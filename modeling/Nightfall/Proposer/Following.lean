import Nightfall.Proposer.EventErrors
import Nightfall.Proposer.SpeculativeState
import Nightfall.Proposer.Standing

/-! The commitment and nullifier trees of the proposer over runs: blocks are proved onto the trees before
they are on chain, a submission that reports an error rolls them back, and events are handled in order. -/

namespace Nightfall.Proposer

open Merkle Store Store.Program MerkleTrees MutableTree IndexedTree Checkpoints List Nat

section

variable {F A H T : Type} [LinearOrder F] [Zero F] [NatCast F] [ToString F] [DecidableEq A] [DecidableEq H]

structure ChainBlock (F : Type) where
  transactions : List (OnChainTransaction F)
  commitmentsRoot : F

structure Setting (F A H T : Type) where
  hash : F → F → F → F
  treeHash : F → F → F
  digest : List F → A → H
  convert : T → Option (OnChainTransaction F)
  fromWord : ℕ → Option F
  findOne : FindOne F
  ourAddress : A
  isNova : Bool

def Setting.process (setting : Setting F A H T) (event : BlockProposed T A) : Handler F A H Unit :=
  processProposeBlockEvent setting.hash setting.treeHash setting.digest setting.convert setting.fromWord
    setting.ourAddress event

/-- The runs of the proposer, with the blocks handled, those still in the queue and those ever proved. A
block of ours on chain is one that was proved; `allowed` says which events a run may have. -/
inductive Run (setting : Setting F A H T)
    (allowed : ProposerState F A → List (ChainBlock F) → BlockProposed T A → ChainBlock F → Prop) :
    List (ChainBlock F) → List (ChainBlock F) → List (ChainBlock F) → ProposerState F A → Prop
  | start {trees : Trees F} (synchronised : Bool)
      (ran : (initialise setting.hash setting.treeHash setting.isNova).run .empty = (.ok (), trees)) :
      Run setting allowed [] [] [] ⟨.fresh trees, 0, synchronised, []⟩
  | prove {handled outstanding proved : List (ChainBlock F)} {state : ProposerState F A} {trees : Trees F}
      {transactions : List (OnChainTransaction F)} {roots : F × F × F} (blocks : List (StoredBlock F A))
      (run : Run setting allowed handled outstanding proved state)
      (ran : (prepareTrees setting.hash setting.treeHash setting.findOne transactions).run state.journal.current =
        (.ok roots, trees)) :
      Run setting allowed handled (outstanding ++ [⟨transactions, roots.1⟩]) (proved ++ [⟨transactions, roots.1⟩])
        { state with journal := state.journal.run [.start, .change trees, .settle roots.1], blocks := blocks }
  | rollback {handled outstanding proved : List (ChainBlock F)} {state : ProposerState F A}
      (run : Run setting allowed handled outstanding proved state) :
      Run setting allowed handled [] proved { state with journal := state.journal.revert }
  | event {handled outstanding proved : List (ChainBlock F)} {state later : ProposerState F A}
      {event : BlockProposed T A} {block : ChainBlock F}
      (run : Run setting allowed handled outstanding proved state) (isNumber : event.number = handled.length)
      (areTransactions : event.transactions.mapM setting.convert = some block.transactions)
      (isRoot : setting.fromWord event.commitmentsRoot = some block.commitmentsRoot)
      (landed : event.sender = .ok (some setting.ourAddress) → block ∈ proved)
      (isAllowed : allowed state outstanding event block)
      (ran : (setting.process event).run state = (.ok (), later)) :
      Run setting allowed (handled ++ [block])
        (outstanding.drop (outstanding.length - later.journal.pending.length)) proved later

def Appended (setting : Setting F A H T) (state : ProposerState F A) (event : BlockProposed T A) : Prop :=
  ∀ rootBefore current, state.journal.current.commitments.metadata.map TreeMetadata.root = some rootBefore →
    event.currentBlockNumber = .ok current → event.sender = .ok (some setting.ourAddress) →
    statusFor state current = false ∨ rootBefore = 0

def InStep (setting : Setting F A H T) (state : ProposerState F A) (outstanding : List (ChainBlock F))
    (event : BlockProposed T A) (block : ChainBlock F) : Prop :=
  event.sender = .ok (some setting.ourAddress) →
    if state.journal.confirms block.commitmentsRoot then outstanding.head? = some block
    else Appended setting state event

variable (hash : F → F → F → F) (node : F → F → F) (isNova : Bool)

def replay (blocks : List (ChainBlock F)) : Program Failure (Trees F) Unit := do
  newCommitmentTree isNova
  newNullifierTree hash node isNova
  blocks.forM fun block =>
    appendLeaves hash node (blockCommitments block.transactions) (blockNullifiers block.transactions)

def Replayed (blocks : List (ChainBlock F)) (trees : Trees F) : Prop :=
  ∃ result, (replay hash node isNova blocks).run .empty = (.ok (), result) ∧
    trees.commitments = result.commitments ∧ trees.nullifiers = result.nullifiers

variable {hash node isNova} {blocks : List (ChainBlock F)} {trees later : Trees F}
  {block : ChainBlock F} {transactions : List (OnChainTransaction F)}

theorem replay_append (more : List (ChainBlock F))
    (ran : (replay hash node isNova blocks).run .empty = (.ok (), trees)) :
    (replay hash node isNova (blocks ++ more)).run .empty =
      (more.forM fun block => appendLeaves hash node (blockCommitments block.transactions)
        (blockNullifiers block.transactions)).run trees := by
  obtain ⟨_, _, first, afterFirst⟩ := bind_eq_ok.mp ran
  obtain ⟨_, _, second, last⟩ := bind_eq_ok.mp afterFirst
  rw [replay, bind_ok first, bind_ok second, forM_append_run last]

theorem appendLeaves_parts {other : Trees F} {commitments nullifiers : List F}
    (sameCommitments : trees.commitments = other.commitments) (sameNullifiers : trees.nullifiers = other.nullifiers)
    (ran : (appendLeaves hash node commitments nullifiers).run trees = (.ok (), later)) :
    ∃ result, (appendLeaves hash node commitments nullifiers).run other = (.ok (), result) ∧
      later.commitments = result.commitments ∧ later.nullifiers = result.nullifiers ∧
        later.historic = trees.historic := by
  obtain ⟨_, committed, _, nullified, isCommitted, isNullified, rfl⟩ := appendLeaves_eq_ok.mp ran
  rw [sameCommitments] at isCommitted
  rw [sameNullifiers] at isNullified
  exact ⟨_, appendLeaves_eq_ok.mpr ⟨_, _, _, _, isCommitted, isNullified, rfl⟩, rfl, rfl, rfl⟩

theorem Replayed.append (replayed : Replayed hash node isNova blocks trees)
    (ran : (appendLeaves hash node (blockCommitments block.transactions)
      (blockNullifiers block.transactions)).run trees = (.ok (), later)) :
    Replayed hash node isNova (blocks ++ [block]) later := by
  obtain ⟨middle, isReplay, sameCommitments, sameNullifiers⟩ := replayed
  obtain ⟨result, isResult, alsoCommitments, alsoNullifiers, -⟩ := appendLeaves_parts sameCommitments sameNullifiers ran
  refine ⟨result, ?_, alsoCommitments, alsoNullifiers⟩
  rw [replay_append _ isReplay, forM_eq_forM, forM_cons, bind_ok isResult]
  rfl

theorem Replayed.parts (replayed : Replayed hash node isNova blocks trees)
    (sameCommitments : later.commitments = trees.commitments) (sameNullifiers : later.nullifiers = trees.nullifiers) :
    Replayed hash node isNova blocks later := by
  obtain ⟨result, isReplay, alsoCommitments, alsoNullifiers⟩ := replayed
  exact ⟨result, isReplay, sameCommitments.trans alsoCommitments, sameNullifiers.trans alsoNullifiers⟩

theorem forM_held (least : ∀ x : F, 0 ≤ x) {leaves : List F} {count : ℕ} {entries : List (Entry F)}
    (holds : HoldsList node (treeHeight isNova) (subTreeHeight isNova) leaves trees.commitments)
    (fits : leaves.length ≤ 2 ^ treeHeight isNova * 2 ^ subTreeHeight isNova)
    (consistent : Consistent hash node (treeHeight isNova) (subTreeHeight isNova) count entries trees.nullifiers)
    (ran : (blocks.forM fun block => appendLeaves hash node (blockCommitments block.transactions)
      (blockNullifiers block.transactions)).run trees = (.ok (), later)) :
    HoldsList node (treeHeight isNova) (subTreeHeight isNova)
        (leaves ++ blocks.flatMap fun block => blockCommitments block.transactions) later.commitments ∧
      Stocked hash node isNova later := by
  have sum := heights_sum isNova
  induction blocks generalizing leaves trees count entries with
  | nil =>
    cases ran
    rw [flatMap_nil, append_nil]
    exact ⟨holds, ⟨leaves, holds, fits⟩, count, entries, consistent⟩
  | cons block rest ih =>
    obtain ⟨_, middle, first, last⟩ := bind_eq_ok.mp ran
    obtain ⟨_, committed, _, nullified, appended, inserted, rfl⟩ := appendLeaves_eq_ok.mp first
    obtain ⟨appends, -⟩ := appendSubTrees_ok holds (by omega) fits appended
    have inserts := insertLeaves_ok_narrow least (by omega) consistent inserted
    rw [flatMap_cons, ← append_assoc]
    exact ih appends.holds appends.room inserts.consistent last

theorem Replayed.held (idle : node 0 0 = 0) (least : ∀ x : F, 0 ≤ x)
    (replayed : Replayed hash node isNova blocks trees) :
    HoldsList node (treeHeight isNova) (subTreeHeight isNova)
        (blocks.flatMap fun block => blockCommitments block.transactions) trees.commitments ∧
      Stocked hash node isNova trees := by
  have sum := heights_sum isNova
  obtain ⟨result, isReplay, sameCommitments, sameNullifiers⟩ := replayed
  obtain ⟨db, isNew, holds⟩ := @holds_new F _ node (treeHeight isNova) (subTreeHeight isNova) idle (by omega)
  obtain ⟨leavesDb, isIndexed, consistent⟩ :=
    @newIndexedTree_run F _ _ _ hash node (treeHeight isNova) (subTreeHeight isNova) idle (by omega)
  obtain ⟨_, _, first, afterFirst⟩ := bind_eq_ok.mp isReplay
  obtain ⟨_, _, second, last⟩ := bind_eq_ok.mp afterFirst
  cases first.symm.trans (onCommitments_ok isNew)
  cases second.symm.trans (onNullifiers_ok isIndexed)
  have start : HoldsList node (treeHeight isNova) (subTreeHeight isNova) [] db := ⟨0, by simp, holds⟩
  obtain ⟨held, commitments, nullifiers⟩ := forM_held least start (zero_le _) consistent last
  exact ⟨sameCommitments ▸ held, sameCommitments ▸ commitments, sameNullifiers ▸ nullifiers⟩

theorem Replayed.prepare (idle : node 0 0 = 0) (least : ∀ x : F, 0 ≤ x)
    (replayed : Replayed hash node isNova blocks trees) {findOne : FindOne F} {roots : F × F × F}
    (ran : (prepareTrees hash node findOne block.transactions).run trees = (.ok roots, later)) :
    Replayed hash node isNova (blocks ++ [block]) later := by
  obtain ⟨-, stocked⟩ := replayed.held idle least
  obtain ⟨middle, inserted, -, -, dryRun⟩ := prepareTrees_eq_ok.mp ran
  obtain ⟨_, -, -, sameCommitments, sameNullifiers⟩ := appendHistoricCommitmentRoot_parts dryRun
  have appended := batchInsertLeaves_eq least stocked (batchInsertLeaves_aligned stocked inserted) inserted
  exact (replayed.append appended).parts sameCommitments sameNullifiers

theorem Replayed.rebuild (replayed : Replayed hash node isNova blocks trees) {historicRoot : F}
    (rebuilt : Rebuilt hash node block.transactions historicRoot trees later) :
    Replayed hash node isNova (blocks ++ [block]) later := by
  obtain ⟨middle, appended, root, historic⟩ := rebuilt.appended
  obtain ⟨_, -, -, sameCommitments, sameNullifiers⟩ := appendHistoricCommitmentRoot_parts historic
  exact (replayed.append appended).parts sameCommitments sameNullifiers

variable (hash node isNova) in
def Chain : List (ChainBlock F) → List (Checkpoint F (Trees F)) → List (ChainBlock F) → Trees F → Prop
  | blocks, [], [], current => Replayed hash node isNova blocks current
  | blocks, checkpoint :: pending, block :: outstanding, current =>
    Replayed hash node isNova blocks checkpoint.before ∧ Chain (blocks ++ [block]) pending outstanding current
  | _, _, _, _ => False

variable {pending : List (Checkpoint F (Trees F))} {outstanding : List (ChainBlock F)} {current : Trees F}

theorem Chain.length (chain : Chain hash node isNova blocks pending outstanding current) :
    pending.length = outstanding.length := by
  induction pending generalizing blocks outstanding with
  | nil =>
    cases outstanding with
    | nil => rfl
    | cons => exact chain.elim
  | cons checkpoint rest ih =>
    cases outstanding with
    | nil => exact chain.elim
    | cons => exact congrArg succ (ih chain.2)

theorem Chain.push (chain : Chain hash node isNova blocks pending outstanding current)
    (step : ∀ blocks, Replayed hash node isNova blocks current →
      Replayed hash node isNova (blocks ++ [block]) later)
    {checkpoint : Checkpoint F (Trees F)} (isBefore : checkpoint.before = current) :
    Chain hash node isNova blocks (pending ++ [checkpoint]) (outstanding ++ [block]) later := by
  induction pending generalizing blocks outstanding with
  | nil =>
    cases outstanding with
    | nil => exact ⟨isBefore ▸ chain, step blocks chain⟩
    | cons => exact chain.elim
  | cons first rest ih =>
    cases outstanding with
    | nil => exact chain.elim
    | cons => exact ⟨chain.1, ih chain.2⟩

section

variable {journal : Journal F (Trees F)}
  (chain : Chain hash node isNova blocks journal.pending outstanding journal.current)
include chain

theorem Chain.tip : Replayed hash node isNova blocks journal.tip := by
  rcases journal with ⟨current, _ | ⟨checkpoint, rest⟩, started⟩
  · cases outstanding with
    | nil => exact chain
    | cons => exact chain.elim
  · cases outstanding with
    | nil => exact chain.elim
    | cons => exact chain.1

theorem Chain.confirm {root : F} (confirms : journal.confirms root = true) (isFront : outstanding.head? = some block) :
    Chain hash node isNova (blocks ++ [block]) (journal.confirm root).pending
      (outstanding.drop (outstanding.length - (journal.confirm root).pending.length))
      (journal.confirm root).current := by
  have isLength := chain.length
  rw [Journal.confirm, if_pos confirms]
  rcases journal with ⟨current, _ | ⟨checkpoint, rest⟩, started⟩
  · cases confirms
  · cases outstanding with
    | nil => cases isFront
    | cons front others =>
      cases isFront
      have one : (block :: others).length - rest.length = 1 := by
        rw [← isLength, length_cons, Nat.add_sub_cancel_left]
      rw [tail_cons, one, drop_one, tail_cons]
      exact chain.2

end

variable {setting : Setting F A H T} {state after : ProposerState F A} {event : BlockProposed T A}

theorem process_ok (isNumber : state.expected = event.number)
    (areTransactions : event.transactions.mapM setting.convert = some block.transactions)
    (isRoot : setting.fromWord event.commitmentsRoot = some block.commitmentsRoot)
    (ran : (setting.process event).run state = (.ok (), after)) :
    ∃ sender current rootBefore updated, event.sender = .ok (some sender) ∧ event.currentBlockNumber = .ok current ∧
      state.journal.current.commitments.metadata.map TreeMetadata.root = some rootBefore ∧
      Updated setting.hash setting.treeHash setting.ourAddress sender block.transactions
        block.commitmentsRoot rootBefore
        ⟨state.journal, state.expected + 1, statusFor state current, state.blocks⟩ updated ∧
      after.journal = updated.journal ∧ after.expected = state.expected + 1 := by
  obtain ⟨sender, _, isSender, alsoTransactions, -, handled⟩ := (processProposeBlockEvent_next isNumber).mp ran
  obtain ⟨current, _, rootBefore, updated, isCurrent, alsoRoot, isBefore, outcome, rfl⟩ := handleNext_eq_ok.mp handled
  cases areTransactions.symm.trans alsoTransactions
  cases isRoot.symm.trans alsoRoot
  refine ⟨sender, current, rootBefore, updated, isSender, isCurrent, isBefore, outcome, rfl, ?_⟩
  cases outcome <;> rfl

theorem process_run (isNumber : state.expected = event.number) {sender : A}
    (isSender : event.sender = .ok (some sender))
    (areTransactions : event.transactions.mapM setting.convert = some block.transactions)
    (isRoot : setting.fromWord event.commitmentsRoot = some block.commitmentsRoot) {current : ℕ}
    (isCurrent : event.currentBlockNumber = .ok current)
    (isStored : ∀ stored, getBlockByNumber state.blocks event.number = some stored →
      stored.hash setting.digest = setting.digest (blockCommitments block.transactions) sender) {rootBefore : F}
    (isBefore : state.journal.current.commitments.metadata.map TreeMetadata.root = some rootBefore)
    (outcome : Updated setting.hash setting.treeHash setting.ourAddress sender block.transactions block.commitmentsRoot
      rootBefore ⟨state.journal, state.expected + 1, statusFor state current, state.blocks⟩ after) :
    (setting.process event).run state = (.ok (), ⟨after.journal, after.expected, decide (current = event.number + 1),
      storeBlock ⟨event.number, blockCommitments block.transactions, sender⟩ after.blocks⟩) :=
  (processProposeBlockEvent_next isNumber).mpr ⟨sender, block.transactions, isSender, areTransactions, isStored,
    handleNext_eq_ok.mpr ⟨current, _, rootBefore, after, isCurrent, isRoot, isBefore, outcome, rfl⟩⟩

theorem run_expected {allowed : ProposerState F A → List (ChainBlock F) → BlockProposed T A → ChainBlock F → Prop}
    {handled proved : List (ChainBlock F)} (run : Run setting allowed handled outstanding proved state) :
    state.expected = handled.length := by
  induction run with
  | start => rfl
  | prove _ _ _ ih => exact ih
  | rollback _ ih => exact ih
  | event _ isNumber areTransactions isRoot _ _ ran ih =>
    obtain ⟨_, _, _, _, _, _, _, _, _, isExpected⟩ :=
      process_ok (ih.trans isNumber.symm) areTransactions isRoot ran
    rw [isExpected, ih, length_append, length_singleton]

omit [NatCast F] [ToString F] [Zero F] in
theorem journal_prove (journal : Journal F (Trees F)) (trees : Trees F) (root : F) :
    journal.run [.start, .change trees, .settle root] =
      ⟨trees, journal.pending ++ [⟨journal.started, some root, journal.current⟩], journal.started + 1⟩ := by
  simp only [Journal.run, foldl_cons, foldl_nil, Journal.act, Journal.start]
  rw [Journal.settle_open root rfl rfl]

theorem initialise_replayed {hash : F → F → F → F} {node : F → F → F} {isNova : Bool}
    (ran : (initialise hash node isNova).run .empty = (.ok (), trees)) :
    Replayed hash node isNova [] trees := by
  obtain ⟨committed, historic, nullified, _, isCommitted, -, isNullified, appended⟩ := initialise_eq_ok.mp ran
  obtain ⟨_, -, -, sameCommitments, sameNullifiers⟩ := appendHistoricCommitmentRoot_parts appended
  refine ⟨⟨committed, nullified, .empty⟩, ?_, sameCommitments, sameNullifiers⟩
  rw [replay, newCommitmentTree, bind_ok (onCommitments_ok isCommitted), newNullifierTree,
    bind_ok (@onNullifiers_ok F _ _ { Trees.empty with commitments := committed } _ _ isNullified)]
  rfl

end

section

open Classical in
/-- A `find_one` that returns node `k` if that one matches. -/
noncomputable def favouring {F : Type} (k : ℕ) : FindOne F := fun nodes value =>
  if nodes k = some value then some k
  else if found : ∃ index, nodes index = some value then some found.choose else none

theorem favouring_lawful {F : Type} (k : ℕ) : (favouring k : FindOne F).Lawful where
  sound := by
    intro nodes value index isFound
    unfold favouring at isFound
    split at isFound
    · next first =>
      cases isFound
      exact first
    · split at isFound <;> cases isFound
      exact Exists.choose_spec ‹_›
  complete := by
    intro nodes value index isValue
    unfold favouring
    split
    · rfl
    · rw [dif_pos ⟨index, isValue⟩, Option.isSome_some]

noncomputable def sampleSetting : Setting ℕ ℕ (List ℕ × ℕ) (OnChainTransaction ℕ) :=
  ⟨fun a b c => a + b + c, fun a b => a + b, Prod.mk, some, some, favouring 0, 0, true⟩

variable (commitment : ℕ)

def sampleBlock : List (OnChainTransaction ℕ) :=
  ⟨0, fun _ => commitment, fun _ => 0, fun _ => 0, 0, 0⟩ :: List.replicate 63 .default

theorem sampleBlock_length : (sampleBlock commitment).length = 64 := by
  simp [sampleBlock]

theorem sampleBlock_nullifiers : ∀ value ∈ blockNullifiers (sampleBlock commitment), value = 0 := by
  intro value member
  obtain ⟨transaction, inside, isValue⟩ := mem_flatMap.mp member
  obtain ⟨_, rfl⟩ := mem_ofFn.mp isValue
  rcases mem_cons.mp inside with rfl | padding
  · rfl
  · rw [eq_of_mem_replicate padding]
    rfl

theorem sampleBlock_insertable {leaves : List ℕ} {count : ℕ} (few : leaves.length ≤ 1000)
    (low : count ≤ 1000) : Insertable sampleSetting.isNova (sampleBlock commitment) leaves count [⟨0, 0⟩] where
  aligned := ⟨256, by rw [sampleBlock_length]; rfl⟩
  commitments := by
    rw [sampleBlock_length, show treeHeight sampleSetting.isNova = 32 from rfl,
      show subTreeHeight sampleSetting.isNova = 0 from rfl]
    omega
  nullifiers := by
    rw [sampleBlock_length, show treeHeight sampleSetting.isNova = 32 from rfl,
      show subTreeHeight sampleSetting.isNova = 0 from rfl]
    omega
  fresh := by
    rw [placed_zeros (sampleBlock_nullifiers commitment)]
    decide

theorem le_levels (height : ℕ) (leaves : ℕ → ℕ) : leaves 0 ≤ levels (fun a b => a + b) height leaves 0 := by
  induction height generalizing leaves with
  | zero => exact le_refl _
  | succ height ih => exact (le_add_right _ _).trans (ih (level (fun a b => a + b) leaves))

theorem mapM_some {α : Type} (items : List α) : items.mapM some = some items := by
  induction items with
  | nil => rfl
  | cons item rest ih => rw [mapM_cons, ih]; rfl

abbrev SampleStanding := Standing sampleSetting.hash sampleSetting.treeHash sampleSetting.isNova

theorem SampleStanding.nonzero {commitment count : ℕ} {entries : List (Entry ℕ)} {roots : List ℕ} {trees : Trees ℕ}
    (standing : SampleStanding (blockCommitments (sampleBlock commitment)) count entries roots trees)
    (positive : 0 < commitment) :
    ∃ root, trees.commitments.metadata.map TreeMetadata.root = some root ∧ root ≠ 0 := by
  refine ⟨_, congrArg (Option.map TreeMetadata.root) standing.commitments.metadata, ?_⟩
  have first := le_levels 32 fun i => (blockCommitments (sampleBlock commitment)).getD i 0
  exact pos_iff_ne_zero.mp (positive.trans_le first)

def otherBlock : BlockProposed (OnChainTransaction ℕ) ℕ := ⟨0, sampleBlock 5, 20, .ok (some 1), .ok 1⟩

theorem SampleStanding.process {roots : List ℕ} {start : Trees ℕ} (standing : SampleStanding [] 1 [⟨0, 0⟩] roots start)
    (room : roots.length < 2 ^ 32) (started : ℕ) {blocks : List (StoredBlock ℕ ℕ)}
    (areStored : blocks ⊆ [⟨0, blockCommitments (sampleBlock 5), 1⟩]) :
    ∃ trees, (sampleSetting.process otherBlock).run ⟨⟨start, [], started⟩, 0, false, blocks⟩ =
        (.ok (), ⟨⟨trees, [], started⟩, 1, true, storeBlock ⟨0, blockCommitments (sampleBlock 5), 1⟩ blocks⟩) ∧
      SampleStanding (blockCommitments (sampleBlock 5)) 257 [⟨0, 0⟩] (roots ++ [20]) trees := by
  obtain ⟨trees, rebuilt, stands⟩ := standing.rebuild zero_le
    (sampleBlock_insertable 5 (zero_le _) (by decide)) room 20
  rw [placed_zeros (sampleBlock_nullifiers 5), blockNullifiers_length, sampleBlock_length] at stands
  obtain ⟨rootBefore, isBefore⟩ := standing.root
  have outcome : Updated sampleSetting.hash sampleSetting.treeHash 0 1 (sampleBlock 5) 20 rootBefore
      (⟨⟨start, [], started⟩, 1, true, blocks⟩ : ProposerState ℕ ℕ) ⟨⟨trees, [], started⟩, 1, true, blocks⟩ :=
    .rebuilt (fun own => absurd own (by decide)) (Or.inl (by decide)) rebuilt
  refine ⟨trees, @process_run ℕ ℕ (List ℕ × ℕ) (OnChainTransaction ℕ) _ _ _ _ _ _ ⟨sampleBlock 5, 20⟩ sampleSetting
    ⟨⟨start, [], started⟩, 0, false, blocks⟩ _ otherBlock rfl 1 rfl (mapM_some _) rfl 1 rfl ?_ _ isBefore outcome,
    stands⟩
  intro stored found
  rw [mem_singleton.mp (areStored (mem_of_find?_eq_some found))]
  rfl

theorem sample_initialised : ∃ start,
    (initialise sampleSetting.hash sampleSetting.treeHash sampleSetting.isNova).run .empty = (.ok (), start) ∧
      SampleStanding [] 1 [⟨0, 0⟩] [0] start := standing_initialise rfl

section

variable {allowed : ProposerState ℕ ℕ → List (ChainBlock ℕ) → BlockProposed (OnChainTransaction ℕ) ℕ →
  ChainBlock ℕ → Prop}
  (isAllowed : ∀ state, allowed state [] otherBlock ⟨sampleBlock 5, 20⟩)

include isAllowed

theorem sample_other : ∃ trees, Run sampleSetting allowed [⟨sampleBlock 5, 20⟩] [] []
        ⟨⟨trees, [], 0⟩, 1, true, [⟨0, blockCommitments (sampleBlock 5), 1⟩]⟩ ∧
      SampleStanding (blockCommitments (sampleBlock 5)) 257 [⟨0, 0⟩] [0, 20] trees := by
  obtain ⟨start, isStart, standing⟩ := sample_initialised
  obtain ⟨trees, ran, stands⟩ := standing.process (by decide) 0 (nil_subset _)
  refine ⟨trees, ?_, stands⟩
  have begun : Run sampleSetting allowed [] [] [] ⟨.fresh start, 0, false, []⟩ := .start false isStart
  have foreign : ¬otherBlock.sender = .ok (some sampleSetting.ourAddress) := by simp [otherBlock, sampleSetting]
  have areTransactions : otherBlock.transactions.mapM sampleSetting.convert = some (sampleBlock 5) := mapM_some _
  exact @Run.event ℕ ℕ (List ℕ × ℕ) (OnChainTransaction ℕ) _ _ _ _ _ _ _ _ _ _ _ _ _ otherBlock ⟨sampleBlock 5, 20⟩
    begun rfl areTransactions rfl (fun own => absurd own foreign) (isAllowed _) ran

def ownBlock (root : ℕ) : BlockProposed (OnChainTransaction ℕ) ℕ := ⟨1, sampleBlock 7, root, .ok (some 0), .ok 2⟩

def sampleStored : List (StoredBlock ℕ ℕ) :=
  [⟨0, blockCommitments (sampleBlock 5), 1⟩, ⟨1, blockCommitments (sampleBlock 7), 0⟩]

theorem sample_proved : ∃ root trees after, Run sampleSetting allowed [⟨sampleBlock 5, 20⟩] [⟨sampleBlock 7, root⟩]
        [⟨sampleBlock 7, root⟩] ⟨⟨after, [⟨0, some root, trees⟩], 1⟩, 1, true, sampleStored⟩ ∧
      SampleStanding (blockCommitments (sampleBlock 5)) 257 [⟨0, 0⟩] [0, 20] trees ∧
      (∃ rootBefore, after.commitments.metadata.map TreeMetadata.root = some rootBefore) ∧
      after.historic.metadata = trees.historic.metadata := by
  obtain ⟨trees, run, standing⟩ := sample_other isAllowed
  obtain ⟨root, committed, nullified, cache, -, ran, holds, -⟩ := standing.prepare zero_le
    (sampleBlock_insertable 7 (by rw [blockCommitments_length, sampleBlock_length]; decide) (by decide)) (by decide)
    sampleSetting.findOne
  exact ⟨root, trees, _, .prove sampleStored run ran, standing,
    ⟨_, congrArg (Option.map TreeMetadata.root) holds.metadata⟩, rfl⟩

omit isAllowed in
theorem sample_own {root rootBefore : ℕ} {outstanding : List (ChainBlock ℕ)} {journal : Journal ℕ (Trees ℕ)}
    {updated : ProposerState ℕ ℕ}
    (run : Run sampleSetting allowed [⟨sampleBlock 5, 20⟩] outstanding [⟨sampleBlock 7, root⟩]
      ⟨journal, 1, true, sampleStored⟩)
    (isBefore : journal.current.commitments.metadata.map TreeMetadata.root = some rootBefore)
    (outcome : Updated sampleSetting.hash sampleSetting.treeHash 0 0 (sampleBlock 7) root rootBefore
      ⟨journal, 2, true, sampleStored⟩ updated)
    (isAllowed : allowed ⟨journal, 1, true, sampleStored⟩ outstanding (ownBlock root) ⟨sampleBlock 7, root⟩) :
    ∃ state, Run sampleSetting allowed [⟨sampleBlock 5, 20⟩, ⟨sampleBlock 7, root⟩]
        (outstanding.drop (outstanding.length - updated.journal.pending.length)) [⟨sampleBlock 7, root⟩] state ∧
      state.journal = updated.journal := by
  have isStored : ∀ stored, getBlockByNumber sampleStored 1 = some stored →
      stored.hash sampleSetting.digest = sampleSetting.digest (blockCommitments (sampleBlock 7)) 0 := by
    rintro _ ⟨⟩
    rfl
  have handled := @process_run ℕ ℕ (List ℕ × ℕ) (OnChainTransaction ℕ) _ _ _ _ _ _ ⟨sampleBlock 7, root⟩ sampleSetting
    ⟨journal, 1, true, sampleStored⟩ _ (ownBlock root) rfl 0 rfl (mapM_some _) rfl 2 rfl isStored _ isBefore outcome
  have areTransactions : (ownBlock root).transactions.mapM sampleSetting.convert = some (sampleBlock 7) := mapM_some _
  have next := @Run.event ℕ ℕ (List ℕ × ℕ) (OnChainTransaction ℕ) _ _ _ _ _ _ _ _ _ _ _ _ _ (ownBlock root)
    ⟨sampleBlock 7, root⟩ run rfl areTransactions rfl (fun _ => mem_singleton_self _) isAllowed handled
  exact ⟨_, next, rfl⟩

end

/-- Block 0 is another proposer's, block 1 is ours, proved and confirmed. -/
theorem sample_confirmed : ∃ root proved state, Run sampleSetting (InStep sampleSetting)
        [⟨sampleBlock 5, 20⟩, ⟨sampleBlock 7, root⟩] [] proved state ∧ state.journal.pending = [] ∧
      ∃ trees, SampleStanding (blockCommitments (sampleBlock 5)) 257 [⟨0, 0⟩] [0, 20] trees ∧
        state.journal.current.historic.metadata = trees.historic.metadata := by
  have foreign : ¬otherBlock.sender = .ok (some sampleSetting.ourAddress) := by simp [otherBlock, sampleSetting]
  obtain ⟨root, trees, after, run, standing, ⟨rootBefore, isBefore⟩, sameMetadata⟩ :=
    @sample_proved (InStep sampleSetting) fun _ own => absurd own foreign
  have confirms : (⟨after, [⟨0, some root, trees⟩], 1⟩ : Journal ℕ (Trees ℕ)).confirms root = true := decide_eq_true rfl
  obtain ⟨state, isRun, isJournal⟩ := sample_own run isBefore (.confirmed rfl confirms) (by
    intro _
    rw [if_pos confirms]
    rfl)
  simp only [Journal.confirm, if_pos confirms] at isRun isJournal
  exact ⟨root, _, state, isRun, by rw [isJournal]; rfl, trees, standing, by rw [isJournal]; exact sameMetadata⟩

end

end Nightfall.Proposer
