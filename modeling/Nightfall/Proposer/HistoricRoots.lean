import Mathlib.Data.Nat.Pairing
import Nightfall.Proposer.Following

/-! The historic-root tree of the proposer over runs. Only the append path of an event extends it; proving
a block computes the next root without keeping it. -/

namespace Nightfall.Proposer

open Merkle Store Store.Program MerkleTrees MutableTree IndexedTree Checkpoints List

section

variable {F : Type} [Zero F] {node : F → F → F} {roots : List F} {db later : MutableDb F}

variable (node) in
structure Recorded (roots : List F) (db : MutableDb F) : Prop where
  holds : HoldsList node 32 0 roots db
  fits : roots.length ≤ 2 ^ 32
  bounded : ∀ k value, db.nodes k = some value → k < 2 ^ 33 - 1
  stored : ∀ i root, roots[i]? = some root → db.nodes (slot 32 i) = some root

theorem recorded_new (idle : node 0 0 = 0) (ran : (newMutableTree 32 0).run .empty = (.ok (), db)) :
    Recorded node [] db := by
  obtain ⟨_, isNew, holds⟩ := @holds_new F _ node 32 0 idle (by decide)
  cases ran.symm.trans isNew
  have isDb : (newMutableTree 32 0).run (MutableDb.empty : MutableDb F) =
      (.ok (), ⟨some ⟨32, 0, 0, 0⟩, fun _ => none, fun _ => none⟩) := rfl
  cases isNew.symm.trans isDb
  refine ⟨⟨0, rfl, holds⟩, Nat.zero_le _, ?_, ?_⟩
  · intro k value isStored
    cases isStored
  · intro i root isRoot
    cases isRoot

theorem Recorded.append (recorded : Recorded node roots db) {root : F} {result : F × ℕ}
    (ran : (appendSubTrees node [root] true).run db = (.ok result, later)) :
    Recorded node (roots ++ [root]) later := by
  have fits := recorded.fits
  obtain ⟨appends, -⟩ := appendSubTrees_ok recorded.holds (by decide) (by rw [pow_zero, Nat.mul_one]; exact fits) ran
  have room := appends.room
  refine ⟨appends.holds, room, ?_, ?_⟩
  · intro k value isStored
    by_cases touched : AppendTouches 32 0 (roots.length / 2 ^ 0) ((roots ++ [root]).length / 2 ^ 0) k
    · exact appends.moves.within k touched
    · rw [appends.moves.written.outside k touched] at isStored
      exact recorded.bounded k value isStored
  · intro i value isValue
    have below : i < 2 ^ 32 := (List.getElem?_eq_some_iff.mp isValue).1.trans_le room
    have isLeaf : heap node (32 + 0) (fun i => (roots ++ [root]).getD i 0) (slot 32 i) = value := by
      rw [heap_slot below]
      show (roots ++ [root]).getD i 0 = value
      rw [List.getD_eq_getElem?_getD, isValue, Option.getD_some]
    by_cases touched : AppendTouches 32 0 (roots.length / 2 ^ 0) ((roots ++ [root]).length / 2 ^ 0) (slot 32 i)
    · rw [appends.moves.written.inside _ touched, isLeaf]
    · have earlier : i < roots.length := by
        have inside := (List.getElem?_eq_some_iff.mp isValue).1
        rw [List.length_append, List.length_singleton] at inside
        by_contra late
        have last : i = roots.length := by omega
        refine touched ⟨i, ?_, ?_, Or.inl ⟨32, le_refl _, ?_⟩⟩
        · rw [pow_zero, Nat.div_one, last]
        · rw [pow_zero, Nat.div_one, List.length_append, List.length_singleton, last]
          exact Nat.lt_succ_self _
        · rw [Nat.sub_self, pow_zero, Nat.div_one]
      rw [appends.moves.written.outside _ touched]
      rw [List.getElem?_append_left earlier] at isValue
      exact recorded.stored i value isValue

theorem Recorded.isLeaf (recorded : Recorded node roots db) {findOne : FindOne F} (lawful : findOne.Lawful)
    {root : F} (member : root ∈ roots) (outer : ∀ k < 2 ^ 32 - 1, db.nodes k ≠ some root) :
    (isLeaf findOne root).run db = (.ok true, db) := by
  obtain ⟨i, isRoot⟩ := mem_iff_getElem?.mp member
  have isStored := recorded.stored i root isRoot
  obtain ⟨k, found⟩ := Option.isSome_iff_exists.mp (lawful.complete db.nodes root _ isStored)
  have atNode := lawful.sound db.nodes root k found
  have below := recorded.bounded k root atNode
  have above : 2 ^ 32 - 1 ≤ k := not_lt.mp fun inner => outer k inner atNode
  rw [MutableTree.isLeaf, bind_ok (getMetadata_run recorded.holds.metadata), reads_run, found]
  dsimp only
  congr 2
  rw [decide_eq_true_iff]
  omega

variable (node) in
/-- A historic-root tree with the roots appended one by one. -/
inductive AppendedRoots : List F → MutableDb F → Prop
  | new {db : MutableDb F} (ran : (newMutableTree 32 0).run .empty = (.ok (), db)) : AppendedRoots [] db
  | append {roots : List F} {root : F} {result : F × ℕ} {db later : MutableDb F} (before : AppendedRoots roots db)
      (ran : (appendSubTrees node [root] true).run db = (.ok result, later)) : AppendedRoots (roots ++ [root]) later

theorem AppendedRoots.recorded (idle : node 0 0 = 0) (appended : AppendedRoots node roots db) :
    Recorded node roots db := by
  induction appended with
  | new ran => exact recorded_new idle ran
  | append _ ran ih => exact ih.append ran

theorem Recorded.leaf_mem (recorded : Recorded node (0 :: roots) db) {k : ℕ} {x : F}
    (isStored : db.nodes k = some x) (outside : ¬k < 2 ^ 32 - 1) : x ∈ 0 :: roots := by
  obtain ⟨i, rfl⟩ : ∃ i, k = slot 32 i := ⟨k - (2 ^ 32 - 1), by rw [slot]; omega⟩
  have inside := recorded.bounded _ x isStored
  rw [slot] at inside
  obtain ⟨_, -, held⟩ := recorded.holds
  have isLeaf := held.heaped 32 le_rfl i (by omega)
  rw [MutableTree.lookup, held.uncached, isStored] at isLeaf
  change x = (0 :: roots).getD i 0 at isLeaf
  rcases lt_or_ge i (0 :: roots).length with listed | free
  · rw [getD_eq_getElem _ _ listed] at isLeaf
    exact isLeaf ▸ getElem_mem listed
  · rw [getD_eq_default _ _ free] at isLeaf
    exact isLeaf ▸ mem_cons_self

/-- The answer is right, whichever matching node is found, exactly for the values that are no root and the roots that
no inner node has. -/
theorem isLeaf_iff_appended [DecidableEq F] (idle : node 0 0 = 0)
    (appended : AppendedRoots node (0 :: roots) db)
    (x : F) :
    (∀ findOne : FindOne F, findOne.Lawful → (isLeaf findOne x).run db = (.ok (decide (x ∈ 0 :: roots)), db)) ↔
      (x ∈ 0 :: roots → ∀ k < 2 ^ 32 - 1, db.nodes k ≠ some x) := by
  have recorded := appended.recorded idle
  constructor
  · intro right member k inner isStored
    have answer := right (favouring k) (favouring_lawful k)
    rw [isLeaf, bind_ok (getMetadata_run recorded.holds.metadata), reads_run, favouring, if_pos isStored,
      decide_eq_true member] at answer
    have above := of_decide_eq_true (Except.ok.inj (congrArg Prod.fst answer))
    dsimp only at above
    omega
  · intro outer findOne lawful
    by_cases member : x ∈ 0 :: roots
    · rw [recorded.isLeaf lawful member (outer member), decide_eq_true member]
    · rw [isLeaf, bind_ok (getMetadata_run recorded.holds.metadata), reads_run, decide_eq_false member]
      cases found : findOne db.nodes x with
      | none => rfl
      | some k =>
        have inner := not_imp_comm.mp (recorded.leaf_mem (lawful.sound db.nodes x k found)) member
        dsimp only
        congr 2
        rw [decide_eq_false_iff_not]
        omega

theorem Recorded.dryRun (recorded : Recorded node roots db) {root : F} {result : F × ℕ}
    (ran : (appendSubTrees node [root] false).run db = (.ok result, later)) :
    result.1 = levels node 32 (fun i => (roots ++ [root]).getD i 0) 0 := by
  obtain ⟨aligned, room⟩ := appendSubTrees_fits recorded.holds.metadata (by decide) (congrArg Prod.fst ran)
  obtain ⟨count, isLength, held⟩ := recorded.holds
  have fits := room (cons_ne_nil _ _)
  rw [isLength, Nat.mul_div_cancel _ (Nat.two_pow_pos 0)] at fits
  have isTree := writeAt_list 0 roots [root]
  rw [isLength] at isTree
  obtain ⟨_, isRun, -⟩ := appendSubTrees_dryRun held (by decide) aligned rfl (cons_ne_nil _ _) fits isTree.symm
  cases ran.symm.trans isRun
  rfl

end

section

variable {F A H T : Type} [LinearOrder F] [Zero F] [NatCast F] [ToString F] [DecidableEq A] [DecidableEq H]
  {setting : Setting F A H T} {handled outstanding proved : List (ChainBlock F)} {state : ProposerState F A}

def Appending (setting : Setting F A H T) (state : ProposerState F A) (_ : List (ChainBlock F))
    (event : BlockProposed T A) (block : ChainBlock F) : Prop :=
  event.sender = .ok (some setting.ourAddress) →
    state.journal.confirms block.commitmentsRoot = false ∧ Appended setting state event

def historicLeaves (blocks : List (ChainBlock F)) : List F := 0 :: blocks.map ChainBlock.commitmentsRoot

omit [NatCast F] [ToString F] [Zero F] in
theorem tip_prove (journal : Journal F (Trees F)) (trees : Trees F) (root : F) :
    (journal.run [.start, .change trees, .settle root]).tip = journal.tip := by
  rw [journal_prove]
  rcases journal with ⟨current, _ | ⟨checkpoint, rest⟩, started⟩ <;> rfl

omit [ToString F] in
theorem initialise_recorded {hash : F → F → F → F} {node : F → F → F} {isNova : Bool} {trees : Trees F}
    (idle : node 0 0 = 0) (ran : (initialise hash node isNova).run .empty = (.ok (), trees)) :
    Recorded node [0] trees.historic := by
  obtain ⟨_, historic, _, _, -, isHistoric, -, last⟩ := initialise_eq_ok.mp ran
  obtain ⟨_, appended, -⟩ := appendHistoricCommitmentRoot_parts last
  exact (recorded_new idle isHistoric).append appended

theorem run_recorded (idle : setting.treeHash 0 0 = 0)
    (run : Run setting (Appending setting) handled outstanding proved state) :
    Recorded setting.treeHash (historicLeaves handled) state.journal.tip.historic := by
  induction run with
  | start _ ran => exact initialise_recorded idle ran
  | prove _ _ _ ih =>
    rw [tip_prove]
    exact ih
  | rollback _ ih => exact ih
  | @event handled outstanding proved state later event block run isNumber areTransactions isRoot _ appending ran ih =>
    obtain ⟨sender, current, rootBefore, updated, isSender, isCurrent, isBefore, outcome, isJournal, -⟩ :=
      process_ok ((run_expected run).trans isNumber.symm) areTransactions isRoot ran
    rw [isJournal]
    cases outcome with
    | confirmed own confirms =>
      obtain ⟨unconfirmed, -⟩ := appending (by rw [isSender, own])
      exact absurd confirms (by rw [unconfirmed]; exact Bool.false_ne_true)
    | rebuilt _ _ rebuilt =>
      obtain ⟨middle, appended, _, isAppended⟩ := rebuilt.appended
      obtain ⟨_, -, -, -, sameHistoric⟩ := appendLeaves_parts rfl rfl appended
      obtain ⟨_, extended, -⟩ := appendHistoricCommitmentRoot_parts isAppended
      rw [sameHistoric] at extended
      have recorded := ih.append extended
      rw [historicLeaves, map_append, ← cons_append]
      exact recorded
    | skipped own unconfirmed synchronised nonzero =>
      obtain ⟨-, isAppended⟩ := appending (by rw [isSender, own])
      rcases isAppended rootBefore current isBefore isCurrent (by rw [isSender, own]) with desynchronised | zero
      · rw [desynchronised] at synchronised
        cases synchronised
      · exact absurd zero nonzero

theorem historic_roots (idle : setting.treeHash 0 0 = 0) (lawful : setting.findOne.Lawful)
    (run : Run setting (Appending setting) handled outstanding proved state) (empty : state.journal.pending = []) :
    HoldsList setting.treeHash 32 0 (historicLeaves handled) state.journal.current.historic ∧
      (∀ root ∈ historicLeaves handled, (∀ k < 2 ^ 32 - 1, state.journal.current.historic.nodes k ≠ some root) →
        (isHistoricRoot setting.findOne root).run state.journal.current = (.ok true, state.journal.current)) ∧
      ∀ transactions roots trees,
        (prepareTrees setting.hash setting.treeHash setting.findOne transactions).run state.journal.current =
          (.ok roots, trees) →
        roots.2.2 = levels setting.treeHash 32 (fun i => (historicLeaves handled ++ [roots.1]).getD i 0) 0 := by
  have recorded := run_recorded idle run
  rw [show state.journal.tip = state.journal.current by rw [Journal.tip, empty]; rfl] at recorded
  refine ⟨recorded.holds, ?_, ?_⟩
  · intro root member outer
    exact onHistoric_ok (recorded.isLeaf lawful member outer)
  · intro transactions roots trees ran
    obtain ⟨middle, inserted, -, -, dryRun⟩ := prepareTrees_eq_ok.mp ran
    obtain ⟨_, _, first, afterFirst⟩ := bind_eq_ok.mp inserted
    obtain ⟨_, _, second, isLast⟩ := bind_eq_ok.mp afterFirst
    cases isLast
    obtain ⟨committed, -, rfl⟩ := zoom_eq_ok.mp first
    obtain ⟨nullified, -, rfl⟩ := zoom_eq_ok.mp second
    obtain ⟨result, isRun, isRoot, -⟩ := appendHistoricCommitmentRoot_parts dryRun
    rw [← isRoot]
    exact recorded.dryRun isRun

end

theorem Recorded.inner {F : Type} [Zero F] {node : F → F → F} {roots : List F} {db : MutableDb F}
    (recorded : Recorded node roots db) {k : ℕ} (inner : k < 2 ^ 32 - 1) {x : F} (isStored : db.nodes k = some x) :
    ∃ left right, x = node left right := by
  obtain ⟨depth, i, inside, rfl⟩ := exists_slot k
  have under : depth < 32 := depth_lt_of_slot_lt inner
  obtain ⟨_, -, held⟩ := recorded.holds
  have isNode := held.heaped depth (by omega) i inside
  rw [MutableTree.lookup, held.uncached, isStored] at isNode
  obtain ⟨height, isHeight⟩ : ∃ height, 32 + 0 - depth = height + 1 := ⟨31 - depth, by omega⟩
  rw [isHeight, levels_succ] at isNode
  exact ⟨_, _, isNode⟩

theorem isLeaf_iff_appended_seven : ∃ db, AppendedRoots (fun a b => min 1 (a + b)) [0, 7] db ∧
    (isLeaf (favouring 0) 7).run db = (.ok true, db) := by
  obtain ⟨db, appended⟩ : ∃ db, AppendedRoots (fun a b => min 1 (a + b)) [0, 7] db :=
    ⟨_, .append (.append (.new rfl) rfl) rfl⟩
  refine ⟨db, appended, (isLeaf_iff_appended rfl appended 7).mpr ?_ _ (favouring_lawful 0)⟩
  intro _ k inner isStored
  obtain ⟨left, right, isNode⟩ := (appended.recorded rfl).inner inner isStored
  omega

/-- Every node above the first root is zero too, and `find_one` may return it. -/
theorem zero_root_missed : ∃ db, AppendedRoots Nat.pair [0] db ∧ (isLeaf (favouring 0) 0).run db = (.ok false, db) := by
  obtain ⟨start, db, result, isNew, ran, isStored, isMetadata⟩ : ∃ start db result,
      (newMutableTree 32 0).run (.empty : MutableDb ℕ) = (.ok (), start) ∧
      (appendSubTrees Nat.pair [0] true).run start = (.ok result, db) ∧
      db.nodes 0 = some 0 ∧ db.metadata = some ⟨32, 0, 1, 0⟩ := ⟨_, _, _, rfl, rfl, rfl, rfl⟩
  refine ⟨db, .append (.new isNew) ran, ?_⟩
  rw [isLeaf, bind_ok (getMetadata_run isMetadata), reads_run, favouring, if_pos isStored]
  rfl

theorem historic_roots_other :
    ∃ state, Run sampleSetting (Appending sampleSetting) [⟨sampleBlock 5, 20⟩] [] [] state ∧
      state.journal.pending = [] ∧ HoldsList sampleSetting.treeHash 32 0 [0, 20] state.journal.current.historic := by
  have foreign : ¬otherBlock.sender = .ok (some sampleSetting.ourAddress) := by simp [otherBlock, sampleSetting]
  obtain ⟨trees, run, -⟩ := @sample_other (Appending sampleSetting) fun _ own => absurd own foreign
  exact ⟨_, run, rfl, (historic_roots rfl (favouring_lawful 0) run rfl).1⟩

theorem own_root_missing :
    ∃ root proved state, Run sampleSetting (InStep sampleSetting) [⟨sampleBlock 5, 20⟩, ⟨sampleBlock 7, root⟩] []
        proved state ∧ state.journal.pending = [] ∧
      ¬HoldsList sampleSetting.treeHash 32 0 [0, 20, root] state.journal.current.historic := by
  obtain ⟨root, proved, state, run, empty, trees, standing, sameMetadata⟩ := sample_confirmed
  refine ⟨root, proved, state, run, empty, ?_⟩
  intro listed
  have metadata := standing.historic.metadata.symm.trans (sameMetadata.symm.trans listed.metadata)
  have counts := congrArg TreeMetadata.subTreeCount (Option.some.inj metadata)
  simp at counts

end Nightfall.Proposer
