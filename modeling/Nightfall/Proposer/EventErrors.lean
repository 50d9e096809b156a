import Nightfall.Proposer.Events

/-! Which errors of the event handler come before the block number is advanced, and which after it, and
what the handler does to the journal. -/

namespace Nightfall.Proposer

open Store Store.Program MerkleTrees MutableTree IndexedTree Checkpoints

def EventHandlerError.Early {H : Type} : EventHandlerError H → Prop
  | .ioError message => message = "Could not retrieve transaction"
  | .missingBlocks _ => True
  | .blockHashError _ _ => True

def HandlerStop.Late {H : Type} : HandlerStop H → Prop
  | .returned error => ¬error.Early
  | .panicked => True

/-- What the handler refuses before it advances the number. -/
def BlockProposed.Refused {F A H T : Type} (digest : List F → A → H) (convert : T → Option (OnChainTransaction F))
    (state : ProposerState F A) (event : BlockProposed T A) : Prop :=
  event.sender = .error () ∨ state.expected < event.number ∨
    ∃ sender transactions stored, event.sender = .ok (some sender) ∧
      event.transactions.mapM convert = some transactions ∧ getBlockByNumber state.blocks event.number = some stored ∧
      stored.hash digest ≠ digest (blockCommitments transactions) sender

section

variable {F A : Type} [DecidableEq F]

/-- The journal moves by its actions. -/
def Acted (state later : ProposerState F A) : Prop := ∃ acts, later.journal = state.journal.run acts

def Continues (state later : ProposerState F A) : Prop := later.expected = state.expected ∧ Acted state later

instance isPreorder_acted : IsPreorder (ProposerState F A) Acted where
  refl _ := ⟨[], rfl⟩
  trans := by
    rintro first middle last ⟨acts, isMiddle⟩ ⟨more, isLast⟩
    exact ⟨acts ++ more, by rw [Journal.run_append, ← isMiddle, isLast]⟩

instance isPreorder_continues : IsPreorder (ProposerState F A) Continues where
  refl _ := ⟨rfl, refl _⟩
  trans _ _ _ first second := ⟨second.1.trans first.1, IsTrans.trans _ _ _ first.2 second.2⟩

end

section

variable {F A H T α : Type} [DecidableEq F]

theorem confined_ioError {message : String} (isLate : message ≠ "Could not retrieve transaction") :
    Confined Continues HandlerStop.Late (ioError message : Handler F A H α) := confined_fail isLate

theorem confined_onTrees {message : String} (isLate : message ≠ "Could not retrieve transaction")
    (program : Program Failure (Trees F) α) :
    Confined Continues HandlerStop.Late (onTrees message program : Handler F A H α) := by
  refine ⟨fun _ => ⟨rfl, [.change _], rfl⟩, ?_⟩
  intro state stop later ran
  have isError := congrArg Prod.fst ran
  simp only [onTrees, mapError, zoom] at isError
  rcases isRun : (program.run state.journal.current).1 with failure | value
  · rw [isRun] at isError
    cases failure <;> cases isError
    · exact isLate
    · trivial
  · rw [isRun] at isError
    cases isError

end

section

variable {F A H T : Type} {digest : List F → A → H} {convert : T → Option (OnChainTransaction F)}
  {event : BlockProposed T A}

section

variable {state later : ProposerState F A} {error : EventHandlerError H} {number : ℕ}

theorem getSender_failed (failed : (getSender event : Handler F A H A).run state = (.error (.returned error), later)) :
    event.sender = .error () ∧ error.Early ∧ later = state := by
  unfold getSender at failed
  split at failed <;> cases failed
  exact ⟨‹_›, rfl, rfl⟩

theorem convertAll_succeeds {words : List T} :
    (convertAll convert words : Handler F A H _).run state ≠ (.error (.returned error), later) := by
  unfold convertAll
  split <;> nofun

theorem checkNumber_failed
    (failed : (checkNumber number : Handler F A H Bool).run state = (.error (.returned error), later)) :
    state.expected < number ∧ error.Early ∧ later.expected = state.expected := by
  rw [checkNumber, reads_bind (fun state => state)] at failed
  split at failed <;> cases failed
  exact ⟨‹_›, trivial, rfl⟩

theorem checkStored_failed [DecidableEq H] {pending : StoredBlock F A}
    (failed : (checkStored digest number pending).run state = (.error (.returned error), later)) :
    ∃ stored, getBlockByNumber state.blocks number = some stored ∧ stored.hash digest ≠ pending.hash digest ∧
      error.Early ∧ later.expected = state.expected := by
  rw [checkStored, reads_bind (fun state => state)] at failed
  split at failed
  · cases failed
  · split at failed <;> cases failed
    exact ⟨_, ‹_›, ‹_›, trivial, rfl⟩

end

variable [LinearOrder F] [Zero F] [NatCast F] [ToString F] [DecidableEq A] [DecidableEq H]
  {hash : F → F → F → F} {treeHash : F → F → F} {fromWord : ℕ → Option F} {ourAddress : A} {sender : A}
  {transactions : List (OnChainTransaction F)}

omit [DecidableEq A] [DecidableEq H] in
theorem confined_rebuildTrees (historicRoot : F) : Confined Continues HandlerStop.Late
      (rebuildTrees hash treeHash transactions historicRoot : Handler F A H Unit) := by
  refine (confined_writes ?_).bind fun _ => ?_
  · intro state
    split
    · exact refl state
    · exact ⟨rfl, [.revert], rfl⟩
  refine (confined_onTrees (by decide) _).bind fun _ => ?_
  refine (confined_onTrees (by decide) _).bind fun _ => ?_
  refine (confined_onTrees (by decide) _).bind fun _ => ?_
  exact (confined_onTrees (by decide) _).bind fun _ => confined_pure _

omit [DecidableEq H] in
theorem confined_updateTrees : Confined Continues HandlerStop.Late
      (updateTrees hash treeHash fromWord ourAddress event sender transactions : Handler F A H Unit) := by
  refine (confined_onTrees (by decide) _).bind fun rootBefore => Confined.bind ?_ fun historicRoot =>
    Confined.bind ?_ fun confirmed => (confined_reads _).bind fun state => ?_
  · unfold convertRoot
    split
    · exact confined_ioError (by decide)
    · exact confined_pure _
  · unfold confirmOwn
    split
    · exact (confined_reads _).bind fun _ =>
        Confined.bind (confined_writes fun _ => ⟨rfl, [.confirm historicRoot], rfl⟩) fun _ => confined_pure _
    · exact confined_pure _
  · split
    · exact confined_rebuildTrees historicRoot
    · exact confined_pure _

omit [DecidableEq H] in
/-- Whatever the outcome, the number is advanced, and what fails then is late. -/
theorem handleNext_advances {state later : ProposerState F A} {outcome : Except (HandlerStop H) Unit}
    (ran : (handleNext hash treeHash fromWord ourAddress event sender transactions).run state = (outcome, later)) :
    later.expected = state.expected + 1 ∧ Acted state later ∧ ∀ stop, outcome = .error stop → stop.Late := by
  obtain ⟨rest, isRest, confined⟩ : ∃ rest, handleNext hash treeHash fromWord ourAddress event sender transactions =
      (advance >>= fun _ => rest : Handler F A H Unit) ∧ Confined Continues HandlerStop.Late rest := by
    refine ⟨_, rfl, ?_⟩
    refine Confined.bind ?_ fun current => Confined.bind ?_ fun _ => confined_updateTrees.bind fun _ =>
      Confined.bind (confined_writes fun _ => ⟨rfl, [], rfl⟩) fun _ => confined_writes fun _ => ⟨rfl, [], rfl⟩
    · unfold getCurrentBlockNumber
      split
      · exact confined_ioError (by decide)
      · exact confined_pure _
    · unfold synchroniseFirst
      split
      · exact confined_writes fun _ => ⟨rfl, [], rfl⟩
      · exact confined_pure _
  rw [isRest] at ran
  have moved : Continues { state with expected := state.expected + 1 } ((advance >>= fun _ => rest).run state).2 :=
    confined.1 _
  rw [ran] at moved
  refine ⟨moved.1, moved.2, ?_⟩
  rintro stop rfl
  exact confined.2 { state with expected := state.expected + 1 } stop later ran

section

variable {state later : ProposerState F A} {error : EventHandlerError H}
  (failed : (processProposeBlockEvent hash treeHash digest convert fromWord ourAddress event).run state =
    (.error (.returned error), later))

include failed

theorem processProposeBlockEvent_stops :
    event.Refused digest convert state ∧ error.Early ∧ later.expected = state.expected ∨
    ¬event.Refused digest convert state ∧ ¬error.Early ∧ later.expected = state.expected + 1 ∧
      ∃ sender transactions, event.sender = .ok (some sender) ∧
        event.transactions.mapM convert = some transactions := by
  rcases bind_eq_error.mp failed with stopped | ⟨sender, _, got, ran⟩
  · obtain ⟨unread, early, rfl⟩ := getSender_failed stopped
    exact .inl ⟨.inl unread, early, rfl⟩
  obtain ⟨isSender, rfl⟩ := getSender_eq_ok.mp got
  rcases bind_eq_error.mp ran with stopped | ⟨transactions, _, converted, ran⟩
  · exact absurd stopped convertAll_succeeds
  obtain ⟨isConverted, rfl⟩ := convertAll_eq_ok.mp converted
  rcases bind_eq_error.mp ran with stopped | ⟨_, _, isChecked, ran⟩
  · obtain ⟨missing, early, kept⟩ := checkNumber_failed stopped
    exact .inl ⟨.inr (.inl missing), early, kept⟩
  obtain ⟨notMissing, rfl, rfl⟩ := checkNumber_ok isChecked
  split at ran
  case isFalse => cases ran
  rcases bind_eq_error.mp ran with stopped | ⟨_, _, isStored, handled⟩
  · obtain ⟨stored, isStored, differs, early, kept⟩ := checkStored_failed stopped
    exact .inl ⟨.inr (.inr ⟨sender, transactions, stored, isSender, isConverted, isStored, differs⟩), early, kept⟩
  obtain ⟨same, rfl⟩ := checkStored_eq_ok.mp isStored
  obtain ⟨advanced, -, isLate⟩ := handleNext_advances handled
  refine .inr ⟨?_, isLate _ rfl, advanced, sender, transactions, isSender, isConverted⟩
  rintro (unread | missing | ⟨other, others, stored, isOther, areOthers, isStored, differs⟩)
  · rw [unread] at isSender
    cases isSender
  · omega
  · rw [isSender] at isOther
    rw [isConverted] at areOthers
    cases isOther
    cases areOthers
    exact differs (same stored isStored)

theorem processProposeBlockEvent_error : later.expected = state.expected + 1 ↔ ¬error.Early := by
  rcases processProposeBlockEvent_stops failed with ⟨_, early, kept⟩ | ⟨_, late, advanced, _⟩
  · simp [early, kept]
  · simp [late, advanced]

/-- A refused event leaves the number, and a later one of that number is processed; any other event that fails
is skipped when it is handled again. -/
theorem processProposeBlockEvent_retry (isNumber : state.expected = event.number) :
    (later.expected = event.number ↔ event.Refused digest convert state) ∧
      (event.Refused digest convert state → ∀ (again : BlockProposed T A) final, again.number = event.number →
        (processProposeBlockEvent hash treeHash digest convert fromWord ourAddress again).run later = (.ok (), final) →
        final.expected = event.number + 1) ∧
      (¬event.Refused digest convert state →
        (processProposeBlockEvent hash treeHash digest convert fromWord ourAddress event).run later =
          (.ok (), later)) := by
  rcases processProposeBlockEvent_stops failed with ⟨refused, _, kept⟩ | ⟨fine, _, advanced, sender, transactions,
    isSender, isConverted⟩
  · refine ⟨iff_of_true (kept.trans isNumber) refused, fun _ again final isAgain ran => ?_, absurd refused⟩
    have same : later.expected = again.number := by rw [kept, isNumber, isAgain]
    obtain ⟨_, _, _, _, _, handled⟩ := (processProposeBlockEvent_next same).mp ran
    rw [(handleNext_advances handled).1, same, isAgain]
  · refine ⟨iff_of_false (by omega) fine, fun refused => absurd refused fine, fun _ => ?_⟩
    exact processProposeBlockEvent_passed isSender isConverted (by omega)

end

end

def emptyState : ProposerState ℕ ℕ := ⟨.fresh .empty, 0, true, [⟨0, [9], 2⟩]⟩

def oneBlock (current : Except Unit ℕ) : BlockProposed (OnChainTransaction ℕ) ℕ :=
  ⟨0, [.default], 5, .ok (some 2), current⟩

def handleSample (event : BlockProposed (OnChainTransaction ℕ) ℕ) : Handler ℕ ℕ ℕ Unit :=
  processProposeBlockEvent (fun a b c => a + b + c) (fun a b => a + b)
    (fun commitments address => commitments.sum + address)
    some some 1 event

theorem processProposeBlockEvent_retry_hash :
    ∃ error later, (handleSample (oneBlock (.ok 1))).run emptyState = (.error (.returned error), later) ∧
      later.expected = 0 ∧ ∀ final, (handleSample (oneBlock (.ok 1))).run later = (.ok (), final) →
        final.expected = 1 := by
  have failed : (handleSample (oneBlock (.ok 1))).run emptyState =
    (.error (.returned (.blockHashError 11 2)), { emptyState with synchronised := false, blocks := [] }) := rfl
  obtain ⟨kept, processed, _⟩ := processProposeBlockEvent_retry failed rfl
  have refused := kept.mp rfl
  exact ⟨_, _, failed, rfl, fun final => processed refused _ final rfl⟩

theorem block_skipped_after_error : let state : ProposerState ℕ ℕ := ⟨.fresh .empty, 0, true, []⟩
    ∃ later, (handleSample (oneBlock (.error ()))).run state =
        (.error (.returned (.ioError "Could not retrieve current block number")), later) ∧
      later.expected = 1 ∧ (handleSample (oneBlock (.ok 1))).run later = (.ok (), later) :=
  ⟨_, rfl, rfl, rfl⟩

end Nightfall.Proposer
