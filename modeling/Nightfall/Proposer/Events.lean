import Nightfall.Library.Checkpoints
import Nightfall.Proposer.Trees

/-! `process_propose_block_event` of the proposer. The trees with the speculative blocks in them are a
journal of checkpoints; beside it are the number of the next block, the synchronisation status and the
stored blocks. -/

namespace Nightfall.Proposer

open Store Store.Program MerkleTrees MutableTree IndexedTree Checkpoints

variable {F : Type}

structure OnChainTransaction (F : Type) where
  fee : F
  commitments : Fin 4 → F
  nullifiers : Fin 4 → F
  publicData : Fin 5 → F
  swapLink : F
  deadline : F

def OnChainTransaction.default [Zero F] : OnChainTransaction F :=
  ⟨0, fun _ => 0, fun _ => 0, fun _ => 0, 0, 0⟩

def blockCommitments (transactions : List (OnChainTransaction F)) : List F :=
  transactions.flatMap fun transaction => List.ofFn transaction.commitments

def blockNullifiers (transactions : List (OnChainTransaction F)) : List F :=
  transactions.flatMap fun transaction => List.ofFn transaction.nullifiers

theorem blockCommitments_length (transactions : List (OnChainTransaction F)) :
    (blockCommitments transactions).length = transactions.length * 4 := by
  simp [blockCommitments, List.length_flatMap]

theorem blockNullifiers_length (transactions : List (OnChainTransaction F)) :
    (blockNullifiers transactions).length = transactions.length * 4 := by
  simp [blockNullifiers, List.length_flatMap]

structure StoredBlock (F A : Type) where
  layer2BlockNumber : ℕ
  commitments : List F
  proposerAddress : A

inductive EventHandlerError (H : Type) where
  | ioError (message : String)
  | missingBlocks (expected : ℕ)
  | blockHashError (stored pending : H)

inductive HandlerStop (H : Type) where
  | returned (error : EventHandlerError H)
  | panicked

structure ProposerState (F A : Type) where
  journal : Journal F (Trees F)
  expected : ℕ
  synchronised : Bool
  blocks : List (StoredBlock F A)

/-- What the handler reads of the chain: the block in the calldata, whose words may not be field
elements, its sender and the contract's block number, each of which may not be found. -/
structure BlockProposed (T A : Type) where
  number : ℕ
  transactions : List T
  commitmentsRoot : ℕ
  sender : Except Unit (Option A)
  currentBlockNumber : Except Unit ℕ

section

variable {F A H T : Type}

abbrev Handler (F A H : Type) := Program (HandlerStop H) (ProposerState F A)

def ioError {α : Type} (message : String) : Handler F A H α := fail (.returned (.ioError message))

def onTrees {α : Type} (message : String) (program : Program Failure (Trees F) α) : Handler F A H α :=
  mapError (fun failure => match failure with
      | .returned _ => .returned (.ioError message)
      | .panicked => .panicked)
    (zoom (fun state => state.journal.current)
      (fun state trees => { state with journal := { state.journal with current := trees } }) program)

def setSynchronised (synchronised : Bool) : Handler F A H Unit :=
  writes fun state => { state with synchronised := synchronised }

def synchroniseFirst (current : ℕ) : Handler F A H Unit := if current = 1 then setSynchronised true else pure ()

def storeBlock (block : StoredBlock F A) (blocks : List (StoredBlock F A)) : List (StoredBlock F A) :=
  if blocks.any fun stored => stored.layer2BlockNumber = block.layer2BlockNumber then
    Tables.updateFirst (fun stored => stored.layer2BlockNumber = block.layer2BlockNumber)
      (fun stored => { stored with commitments := block.commitments }) blocks
  else blocks ++ [block]

def getBlockByNumber (blocks : List (StoredBlock F A)) (number : ℕ) : Option (StoredBlock F A) :=
  blocks.find? fun stored => stored.layer2BlockNumber = number

def deleteBlockByNumber (number : ℕ) (blocks : List (StoredBlock F A)) : List (StoredBlock F A) :=
  blocks.eraseP fun stored => stored.layer2BlockNumber = number

def getSender (event : BlockProposed T A) : Handler F A H A :=
  match event.sender with
  | .error _ => ioError "Could not retrieve transaction"
  | .ok none => fail .panicked
  | .ok (some sender) => pure sender

def convertAll (convert : T → Option (OnChainTransaction F)) (transactions : List T) :
    Handler F A H (List (OnChainTransaction F)) :=
  match transactions.mapM convert with
  | none => fail .panicked
  | some converted => pure converted

variable [DecidableEq H] (digest : List F → A → H)

def StoredBlock.hash (block : StoredBlock F A) : H := digest block.commitments block.proposerAddress

def checkNumber (number : ℕ) : Handler F A H Bool := do
  let state ← reads fun state => .ok state
  if state.expected < number then do
    setSynchronised false
    fail (.returned (.missingBlocks state.expected))
  else pure (decide (state.expected = number))

def checkStored (number : ℕ) (pending : StoredBlock F A) : Handler F A H Unit := do
  let state ← reads fun state => .ok state
  match getBlockByNumber state.blocks number with
  | none => pure ()
  | some current =>
    if current.hash digest = pending.hash digest then pure ()
    else do
      writes fun state => { state with blocks := deleteBlockByNumber number state.blocks, synchronised := false }
      fail (.returned (.blockHashError (current.hash digest) (pending.hash digest)))

def advance : Handler F A H Unit := writes fun state => { state with expected := state.expected + 1 }

def getCurrentBlockNumber (event : BlockProposed T A) : Handler F A H ℕ :=
  match event.currentBlockNumber with
  | .error _ => ioError "Could not retrieve current block number"
  | .ok current => pure current

def convertRoot (fromWord : ℕ → Option F) (event : BlockProposed T A) : Handler F A H F :=
  match fromWord event.commitmentsRoot with
  | none => ioError "Could not convert to Fr254"
  | some root => pure root

variable [DecidableEq F]

def confirmFrontOf (root : F) : Handler F A H Bool := do
  let confirmed ← reads fun state => .ok (state.journal.confirms root)
  writes fun state => { state with journal := state.journal.confirm root }
  pure confirmed

def confirmOwn [DecidableEq A] (ourAddress sender : A) (root : F) : Handler F A H Bool :=
  if ourAddress = sender then confirmFrontOf root else pure false

def rollbackOutstanding : Handler F A H Unit :=
  writes fun state =>
    if state.journal.pending.isEmpty then state else { state with journal := state.journal.revert }

end

section

variable {F A H T : Type} [LinearOrder F] [Zero F] [NatCast F] [ToString F] [DecidableEq A] [DecidableEq H]
  (hash : F → F → F → F) (treeHash : F → F → F) (digest : List F → A → H)
  (convert : T → Option (OnChainTransaction F)) (fromWord : ℕ → Option F) (ourAddress : A) (event : BlockProposed T A)

def rebuildTrees (transactions : List (OnChainTransaction F)) (historicRoot : F) : Handler F A H Unit := do
  rollbackOutstanding
  let _ ← onTrees "Could not store commitments"
    (onCommitments (appendSubTrees treeHash (blockCommitments transactions) true))
  let _ ← onTrees "Could not store nullifiers"
    (onNullifiers (insertLeaves hash treeHash (blockNullifiers transactions)))
  let _ ← onTrees "Could not store historic root" (appendHistoricCommitmentRoot treeHash historicRoot true)
  let _ ← onTrees "Could not retrieve commitment root" (onCommitments getRoot)
  pure ()

def updateTrees (sender : A) (transactions : List (OnChainTransaction F)) : Handler F A H Unit := do
  let rootBefore ← onTrees "Could not retrieve commitment root" (onCommitments getRoot)
  let historicRoot ← convertRoot fromWord event
  let confirmed ← confirmOwn ourAddress sender historicRoot
  let state ← reads fun state => .ok state
  if confirmed = false ∧ (ourAddress ≠ sender ∨ state.synchronised = false ∨ rootBefore = 0) then
    rebuildTrees hash treeHash transactions historicRoot
  else pure ()

def handleNext (sender : A) (transactions : List (OnChainTransaction F)) : Handler F A H Unit := do
  advance
  let current ← getCurrentBlockNumber event
  synchroniseFirst current
  updateTrees hash treeHash fromWord ourAddress event sender transactions
  setSynchronised (decide (current = event.number + 1))
  writes fun state => { state with
    blocks := storeBlock ⟨event.number, blockCommitments transactions, sender⟩ state.blocks }

def processProposeBlockEvent : Handler F A H Unit := do
  let sender ← getSender event
  let transactions ← convertAll convert event.transactions
  let isNext ← checkNumber event.number
  if isNext then do
    checkStored digest event.number ⟨event.number, blockCommitments transactions, sender⟩
    handleNext hash treeHash fromWord ourAddress event sender transactions
  else pure ()

end

section

variable {F A H T : Type} {event : BlockProposed T A} {state later : ProposerState F A}

theorem getSender_eq_ok {sender : A} : (getSender event : Handler F A H A).run state = (.ok sender, later) ↔
      event.sender = .ok (some sender) ∧ state = later := by
  unfold getSender
  split <;> simp [ioError, *]

theorem convertAll_eq_ok {convert : T → Option (OnChainTransaction F)} {words : List T}
    {transactions : List (OnChainTransaction F)} :
    (convertAll convert words : Handler F A H _).run state = (.ok transactions, later) ↔
      words.mapM convert = some transactions ∧ state = later := by
  unfold convertAll
  split <;> simp [*]

theorem checkNumber_next (isNumber : state.expected = event.number) :
    (checkNumber event.number : Handler F A H Bool).run state = (.ok true, state) := by
  rw [checkNumber, reads_bind (fun state => state), if_neg (by omega), pure_run, decide_eq_true isNumber]

theorem checkNumber_ok {number : ℕ} {isNext : Bool}
    (ran : (checkNumber number : Handler F A H Bool).run state = (.ok isNext, later)) :
    number ≤ state.expected ∧ isNext = decide (state.expected = number) ∧ later = state := by
  rw [checkNumber, reads_bind (fun state => state)] at ran
  split at ran <;> cases ran
  exact ⟨not_lt.mp ‹_›, rfl, rfl⟩

variable [DecidableEq H] {digest : List F → A → H}

theorem checkStored_eq_ok {number : ℕ} {pending : StoredBlock F A} {value : Unit} :
    (checkStored digest number pending).run state = (.ok value, later) ↔
      (∀ stored, getBlockByNumber state.blocks number = some stored → stored.hash digest = pending.hash digest) ∧
        state = later := by
  rw [checkStored, reads_bind (fun state => state)]
  split
  · simp [*]
  · split <;> simp [bind_eq_ok, *]

variable [LinearOrder F] [Zero F] [NatCast F] [ToString F] [DecidableEq A] {hash : F → F → F → F}
  {treeHash : F → F → F} {convert : T → Option (OnChainTransaction F)} {fromWord : ℕ → Option F} {ourAddress : A}

theorem processProposeBlockEvent_next (isNumber : state.expected = event.number) :
    (processProposeBlockEvent hash treeHash digest convert fromWord ourAddress event).run state = (.ok (), later) ↔
      ∃ sender transactions, event.sender = .ok (some sender) ∧ event.transactions.mapM convert = some transactions ∧
        (∀ stored, getBlockByNumber state.blocks event.number = some stored →
          stored.hash digest = digest (blockCommitments transactions) sender) ∧
        (handleNext hash treeHash fromWord ourAddress event sender transactions : Handler F A H Unit).run state =
          (.ok (), later) := by
  simp [processProposeBlockEvent, bind_eq_ok, getSender_eq_ok, convertAll_eq_ok, checkNumber_next isNumber,
    checkStored_eq_ok, StoredBlock.hash]

theorem processProposeBlockEvent_passed {sender : A} {transactions : List (OnChainTransaction F)}
    (isSender : event.sender = .ok (some sender))
    (areTransactions : event.transactions.mapM convert = some transactions)
    (passed : event.number < state.expected) :
    (processProposeBlockEvent hash treeHash digest convert fromWord ourAddress event).run state = (.ok (), state) := by
  have unmatched : (checkNumber event.number : Handler F A H Bool).run state = (.ok false, state) := by
    rw [checkNumber, reads_bind (fun state => state), if_neg (by omega), pure_run, decide_eq_false (by omega)]
  rw [processProposeBlockEvent, bind_ok (getSender_eq_ok.mpr ⟨isSender, rfl⟩),
    bind_ok (convertAll_eq_ok.mpr ⟨areTransactions, rfl⟩), bind_ok unmatched]
  rfl

end

end Nightfall.Proposer
