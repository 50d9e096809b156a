import Nightfall.Nova.Attestor
import Nightfall.Proposer.Events
import Nightfall.Proposer.SpeculativeState

/-! `prove_block`, the default and the Nova override. The trees are changed between `begin` and the end of
`prepare_state_transition`; whatever fails after that leaves them changed. -/

namespace Nightfall.Proposer.Proving

open Bytes Contract Nova Store Checkpoints TreeSnapshot

structure PublicInputs (F : Type) where
  fee : F
  root : F
  commitments : Fin 4 → F
  nullifiers : Fin 4 → F
  compressedSecrets : Fin 5 → F
  swapLink : F
  deadline : F
  swapSide : F

structure ClientTransaction (F : Type) where
  fee : F
  commitments : Fin 4 → F
  nullifiers : Fin 4 → F
  compressedSecrets : Fin 5 → F
  swapLink : F
  deadline : F

inductive RollupProofError where
  | conversionError
  | parameterError (message : String)
  | provingError (message : String)
  | databaseError (context : String)

inductive ProofSystemId where
  | reservedZero
  | plonkV1
  | novaV1
  | novaBlsV1
  | ultraHonkV1
  | reservedFF

structure NovaIvcBlockState (F : Type) where
  novaCommitmentsRoot : F
  novaNullifiersRoot : F
  novaHistoricRootRoot : F
  transactionCount : UInt64

structure Block (F : Type) where
  commitmentsRoot : F
  nullifiersRoot : F
  commitmentsRootRoot : F
  transactions : List (OnChainTransaction F)
  rollupProof : ByteString
  blockNumber : ℕ
  proofSystemId : ProofSystemId
  novaIvcState : NovaIvcBlockState F

section

variable {F : Type}

def ofPublicInputs (inputs : PublicInputs F) : OnChainTransaction F :=
  ⟨inputs.fee, inputs.commitments, inputs.nullifiers, inputs.compressedSecrets, inputs.swapLink, inputs.deadline⟩

def ofClientTransaction (transaction : ClientTransaction F) : OnChainTransaction F :=
  ⟨transaction.fee, transaction.commitments, transaction.nullifiers, transaction.compressedSecrets,
    transaction.swapLink, transaction.deadline⟩

def blockTransactions (deposits : List (PublicInputs F)) (clients : List (ClientTransaction F)) :
    List (OnChainTransaction F) :=
  deposits.map ofPublicInputs ++ clients.map ofClientTransaction

def getBlockSize (configured : ℕ) : Except String ℕ :=
  if configured = 64 ∨ configured = 256 then .ok configured else .error "Block size must be one of 64 or 256"

def blockSizeOr64 (configured : ℕ) : ℕ := (getBlockSize configured).toOption.getD 64

def novaTransactions [Zero F] (requiresPadding : Bool) (configured : ℕ) (deposits : List (PublicInputs F))
    (clients : List (ClientTransaction F)) : List (OnChainTransaction F) :=
  let transactions := blockTransactions deposits clients
  if requiresPadding then transactions
  else transactions ++ List.replicate (blockSizeOr64 configured - transactions.length) .default

end

/-- The calls `prove_block` makes on the speculative state. -/
structure Speculative (σ τ F : Type) where
  begin : σ → σ
  trees : σ → τ
  setTrees : τ → σ → σ
  confirmPrepare : F → σ → σ
  abortPrepare : σ → σ

def speculation (F D : Type) : Speculative (Speculation F D) (Contents D) F where
  begin := Proposer.begin
  trees state := treeContents state.db
  setTrees contents state := { state with db := replaceTrees contents state.db }
  confirmPrepare := Proposer.confirmPrepare
  abortPrepare := Proposer.abortPrepare

section

variable {σ τ ε F I B : Type}

def proveWith (speculative : Speculative σ τ F) (prepareStateTransition : Program ε τ (I × F × F × F))
    (finish : I → F × F × F → Except ε B) : Program ε σ B :=
  ⟨fun state =>
    let begun := speculative.begin state
    match prepareStateTransition.run (speculative.trees begun) with
    | (.ok (info, roots), trees) =>
      (finish info roots, speculative.confirmPrepare roots.1 (speculative.setTrees trees begun))
    | (.error error, trees) => (.error error, speculative.abortPrepare (speculative.setTrees trees begun))⟩

def joined {α : Type} : Option (Except RollupProofError α) → Except RollupProofError α
  | none => .error .conversionError
  | some result => result

structure Engine (I : Type) where
  recursiveProve : I → Option (Except RollupProofError (List ℕ))

def defaultIvcState [Zero F] : NovaIvcBlockState F := ⟨0, 0, 0, 0⟩

def finishBlock [Zero F] (engine : Engine I) (systemId : ProofSystemId) (deposits : List (PublicInputs F))
    (clients : List (ClientTransaction F)) (info : I) (roots : F × F × F) : Except RollupProofError (Block F) := do
  let proof ← joined (engine.recursiveProve info)
  return ⟨roots.1, roots.2.1, roots.2.2, blockTransactions deposits clients, proof.flatMap (beBytes 32), 0, systemId,
    defaultIvcState⟩

def proveBlock [Zero F] (speculative : Speculative σ τ F) (engine : Engine I) (systemId : ProofSystemId)
    (prepareStateTransition : List (PublicInputs F) → List (ClientTransaction F) →
      Program RollupProofError τ (I × F × F × F))
    (deposits : List (PublicInputs F)) (clients : List (ClientTransaction F)) :
    Program RollupProofError σ (Block F) :=
  proveWith speculative (prepareStateTransition deposits clients) (finishBlock engine systemId deposits clients)

inductive AttestationOutcome where
  | signed (signature : ByteString)
  | committee (sigma bitmap : ByteString)
  | unsigned

structure NovaRollupEngine (F I : Type) extends Engine I where
  rootBytes : F → Bytes32
  fromLeBytes : ByteString → F
  obtainAttestation : I → NovaProof → NovaProof → ByteString → Vector Bytes32 4 →
    Except RollupProofError AttestationOutcome

def decodeProof (elements : List ℕ) : ByteString := elements.flatMap fun element => (beBytes 32 element).drop 1

def rootWord (vec : ByteVec) : Except RollupProofError Bytes32 :=
  if size : vec.val.length = 32 then .ok ⟨vec.val.toArray, size⟩
  else .error (.parameterError ("Nova root is not 32 bytes (got " ++ toString vec.val.length ++ ")"))

theorem lengthWord_size (length : ℕ) :
    (List.replicate 24 (0 : UInt8) ++ beBytes 8 (length % 2 ^ 64)).toArray.size = 32 := by
  simp [beBytes_length]

def lengthWord (length : ℕ) : Bytes32 :=
  ⟨(List.replicate 24 (0 : UInt8) ++ beBytes 8 (length % 2 ^ 64)).toArray, lengthWord_size length⟩

def attested (rollupProof : ByteString) : AttestationOutcome → ByteString × ProofSystemId
  | .signed signature => (rollupProof ++ signature, .novaV1)
  | .committee sigma bitmap => (rollupProof ++ sigma ++ bitmap, .novaBlsV1)
  | .unsigned => (rollupProof, .novaV1)

def novaFinish [Zero F] (engine : NovaRollupEngine F I) (requiresPadding : Bool) (configured : ℕ)
    (deposits : List (PublicInputs F)) (clients : List (ClientTransaction F)) (info : I) (roots : F × F × F) :
    Except RollupProofError (Block F) := do
  let elements ← joined (engine.recursiveProve info)
  let decoded ← (NovaProof.deserialize (decodeProof elements)).mapError fun e =>
    .parameterError ("Nova proof deserialize: " ++ e)
  let proof : NovaProof := { decoded with
    commitmentsRoot := (engine.rootBytes roots.1).toVec
    nullifiersRoot := (engine.rootBytes roots.2.1).toVec
    historicRootRoot := (engine.rootBytes roots.2.2).toVec }
  let transactions := novaTransactions requiresPadding configured deposits clients
  let commitmentsWord ← rootWord proof.commitmentsRoot
  let nullifiersWord ← rootWord proof.nullifiersRoot
  let historicWord ← rootWord proof.historicRootRoot
  let outcome ← engine.obtainAttestation info decoded proof proof.serialize
    #v[commitmentsWord, nullifiersWord, historicWord, lengthWord transactions.length]
  return ⟨roots.1, roots.2.1, roots.2.2, transactions, (attested proof.serialize outcome).1, 0,
    (attested proof.serialize outcome).2,
    ⟨engine.fromLeBytes decoded.commitmentsRoot.val, engine.fromLeBytes decoded.nullifiersRoot.val,
      engine.fromLeBytes decoded.historicRootRoot.val, decoded.transactionCount⟩⟩

def novaProveBlock [Zero F] (speculative : Speculative σ τ F) (engine : NovaRollupEngine F I) (requiresPadding : Bool)
    (configured : ℕ)
    (prepareStateTransition : List (PublicInputs F) → List (ClientTransaction F) →
      Program RollupProofError τ (I × F × F × F))
    (deposits : List (PublicInputs F)) (clients : List (ClientTransaction F)) :
    Program RollupProofError σ (Block F) :=
  proveWith speculative (prepareStateTransition deposits clients)
    (novaFinish engine requiresPadding configured deposits clients)

variable {speculative : Speculative σ τ F} {prepare : Program ε τ (I × F × F × F)}

theorem proveWith_failed {state : σ} {error : ε} {trees : τ}
    (failed : prepare.run (speculative.trees (speculative.begin state)) = (.error error, trees))
    (finish : I → F × F × F → Except ε B) : (proveWith speculative prepare finish).run state =
      (.error error, speculative.abortPrepare (speculative.setTrees trees (speculative.begin state))) := by
  simp only [proveWith, failed]

theorem proveWith_prepared {state : σ} {info : I} {roots : F × F × F} {trees : τ}
    (prepared : prepare.run (speculative.trees (speculative.begin state)) = (.ok (info, roots), trees))
    (finish : I → F × F × F → Except ε B) :
    (proveWith speculative prepare finish).run state = (finish info roots,
        speculative.confirmPrepare roots.1 (speculative.setTrees trees (speculative.begin state))) := by
  simp only [proveWith, prepared]

end

section

variable {F D ε I B : Type} {state : Speculation F D} {journal : Journal F (Contents D)}

section

variable (refines : Refines state journal) (numbered : journal.Numbered) (few : journal.started < 2 ^ 64)
  {prepare : Program ε (Contents D) (I × F × F × F)}
include refines numbered few

theorem proveWith_error {error : ε} (failed : (prepare.run (treeContents (begin state).db)).1 = .error error)
    (finish : I → F × F × F → Except ε B) :
    ∃ after, (proveWith (speculation F D) prepare finish).run state = (.error error, after) ∧
      treeContents after.db = treeContents state.db ∧ after.queue = state.queue := by
  have isRun : prepare.run ((speculation F D).trees ((speculation F D).begin state)) =
      (.error error, (prepare.run (treeContents (begin state).db)).2) := Prod.ext failed rfl
  have begun := refines.begin numbered few
  have aborted := (begun.mutate (prepare.run (treeContents (begin state).db)).2).abortPrepare
    ⟨numbered.start.increasing, numbered.start.below⟩
  rw [Journal.abandon_open rfl rfl] at aborted
  exact ⟨_, proveWith_failed isRun finish, aborted.current.trans refines.current.symm,
    aborted.queue.trans refines.queue.symm⟩

theorem proveWith_kept {info : I} {roots : F × F × F} {contents : Contents D}
    (prepared : prepare.run (treeContents (begin state).db) = (.ok (info, roots), contents))
    (finish : I → F × F × F → Except ε B) :
    ∃ after, (proveWith (speculation F D) prepare finish).run state = (finish info roots, after) ∧
      treeContents after.db = contents ∧ after.queue.length = state.queue.length + 1 := by
  have begun := refines.begin numbered few
  have confirmed := (begun.mutate contents).confirmPrepare roots.1
  rw [Journal.settle_open roots.1 rfl rfl] at confirmed
  refine ⟨_, proveWith_prepared prepared finish, confirmed.current, (congrArg List.length confirmed.queue).trans ?_⟩
  simp [refines.queue]

end

variable [Zero F] {prepare : List (PublicInputs F) → List (ClientTransaction F) →
    Program RollupProofError (Contents D) (I × F × F × F)}

theorem proveBlock_error (refines : Refines state journal) (numbered : journal.Numbered)
    (few : journal.started < 2 ^ 64) (deposits : List (PublicInputs F)) (clients : List (ClientTransaction F))
    {error : RollupProofError}
    (failed : ((prepare deposits clients).run (treeContents (begin state).db)).1 = .error error) :
    (∀ engine systemId, ∃ after,
      (proveBlock (speculation F D) engine systemId prepare deposits clients).run state = (.error error, after) ∧
        treeContents after.db = treeContents state.db ∧ after.queue = state.queue) ∧
      ∀ engine requiresPadding configured, ∃ after,
        (novaProveBlock (speculation F D) engine requiresPadding configured prepare deposits clients).run state =
          (.error error, after) ∧ treeContents after.db = treeContents state.db ∧ after.queue = state.queue :=
  ⟨fun _ _ => proveWith_error refines numbered few failed _, fun _ _ _ => proveWith_error refines numbered few failed _⟩

end

section

def quietDb : Mongo Unit := ⟨fun _ => [], fun _ => none⟩

theorem quietDb_sound : quietDb.Sound := fun _ => rfl

def failingPrepare (_ : List (PublicInputs ℕ)) (_ : List (ClientTransaction ℕ)) :
    Program RollupProofError (Contents Unit) (Unit × ℕ × ℕ × ℕ) :=
  ⟨fun _ => (.error (.databaseError "DB error batch-inserting nullifiers"), fun _ => [()])⟩

theorem proveBlock_error_insert : ∃ after,
    (proveBlock (speculation ℕ Unit) ⟨fun _ => some (.ok [])⟩ .plonkV1 failingPrepare [] []).run ⟨quietDb, [], 0⟩ =
        (.error (.databaseError "DB error batch-inserting nullifiers"), after) ∧
      treeContents after.db = treeContents quietDb ∧ after.queue = [] :=
  (proveBlock_error (refines_fresh quietDb_sound) (Journal.numbered_fresh _) (by decide) [] [] rfl).1 _ _

def samplePrepare (_ : List (PublicInputs ℕ)) (_ : List (ClientTransaction ℕ)) :
    Program RollupProofError (Contents Unit) (Unit × ℕ × ℕ × ℕ) :=
  ⟨fun _ => (.ok ((), 1, 2, 3), fun _ => [()])⟩

def sampleEngine (answer : Option (Except RollupProofError (List ℕ))) : NovaRollupEngine ℕ Unit :=
  ⟨⟨fun _ => answer⟩, fun _ => Vector.replicate 32 0, fun _ => 0, fun _ _ _ _ _ => .ok .unsigned⟩

/-- A blocking task that does not end, in the default path, and a proof that cannot be decoded, in the
Nova path: the leaves stay in the trees and the block in the queue. -/
theorem failed_block_kept :
    (∃ after, (proveBlock (speculation ℕ Unit) (sampleEngine none).toEngine .plonkV1 samplePrepare [] []).run
        ⟨quietDb, [], 0⟩ = (.error .conversionError, after) ∧
      treeContents after.db ≠ treeContents quietDb ∧ after.queue ≠ []) ∧
    ∃ after, (novaProveBlock (speculation ℕ Unit) (sampleEngine (some (.ok []))) false 64 samplePrepare [] []).run
        ⟨quietDb, [], 0⟩ = (.error (.parameterError "Nova proof deserialize: unexpected end of file"), after) ∧
      treeContents after.db ≠ treeContents quietDb ∧ after.queue ≠ [] := by
  have changed (contents : Contents Unit) (isContents : contents = fun _ => [()]) :
      contents ≠ treeContents quietDb := by
    intro same
    rw [isContents] at same
    have first := congrFun same ⟨"Commitments_metadata", by decide +kernel⟩
    cases first
  have grown (queue : List (SpeculativeBlock ℕ)) (isLength : queue.length = 0 + 1) : queue ≠ [] := by
    rintro rfl
    cases isLength
  constructor
  · obtain ⟨after, ran, trees, queue⟩ := proveWith_kept (refines_fresh quietDb_sound) (Journal.numbered_fresh _)
      (by decide) (show (samplePrepare [] []).run _ = _ from rfl)
      (finishBlock (sampleEngine none).toEngine .plonkV1 ([] : List (PublicInputs ℕ)) [])
    exact ⟨after, ran, changed _ trees, grown _ queue⟩
  · obtain ⟨after, ran, trees, queue⟩ := proveWith_kept (refines_fresh quietDb_sound) (Journal.numbered_fresh _)
      (by decide) (show (samplePrepare [] []).run _ = _ from rfl)
      (novaFinish (sampleEngine (some (.ok []))) false 64 ([] : List (PublicInputs ℕ)) [])
    exact ⟨after, ran, changed _ trees, grown _ queue⟩

end

end Nightfall.Proposer.Proving
