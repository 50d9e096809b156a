import Nightfall.Client.Commitments
import Nightfall.Library.Interleaving

/-! `reconcile_expired_swap_request`, interleaved with the other users of the client's database. -/

namespace Nightfall.Client

open Interleaving List

inductive RequestStatus
  | queued
  | submitted
  | failed
  | processing
  | proposerUnreachable
  | confirmed
  | expired
  deriving DecidableEq

/-- An id that is not a hex field element is `none`. -/
structure SwapChildRequestArgs where
  spendCommitmentIds : List (Option Fr254)

/-- The arguments are `some none` if their text is not the JSON of a swap's. -/
structure Request where
  uuid : String
  status : RequestStatus
  childRequestArgs : Option (Option SwapChildRequestArgs)

structure Database where
  commitments : List CommitmentEntry
  requests : List Request

def setRequestStatus (uuid : String) (status : RequestStatus) (db : Database) : Database :=
  { db with requests :=
    db.requests.map fun request => if request.uuid = uuid then { request with status := status } else request }

def updateRequestChildArgs (uuid : String) (args : SwapChildRequestArgs) (db : Database) : Database :=
  { db with requests := db.requests.map fun request =>
      if request.uuid = uuid then { request with childRequestArgs := some (some args) } else request }

structure SwapExpiryReconciliation where
  unlocked : ℕ
  alreadyUnlocked : ℕ

inductive SwapExpiryError
  | incompatibleStatus (status : RequestStatus)
  | missingChildArgs
  | invalidChildArgs
  | invalidCommitmentStates (skipped : ℕ)
  | noUnlockableCommitments (skipped : ℕ)
  | databaseError

abbrev Reconciled := Option (Except SwapExpiryError SwapExpiryReconciliation)

abbrev OriginGroup := Option ℕ × Option ℤ × List Fr254

def addToGroups (entry : CommitmentEntry) : List OriginGroup → List OriginGroup
  | [] => [(entry.layer1TransactionHash, entry.layer2BlockNumber, [entry.key])]
  | (l1Hash, l2Block, ids) :: rest =>
    if l1Hash = entry.layer1TransactionHash ∧ l2Block = entry.layer2BlockNumber then
      (l1Hash, l2Block, ids ++ [entry.key]) :: rest
    else (l1Hash, l2Block, ids) :: addToGroups entry rest

def groupCommitmentsByOrigin (entries : List CommitmentEntry) : List OriginGroup :=
  entries.foldl (fun groups entry => addToGroups entry groups) []

/-- The loop over the listed ids; `get_commitment` panics if the database fails. -/
def readCommitments (next : List CommitmentEntry → ℕ → ℕ → Task Database Reconciled) :
    List (Option Fr254) → List CommitmentEntry → ℕ → ℕ → Task Database Reconciled
  | [], pending, alreadyUnlocked, skipped => next pending alreadyUnlocked skipped
  | none :: ids, pending, alreadyUnlocked, skipped => readCommitments next ids pending alreadyUnlocked (skipped + 1)
  | some id :: ids, pending, alreadyUnlocked, skipped => .call (·) fun
      | none => .done none
      | some db =>
        match getCommitment id db.commitments with
        | none => readCommitments next ids pending alreadyUnlocked (skipped + 1)
        | some existing =>
          match existing.status with
          | .pendingSpend => readCommitments next ids (pending ++ [existing]) alreadyUnlocked skipped
          | .unspent => readCommitments next ids pending (alreadyUnlocked + 1) skipped
          | _ => readCommitments next ids pending alreadyUnlocked (skipped + 1)

def unlockGroups (next : Task Database Reconciled) : List OriginGroup → Task Database Reconciled
  | [] => next
  | (l1Hash, l2Block, ids) :: groups =>
    .call (fun db => { db with commitments := markCommitmentsUnspent ids l1Hash l2Block db.commitments }) fun
      | none => .done (some (.error .databaseError))
      | some _ => unlockGroups next groups

def settleRequest (request : Request) (args : SwapChildRequestArgs) (pending : List CommitmentEntry)
    (alreadyUnlocked : ℕ) :
    Task Database Reconciled :=
  .call (setRequestStatus request.uuid .expired) fun
    | none => .done (some (.error .databaseError))
    | some _ => unlockGroups (.call (updateRequestChildArgs request.uuid { args with spendCommitmentIds := [] }) fun
          | none => .done (some (.error .databaseError))
          | some _ => .done (some (.ok ⟨pending.length, alreadyUnlocked⟩)))
        (groupCommitmentsByOrigin pending)

def reconcileExpiredSwapRequest (request : Request) : Task Database Reconciled :=
  if request.status ∉ [.submitted, .failed, .proposerUnreachable, .expired] then
    .done (some (.error (.incompatibleStatus request.status)))
  else match request.childRequestArgs with
    | none =>
      if request.status = .expired then .done (some (.ok ⟨0, 0⟩)) else .done (some (.error .missingChildArgs))
    | some none => .done (some (.error .invalidChildArgs))
    | some (some args) =>
      if args.spendCommitmentIds = [] ∧ request.status = .expired then .done (some (.ok ⟨0, 0⟩))
      else readCommitments (fun pending alreadyUnlocked skipped =>
          if pending.isEmpty ∧ alreadyUnlocked = 0 then .done (some (.error (.noUnlockableCommitments skipped)))
          else if 0 < skipped then .done (some (.error (.invalidCommitmentStates skipped)))
          else settleRequest request args pending alreadyUnlocked)
        args.spendCommitmentIds [] 0 0

def listed (request : Request) : List Fr254 :=
  match request.childRequestArgs with
  | some (some args) => args.spendCommitmentIds.reduceOption
  | _ => []

def LeavesListed (ids : List Fr254) (before after : Database) : Prop :=
  ∀ id ∈ ids, getCommitment id after.commitments = getCommitment id before.commitments

def UnlocksOwn (uuid : String) (before after : Database) : Prop :=
  ∀ id entry later, getCommitment id before.commitments = some entry → entry.status ≠ .unspent →
    getCommitment id after.commitments = some later → later.status = .unspent →
      entry.status = .pendingSpend ∧ entry.holder = some uuid

def Ready (uuid : String) (ids : List Fr254) (db : Database) : Prop :=
  ∀ id ∈ ids, ∀ entry, getCommitment id db.commitments = some entry → entry.status = .unspent ∨
    entry.status = .pendingSpend ∧ entry.holder = some uuid

def Owned (uuid : String) (ids : List Fr254) (db : Database) : Prop :=
  ∀ id ∈ ids, ∀ entry, getCommitment id db.commitments = some entry → entry.status = .pendingSpend →
    entry.holder = some uuid

def Safe (uuid : String) (ids : List Fr254) (task : Task Database Reconciled) (db : Database) : Prop :=
  task.Meets (LeavesListed ids) (UnlocksOwn uuid) (fun _ _ _ => True) db

section

variable {uuid : String} {all ids : List Fr254} {db later : Database}

theorem unlocksOwn_same (same : later.commitments = db.commitments) : UnlocksOwn uuid db later := by
  intro id entry after found locked isAfter unlocked
  rw [same, found, Option.some_inj] at isAfter
  exact absurd (isAfter ▸ unlocked) locked

variable {groups : List OriginGroup} {group : OriginGroup} {request : Request}
  {pending : List CommitmentEntry} {alreadyUnlocked : ℕ}

theorem mem_addToGroups {entry : CommitmentEntry} (member : group ∈ addToGroups entry groups) {id : Fr254}
    (inside : id ∈ group.2.2) : id = entry.key ∨ ∃ old ∈ groups, id ∈ old.2.2 := by
  induction groups with
  | nil => exact .inl (by simpa [mem_singleton.mp member] using inside)
  | cons first rest ih =>
    rw [addToGroups] at member
    split at member
    · rcases mem_cons.mp member with rfl | old
      · rcases mem_append.mp inside with old | new
        · exact .inr ⟨first, mem_cons_self, old⟩
        · exact .inl (mem_singleton.mp new)
      · exact .inr ⟨group, mem_cons_of_mem _ old, inside⟩
    · rcases mem_cons.mp member with rfl | old
      · exact .inr ⟨first, mem_cons_self, inside⟩
      · rcases ih old with new | ⟨other, before, here⟩
        · exact .inl new
        · exact .inr ⟨other, mem_cons_of_mem _ before, here⟩

theorem mem_groupCommitmentsByOrigin {entries : List CommitmentEntry}
    (member : group ∈ groupCommitmentsByOrigin entries) {id : Fr254} (inside : id ∈ group.2.2) :
    id ∈ entries.map CommitmentEntry.key := by
  induction entries using List.reverseRecOn generalizing group with
  | nil => simp [groupCommitmentsByOrigin] at member
  | append_singleton rest last ih =>
    rw [groupCommitmentsByOrigin, foldl_append] at member
    rw [map_append, mem_append]
    rcases mem_addToGroups member inside with rfl | ⟨old, before, here⟩
    · exact .inr mem_cons_self
    · exact .inl (ih before here)

theorem Ready.wait (ready : Ready uuid ids db) (within : ids ⊆ all) (left : LeavesListed all db later) :
    Ready uuid ids later := by
  intro id member entry found
  exact ready id member entry ((left id (within member)).symm.trans found)

theorem Owned.wait (owned : Owned uuid all db) (left : LeavesListed all db later) : Owned uuid all later := by
  intro id member entry found
  exact owned id member entry ((left id member).symm.trans found)

theorem getCommitment_markUnspent (id : Fr254) (l1Hash : Option ℕ) (l2Block : Option ℤ) :
    getCommitment id (markCommitmentsUnspent ids l1Hash l2Block db.commitments) =
      (getCommitment id db.commitments).map fun entry => if id ∈ ids then
        { entry with status := .unspent, layer1TransactionHash := l1Hash, layer2BlockNumber := l2Block }
      else entry := by
  rw [markCommitmentsUnspent, getCommitment_updateMany]
  · cases found : getCommitment id db.commitments with
    | none => rfl
    | some entry => simp [getCommitment_key found]
  · exact fun _ => rfl

theorem unlockGroups_meets {next : Task Database Reconciled} (within : ∀ group ∈ groups, group.2.2 ⊆ all)
    (ready : ∀ group ∈ groups, Ready uuid group.2.2 db) (finishes : ∀ db, Safe uuid all next db) :
    Safe uuid all (unlockGroups next groups) db := by
  induction groups generalizing db with
  | nil => exact finishes db
  | cons group groups ih =>
    obtain ⟨l1Hash, l2Block, ids⟩ := group
    intro later left
    have still : ∀ group ∈ (l1Hash, l2Block, ids) :: groups, Ready uuid group.2.2 later :=
      fun group member => (ready group member).wait (within group member) left
    refine ⟨?_, ih (fun group member => within group (mem_cons_of_mem _ member)) ?_, fun _ _ => trivial⟩
    · intro id entry after found locked isAfter unlocked
      rw [getCommitment_markUnspent, found, Option.map_some, Option.some_inj] at isAfter
      by_cases member : id ∈ ids
      · exact (still _ mem_cons_self id member entry found).resolve_left locked
      · rw [if_neg member] at isAfter
        exact absurd (isAfter ▸ unlocked) locked
    · intro group member id inside after isAfter
      rw [getCommitment_markUnspent, Option.map_eq_some_iff] at isAfter
      obtain ⟨entry, found, rfl⟩ := isAfter
      by_cases again : id ∈ ids
      · rw [if_pos again]
        exact .inl rfl
      · rw [if_neg again]
        exact still group (mem_cons_of_mem _ member) id inside entry found

theorem settleRequest_meets {args : SwapChildRequestArgs}
    (within : pending.map CommitmentEntry.key ⊆ all) (ready : Ready request.uuid (pending.map CommitmentEntry.key) db) :
    Safe request.uuid all (settleRequest request args pending alreadyUnlocked) db := by
  intro later left
  refine ⟨unlocksOwn_same rfl, unlockGroups_meets ?_ ?_ ?_, fun _ _ => trivial⟩
  · exact fun group member id inside => within (mem_groupCommitmentsByOrigin member inside)
  · exact fun group member id inside => ready.wait within left id (mem_groupCommitmentsByOrigin member inside)
  · exact fun db later _ => ⟨unlocksOwn_same rfl, fun _ _ => trivial, fun _ _ => trivial⟩

theorem readCommitments_meets {next : List CommitmentEntry → ℕ → ℕ → Task Database Reconciled}
    {skipped : ℕ} {ids : List (Option Fr254)} (listed : ids.reduceOption ⊆ all)
    (within : pending.map CommitmentEntry.key ⊆ all) (ready : Ready uuid (pending.map CommitmentEntry.key) db)
    (owned : Owned uuid all db)
    (continues : ∀ db pending alreadyUnlocked skipped, pending.map CommitmentEntry.key ⊆ all →
      Ready uuid (pending.map CommitmentEntry.key) db → Safe uuid all (next pending alreadyUnlocked skipped) db) :
    Safe uuid all (readCommitments next ids pending alreadyUnlocked skipped) db := by
  induction ids generalizing db pending alreadyUnlocked skipped with
  | nil => exact continues _ _ _ _ within ready
  | cons id ids ih =>
    cases id with
    | none => exact ih listed within ready owned
    | some id =>
      have here : id ∈ all := listed mem_cons_self
      have rest : ids.reduceOption ⊆ all := fun other member => listed (mem_cons_of_mem _ member)
      intro later left
      refine ⟨unlocksOwn_same rfl, ?_, fun _ _ => trivial⟩
      have ready := ready.wait within left
      have owned := owned.wait left
      cases found : getCommitment id later.commitments with
      | none => simpa only [found, Safe] using ih rest within ready owned
      | some existing =>
        have isKey := getCommitment_key found
        cases isStatus : existing.status with
        | pendingSpend =>
          simp only [found, isStatus]
          refine ih rest ?_ ?_ owned
          · rw [map_append]
            exact append_subset.mpr ⟨within, by simpa [isKey] using here⟩
          · intro other member entry isEntry
            rw [map_append, mem_append] at member
            rcases member with old | new
            · exact ready other old entry isEntry
            · obtain rfl : other = id := (mem_singleton.mp new).trans isKey
              obtain rfl : existing = entry := Option.some_inj.mp (found.symm.trans isEntry)
              exact .inr ⟨isStatus, owned other here existing found isStatus⟩
        | unspent | spent | pendingCreation => simpa only [found, isStatus, Safe] using ih rest within ready owned

theorem reconcile_meets (owned : Owned request.uuid (listed request) db) :
    Safe request.uuid (listed request) (reconcileExpiredSwapRequest request) db := by
  rw [reconcileExpiredSwapRequest]
  split
  · exact fun _ _ => trivial
  · split
    · split <;> exact fun _ _ => trivial
    · exact fun _ _ => trivial
    · rename_i args isArgs
      have isListed : listed request = args.spendCommitmentIds.reduceOption := by rw [listed, isArgs]
      split
      · exact fun _ _ => trivial
      · refine readCommitments_meets (isListed ▸ List.Subset.refl _) (nil_subset _) (by simp [Ready]) owned ?_
        intro db pending alreadyUnlocked skipped within ready
        split
        · exact fun _ _ => trivial
        · split
          · exact fun _ _ => trivial
          · exact settleRequest_meets within ready

end

variable {ι : Type} [DecidableEq ι]

/-- While nobody else touches the listed commitments and those that are reserved are reserved by the
request, no turn of the call unlocks anything but a commitment that the request has reserved. -/
theorem reconcile_unlocks_own {pool : Pool ι Database Reconciled} {i : ι} {request : Request}
    (isCall : pool.tasks i = reconcileExpiredSwapRequest request)
    (owned : Owned request.uuid (listed request) pool.state)
    (schedule : List (ι × Bool)) (undisturbed : pool.Undisturbed (LeavesListed (listed request)) i schedule)
    (works : Bool) :
    UnlocksOwn request.uuid (pool.run schedule).state ((pool.run schedule).turn (i, works)).state := by
  have refl : ∀ db, LeavesListed (listed request) db db := fun _ _ _ => rfl
  have meets := Pool.run_meets refl (fun _ _ _ first second id member => (second id member).trans (first id member))
    (isCall ▸ reconcile_meets owned) undisturbed
  rcases (meets.turn refl works).1 with same | unlocks
  · exact unlocksOwn_same (congrArg Database.commitments same)
  · exact unlocks

def sampleEntry (status : CommitmentStatus) (holder : Option String) : CommitmentEntry :=
  ⟨⟨5, 1, 0, (0, 1), 3⟩, status, 7, 9, none, some 0, holder⟩

def sampleRequest (status : RequestStatus) : Request := ⟨"first", status, some (some ⟨[some 7]⟩)⟩

def samplePool (write : List CommitmentEntry → List CommitmentEntry) : Pool (Fin 3) Database Reconciled where
  state := ⟨[sampleEntry .pendingSpend (some "first")], [sampleRequest .submitted]⟩
  tasks := ![reconcileExpiredSwapRequest (sampleRequest .submitted),
    .call (fun db => { db with commitments := write db.commitments }) fun _ => .done none,
    reconcileExpiredSwapRequest (sampleRequest .expired)]

theorem reconcile_unlocks_own_alone : UnlocksOwn "first" ((samplePool id).run [(0, true), (0, true)]).state
      (((samplePool id).run [(0, true), (0, true)]).turn (0, true)).state :=
  @reconcile_unlocks_own (Fin 3) _ (samplePool id) 0 (sampleRequest .submitted) rfl (by
      intro id member entry found isPending
      obtain rfl : id = 7 := mem_singleton.mp member
      obtain rfl : sampleEntry .pendingSpend (some "first") = entry := Option.some_inj.mp found
      rfl)
    [(0, true), (0, true)] ⟨fun other => absurd rfl other, fun other => absurd rfl other, trivial⟩ true

/-- A block that spends the commitment between the read and the unlocking, and a request that reserves
it after a reconciliation whose last write failed: both are undone by the next write. -/
theorem reconcile_unlocks_others :
    (∃ (schedule : List (Fin 3 × Bool)), let before := (samplePool (markCommitmentsSpent [9])).run schedule
      (before.state.commitments.map CommitmentEntry.status = [.spent]) ∧
        (before.turn (0, true)).state.commitments.map CommitmentEntry.status = [.unspent]) ∧
    ∃ (schedule : List (Fin 3 × Bool)), let before := (samplePool (reserveCommitment "second" 7)).run schedule
      (before.state.commitments.map (fun entry => (entry.status, entry.holder)) = [(.pendingSpend, some "second")]) ∧
        (before.turn (2, true)).state.commitments.map CommitmentEntry.status = [.unspent] := by
  refine ⟨⟨[(0, true), (1, true), (0, true)], ?_⟩,
    ⟨[(0, true), (0, true), (0, true), (0, false), (1, true), (2, true), (2, true)], ?_⟩⟩
  · decide +kernel
  · decide +kernel

end Nightfall.Client
