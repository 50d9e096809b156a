import Nightfall.Field

/-! The client's `commitments` collection. Every call is one atomic operation of the database. -/

namespace Nightfall.Client

inductive CommitmentStatus
  | pendingSpend
  | spent
  | pendingCreation
  | unspent
  deriving DecidableEq

structure Preimage where
  value : Fr254
  nfTokenId : Fr254
  nfSlotId : Fr254
  publicKey : Fr254 × Fr254
  salt : Fr254
  deriving DecidableEq

/-- `holder` is not stored by the client: it names who reserved the commitment last. -/
structure CommitmentEntry where
  preimage : Preimage
  status : CommitmentStatus
  key : Fr254
  nullifier : Fr254
  layer1TransactionHash : Option ℕ
  layer2BlockNumber : Option ℤ
  holder : Option String

def getCommitment (key : Fr254) (commitments : List CommitmentEntry) : Option CommitmentEntry :=
  commitments.find? (·.key = key)

def updateMany (filter : CommitmentEntry → Bool) (update : CommitmentEntry → CommitmentEntry)
    (commitments : List CommitmentEntry) : List CommitmentEntry :=
  commitments.map fun entry => if filter entry then update entry else entry

def markCommitmentsSpent (nullifiers : List Fr254) : List CommitmentEntry → List CommitmentEntry :=
  updateMany (·.nullifier ∈ nullifiers) ({ · with status := .spent })

def markCommitmentsUnspent (ids : List Fr254) (l1Hash : Option ℕ) (l2BlockNumber : Option ℤ) :
    List CommitmentEntry → List CommitmentEntry :=
  updateMany (·.key ∈ ids) fun entry =>
    { entry with status := .unspent, layer1TransactionHash := l1Hash, layer2BlockNumber := l2BlockNumber }

/-- The `find_one_and_update` of `reserve_commitments_atomic`; the filter is on the unique `_id`. -/
def reserveCommitment (holder : String) (id : Fr254) : List CommitmentEntry → List CommitmentEntry :=
  updateMany (fun entry => entry.key = id ∧ entry.status = .unspent) fun entry =>
    { entry with status := .pendingSpend, holder := some holder }

theorem getCommitment_updateMany {filter : CommitmentEntry → Bool} {update : CommitmentEntry → CommitmentEntry}
    (keeps : ∀ entry, (update entry).key = entry.key) (key : Fr254) (commitments : List CommitmentEntry) :
    getCommitment key (updateMany filter update commitments) =
      (getCommitment key commitments).map fun entry => if filter entry then update entry else entry := by
  have same : ∀ entry, (if filter entry then update entry else entry).key = entry.key := by
    intro entry
    split
    · exact keeps entry
    · rfl
  simp [getCommitment, updateMany, same]

theorem getCommitment_key {key : Fr254} {commitments : List CommitmentEntry} {entry : CommitmentEntry}
    (found : getCommitment key commitments = some entry) : entry.key = key := by
  simpa using List.find?_some found

end Nightfall.Client
