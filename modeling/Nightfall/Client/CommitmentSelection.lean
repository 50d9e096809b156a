import Nightfall.Client.Commitments
import Nightfall.Library.Interleaving
import Nightfall.Library.Revert

/-! `find_usable_commitments`: a selection from one read of the store, then a reservation of each
selected commitment. -/

namespace Nightfall.Client

open Interleaving Revert List

variable (commitments : List Preimage) (target : Fr254) (preimages : List Preimage) (caller : String)

def maxPossibleCommitments : ℕ := 2

/-- `Preimage::default`, at the neutral point. -/
def Preimage.default : Preimage := ⟨0, 0, 0, (0, 1), 0⟩

def Preimage.amount (preimage : Preimage) : ℕ := preimage.value.val

def totalValue : Fr254 := (preimages.map Preimage.value).sum

def sortByValue : List Preimage := preimages.insertionSort fun a b => a.amount ≤ b.amount

/-- The count at which the sum reaches the target, or the sum of all. -/
def countUntil (target : Fr254) : List Preimage → Fr254 → ℕ → Except Fr254 ℕ
  | [], sum, _ => .error sum
  | preimage :: rest, sum, count =>
    if target.val ≤ (sum + preimage.value).val then .ok (count + 1)
    else countUntil target rest (sum + preimage.value) (count + 1)

def calculateMinimumCommitments : Except String ℕ :=
  match countUntil target ((sortByValue commitments).reverse.take maxPossibleCommitments) 0 0 with
  | .ok count => .ok count
  | .error sum =>
    -- the second loop goes on from the sum of the first
    match countUntil target (sortByValue commitments) sum 0 with
    | .ok _ => .error ("Sufficient balance to cover the value, but too many dust commitments — only up to two " ++
        "commitments are allowed.")
    | .error _ => .error "Not enough commitments to cover the value"

/-- The `while lhs < rhs` loop with `rhs = lhs + width`. -/
def twoPointers (target : Fr254) (below : List Preimage) : ℕ → ℕ → Fr254 → List Preimage → List Preimage
  | 0, _, _, best => best
  | width + 1, lhs, change, best =>
    match below[lhs]?, below[lhs + width + 1]? with
    | some first, some second =>
      if first.value + second.value = target then [first, second]
      else if target.val < (first.value + second.value).val then
        if (first.value + second.value - target).val < change.val then
          twoPointers target below width lhs (first.value + second.value - target) [first, second]
        else twoPointers target below width lhs change best
      else twoPointers target below width (lhs + 1) change best
    | _, _ => best

def findSubsetTwoCommitments (below : List Preimage) : List Preimage :=
  twoPointers target below (below.length - 1) 0 ((fr254Modulus - 1) / 2 : ℕ) []

def findSubsetCommitments (n : ℕ) : Except String (List Preimage) :=
  let below := commitments.filter fun preimage => preimage.amount < target.val
  if below.length ≤ 1 ∨ n = 1 then
    match commitments.find? fun preimage => target.val ≤ preimage.amount with
    | some preimage => .ok [preimage]
    | none => .error "Failed to find a matching commitment"
  else if n = 2 ∧ 1 < below.length ∧ target.val ≤ (totalValue below).val then
    .ok (findSubsetTwoCommitments target below)
  else .ok []

/-- Less change first, then more commitments. -/
def Preferred (a b : List Preimage) : Prop :=
  (totalValue a - target).val < (totalValue b - target).val ∨
    totalValue a - target = totalValue b - target ∧ b.length ≤ a.length

instance decidablePreferred : DecidableRel (Preferred target) := fun _ _ => instDecidableOr

def nonemptySubsets (commitments : List Preimage) (target : Fr254) : List ℕ → Except String (List (List Preimage))
  | [] => return []
  | n :: sizes => do
      let subset ← findSubsetCommitments commitments target n
      let rest ← nonemptySubsets commitments target sizes
      return if subset = [] then rest else subset :: rest

def candidateSubsets (min max : ℕ) : Except String (List (List Preimage)) :=
  if min = maxPossibleCommitments ∨ max = 1 then return [← findSubsetCommitments commitments target min]
  else nonemptySubsets commitments target (List.range' min (maxPossibleCommitments + 1 - min))

/-- `resize`, which the arrays of two preimages come from. -/
def padPreimages : List Preimage :=
  (preimages ++ List.replicate maxPossibleCommitments Preimage.default).take maxPossibleCommitments

def selectCommitment (min max : ℕ) : Except String (List Preimage) := do
  match ((← candidateSubsets commitments target min max).insertionSort (Preferred target)).head? with
  | some subset => return padPreimages subset
  | none => throw "No valid subsets found"

def getAvailableCommitments (tokenId : Fr254) (store : List CommitmentEntry) : List Preimage :=
  (store.filter fun entry => entry.preimage.nfTokenId = tokenId ∧ entry.status = .unspent).map CommitmentEntry.preimage

/-- What is computed from the read of the store: the selected commitments and how many have to be reserved. -/
def selectUsable (tokenId target : Fr254) (store : List CommitmentEntry) : Except String (List Preimage × ℕ) := do
  let available := getAvailableCommitments tokenId store
  if available = [] then throw "No commmitments found in the db"
  else
    let sorted := sortByValue available
    let min ← calculateMinimumCommitments sorted target
    if maxPossibleCommitments < min then
      throw "Too many dust commitments found; only up to two commitments can be used to cover the value"
    else if Nat.min sorted.length maxPossibleCommitments < min then
      throw "Not enough commitments available to cover target value"
    else return (← selectCommitment sorted target min (Nat.min sorted.length maxPossibleCommitments), min)

/-- What a call returns: `none` if it panicked. -/
abbrev Usable := Option (Except String (List Preimage))

/-- The document that the filter of a reservation finds. -/
def findUnspent (id : Fr254) : List CommitmentEntry → Option CommitmentEntry :=
  find? fun entry => entry.key = id ∧ entry.status = .unspent

def reserveCommitmentsAtomic (caller : String) (next : List CommitmentEntry → Usable) :
    List Fr254 → List CommitmentEntry → Task (List CommitmentEntry) Usable
  | [], reserved => .done (next reserved)
  | id :: ids, reserved => .call (reserveCommitment caller id) fun
      | none => .done (some (.error "Database update failed"))
      | some store =>
        match findUnspent id store with
        | some entry => reserveCommitmentsAtomic caller next ids
            (reserved ++ [{ entry with status := .pendingSpend, holder := some caller }])
        | none => reserveCommitmentsAtomic caller next ids reserved

/-- What is returned when all reservations have been tried. -/
def checkReserved (min : ℕ) (reserved : List CommitmentEntry) : Usable :=
  if reserved.length < min then
    some (.error "Could not reserve enough commitments - taken by another process")
  else some (.ok (padPreimages (reserved.map CommitmentEntry.preimage)))

def findUsableCommitments (hash : Preimage → Fr254) (caller : String) (tokenId target : Fr254) :
    Task (List CommitmentEntry) Usable :=
  .call (·) fun
    | none => .done none
    | some store =>
      match selectUsable tokenId target store with
      | .error error => .done (some (.error error))
      | .ok (selected, min) => reserveCommitmentsAtomic caller (checkReserved min) (selected.map hash) []

/-- Two commitments that cover the target, each of them needed if it has a value. -/
structure Enough (first second : Preimage) : Prop where
  reached : target.val ≤ first.amount + second.amount
  needed : target.val ≠ 0 → (first.amount ≠ 0 → second.amount < target.val) ∧
    (second.amount ≠ 0 → first.amount < target.val)

section

variable {target : Fr254} {commitments below subset : List Preimage}

/-- Nothing, or stored commitments that are enough when padded. -/
def Chosen (target : Fr254) (commitments subset : List Preimage) : Prop :=
  subset ⊆ commitments ∧
    (subset ≠ [] → ∃ first second, padPreimages subset = [first, second] ∧ Enough target first second)

theorem twoPointers_chosen (isBelow : ∀ preimage ∈ below, preimage ∈ commitments ∧ preimage.amount < target.val)
    {width lhs : ℕ} {change : Fr254} (chosen : Chosen target commitments subset) :
    Chosen target commitments (twoPointers target below width lhs change subset) := by
  induction width generalizing lhs change subset with
  | zero => exact chosen
  | succ width ih =>
    rw [twoPointers]
    split
    · rename_i first second isFirst isSecond
      obtain ⟨firstMember, firstBelow⟩ := isBelow first (mem_of_getElem? isFirst)
      obtain ⟨secondMember, secondBelow⟩ := isBelow second (mem_of_getElem? isSecond)
      have pair : target.val ≤ (first.value + second.value).val → Chosen target commitments [first, second] := by
        intro reached
        refine ⟨by simp [firstMember, secondMember], fun _ => ⟨first, second, rfl, ?_, fun _ => ?_⟩⟩
        · exact reached.trans (ZMod.val_add_le first.value second.value)
        · exact ⟨fun _ => secondBelow, fun _ => firstBelow⟩
      split
      · rename_i exactly
        exact pair (congrArg ZMod.val exactly).ge
      · split
        · rename_i more
          split
          · exact ih (pair more.le)
          · exact ih chosen
        · exact ih chosen
    · exact chosen

theorem findSubsetCommitments_chosen {n : ℕ} (found : findSubsetCommitments commitments target n = .ok subset) :
    Chosen target commitments subset ∧ (subset = [] → n ≠ 1) := by
  have nothing : Chosen target commitments [] := ⟨nil_subset _, fun empty => absurd rfl empty⟩
  rw [findSubsetCommitments] at found
  split at found
  · split at found
    · rename_i preimage isFound
      obtain rfl := Except.ok.inj found
      have reached : target.val ≤ preimage.amount := by simpa using List.find?_some isFound
      refine ⟨⟨by simpa using mem_of_find?_eq_some isFound, fun _ => ⟨preimage, .default, rfl, ?_, fun some => ?_⟩⟩,
        fun isEmpty => absurd isEmpty (cons_ne_nil _ _)⟩
      · exact reached.trans (Nat.le_add_right _ _)
      · exact ⟨fun _ => Nat.pos_of_ne_zero some, fun positive => absurd rfl positive⟩
    · cases found
  · rename_i several
    refine ⟨?_, fun _ one => several (.inr one)⟩
    split at found
    · obtain rfl := Except.ok.inj found
      refine twoPointers_chosen (fun preimage member => ?_) nothing
      simpa using mem_filter.mp member
    · obtain rfl := Except.ok.inj found
      exact nothing

theorem countUntil_pos {preimages : List Preimage} {sum : Fr254} {count result : ℕ}
    (counted : countUntil target preimages sum count = .ok result) : 1 ≤ result := by
  induction preimages generalizing sum count with
  | nil => cases counted
  | cons preimage rest ih =>
    rw [countUntil] at counted
    split at counted
    · obtain rfl := Except.ok.inj counted
      exact Nat.le_add_left _ _
    · exact ih counted

theorem nonemptySubsets_found {sizes : List ℕ} {subsets : List (List Preimage)}
    (ran : nonemptySubsets commitments target sizes = .ok subsets) (member : subset ∈ subsets) :
    subset ≠ [] ∧ ∃ n, findSubsetCommitments commitments target n = .ok subset := by
  induction sizes generalizing subsets with
  | nil =>
    obtain rfl := (pure_eq_ok _ _).mp ran
    cases member
  | cons n sizes ih =>
    simp only [nonemptySubsets, bind_eq_ok, pure_eq_ok] at ran
    obtain ⟨first, isFirst, rest, isRest, rfl⟩ := ran
    split at member
    · exact ih isRest member
    · rename_i nonempty
      rcases mem_cons.mp member with rfl | later
      · exact ⟨nonempty, n, isFirst⟩
      · exact ih isRest later

theorem candidateSubsets_found {min max : ℕ} {subsets : List (List Preimage)}
    (ran : candidateSubsets commitments target min max = .ok subsets) (member : subset ∈ subsets) :
    ∃ n, findSubsetCommitments commitments target n = .ok subset ∧ (subset = [] → n = min) := by
  rw [candidateSubsets] at ran
  split at ran
  · simp only [bind_eq_ok, pure_eq_ok] at ran
    obtain ⟨only, isOnly, rfl⟩ := ran
    obtain rfl := mem_singleton.mp member
    exact ⟨min, isOnly, fun _ => rfl⟩
  · obtain ⟨nonempty, n, found⟩ := nonemptySubsets_found ran member
    exact ⟨n, found, fun empty => absurd empty nonempty⟩

theorem calculateMinimumCommitments_pos {count : ℕ}
    (counted : calculateMinimumCommitments commitments target = .ok count) : 1 ≤ count := by
  rw [calculateMinimumCommitments] at counted
  split at counted
  · rename_i isCount
    obtain rfl := Except.ok.inj counted
    exact countUntil_pos isCount
  · split at counted <;> cases counted

theorem selectUsable_chosen {tokenId : Fr254} {store : List CommitmentEntry} {selected : List Preimage} {min : ℕ}
    (selection : selectUsable tokenId target store = .ok (selected, min)) :
    ∃ subset, Chosen target (store.map CommitmentEntry.preimage) subset ∧ selected = padPreimages subset ∧
      (subset = [] → 2 ≤ min) := by
  rw [selectUsable] at selection
  split at selection
  · cases selection
  · obtain ⟨count, counted, selection⟩ := (bind_eq_ok _ _ _).mp selection
    split at selection
    · cases selection
    · split at selection
      · cases selection
      · obtain ⟨_, chosen, isPair⟩ := (bind_eq_ok _ _ _).mp selection
        obtain ⟨rfl, rfl⟩ := Prod.ext_iff.mp ((pure_eq_ok _ _).mp isPair)
        obtain ⟨subsets, candidates, chosen⟩ := (bind_eq_ok _ _ _).mp chosen
        have positive := calculateMinimumCommitments_pos counted
        have isPart : sortByValue (getAvailableCommitments tokenId store) ⊆ store.map CommitmentEntry.preimage :=
          fun preimage member => (filter_sublist.map _).subset ((mem_insertionSort _).mp member)
        split at chosen
        · rename_i subset isHead
          obtain ⟨n, found, isMin⟩ := candidateSubsets_found candidates
            ((mem_insertionSort _).mp (mem_of_mem_head? isHead))
          obtain ⟨isChosen, notOne⟩ := findSubsetCommitments_chosen found
          refine ⟨subset, ⟨List.Subset.trans isChosen.1 isPart, isChosen.2⟩, ((pure_eq_ok _ _).mp chosen).symm,
            fun empty => ?_⟩
          have := notOne empty
          have := isMin empty
          omega
        · cases chosen

end

/-- The entry is locked by the caller. -/
def Held (entry : CommitmentEntry) : Prop := entry.status = .pendingSpend ∧ entry.holder = some caller

instance decidableHeld : DecidablePred (Held caller) := fun _ => instDecidableAnd

/-- What no call changes of the commitments. -/
def entries (store : List CommitmentEntry) : List (Fr254 × Preimage) :=
  store.map fun entry => (entry.key, entry.preimage)

/-- What the other calls leave to a caller: the commitments themselves and those that it holds. -/
def LeavesHeld (before after : List CommitmentEntry) : Prop :=
  entries after = entries before ∧ ∀ entry, Held caller entry → (entry ∈ after ↔ entry ∈ before)

/-- The caller holds exactly the reserved entries. -/
structure Reserved (caller : String) (ids : List Fr254) (reserved store : List CommitmentEntry) : Prop where
  keys : (store.map CommitmentEntry.key).Nodup
  distinct : (reserved.map CommitmentEntry.key).Nodup
  held : ∀ entry ∈ reserved, Held caller entry ∧ entry ∈ store ∧ entry.key ∈ ids
  only : ∀ entry ∈ store, Held caller entry → entry ∈ reserved

/-- What a reservation gets from the store that it finds. -/
def claim (id : Fr254) (found : Option (List CommitmentEntry)) : List CommitmentEntry :=
  ((found.bind (findUnspent id)).map fun entry =>
    { entry with status := .pendingSpend, holder := some caller }).toList

def claimed (ids : List Fr254) (seen : List (Option (List CommitmentEntry))) : List CommitmentEntry :=
  (ids.zip seen).flatMap fun call => claim caller call.1 call.2

/-- A commitment of some value is unspent in the store. -/
def Available (hash : Preimage → Fr254) (preimage : Preimage) (store : List CommitmentEntry) : Prop :=
  preimage.amount ≠ 0 → ∃ entry ∈ store, entry.key = hash preimage ∧ entry.status = .unspent

/-- What a call holds in terms of what its database calls see: the selected commitments that it claims. -/
structure Holds (hash : Preimage → Fr254) (caller : String) (tokenId target : Fr254) (original : List CommitmentEntry)
    (seen : List (Option (List CommitmentEntry))) (store : List CommitmentEntry) : Prop where
  same : ∀ state, some state ∈ seen → entries state = entries original
  reserved : ∀ found rest selected min, seen = some found :: rest →
    selectUsable tokenId target found = .ok (selected, min) →
    Reserved caller (selected.map hash) (claimed caller (selected.map hash) rest) store
  nothing : (∀ found rest selected min, seen = some found :: rest →
    selectUsable tokenId target found ≠ .ok (selected, min)) → ∀ entry ∈ store, ¬Held caller entry

section

variable {caller other : String} {ids : List Fr254} {store later reserved : List CommitmentEntry}

theorem keys_eq (same : entries later = entries store) :
    later.map CommitmentEntry.key = store.map CommitmentEntry.key := by
  simpa [entries, Function.comp_def] using congrArg (map Prod.fst) same

theorem LeavesHeld.refl (store : List CommitmentEntry) : LeavesHeld caller store store := ⟨rfl, fun _ _ => Iff.rfl⟩

theorem LeavesHeld.trans {last : List CommitmentEntry} (first : LeavesHeld caller store later)
    (second : LeavesHeld caller later last) : LeavesHeld caller store last :=
  ⟨second.1.trans first.1, fun entry held => (second.2 entry held).trans (first.2 entry held)⟩

theorem LeavesHeld.notHeld (left : LeavesHeld caller store later) (free : ∀ entry ∈ store, ¬Held caller entry) :
    ∀ entry ∈ later, ¬Held caller entry :=
  fun entry member held => free entry ((left.2 entry held).mp member) held

theorem Reserved.wait (isReserved : Reserved caller ids reserved store) (left : LeavesHeld caller store later) :
    Reserved caller ids reserved later where
  keys := keys_eq left.1 ▸ isReserved.keys
  distinct := isReserved.distinct
  held entry member :=
    have ⟨held, inside, isId⟩ := isReserved.held entry member
    ⟨held, (left.2 entry held).mpr inside, isId⟩
  only entry member held := isReserved.only entry ((left.2 entry held).mp member) held

theorem reserveCommitment_same (id : Fr254) : entries (reserveCommitment caller id store) = entries store := by
  simp [entries, reserveCommitment, updateMany, Function.comp_def, apply_ite]

theorem mem_reserveCommitment {entry : CommitmentEntry} (locked : entry.status = .pendingSpend) (member : entry ∈ store)
    (id : Fr254) : entry ∈ reserveCommitment caller id store :=
  mem_map.mpr ⟨entry, member, by simp [locked]⟩

theorem reserveCommitment_leaves (different : caller ≠ other) (id : Fr254) :
    LeavesHeld other store (reserveCommitment caller id store) := by
  refine ⟨reserveCommitment_same id, fun entry held => ⟨fun member => ?_, fun member => ?_⟩⟩
  · obtain ⟨before, inside, rfl⟩ := mem_map.mp member
    split at held
    · exact absurd (Option.some_inj.mp held.2) different
    · rename_i kept
      rwa [if_neg kept]
  · exact mem_reserveCommitment held.1 member id

theorem claim_unavailable {id : Fr254} {found : Option (List CommitmentEntry)} : claim caller id found = [] ↔
    ∀ state ∈ found, ∀ entry ∈ state, entry.key = id → entry.status ≠ .unspent := by
  cases found <;> simp [claim, findUnspent]

theorem mem_claim {id : Fr254} {entry : CommitmentEntry} : entry ∈ claim caller id (some store) ↔
    ∃ before, findUnspent id store = some before ∧
      { before with status := .pendingSpend, holder := some caller } = entry := by
  rw [claim, Option.mem_toList, Option.map_eq_some_iff, Option.bind_some]

theorem claim_length (id : Fr254) (found : Option (List CommitmentEntry)) : (claim caller id found).length ≤ 1 := by
  rw [claim, Option.length_toList]
  split <;> simp

theorem findUnspent_eq_some {id : Fr254} {entry : CommitmentEntry} (found : findUnspent id store = some entry) :
    entry ∈ store ∧ entry.key = id ∧ entry.status = .unspent :=
  ⟨mem_of_find?_eq_some found, by simpa using List.find?_some found⟩

/-- A reservation adds to what the caller holds the entry that it gets. -/
theorem Reserved.reserve (isReserved : Reserved caller ids reserved store) {id : Fr254} (inside : id ∈ ids) :
    Reserved caller ids (reserved ++ claim caller id (some store)) (reserveCommitment caller id store) := by
  have keys : ((reserveCommitment caller id store).map CommitmentEntry.key).Nodup :=
    (congrArg List.Nodup (keys_eq (reserveCommitment_same id))).mpr isReserved.keys
  refine ⟨keys, ?_, fun entry member => ?_, fun entry member held => ?_⟩
  · rw [map_append, nodup_append]
    refine ⟨isReserved.distinct, ?_, ?_⟩
    · rw [claim]
      cases (some store).bind _ <;> simp
    · rintro _ isOld _ isNew rfl
      obtain ⟨old, oldMember, sameKey⟩ := mem_map.mp isOld
      obtain ⟨new, newMember, isKey⟩ := mem_map.mp isNew
      obtain ⟨before, found, rfl⟩ := mem_claim.mp newMember
      obtain ⟨stored, -, unspent⟩ := findUnspent_eq_some found
      obtain ⟨held, oldStored, -⟩ := isReserved.held old oldMember
      obtain rfl := inj_on_of_nodup_map isReserved.keys oldStored stored (sameKey.trans isKey.symm)
      cases held.1.symm.trans unspent
  · rcases mem_append.mp member with old | new
    · obtain ⟨held, stored, isId⟩ := isReserved.held entry old
      exact ⟨held, mem_reserveCommitment held.1 stored id, isId⟩
    · obtain ⟨before, found, rfl⟩ := mem_claim.mp new
      obtain ⟨stored, rfl, unspent⟩ := findUnspent_eq_some found
      exact ⟨⟨rfl, rfl⟩, mem_map.mpr ⟨before, stored, by simp [unspent]⟩, inside⟩
  · obtain ⟨before, stored, rfl⟩ := mem_map.mp member
    split
    · rename_i taken
      refine mem_append_right _ (mem_claim.mpr ?_)
      cases found : findUnspent id store with
      | none => exact absurd taken (find?_eq_none.mp found before stored)
      | some entry =>
        have isKey : before.key = id := (of_decide_eq_true taken).1
        obtain ⟨inside, sameKey, -⟩ := findUnspent_eq_some found
        obtain rfl := inj_on_of_nodup_map isReserved.keys inside stored (sameKey.trans isKey.symm)
        exact ⟨entry, rfl, rfl⟩
    · rename_i kept
      rw [if_neg kept] at held
      exact mem_append_left _ (isReserved.only before stored held)

variable {hash : Preimage → Fr254} {tokenId target : Fr254} {original : List CommitmentEntry}
  {next : List CommitmentEntry → Usable} {seen : List (Option (List CommitmentEntry))} {returned : Usable}

theorem reserveCommitmentsAtomic_cons (id : Fr254) :
    reserveCommitmentsAtomic caller next (id :: ids) reserved = .call (reserveCommitment caller id) fun answer =>
      if answer = none then .done (some (.error "Database update failed"))
      else reserveCommitmentsAtomic caller next ids (reserved ++ claim caller id answer) := by
  rw [reserveCommitmentsAtomic]
  congr 1
  funext answer
  cases answer with
  | none => rfl
  | some store =>
    cases found : findUnspent id store <;> simp [claim, found]

/-- How a call is proved to keep its promise. -/
def Keeps (caller : String) (post : List (Option (List CommitmentEntry)) → List CommitmentEntry → Prop)
    (task : Task (List CommitmentEntry) Usable) : List CommitmentEntry → Prop :=
  task.Meets (LeavesHeld caller) (fun before after => ∀ other, caller ≠ other → LeavesHeld other before after)
    fun seen _ => post seen

theorem reserveCommitmentsAtomic_keeps {post : List (Option (List CommitmentEntry)) → List CommitmentEntry → Prop}
    {rest : List Fr254} (inside : rest ⊆ ids) (isReserved : Reserved caller ids reserved store)
    (same : entries store = entries original)
    (ends : ∀ seen store, (∀ state, some state ∈ seen → entries state = entries original) →
      Reserved caller ids (reserved ++ claimed caller rest seen) store → post seen store) :
    Keeps caller post (reserveCommitmentsAtomic caller next rest reserved) store := by
  induction rest generalizing reserved store post with
  | nil =>
    intro later left
    exact ends [] later (by simp) (by simpa [claimed] using isReserved.wait left)
  | cons id rest ih =>
    rw [reserveCommitmentsAtomic_cons]
    intro later left
    have isReserved := isReserved.wait left
    have same := left.1.trans same
    refine ⟨fun other different => reserveCommitment_leaves different id, ?_, fun last leaves =>
      ends [none] last (by simp) (by simpa [claimed, claim] using isReserved.wait leaves)⟩
    refine ih (fun other member => inside (mem_cons_of_mem _ member)) (isReserved.reserve (inside mem_cons_self))
      ((reserveCommitment_same id).trans same) fun seen store each held => ?_
    exact ends (some later :: seen) store (by simpa [same] using each) (by simpa [claimed] using held)

theorem findUsableCommitments_keeps (keys : (store.map CommitmentEntry.key).Nodup)
    (free : ∀ entry ∈ store, ¬Held caller entry) :
    Keeps caller (Holds hash caller tokenId target store) (findUsableCommitments hash caller tokenId target) store := by
  intro later left
  have free := left.notHeld free
  refine ⟨fun other _ => .refl _, ?_, fun last leaves => ⟨by simp, by simp, fun _ => leaves.notHeld free⟩⟩
  cases selection : selectUsable tokenId target later with
  | error error =>
    simp only [selection]
    refine fun last leaves => ⟨by simpa using left.1, fun read rest chosen least isRead isChosen => ?_,
      fun _ => leaves.notHeld free⟩
    cases isRead
    cases selection.symm.trans isChosen
  | ok found =>
    obtain ⟨selected, min⟩ := found
    simp only [selection]
    have nothing : Reserved caller (selected.map hash) [] later :=
      ⟨keys_eq left.1 ▸ keys, nodup_nil, by simp, fun entry member held => absurd held (free entry member)⟩
    refine reserveCommitmentsAtomic_keeps (List.Subset.refl _) nothing left.1 fun seen last each held => ?_
    refine ⟨by simpa [left.1] using each, ?_, fun none => absurd selection (none later seen selected min rfl)⟩
    intro read rest chosen least isRead isChosen
    cases isRead
    cases selection.symm.trans isChosen
    exact held

theorem reserveCommitmentsAtomic_replay
    (replayed : (reserveCommitmentsAtomic caller next ids reserved).replay seen = some returned) :
    returned = some (.error "Database update failed") ∨
      ∃ states : List (List CommitmentEntry), seen = states.map some ∧ states.length = ids.length ∧
        returned = next (reserved ++ claimed caller ids seen) := by
  induction ids generalizing reserved seen with
  | nil =>
    cases seen with
    | nil => exact .inr ⟨[], rfl, rfl, by simpa [claimed, reserveCommitmentsAtomic, Task.replay] using replayed.symm⟩
    | cons answer seen => cases replayed
  | cons id ids ih =>
    rw [reserveCommitmentsAtomic_cons] at replayed
    cases seen with
    | nil => cases replayed
    | cons answer seen =>
      cases answer with
      | none =>
        cases seen with
        | nil => exact .inl (Option.some_inj.mp replayed).symm
        | cons answer seen => cases replayed
      | some store =>
        rcases ih replayed with failed | ⟨states, rfl, all, isReturned⟩
        · exact .inl failed
        · exact .inr ⟨store :: states, rfl, congrArg Nat.succ all, by simpa [claimed] using isReturned⟩

theorem findUsableCommitments_replay {preimages : List Preimage}
    (replayed : (findUsableCommitments hash caller tokenId target).replay seen = some (some (.ok preimages))) :
    ∃ found states selected min, seen = (found :: states).map some ∧
      selectUsable tokenId target found = .ok (selected, min) ∧ states.length = selected.length ∧
      min ≤ (claimed caller (selected.map hash) (states.map some)).length ∧
      preimages = padPreimages
        ((claimed caller (selected.map hash) (states.map some)).map CommitmentEntry.preimage) := by
  cases seen with
  | nil => cases replayed
  | cons answer seen =>
    cases answer with
    | none => cases seen <;> cases replayed
    | some found =>
      simp only [findUsableCommitments, Task.replay] at replayed
      cases selection : selectUsable tokenId target found with
      | error error =>
        rw [selection] at replayed
        cases seen <;> cases replayed
      | ok selected =>
        rw [selection] at replayed
        rcases reserveCommitmentsAtomic_replay replayed with failed | ⟨states, rfl, all, isReturned⟩
        · cases failed
        · rw [checkReserved, nil_append] at isReturned
          split at isReturned
          · cases isReturned
          · rename_i many
            exact ⟨found, states, selected.1, selected.2, rfl, selection, by simpa using all, not_lt.mp many, by
              simpa using isReturned⟩

/-- What the entries are worth. -/
def worth (entries : List CommitmentEntry) : ℕ := (entries.map fun entry => entry.preimage.amount).sum

theorem padPreimages_worth (short : reserved.length ≤ 2) :
    ((padPreimages (reserved.map CommitmentEntry.preimage)).map Preimage.amount).sum = worth reserved := by
  have none : Preimage.default.amount = 0 := rfl
  rw [padPreimages, maxPossibleCommitments, take_append, take_of_length_le (by rwa [length_map]),
    map_append, sum_append, take_replicate, map_replicate, none, sum_replicate, smul_zero, add_zero, map_map]
  rfl

/-- A selected commitment is reserved with its value exactly if it is available. -/
theorem claim_worth {preimage : Preimage} (same : entries store = entries original)
    (known : ∀ entry ∈ original, entry.key = hash preimage → entry.preimage.amount = preimage.amount) :
    Available hash preimage store ∧ worth (claim caller (hash preimage) (some store)) = preimage.amount ∨
      ¬Available hash preimage store ∧ preimage.amount ≠ 0 ∧ worth (claim caller (hash preimage) (some store)) = 0 := by
  cases found : findUnspent (hash preimage) store with
  | none =>
    have nothing : worth (claim caller (hash preimage) (some store)) = 0 := by simp [claim, found, worth]
    by_cases worthless : preimage.amount = 0
    · exact .inl ⟨fun positive => absurd worthless positive, nothing.trans worthless.symm⟩
    · refine .inr ⟨fun available => ?_, worthless, nothing⟩
      obtain ⟨entry, member, isEntry⟩ := available worthless
      exact absurd (decide_eq_true isEntry) (find?_eq_none.mp found entry member)
  | some entry =>
    obtain ⟨member, isKey, unspent⟩ := findUnspent_eq_some found
    have stored : (entry.key, entry.preimage) ∈ entries original := same ▸ mem_map_of_mem (f := fun _ => _) member
    obtain ⟨owner, isOwner, isEntry⟩ := mem_map.mp stored
    obtain ⟨sameKey, samePreimage⟩ := Prod.mk.inj isEntry
    refine .inl ⟨fun _ => ⟨entry, member, isKey, unspent⟩, ?_⟩
    simpa [claim, found, worth, samePreimage] using known owner isOwner (sameKey.trans isKey)

/-- The reserved commitments cover the target exactly if every selected one of some value was available. -/
theorem claimed_covers {first second : Preimage} {states : List (List CommitmentEntry)}
    (known : ∀ preimage ∈ [first, second], ∀ entry ∈ original, entry.key = hash preimage →
      entry.preimage.amount = preimage.amount)
    (enough : Enough target first second) (all : states.length = 2)
    (each : ∀ state ∈ states, entries state = entries original) :
    target.val ≤ ((padPreimages ((claimed caller ([first, second].map hash) (states.map some)).map
        CommitmentEntry.preimage)).map Preimage.amount).sum ↔
      target.val = 0 ∨ Forall₂ (Available hash) [first, second] states := by
  obtain ⟨state, other, rfl⟩ := length_eq_two.mp all
  obtain ⟨sameState, sameOther⟩ :
      entries state = entries original ∧ entries other = entries original := by simpa using each
  have isClaimed : claimed caller ([first, second].map hash) ([state, other].map some) =
      claim caller (hash first) (some state) ++ claim caller (hash second) (some other) := by simp [claimed]
  have short :=
    Nat.add_le_add (@claim_length caller (hash first) (some state)) (@claim_length caller (hash second) (some other))
  rw [isClaimed, padPreimages_worth (length_append ▸ short), worth, map_append, sum_append, ← worth, ← worth,
    forall₂_cons, forall₂_cons, and_iff_left Forall₂.nil]
  obtain ⟨reached, needed⟩ := enough
  rcases @claim_worth caller state hash original first sameState (known first (by simp)) with
    ⟨available, isWorth⟩ | ⟨taken, positive, isWorth⟩ <;>
  rcases @claim_worth caller other hash original second sameOther (known second (by simp)) with
    ⟨alsoAvailable, isOther⟩ | ⟨alsoTaken, alsoPositive, isOther⟩ <;>
  grind

/-- Two default preimages have one id, which is reserved once at most. -/
theorem claimed_defaults
    (isReserved : Reserved caller ids (claimed caller ((padPreimages []).map hash) seen) store) :
    (claimed caller ((padPreimages []).map hash) seen).length ≤ 1 := by
  have within : (claimed caller ((padPreimages []).map hash) seen).map CommitmentEntry.key ⊆ [hash .default] := by
    intro key member
    obtain ⟨entry, isEntry, rfl⟩ := mem_map.mp member
    obtain ⟨⟨id, answer⟩, isCall, isClaim⟩ := mem_flatMap.mp isEntry
    have isId : id = hash .default := by
      simpa [padPreimages, maxPossibleCommitments] using (of_mem_zip isCall).1
    cases answer with
    | none => cases isClaim
    | some store =>
      obtain ⟨before, found, rfl⟩ := mem_claim.mp isClaim
      exact mem_singleton.mpr ((findUnspent_eq_some found).2.1.trans isId)
  simpa using (isReserved.distinct.subperm within).length_le

end

variable {ι : Type} [DecidableEq ι] {hash : Preimage → Fr254} {name : ι → String} {request : ι → Fr254 × Fr254}
  {store : List CommitmentEntry} {i : ι}

def calls (hash : Preimage → Fr254) (name : ι → String) (request : ι → Fr254 × Fr254) (store : List CommitmentEntry) :
    Pool ι (List CommitmentEntry) Usable :=
  ⟨store, fun i => findUsableCommitments hash (name i) (request i).1 (request i).2⟩

section

variable (distinct : Function.Injective name) (keys : (store.map CommitmentEntry.key).Nodup)
  (free : ∀ i, ∀ entry ∈ store, ¬Held (name i) entry) (schedule : List (ι × Bool))
include distinct keys free

theorem calls_hold {returned : Usable}
    (isDone : (((calls hash name request store).run schedule).tasks i).result = some returned) :
    Holds hash (name i) (request i).1 (request i).2 store ((calls hash name request store).seen i schedule)
      ((calls hash name request store).run schedule).state := by
  have start : ∀ i, ((calls hash name request store).tasks i).Meets (LeavesHeld (name i))
      (fun before after => ∀ other, name i ≠ other → LeavesHeld other before after)
      (fun seen _ => Holds hash (name i) (request i).1 (request i).2 store seen) store :=
    fun i => findUsableCommitments_keeps keys (free i)
  have meets := Pool.run_allMeet (fun _ => LeavesHeld.refl) (fun _ _ _ _ first second => first.trans second)
    (fun i j other _ _ guaranteed => guaranteed (name j) (distinct.ne other)) start schedule i
  simpa using meets.post_of_result .refl isDone

theorem returned_reserved {preimages : List Preimage}
    (isDone : (((calls hash name request store).run schedule).tasks i).result = some (some (.ok preimages))) :
    ∃ reserved ids, preimages = padPreimages (reserved.map CommitmentEntry.preimage) ∧
      Reserved (name i) ids reserved ((calls hash name request store).run schedule).state := by
  obtain ⟨found, states, selected, min, isSeen, selection, -, -, isPadded⟩ :=
    findUsableCommitments_replay (Pool.replay_seen isDone)
  exact ⟨_, _, isPadded, (calls_hold distinct keys free schedule isDone).reserved found _ selected min isSeen selection⟩

/-- A call that returns has reserved distinct commitments, at least as many as the minimum, and they
cover the target exactly if each selected one was still unspent when the call came to reserve it. -/
theorem findUsableCommitments_covers (keyed : ∀ entry ∈ store, entry.key = hash entry.preimage)
    (undefaulted : ∀ entry ∈ store, hash entry.preimage = hash .default → entry.preimage.amount = 0)
    {preimages : List Preimage}
    (isDone : (((calls hash name request store).run schedule).tasks i).result = some (some (.ok preimages))) :
    ∃ found states selected min, (calls hash name request store).seen i schedule = (found :: states).map some ∧
      selectUsable (request i).1 (request i).2 found = .ok (selected, min) ∧
      min ≤ (claimed (name i) (selected.map hash) (states.map some)).length ∧
      preimages = padPreimages ((claimed (name i) (selected.map hash) (states.map some)).map CommitmentEntry.preimage) ∧
      Reserved (name i) (selected.map hash) (claimed (name i) (selected.map hash) (states.map some))
        ((calls hash name request store).run schedule).state ∧
      ((request i).2.val ≤ (preimages.map Preimage.amount).sum ↔
        (request i).2.val = 0 ∨ Forall₂ (Available hash) selected states) := by
  have holds := calls_hold distinct keys free schedule isDone
  obtain ⟨found, states, selected, min, isSeen, selection, all, many, rfl⟩ :=
    findUsableCommitments_replay (Pool.replay_seen isDone)
  have reserved := holds.reserved found _ selected min isSeen selection
  have each : ∀ state ∈ found :: states, entries state = entries store :=
    fun state member => holds.same state (isSeen ▸ mem_map_of_mem member)
  refine ⟨found, states, selected, min, isSeen, selection, many, rfl, reserved, ?_⟩
  obtain ⟨subset, ⟨isPart, isEnough⟩, rfl, isEmpty⟩ := selectUsable_chosen selection
  by_cases empty : subset = []
  · subst empty
    have := isEmpty rfl
    have := claimed_defaults reserved
    omega
  · obtain ⟨first, second, isPair, enough⟩ := isEnough empty
    have isStored : ∀ preimage ∈ padPreimages subset, preimage = .default ∨ preimage ∈ subset := by
      intro preimage member
      rcases mem_append.mp (mem_of_mem_take member) with stored | padding
      · exact .inr stored
      · exact .inl (eq_of_mem_replicate padding)
    have sameMap : found.map CommitmentEntry.preimage = store.map CommitmentEntry.preimage := by
      simpa [entries, Function.comp_def] using congrArg (map Prod.snd) (each found mem_cons_self)
    have known : ∀ preimage ∈ padPreimages subset, ∀ entry ∈ store, entry.key = hash preimage →
        entry.preimage.amount = preimage.amount := by
      intro preimage member entry isEntry isKey
      rcases isStored preimage member with rfl | stored
      · exact undefaulted entry isEntry ((keyed entry isEntry).symm.trans isKey)
      · obtain ⟨owner, isOwner, rfl⟩ := mem_map.mp (sameMap ▸ isPart stored)
        rw [inj_on_of_nodup_map keys isEntry isOwner (isKey.trans (keyed owner isOwner).symm)]
    rw [isPair] at all known ⊢
    exact claimed_covers known enough all fun state member => each state (mem_cons_of_mem _ member)

/-- A call that fails has locked nothing exactly if none of the commitments that it came to reserve was unspent. -/
theorem failed_selection_holds_nothing {error : String}
    (isDone : (((calls hash name request store).run schedule).tasks i).result = some (some (.error error))) :
    (∀ entry ∈ ((calls hash name request store).run schedule).state, ¬Held (name i) entry) ↔
      ∀ found rest selected min, (calls hash name request store).seen i schedule = some found :: rest →
        selectUsable (request i).1 (request i).2 found = .ok (selected, min) →
        ∀ call ∈ (selected.map hash).zip rest, ∀ state ∈ call.2, ∀ entry ∈ state, entry.key = call.1 →
          entry.status ≠ .unspent := by
  have holds := calls_hold distinct keys free schedule isDone
  constructor
  · intro none found rest selected min isSeen selection call member
    obtain ⟨_, _, held, _⟩ := holds.reserved found rest selected min isSeen selection
    have nothing : claimed (name i) (selected.map hash) rest = [] :=
      eq_nil_iff_forall_not_mem.mpr fun entry isEntry => none entry (held entry isEntry).2.1 (held entry isEntry).1
    exact claim_unavailable.mp (flatMap_eq_nil_iff.mp nothing call member)
  · intro taken
    by_cases selects : ∃ found rest selected min, (calls hash name request store).seen i schedule = some found :: rest ∧
        selectUsable (request i).1 (request i).2 found = .ok (selected, min)
    · obtain ⟨found, rest, selected, min, isSeen, selection⟩ := selects
      have nothing : claimed (name i) (selected.map hash) rest = [] :=
        flatMap_eq_nil_iff.mpr fun call member =>
          claim_unavailable.mpr (taken found rest selected min isSeen selection call member)
      intro entry member held
      have isClaimed := (holds.reserved found rest selected min isSeen selection).only entry member held
      simp [nothing] at isClaimed
    · exact holds.nothing fun found rest selected min isSeen selection =>
        selects ⟨found, rest, selected, min, isSeen, selection⟩

end

def sampleCommitment (value key : Fr254) : CommitmentEntry :=
  ⟨⟨value, 1, 0, (0, 1), key⟩, .unspent, key, 0, none, none, none⟩

/-- Calls for one token over commitments of the given values. -/
def sampleCalls (values : List Fr254) (target : Fr254) : Pool (Fin 2) (List CommitmentEntry) Usable :=
  calls Preimage.salt !["first", "second"] (fun _ => (1, target))
    (values.mapIdx fun key value => sampleCommitment value (key + 1))

theorem sample_distinct : Function.Injective !["first", "second"] := by decide

theorem findUsableCommitments_covers_interleaved :
    ∃ (found : List CommitmentEntry) (states : List (List CommitmentEntry)) (selected : List Preimage) (min : ℕ),
      let schedule := [(0, true), (1, true), (0, true), (0, true), (1, true), (1, true)]
      (sampleCalls [1, 2, 3] 3).seen 0 schedule = (found :: states).map some ∧
        selectUsable 1 3 found = .ok (selected, min) ∧
        (((sampleCalls [1, 2, 3] 3).run schedule).tasks 0).result =
          some (some (.ok [(sampleCommitment 1 1).preimage, (sampleCommitment 2 2).preimage])) ∧
        Forall₂ (Available Preimage.salt) selected states := by
  have isDone : (((sampleCalls [1, 2, 3] 3).run [(0, true), (1, true), (0, true), (0, true), (1, true),
      (1, true)]).tasks 0).result =
        some (some (.ok [(sampleCommitment 1 1).preimage, (sampleCommitment 2 2).preimage])) := by decide +kernel
  obtain ⟨found, states, selected, min, isSeen, selection, _, _, _, covers⟩ :=
    findUsableCommitments_covers sample_distinct (by decide) (by decide) _ (by decide) (by decide) isDone
  exact ⟨found, states, selected, min, isSeen, selection, isDone, (covers.mp (by decide)).resolve_left (by decide)⟩

/-- Two calls over 1, 2 and 3 for 3 each: both select 1 and 2, each gets one of them and returns it. -/
theorem overlapping_calls_short :
    let final := (sampleCalls [1, 2, 3] 3).run [(0, true), (1, true), (0, true), (1, true), (1, true), (0, true)]
    (final.tasks 0).result = some (some (.ok [(sampleCommitment 1 1).preimage, .default])) ∧
      (final.tasks 1).result = some (some (.ok [(sampleCommitment 2 2).preimage, .default])) := by
  decide +kernel

theorem failed_selection_holds_nothing_late :
    let final := (sampleCalls [2] 2).run [(0, true), (1, true), (0, true), (1, true), (1, true)]
    (final.tasks 1).result =
        some (some (.error "Could not reserve enough commitments - taken by another process")) ∧
      (∀ entry ∈ final.state, ¬Held "second" entry) ∧
      ∀ found rest selected min, (sampleCalls [2] 2).seen 1 [(0, true), (1, true), (0, true), (1, true), (1, true)] =
          some found :: rest → selectUsable 1 2 found = .ok (selected, min) →
        ∀ call ∈ (selected.map Preimage.salt).zip rest, ∀ state ∈ call.2, ∀ entry ∈ state, entry.key = call.1 →
          entry.status ≠ .unspent := by
  have isDone : (((sampleCalls [2] 2).run [(0, true), (1, true), (0, true), (1, true), (1, true)]).tasks 1).result =
      some (some (.error "Could not reserve enough commitments - taken by another process")) := by decide +kernel
  have nothing : ∀ entry ∈ ((sampleCalls [2] 2).run [(0, true), (1, true), (0, true), (1, true), (1, true)]).state,
      ¬Held "second" entry := by decide +kernel
  exact ⟨isDone, nothing,
    (failed_selection_holds_nothing sample_distinct (by decide) (by decide) _ isDone).mp nothing⟩

/-- Two calls for the whole of two commitments: each reserves one, fails, and keeps it locked. -/
theorem failed_calls_lock :
    let final := (sampleCalls [2, 2] 4).run [(0, true), (1, true), (0, true), (1, true), (1, true), (0, true)]
    (∀ i, (final.tasks i).result =
      some (some (.error "Could not reserve enough commitments - taken by another process"))) ∧
      final.state.map CommitmentEntry.status = [.pendingSpend, .pendingSpend] := by
  decide +kernel

/-- However the calls interleave, no commitment is handed out by two of them. -/
theorem selections_disjoint (distinct : Function.Injective name) (keys : (store.map CommitmentEntry.key).Nodup)
    (free : ∀ i, ∀ entry ∈ store, ¬Held (name i) entry) (schedule : List (ι × Bool)) {j : ι} (different : i ≠ j)
    {first second : List Preimage}
    (isFirst : (((calls hash name request store).run schedule).tasks i).result = some (some (.ok first)))
    (isSecond : (((calls hash name request store).run schedule).tasks j).result = some (some (.ok second))) :
    ∃ mine yours ids others, first = padPreimages (mine.map CommitmentEntry.preimage) ∧
      second = padPreimages (yours.map CommitmentEntry.preimage) ∧
      Reserved (name i) ids mine ((calls hash name request store).run schedule).state ∧
      Reserved (name j) others yours ((calls hash name request store).run schedule).state ∧
      (mine.map CommitmentEntry.key).Disjoint (yours.map CommitmentEntry.key) := by
  obtain ⟨mine, ids, isMine, first⟩ := returned_reserved distinct keys free schedule isFirst
  obtain ⟨yours, others, isYours, second⟩ := returned_reserved distinct keys free schedule isSecond
  refine ⟨_, _, _, _, isMine, isYours, first, second, fun key inMine inYours => ?_⟩
  obtain ⟨entry, member, rfl⟩ := mem_map.mp inMine
  obtain ⟨other, otherMember, sameKey⟩ := mem_map.mp inYours
  obtain ⟨held, stored, _⟩ := first.held entry member
  obtain ⟨otherHeld, otherStored, _⟩ := second.held other otherMember
  -- an entry of the store has one holder
  obtain rfl := inj_on_of_nodup_map first.keys otherStored stored sameKey
  exact different (distinct (Option.some_inj.mp (held.2.symm.trans otherHeld.2)))

theorem selections_disjoint_sample : ∃ mine yours : List CommitmentEntry,
    [(sampleCommitment 1 1).preimage, .default] = padPreimages (mine.map CommitmentEntry.preimage) ∧
      (mine.map CommitmentEntry.key).Disjoint (yours.map CommitmentEntry.key) := by
  let schedule : List (Fin 2 × Bool) := [(0, true), (1, true), (0, true), (1, true), (1, true), (0, true)]
  have isDone : ∀ i, (((sampleCalls [1, 2, 3] 3).run schedule).tasks i).result =
      some (some (.ok [(sampleCommitment (i.val + 1) (i.val + 1)).preimage, .default])) := by decide +kernel
  obtain ⟨mine, yours, _, _, isMine, _, _, _, disjoint⟩ := selections_disjoint sample_distinct (by decide) (by decide)
    schedule (by decide) (isDone 0) (isDone 1)
  exact ⟨mine, yours, isMine, disjoint⟩

end Nightfall.Client
