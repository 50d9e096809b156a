import Nightfall.Library.Heap
import Nightfall.Library.Store

/-! The data of the Merkle trees in the database and the helper functions of `trees.rs`: powers of
two, the complete tree over a list of leaves, the directions of a path and the frontier index. -/

namespace Nightfall.MerkleTrees

open Merkle List Nat Function

structure TreeMetadata (F : Type) where
  treeHeight : ℕ
  subTreeHeight : ℕ
  subTreeCount : ℕ
  root : F
deriving DecidableEq

inductive MerkleTreeError where
  | treeIsFull
  | incorrectBatchSize
  | noLeaves
  | databaseError
  | treeNotFound
  | serializationError
  | invalidProof
  | itemNotFound
  | invalidIndex
  | leafExists
  | error (message : String)
deriving DecidableEq

inductive Failure where
  | returned (error : MerkleTreeError)
  | panicked
deriving DecidableEq

inductive Directions where
  | hashWithThisNodeOnLeft
  | hashWithThisNodeOnRight
deriving DecidableEq

def okOr {α : Type} (value : Option α) (message : String) : Except Failure α :=
  match value with
  | some value => .ok value
  | none => .error (.returned (.error message))

def atIndex {α : Type} (values : List α) (index : ℕ) : Except Failure α :=
  match values[index]? with
  | some value => .ok value
  | none => .error .panicked

def pow2U64 (exp : ℕ) : Option ℕ := if 64 ≤ exp then none else some (2 ^ exp)

def pow2Usize (exp : ℕ) : Option ℕ := if 64 ≤ exp then none else some (2 ^ exp)

def checkedAdd (a b : ℕ) : Option ℕ := if a + b < 2 ^ 64 then some (a + b) else none

def checkedMul (a b : ℕ) : Option ℕ := if a * b < 2 ^ 64 then some (a * b) else none

def checkedSub (a b : ℕ) : Option ℕ := if b ≤ a then some (a - b) else none

theorem atIndex_eq {α : Type} {values : List α} {index : ℕ} {value : α}
    (found : values[index]? = some value) : atIndex values index = .ok value := by
  rw [atIndex, found]

theorem pow2U64_eq {exp : ℕ} (small : exp < 64) : pow2U64 exp = some (2 ^ exp) :=
  if_neg (not_le.mpr small)

theorem pow2Usize_eq {exp : ℕ} (small : exp < 64) : pow2Usize exp = some (2 ^ exp) :=
  if_neg (not_le.mpr small)

theorem pow2U64_pred {exp : ℕ} (small : exp < 64) :
    ((pow2U64 exp).bind fun v => checkedSub v 1) = some (2 ^ exp - 1) := by
  have positive := Nat.two_pow_pos exp
  rw [pow2U64_eq small, Option.bind_some, checkedSub, if_pos (by omega)]

theorem checkedAdd_eq {a b : ℕ} (small : a + b < 2 ^ 64) : checkedAdd a b = some (a + b) := if_pos small

theorem checkedMul_eq {a b : ℕ} (small : a * b < 2 ^ 64) : checkedMul a b = some (a * b) := if_pos small

theorem lift_okOr {α β τ : Type} {value : Option α} {result : α} (isResult : value = some result)
    {message : String} {next : α → Store.Program Failure τ β} {db : τ} :
    (Store.Program.lift (okOr value message) >>= next).run db = (next result).run db := by
  rw [isResult]
  rfl

def chunks {α : Type} (size : ℕ) (values : List α) : List (List α) :=
  (List.range (values.length / size)).map fun k => (values.drop (k * size)).take size

section

variable {α σ : Type} {size : ℕ}

theorem chunks_append (positive : 0 < size) {batch : List α} (isBatch : batch.length = size)
    (rest : List α) : chunks size (batch ++ rest) = batch :: chunks size rest := by
  have count : (batch ++ rest).length / size = rest.length / size + 1 := by
    rw [length_append, isBatch, Nat.add_comm, Nat.add_div_right _ positive]
  rw [chunks, count, range_succ_eq_map, map_cons, map_map]
  congr 1
  · rw [Nat.zero_mul, drop_zero, ← isBatch, take_left]
  · apply map_congr_left
    intro k _
    simp only [comp_apply]
    rw [Nat.succ_mul, Nat.add_comm, ← drop_drop, ← isBatch, drop_left]

theorem chunks_nil : chunks size ([] : List α) = [] := by
  rw [chunks, length_nil, Nat.zero_div, range_zero, map_nil]

theorem chunks_induction {motive : (values : List α) → size ∣ values.length → Prop} (nil : ∀ whole, motive [] whole)
    (append : ∀ batch rest whole total, batch.length = size → motive rest whole → motive (batch ++ rest) total)
    (values : List α) (aligned : size ∣ values.length) : motive values aligned := by
  obtain ⟨count, isCount⟩ := id aligned
  induction count generalizing values with
  | zero =>
    obtain rfl := length_eq_zero_iff.mp isCount
    exact nil _
  | succ count ih =>
    obtain ⟨batch, rest, isBatch, rfl⟩ : ∃ batch rest, batch.length = size ∧ values = batch ++ rest := by
      refine ⟨values.take size, values.drop size, ?_, (take_append_drop size values).symm⟩
      rw [length_take, isCount, mul_succ]
      omega
    rw [length_append, isBatch, mul_succ, Nat.add_comm] at isCount
    have isRest := Nat.add_right_cancel isCount
    exact append _ _ ⟨count, isRest⟩ _ isBatch (ih _ _ isRest)

theorem foldlM_chunks (positive : 0 < size) {bound : ℕ} {Inv : List α → σ → Prop}
    {step : σ → List α → Except Failure σ}
    (keeps : ∀ before state batch, Inv before state → batch.length = size →
      (before ++ batch).length < bound → ∃ next, step state batch = .ok next ∧ Inv (before ++ batch) next)
    {values before : List α} {state : σ} (holds : Inv before state) (aligned : size ∣ values.length)
    (room : (before ++ values).length < bound) :
    ∃ next, (chunks size values).foldlM step state = .ok next ∧ Inv (before ++ values) next := by
  induction values, aligned using chunks_induction generalizing before state with
  | nil =>
    refine ⟨state, ?_, by rwa [append_nil]⟩
    rw [chunks_nil, foldlM_nil]
    rfl
  | append batch rest _ _ isBatch ih =>
    rw [← append_assoc] at room
    have first : (before ++ batch).length < bound := by
      rw [length_append] at room
      omega
    obtain ⟨middle, isMiddle, middleHolds⟩ := keeps before state batch holds isBatch first
    obtain ⟨next, isNext, nextHolds⟩ := ih middleHolds room
    rw [append_assoc] at nextHolds
    refine ⟨next, ?_, nextHolds⟩
    rw [chunks_append positive isBatch, foldlM_cons, isMiddle]
    exact isNext

theorem foldlM_chunks_run {τ : Type} (positive : 0 < size) {all : List α} {Inv : List α → σ → τ → Prop}
    {step : σ → List α → Store.Program Failure τ σ}
    (keeps : ∀ before state db batch, Inv before state db → batch.length = size → before ++ batch <+: all →
        ∃ next later, (step state batch).run db = (.ok next, later) ∧ Inv (before ++ batch) next later)
    {values before : List α} {state : σ} {db : τ} (holds : Inv before state db)
    (aligned : size ∣ values.length) (isAll : before ++ values = all) :
    ∃ next later, ((chunks size values).foldlM step state).run db = (.ok next, later) ∧ Inv all next later := by
  induction values, aligned using chunks_induction generalizing before state db with
  | nil =>
    refine ⟨state, db, ?_, by rwa [← isAll, append_nil]⟩
    rw [chunks_nil, foldlM_nil, Store.Program.pure_run]
  | append batch rest _ _ isBatch ih =>
    rw [← append_assoc] at isAll
    obtain ⟨middle, between, isMiddle, middleHolds⟩ := keeps before state db batch holds isBatch ⟨rest, isAll⟩
    obtain ⟨next, later, isNext, nextHolds⟩ := ih middleHolds isAll
    refine ⟨next, later, ?_, nextHolds⟩
    rw [chunks_append positive isBatch, foldlM_cons, Store.Program.bind_ok isMiddle, isNext]

theorem dvd_length_append {before batch : List α} (whole : size ∣ before.length) (isBatch : batch.length = size) :
    size ∣ (before ++ batch).length := by
  rw [length_append, isBatch]
  exact Nat.dvd_add_self_right.mpr whole

section

variable {β τ : Type} (Inv : List α → τ → Prop) (positive : 0 < size) {step : List α → Store.Program Failure τ β}
  {values before all : List α} {db later : τ} (started : size ∣ before.length) (holds : Inv before db)
  (aligned : size ∣ values.length) (isAll : before ++ values = all)

include positive started holds aligned isAll

theorem mapM_chunks_run
    (keeps : ∀ before db batch, size ∣ before.length → Inv before db → batch.length = size → before ++ batch <+: all →
      ∃ value later, (step batch).run db = (.ok value, later) ∧ Inv (before ++ batch) later) :
    ∃ results later, ((chunks size values).mapM step).run db = (.ok results, later) ∧ Inv all later := by
  induction values, aligned using chunks_induction generalizing before db with
  | nil =>
    refine ⟨[], db, ?_, by rwa [← isAll, append_nil]⟩
    rw [chunks_nil, mapM_nil, Store.Program.pure_run]
  | append batch rest _ _ isBatch ih =>
    rw [← append_assoc] at isAll
    obtain ⟨value, middle, isValue, middleHolds⟩ := keeps before db batch started holds isBatch ⟨rest, isAll⟩
    obtain ⟨results, later, areResults, laterHolds⟩ := ih (dvd_length_append started isBatch) middleHolds isAll
    refine ⟨value :: results, later, ?_, laterHolds⟩
    rw [chunks_append positive isBatch, mapM_cons, Store.Program.bind_ok isValue, Store.Program.bind_ok areResults,
      Store.Program.pure_run]

theorem mapM_chunks_ok
    (keeps : ∀ before db batch value later, size ∣ before.length → Inv before db → batch.length = size →
      (step batch).run db = (.ok value, later) → Inv (before ++ batch) later) {results : List β}
    (ran : ((chunks size values).mapM step).run db = (.ok results, later)) : Inv all later := by
  induction values, aligned using chunks_induction generalizing before db results with
  | nil =>
    rw [chunks_nil, mapM_nil, Store.Program.pure_run] at ran
    cases ran
    rwa [← isAll, append_nil]
  | append batch rest _ _ isBatch ih =>
    rw [← append_assoc] at isAll
    rw [chunks_append positive isBatch, mapM_cons, Store.Program.bind_eq_ok] at ran
    obtain ⟨value, middle, isValue, ran⟩ := ran
    obtain ⟨others, final, areOthers, isLast⟩ := Store.Program.bind_eq_ok.mp ran
    cases isLast
    exact ih (dvd_length_append started isBatch) (keeps _ _ _ _ _ started holds isBatch isValue) isAll areOthers

end

end

section

variable {F : Type} [Zero F] (treeHash : F → F → F)

def leafNodes (height : ℕ) (leaves : List F) : ℕ → F :=
  fun k => if 2 ^ (height + 1) - 1 - 2 ^ height ≤ k then
    leaves.getD (k - (2 ^ (height + 1) - 1 - 2 ^ height)) 0 else 0

/-- The loop of `make_complete_tree`, which hashes pairs from the right. -/
def hashPairs (height : ℕ) (start : ℕ → F) (pairs : ℕ) : ℕ → F :=
  (List.range pairs).foldl (fun nodes i =>
    let index := 2 ^ (height + 1) - 1 - 2 * i - 1
    update nodes (index / 2 - 1) (treeHash (nodes (index - 1)) (nodes index))) start

def makeCompleteTree (height : ℕ) (leaves : List F) : Except Failure (List F) :=
  if 63 ≤ height ∨ 2 ^ height < leaves.length then .error .panicked
  else .ok ((List.range (2 ^ (height + 1) - 1)).map
    (hashPairs treeHash height (leafNodes height leaves) (2 ^ height - 1)))

variable {treeHash} {height : ℕ}

omit [Zero F] in
theorem hashPairs_succ (start : ℕ → F) {pairs : ℕ} (more : pairs < 2 ^ height - 1) :
    hashPairs treeHash height start (pairs + 1) =
      update (hashPairs treeHash height start pairs) (2 ^ height - 2 - pairs)
        (treeHash (hashPairs treeHash height start pairs (2 * (2 ^ height - 2 - pairs) + 1))
          (hashPairs treeHash height start pairs (2 * (2 ^ height - 2 - pairs) + 2))) := by
  have isParent : (2 ^ (height + 1) - 1 - 2 * pairs - 1) / 2 - 1 = 2 ^ height - 2 - pairs := by
    omega
  have isLeft : 2 ^ (height + 1) - 1 - 2 * pairs - 1 - 1 = 2 * (2 ^ height - 2 - pairs) + 1 := by
    omega
  have isRight : 2 ^ (height + 1) - 1 - 2 * pairs - 1 = 2 * (2 ^ height - 2 - pairs) + 2 := by
    omega
  rw [hashPairs, range_succ, foldl_append, foldl_cons, foldl_nil, ← hashPairs]
  simp only [isParent, isLeft]
  rw [isRight]

omit [Zero F] in
theorem hashPairs_hashed (start : ℕ → F) {pairs : ℕ} (most : pairs ≤ 2 ^ height - 1) :
    (∀ k, 2 ^ height - 1 ≤ k → hashPairs treeHash height start pairs k = start k) ∧
      ∀ k, 2 ^ height - 1 - pairs ≤ k → k < 2 ^ height - 1 → hashPairs treeHash height start pairs k =
          treeHash (hashPairs treeHash height start pairs (2 * k + 1))
            (hashPairs treeHash height start pairs (2 * k + 2)) := by
  induction pairs with
  | zero =>
    refine ⟨fun _ _ => rfl, ?_⟩
    intro k right inner
    omega
  | succ pairs ih =>
    obtain ⟨bottom, hashed⟩ := ih (by omega)
    rw [hashPairs_succ start (by omega)]
    refine ⟨?_, ?_⟩
    · intro k isLeaf
      rw [update_of_ne (by omega)]
      exact bottom k isLeaf
    · intro k right inner
      by_cases here : k = 2 ^ height - 2 - pairs
      · subst here
        rw [update_self, update_of_ne (by omega), update_of_ne (by omega)]
      · rw [update_of_ne here, update_of_ne (by omega), update_of_ne (by omega)]
        exact hashed k (by omega) inner

theorem hashPairs_heaped (leaves : List F) :
    Heaped treeHash height (hashPairs treeHash height (leafNodes height leaves) (2 ^ height - 1))
      fun i => leaves.getD i 0 := by
  obtain ⟨bottom, hashed⟩ :=
    @hashPairs_hashed F treeHash height (leafNodes height leaves) _ (le_refl (2 ^ height - 1))
  apply heaped_of_children
  · intro k inner
    exact hashed k (by omega) inner
  · intro i inside
    have first : 2 ^ (height + 1) - 1 - 2 ^ height = 2 ^ height - 1 := by
      omega
    rw [slot, bottom _ (by omega), leafNodes, first, if_pos (by omega), Nat.add_sub_cancel_left]

theorem makeCompleteTree_eq {leaves : List F} (small : height < 63) (fits : leaves.length ≤ 2 ^ height) :
    ∃ tree, makeCompleteTree treeHash height leaves = .ok tree ∧ ∀ depth ≤ height, ∀ i < 2 ^ depth,
      tree[slot depth i]? = some (levels treeHash (height - depth) (fun i => leaves.getD i 0) i) := by
  refine ⟨_, if_neg (by omega), ?_⟩
  intro depth under i inside
  rw [List.getElem?_map, List.getElem?_range (slot_lt under inside), Option.map_some,
    hashPairs_heaped leaves depth under i inside]

end

section

def indexToDirections (index height : ℕ) : List Directions :=
  (List.range height).map fun i =>
    if index >>> i &&& 1 = 0 then .hashWithThisNodeOnRight else .hashWithThisNodeOnLeft

/-- The loop of `get_frontier_index`; a remainder by the overflown power panics. -/
def frontierLoop (leafIndex : ℕ) : ℕ → ℕ → ℕ → ℕ → Except Failure ℕ
  | 0, _, _, _ => .error .panicked
  | fuel + 1, exp1, pow1, pow2 =>
    if leafIndex + 1 < pow1 ∨ pow2 = 0 then .error .panicked
    else if (leafIndex + 1 - pow1) % pow2 = 0 then .ok exp1
    else frontierLoop leafIndex fuel (exp1 + 1) pow2 (pow2 * 2 % 2 ^ 64)

def getFrontierIndex (leafIndex : ℕ) : Except Failure ℕ :=
  if leafIndex % 2 = 1 then frontierLoop leafIndex 64 1 2 4 else .ok 0

variable {leafIndex exponent half : ℕ} (isIndex : leafIndex + 1 = 2 ^ exponent * (2 * half + 1))
  (small : exponent < 63)
include isIndex small

theorem frontierLoop_eq {fuel exp1 : ℕ} (below : exp1 ≤ exponent) (enough : exponent < exp1 + fuel) :
    frontierLoop leafIndex fuel exp1 (2 ^ exp1) (2 ^ (exp1 + 1)) = .ok exponent := by
  induction fuel generalizing exp1 with
  | zero => omega
  | succ fuel ih =>
    have atMost : 2 ^ exp1 ≤ leafIndex + 1 := by
      rw [isIndex]
      exact (Nat.pow_le_pow_right (by decide) below).trans (Nat.le_mul_of_pos_right _ (by omega))
    have positive := Nat.two_pow_pos (exp1 + 1)
    rw [frontierLoop, if_neg (by omega)]
    by_cases last : exp1 = exponent
    · subst last
      have rest : leafIndex + 1 - 2 ^ exp1 = 2 ^ (exp1 + 1) * half := by
        rw [isIndex, Nat.mul_add, Nat.mul_one, Nat.add_sub_cancel, Nat.pow_succ, Nat.mul_assoc]
      rw [if_pos (by rw [rest, Nat.mul_mod_right])]
    · obtain ⟨more, rfl⟩ : ∃ more, exponent = exp1 + 1 + more := ⟨exponent - (exp1 + 1), by omega⟩
      have isMultiple : leafIndex + 1 = 2 ^ (exp1 + 1) * (2 ^ more * (2 * half + 1)) := by
        rw [isIndex, Nat.pow_add, Nat.mul_assoc]
      have notThere : ¬(leafIndex + 1 - 2 ^ exp1) % 2 ^ (exp1 + 1) = 0 := by
        intro isZero
        obtain ⟨quotient, isQuotient⟩ := Nat.dvd_of_mod_eq_zero isZero
        have sum : leafIndex + 1 = 2 ^ exp1 + 2 ^ (exp1 + 1) * quotient := by omega
        have divides : 2 ^ (exp1 + 1) ∣ 2 ^ exp1 := by
          rw [Nat.dvd_add_iff_left (Nat.dvd_mul_right _ quotient), ← sum, isMultiple]
          exact Nat.dvd_mul_right _ _
        have wider := Nat.le_of_dvd (Nat.two_pow_pos exp1) divides
        omega
      have noOverflow : 2 ^ (exp1 + 1) * 2 % 2 ^ 64 = 2 ^ (exp1 + 1 + 1) := by
        rw [← Nat.pow_succ]
        exact Nat.mod_eq_of_lt (Nat.pow_lt_pow_right (by decide) (by omega))
      rw [if_neg notThere, noOverflow]
      exact ih (by omega) (by omega)

theorem getFrontierIndex_eq : getFrontierIndex leafIndex = .ok exponent := by
  rw [getFrontierIndex]
  by_cases odd : leafIndex % 2 = 1
  · rw [if_pos odd]
    have positive : exponent ≠ 0 := by
      rintro rfl
      omega
    exact frontierLoop_eq isIndex small (by omega) (by omega)
  · rw [if_neg odd]
    cases exponent with
    | zero => rfl
    | succ exponent =>
      rw [pow_succ', mul_assoc] at isIndex
      omega

end

end Nightfall.MerkleTrees
