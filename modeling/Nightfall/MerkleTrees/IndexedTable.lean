import Nightfall.MerkleTrees.Indexed

/-! The table of an indexed tree, as a function of the values in it and where they are: the row of a
value points to the next larger value there is, and to zero if there is none. -/

namespace Nightfall.MerkleTrees.IndexedTree

open Store Store.Program Tables List

structure Entry (F : Type) where
  value : F
  index : ℕ
deriving DecidableEq

variable {F : Type} [LinearOrder F] [Zero F]

def successor (entries : List (Entry F)) (v : F) : Entry F :=
  ((entries.filter fun entry => v < entry.value).argmin Entry.value).getD ⟨0, 0⟩

def row (entries : List (Entry F)) (entry : Entry F) : IndexedLeaf F :=
  ⟨entry.value, entry.index, (successor entries entry.value).index, (successor entries entry.value).value⟩

@[simp] theorem row_value (entries : List (Entry F)) (entry : Entry F) :
    (row entries entry).value = entry.value := rfl

def rows (entries : List (Entry F)) : List (IndexedLeaf F) := entries.map (row entries)

structure Separate (entries : List (Entry F)) : Prop where
  zero : ⟨0, 0⟩ ∈ entries
  values : (entries.map Entry.value).Nodup
  indices : (entries.map Entry.index).Nodup

omit [Zero F] in
structure IsLow (entries : List (Entry F)) (v : F) (low : Entry F) : Prop where
  member : low ∈ entries
  below : low.value < v
  largest : ∀ entry ∈ entries, entry.value < v → entry.value ≤ low.value

section

variable {entries others : List (Entry F)} {v w : F} {next : Entry F}

omit [LinearOrder F] [Zero F] in
theorem filter_values (values : (entries.map Entry.value).Nodup) (keep : Entry F → Bool) :
    ((entries.filter keep).map Entry.value).Nodup :=
  (filter_sublist.map Entry.value).nodup values

theorem successor_eq (values : (entries.map Entry.value).Nodup) (member : next ∈ entries) (above : v < next.value)
    (smallest : ∀ entry ∈ entries, v < entry.value → next.value ≤ entry.value) : successor entries v = next := by
  have found : (entries.filter fun entry => v < entry.value).argmin Entry.value = some next := by
    apply argmin_key (filter_values values _)
    · rw [mem_filter, decide_eq_true_eq]
      exact ⟨member, above⟩
    · intro other kept
      rw [mem_filter, decide_eq_true_eq] at kept
      exact smallest other kept.1 kept.2
  rw [successor, found, Option.getD_some]

theorem successor_none (largest : ∀ entry ∈ entries, entry.value ≤ v) : successor entries v = ⟨0, 0⟩ := by
  have empty : entries.filter (fun entry => v < entry.value) = [] := by
    rw [filter_eq_nil_iff]
    intro entry member
    rw [decide_eq_true_eq, not_lt]
    exact largest entry member
  rw [successor, empty, argmin_nil, Option.getD_none]

theorem successor_cases (entries : List (Entry F)) (v : F) :
    (successor entries v = ⟨0, 0⟩ ∧ ∀ entry ∈ entries, entry.value ≤ v) ∨
      successor entries v ∈ entries ∧ v < (successor entries v).value ∧
        ∀ other ∈ entries, v < other.value → (successor entries v).value ≤ other.value := by
  rw [successor]
  cases found : (entries.filter fun entry => v < entry.value).argmin Entry.value with
  | none =>
    rw [argmin_eq_none, filter_eq_nil_iff] at found
    exact .inl ⟨rfl, fun entry member => by simpa using found entry member⟩
  | some smallest =>
    have isMember := argmin_mem found
    rw [mem_filter, decide_eq_true_eq] at isMember
    refine .inr ⟨isMember.1, isMember.2, ?_⟩
    intro other otherMember otherAbove
    apply le_of_mem_argmin _ found
    rw [mem_filter, decide_eq_true_eq]
    exact ⟨otherMember, otherAbove⟩

theorem successor_mem {entry : Entry F} (member : entry ∈ entries) (above : v < entry.value) :
    successor entries v ∈ entries ∧ v < (successor entries v).value ∧
      ∀ other ∈ entries, v < other.value → (successor entries v).value ≤ other.value :=
  (successor_cases entries v).resolve_left fun none => (none.2 entry member).not_gt above

theorem successor_congr (values : (others.map Entry.value).Nodup)
    (same : ∀ entry, entry ∈ entries ∧ v < entry.value ↔ entry ∈ others ∧ w < entry.value) :
    successor entries v = successor others w := by
  rcases successor_cases entries v with ⟨isNone, none⟩ | ⟨member, above, smallest⟩
  · rw [isNone, successor_none]
    intro entry member
    by_contra above
    obtain ⟨back, backAbove⟩ := (same entry).mpr ⟨member, not_le.mp above⟩
    exact (none entry back).not_gt backAbove
  · obtain ⟨otherMember, otherAbove⟩ := (same _).mp ⟨member, above⟩
    refine (successor_eq values otherMember otherAbove ?_).symm
    intro other isOther aboveOther
    obtain ⟨back, backAbove⟩ := (same other).mpr ⟨isOther, aboveOther⟩
    exact smallest other back backAbove

end

section

variable {entries : List (Entry F)} {v : F} {low : Entry F} {index : ℕ}

omit [LinearOrder F] [Zero F] in
theorem values_append (values : (entries.map Entry.value).Nodup) (absent : v ∉ entries.map Entry.value) :
    ((entries ++ [(⟨v, index⟩ : Entry F)]).map Entry.value).Nodup := by
  rw [map_append, map_singleton, ← concat_eq_append]
  exact values.concat absent

omit [Zero F] in
theorem IsLow.above_iff (isLow : IsLow entries v low) (absent : v ∉ entries.map Entry.value) {entry : Entry F}
    (member : entry ∈ entries) : low.value < entry.value ↔ v < entry.value := by
  constructor
  · intro above
    rcases lt_trichotomy entry.value v with below | same | beyond
    · exact absurd (isLow.largest entry member below) (not_le.mpr above)
    · exact absurd (same ▸ mem_map_of_mem member) absent
    · exact beyond
  · exact isLow.below.trans

section

variable (values : (entries.map Entry.value).Nodup) (isLow : IsLow entries v low)
  (absent : v ∉ entries.map Entry.value)

include values isLow absent

theorem successor_append_self : successor (entries ++ [⟨v, index⟩]) v = successor entries low.value := by
  apply successor_congr values
  intro entry
  rw [mem_append, mem_singleton]
  constructor
  · rintro ⟨member | rfl, above⟩
    · exact ⟨member, (isLow.above_iff absent member).mpr above⟩
    · exact absurd above (lt_irrefl v)
  · rintro ⟨member, above⟩
    exact ⟨Or.inl member, (isLow.above_iff absent member).mp above⟩

theorem successor_append_low : successor (entries ++ [⟨v, index⟩]) low.value = ⟨v, index⟩ := by
  apply successor_eq (values_append values absent) mem_concat_self isLow.below
  intro entry member above
  rw [mem_append, mem_singleton] at member
  rcases member with member | rfl
  · exact ((isLow.above_iff absent member).mp above).le
  · exact le_refl _

theorem successor_append_other {entry : Entry F} (member : entry ∈ entries) (other : entry ≠ low) :
    successor (entries ++ [⟨v, index⟩]) entry.value = successor entries entry.value := by
  by_cases below : entry.value < v
  · have different : entry.value ≠ low.value := fun same =>
      other (inj_on_of_nodup_map values member isLow.member same)
    have under := lt_of_le_of_ne (isLow.largest entry member below) different
    obtain ⟨isMember, isAbove, smallest⟩ := successor_mem isLow.member under
    apply successor_eq (values_append values absent) (mem_append_left _ isMember) isAbove
    intro further furtherMember above
    rw [mem_append, mem_singleton] at furtherMember
    rcases furtherMember with furtherMember | rfl
    · exact smallest further furtherMember above
    · exact (smallest low isLow.member under).trans isLow.below.le
  · apply successor_congr values
    intro further
    rw [mem_append, mem_singleton]
    constructor
    · rintro ⟨furtherMember | rfl, above⟩
      · exact ⟨furtherMember, above⟩
      · exact absurd above below
    · rintro ⟨furtherMember, above⟩
      exact ⟨Or.inl furtherMember, above⟩

end

theorem rows_values (entries : List (Entry F)) : (rows entries).map IndexedLeaf.value = entries.map Entry.value := by
  rw [rows, map_map]
  rfl

theorem rows_ids (entries : List (Entry F)) : (rows entries).map IndexedLeaf.id = entries.map Entry.index := by
  rw [rows, map_map]
  rfl

theorem eq_nil_of_rows {added : List (Entry F)} (same : rows (entries ++ added) = rows entries) : added = [] := by
  have isLength := congrArg length same
  rw [rows, rows, length_map, length_map, length_append] at isLength
  exact length_eq_zero_iff.mp (Nat.add_eq_left.mp isLength)

theorem rows_append (values : (entries.map Entry.value).Nodup) (isLow : IsLow entries v low)
    (absent : v ∉ entries.map Entry.value) :
    updateFirst (fun leaf => leaf.value = low.value) (fun leaf => { leaf with nextIndex := index, nextValue := v })
        (rows entries ++ [⟨v, index, (successor entries low.value).index, (successor entries low.value).value⟩]) =
      rows (entries ++ [⟨v, index⟩]) := by
  have distinct : ((rows entries ++ [(⟨v, index, (successor entries low.value).index,
      (successor entries low.value).value⟩ : IndexedLeaf F)]).map IndexedLeaf.value).Nodup := by
    rw [map_append, rows_values, map_singleton, ← concat_eq_append]
    exact values.concat absent
  rw [updateFirst_key distinct, map_append, rows, rows, map_append, map_map]
  congr 1
  · apply map_congr_left
    intro entry member
    rw [Function.comp_apply]
    by_cases same : entry = low
    · subst same
      rw [if_pos (row_value entries entry), row, row, successor_append_low values isLow absent]
    · have different : (row entries entry).value ≠ low.value := fun equal =>
        same (inj_on_of_nodup_map values member isLow.member equal)
      rw [if_neg different, row, row, successor_append_other values isLow absent member same]
  · rw [map_singleton, map_singleton, if_neg isLow.below.ne', row, successor_append_self values isLow absent]

omit [LinearOrder F] in
theorem Separate.append (separate : Separate entries) (absent : v ∉ entries.map Entry.value)
    (free : index ∉ entries.map Entry.index) : Separate (entries ++ [⟨v, index⟩]) where
  zero := mem_append_left _ separate.zero
  values := values_append separate.values absent
  indices := by
    rw [map_append, map_singleton, ← concat_eq_append]
    exact separate.indices.concat free

theorem Separate.exists_low (separate : Separate entries) (positive : 0 < v) : ∃ low, IsLow entries v low := by
  cases found : (entries.filter fun entry => entry.value < v).argmax Entry.value with
  | none =>
    rw [argmax_eq_none, filter_eq_nil_iff] at found
    exact absurd (decide_eq_true positive) (found ⟨0, 0⟩ separate.zero)
  | some low =>
    have isMember := argmax_mem found
    rw [mem_filter, decide_eq_true_eq] at isMember
    refine ⟨low, isMember.1, isMember.2, ?_⟩
    intro entry member below
    apply le_of_mem_argmax _ found
    rw [mem_filter, decide_eq_true_eq]
    exact ⟨member, below⟩

end

section

variable {entries : List (Entry F)} {db : IndexedDb F} {v : F} {low : Entry F}

theorem getLeaf_stored (isTable : db.leaves = rows entries) (values : (entries.map Entry.value).Nodup)
    {entry : Entry F} (member : entry ∈ entries) :
    (getLeaf (some entry.value) none).run db = (.ok (some (row entries entry)), db) := by
  have distinct : ((rows entries).map IndexedLeaf.value).Nodup := by rwa [rows_values]
  have found := find_key distinct (mem_map_of_mem (f := row entries) member)
  simp only [getLeaf, reads_run, isTable, Option.all_some, Option.all_none, Bool.and_true]
  rw [← found]
  rfl

theorem getLeaf_missing (isTable : db.leaves = rows entries) (absent : v ∉ entries.map Entry.value) :
    (getLeaf (some v) none).run db = (.ok none, db) := by
  rw [← rows_values] at absent
  simp [getLeaf, reads_run, isTable, find_key_none absent]

theorem argmax_rows (values : (entries.map Entry.value).Nodup) (isLow : IsLow entries v low) :
    ((rows entries).filter fun leaf => leaf.value < v).argmax IndexedLeaf.value = some (row entries low) := by
  have distinct : (((rows entries).filter fun leaf => leaf.value < v).map IndexedLeaf.value).Nodup := by
    refine (filter_sublist.map IndexedLeaf.value).nodup ?_
    rwa [rows_values]
  apply argmax_key distinct
  · rw [mem_filter, decide_eq_true_eq]
    exact ⟨mem_map_of_mem isLow.member, isLow.below⟩
  · intro other kept
    rw [mem_filter, decide_eq_true_eq, rows, mem_map] at kept
    obtain ⟨⟨entry, member, rfl⟩, below⟩ := kept
    exact isLow.largest entry member below

theorem argmax_rows_none (smallest : ∀ entry ∈ entries, ¬entry.value < v) :
    ((rows entries).filter fun leaf => leaf.value < v).argmax IndexedLeaf.value = none := by
  rw [argmax_eq_none, filter_eq_nil_iff]
  intro leaf member
  rw [rows, mem_map] at member
  obtain ⟨entry, isMember, rfl⟩ := member
  rw [decide_eq_true_eq]
  exact smallest entry isMember

theorem getLowLeaf_found (isTable : db.leaves = rows entries) (values : (entries.map Entry.value).Nodup)
    (isLow : IsLow entries v low) : (getLowLeaf v).run db = (.ok (some (row entries low)), db) := by
  rw [getLowLeaf, reads_run, isTable, argmax_rows values isLow]

end

section

variable {entries : List (Entry F)} {db : IndexedDb F} {v : F} {index : ℕ}

omit [LinearOrder F] [Zero F] in
theorem u64ToI64Checked_eq {x : ℕ} (small : x < 2 ^ 63) : u64ToI64Checked x = .ok x := if_pos small

theorem successor_small (small : ∀ entry ∈ entries, entry.index < 2 ^ 63) : (successor entries v).index < 2 ^ 63 := by
  rcases successor_cases entries v with ⟨isNone, _⟩ | ⟨member, _⟩
  · rw [isNone]
    exact Nat.two_pow_pos 63
  · exact small _ member

variable (isTable : db.leaves = rows entries)
include isTable

theorem upsertLeaf_new {entry : IndexedLeaf F} (free : entry.id ∉ entries.map Entry.index) :
    (upsertLeaf entry).run db = (.ok (), { db with leaves := rows entries ++ [entry] }) := by
  have unmatched : ¬(rows entries).any (fun leaf => leaf.id = entry.id) = true := by
    rw [any_eq_true]
    rintro ⟨leaf, member, same⟩
    rw [decide_eq_true_eq] at same
    apply free
    rw [← rows_ids, ← same]
    exact mem_map_of_mem member
  rw [upsertLeaf, writes_run, isTable, if_neg unmatched]

theorem storeLeaf_run (separate : Separate entries) (small : ∀ entry ∈ entries, entry.index < 2 ^ 63) {low : Entry F}
    (isLow : IsLow entries v low) (absent : v ∉ entries.map Entry.value) (free : index ∉ entries.map Entry.index)
    (inRange : index < 2 ^ 63) :
    (storeLeaf v (some index)).run db = (.ok (some ()), { db with leaves := rows (entries ++ [⟨v, index⟩]) }) := by
  have matched : (rows entries ++ [(⟨v, index, (successor entries low.value).index,
      (successor entries low.value).value⟩ : IndexedLeaf F)]).any (fun leaf => leaf.value = low.value) = true := by
    rw [any_eq_true]
    exact ⟨row entries low, mem_append_left _ (mem_map_of_mem isLow.member), decide_eq_true rfl⟩
  have updated : (updateLeaf low.value index v).run { db with
      leaves := rows entries ++ [⟨v, index, (successor entries low.value).index,
        (successor entries low.value).value⟩] } =
      (.ok (), { db with leaves := rows (entries ++ [⟨v, index⟩]) }) := by
    rw [updateLeaf, lift_bind (u64ToI64Checked_eq inRange), reads_bind, if_pos matched, writes_run]
    rw [rows_append separate.values isLow absent]
  have inserted : (insertEntry v (some index) (row entries low)).run db =
      (.ok (), { db with leaves := rows (entries ++ [⟨v, index⟩]) }) := by
    have isNext : u64ToI64Checked (row entries low).nextIndex = .ok (successor entries low.value).index :=
      u64ToI64Checked_eq (successor_small small)
    rw [insertEntry, reads_bind, Option.getD_some, lift_bind (u64ToI64Checked_eq inRange), lift_bind isNext,
      bind_ok (upsertLeaf_new isTable free)]
    exact updated
  rw [storeLeaf, bind_ok (getLeaf_missing isTable absent), if_neg (by simp),
    bind_ok (getLowLeaf_found isTable separate.values isLow)]
  rw [bind_ok inserted, pure_run]

theorem storeLeaf_stored (values : (entries.map Entry.value).Nodup) {entry : Entry F} (member : entry ∈ entries)
    {index : Option ℕ} : (storeLeaf entry.value index).run db = (.ok none, db) := by
  rw [storeLeaf, bind_ok (getLeaf_stored isTable values member), if_pos (by simp), pure_run]

end

section

def placed : ℕ → List F → List (Entry F)
  | _, [] => []
  | index, value :: rest =>
    if value = 0 then placed (index + 1) rest else ⟨value, index⟩ :: placed (index + 1) rest

def placedMod (bound : ℕ) : ℕ → List F → List (Entry F)
  | _, [] => []
  | index, value :: rest =>
    if value = 0 then placedMod bound ((index + 1) % bound) rest
    else ⟨value, index⟩ :: placedMod bound ((index + 1) % bound) rest

theorem placed_values (index : ℕ) (values : List F) :
    (placed index values).map Entry.value = values.filter fun value => value ≠ 0 := by
  induction values generalizing index with
  | nil => rfl
  | cons value rest ih =>
    by_cases zero : value = 0
    · rw [placed, if_pos zero, ih, filter_cons_of_neg (by simpa using zero)]
    · rw [placed, if_neg zero, map_cons, ih, filter_cons_of_pos (by simpa using zero)]

theorem mem_placed {index : ℕ} {values : List F} {entry : Entry F} (member : entry ∈ placed index values) :
    index ≤ entry.index ∧ entry.index < index + values.length ∧
      values.getD (entry.index - index) 0 = entry.value ∧ entry.value ≠ 0 := by
  induction values generalizing index with
  | nil => exact (not_mem_nil member).elim
  | cons value rest ih =>
    have later (within : entry ∈ placed (index + 1) rest) : index ≤ entry.index ∧
        entry.index < index + (rest.length + 1) ∧
        (value :: rest).getD (entry.index - index) 0 = entry.value ∧ entry.value ≠ 0 := by
      obtain ⟨above, below, isValue, nonzero⟩ := ih within
      have distance : entry.index - index = entry.index - (index + 1) + 1 := by omega
      rw [distance, getD_cons_succ]
      exact ⟨by omega, by omega, isValue, nonzero⟩
    by_cases zero : value = 0
    · rw [placed, if_pos zero] at member
      exact later member
    · rw [placed, if_neg zero, mem_cons] at member
      rcases member with rfl | within
      · refine ⟨le_refl _, by simp, ?_, zero⟩
        rw [Nat.sub_self, getD_cons_zero]
      · exact later within

theorem placed_mem {index i : ℕ} {values : List F} (nonzero : values.getD i 0 ≠ 0) :
    ⟨values.getD i 0, index + i⟩ ∈ placed index values := by
  induction values generalizing index i with
  | nil => exact absurd getD_nil nonzero
  | cons value rest ih =>
    cases i with
    | zero =>
      rw [getD_cons_zero] at nonzero ⊢
      rw [placed, if_neg nonzero]
      exact mem_cons_self
    | succ i =>
      have within := @ih (index + 1) i nonzero
      rw [Nat.add_right_comm] at within
      by_cases zero : value = 0
      · rw [placed, if_pos zero]
        exact within
      · rw [placed, if_neg zero]
        exact mem_cons_of_mem _ within

theorem placed_append (index : ℕ) (first second : List F) :
    placed index (first ++ second) = placed index first ++ placed (index + first.length) second := by
  induction first generalizing index with
  | nil => rfl
  | cons value rest ih =>
    have next : index + (value :: rest).length = index + 1 + rest.length := by
      rw [length_cons]
      omega
    by_cases zero : value = 0
    · rw [cons_append, placed, if_pos zero, placed, if_pos zero, ih, next]
    · rw [cons_append, placed, if_neg zero, placed, if_neg zero, ih, next, cons_append]

theorem placed_indices (index : ℕ) (values : List F) : ((placed index values).map Entry.index).Nodup := by
  induction values generalizing index with
  | nil => exact nodup_nil
  | cons value rest ih =>
    by_cases zero : value = 0
    · rw [placed, if_pos zero]
      exact ih (index + 1)
    · rw [placed, if_neg zero, map_cons, nodup_cons]
      refine ⟨?_, ih (index + 1)⟩
      rw [mem_map]
      rintro ⟨entry, member, same⟩
      have above := (mem_placed member).1
      dsimp only at same
      omega

theorem placedMod_eq {bound index : ℕ} {values : List F}
    (inRange : ∀ entry ∈ placed index values, entry.index < bound) :
    placedMod bound (index % bound) values = placed index values := by
  induction values generalizing index with
  | nil => rfl
  | cons value rest ih =>
    have next : (index % bound + 1) % bound = (index + 1) % bound := Nat.mod_add_mod _ _ _
    by_cases zero : value = 0
    · rw [placed, if_pos zero] at inRange ⊢
      rw [placedMod, if_pos zero, next, ih inRange]
    · rw [placed, if_neg zero] at inRange ⊢
      have here := inRange _ mem_cons_self
      rw [placedMod, if_neg zero, next, ih fun entry member => inRange entry (mem_cons_of_mem _ member),
        Nat.mod_eq_of_lt here]

theorem placedMod_values (bound index : ℕ) (values : List F) :
    (placedMod bound index values).map Entry.value = values.filter fun value => value ≠ 0 := by
  induction values generalizing index with
  | nil => rfl
  | cons value rest ih =>
    by_cases zero : value = 0
    · rw [placedMod, if_pos zero, ih, filter_cons_of_neg (by simpa using zero)]
    · rw [placedMod, if_neg zero, map_cons, ih, filter_cons_of_pos (by simpa using zero)]

theorem zeros_of_placed {index : ℕ} {values : List F} (nothing : placed index values = []) : ∀ z ∈ values, z = 0 := by
  have none := placed_values index values
  rw [nothing, map_nil, eq_comm, filter_eq_nil_iff] at none
  intro z member
  simpa using none z member

section

variable {zeros : List F} (areZeros : ∀ z ∈ zeros, z = 0)
include areZeros

theorem filter_zeros : zeros.filter (fun value => value ≠ 0) = [] := by
  rw [filter_eq_nil_iff]
  intro z member
  simpa using areZeros z member

theorem placed_zeros (index : ℕ) : placed index zeros = [] := by
  have none := placed_values index zeros
  rw [filter_zeros areZeros] at none
  exact map_eq_nil_iff.mp none

theorem placedMod_zeros (bound index : ℕ) : placedMod bound index zeros = [] := by
  have none := placedMod_values bound index zeros
  rw [filter_zeros areZeros] at none
  exact map_eq_nil_iff.mp none

end

end

section

variable [ToString F] {entries : List (Entry F)} {db : IndexedDb F} {values : List F} {index : ℕ}

theorem storeLeaves_run (least : ∀ x : F, 0 ≤ x) (isTable : db.leaves = rows entries) (separate : Separate entries)
    (indices : ((entries ++ placedMod (2 ^ 32) index values).map Entry.index).Nodup)
    (small : ∀ entry ∈ entries ++ placedMod (2 ^ 32) index values, entry.index < 2 ^ 63) :
    (storeLeaves index values).run db =
          (.ok (), { db with leaves := rows (entries ++ placedMod (2 ^ 32) index values) }) ∧
        Separate (entries ++ placedMod (2 ^ 32) index values) ∨
      (∃ failure done v rest, values = done ++ v :: rest ∧ v ≠ 0 ∧
          v ∈ (entries ++ placedMod (2 ^ 32) index done).map Entry.value ∧ (storeLeaves index values).run db =
            (.error failure, { db with leaves := rows (entries ++ placedMod (2 ^ 32) index done) })) ∧
        ¬((entries ++ placedMod (2 ^ 32) index values).map Entry.value).Nodup := by
  induction values generalizing index entries db with
  | nil =>
    rw [placedMod, append_nil]
    refine Or.inl ⟨?_, separate⟩
    rw [storeLeaves, pure_run, ← isTable]
  | cons value rest ih =>
    by_cases zero : value = 0
    · rw [placedMod, if_pos zero] at indices small ⊢
      have skipped : (storeNonzero value index).run db = (.ok (), db) := by
        rw [storeNonzero, if_pos zero, pure_run]
      rw [storeLeaves, bind_ok skipped]
      refine (ih isTable separate indices small).imp_right (And.imp_left ?_)
      rintro ⟨failure, done, v, others, rfl, nonzero, stored, failed⟩
      refine ⟨failure, value :: done, v, others, rfl, nonzero, ?_, ?_⟩
      · rwa [placedMod, if_pos zero]
      · rwa [placedMod, if_pos zero]
    · rw [placedMod, if_neg zero] at indices small ⊢
      by_cases stored : value ∈ entries.map Entry.value
      · refine Or.inr ⟨?_, ?_⟩
        · obtain ⟨entry, member, rfl⟩ := mem_map.mp stored
          have fails : (storeNonzero entry.value index).run db = (.error (.returned (.error
              ("Failed to store leaf " ++ toStringRep entry.value))), db) := by
            rw [storeNonzero, if_neg zero, bind_ok (storeLeaf_stored isTable separate.values member)]
            rfl
          have failed : (storeLeaves index (entry.value :: rest)).run db = (.error _, db) := bind_error fails
          have unplaced : entries ++ placedMod (2 ^ 32) index [] = entries := append_nil entries
          refine ⟨.returned (.error ("Failed to store leaf " ++ toStringRep entry.value)), [], entry.value, rest, rfl,
            zero, ?_, ?_⟩
          · rwa [unplaced]
          · rw [failed, unplaced, ← isTable]
        · rw [map_append, map_cons]
          intro distinct
          exact (disjoint_of_nodup_append distinct) stored mem_cons_self
      · have positive : 0 < value := lt_of_le_of_ne (least value) (Ne.symm zero)
        obtain ⟨low, isLow⟩ := separate.exists_low positive
        have free : index ∉ entries.map Entry.index := by
          rw [map_append, map_cons] at indices
          intro taken
          exact (disjoint_of_nodup_append indices) taken mem_cons_self
        have smallEntries : ∀ entry ∈ entries, entry.index < 2 ^ 63 :=
          fun entry member => small entry (mem_append_left _ member)
        have inRange : index < 2 ^ 63 := small _ (mem_append_right _ mem_cons_self)
        have ran : (storeNonzero value index).run db =
            (.ok (), { db with leaves := rows (entries ++ [⟨value, index⟩]) }) := by
          rw [storeNonzero, if_neg zero,
            bind_ok (storeLeaf_run isTable separate smallEntries isLow stored free inRange)]
          rfl
        rw [storeLeaves, bind_ok ran]
        rw [append_cons entries _ (placedMod _ _ rest)] at indices small ⊢
        refine (@ih _ { db with leaves := rows (entries ++ [⟨value, index⟩]) } _ rfl
          (separate.append stored free) indices small).imp_right (And.imp_left ?_)
        rintro ⟨failure, done, v, others, rfl, nonzero, isStored, failed⟩
        rw [← append_cons entries] at isStored failed
        refine ⟨failure, value :: done, v, others, rfl, nonzero, ?_, ?_⟩
        · rwa [placedMod, if_neg zero]
        · rwa [placedMod, if_neg zero]

end

end Nightfall.MerkleTrees.IndexedTree
