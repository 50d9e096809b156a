import Mathlib.Data.List.MinMax
import Mathlib.Data.List.Nodup

/-! Tables as lists of rows: the first row that matches is looked up or changed. -/

namespace Tables

open List

variable {α κ : Type}

def updateFirst (matching : α → Bool) (change : α → α) : List α → List α
  | [] => []
  | row :: rest => if matching row then change row :: rest else row :: updateFirst matching change rest

section

variable [DecidableEq κ] {key : α → κ} {rows : List α}

theorem find_key (distinct : (rows.map key).Nodup) {row : α} (member : row ∈ rows) :
    rows.find? (fun other => key other = key row) = some row := by
  induction rows with
  | nil => exact (not_mem_nil member).elim
  | cons first rest ih =>
    rw [map_cons, nodup_cons] at distinct
    by_cases same : key first = key row
    · rw [List.find?_cons_of_pos (by simpa using same)]
      rcases mem_cons.mp member with rfl | later
      · rfl
      · exact absurd (same ▸ mem_map_of_mem later) distinct.1
    · rw [List.find?_cons_of_neg (by simpa using same)]
      rcases mem_cons.mp member with rfl | later
      · exact absurd rfl same
      · exact ih distinct.2 later

theorem find_key_none {wanted : κ} (missing : wanted ∉ rows.map key) :
    rows.find? (fun other => key other = wanted) = none := by
  rw [List.find?_eq_none]
  intro row member
  simp only [decide_eq_true_eq]
  rintro rfl
  exact missing (mem_map_of_mem member)

theorem updateFirst_key (distinct : (rows.map key).Nodup) (wanted : κ) (change : α → α) :
    updateFirst (fun other => key other = wanted) change rows =
      rows.map fun row => if key row = wanted then change row else row := by
  induction rows with
  | nil => rfl
  | cons first rest ih =>
    rw [map_cons, nodup_cons] at distinct
    by_cases same : key first = wanted
    · rw [updateFirst, if_pos (by simpa using same), map_cons, if_pos same]
      congr 1
      symm
      calc rest.map (fun row => if key row = wanted then change row else row)
          = rest.map id := by
            apply map_congr_left
            intro row member
            rw [if_neg, id]
            rintro rfl
            exact distinct.1 (same ▸ mem_map_of_mem member)
        _ = rest := map_id rest
    · rw [updateFirst, if_neg (by simpa using same), map_cons, if_neg same, ih distinct.2]

end

theorem exists_map_eq {key : α → κ} {allowed : α → Prop} {keys : List κ}
    (each : ∀ wanted ∈ keys, ∃ row, allowed row ∧ key row = wanted) :
    ∃ rows : List α, rows.map key = keys ∧ ∀ row ∈ rows, allowed row := by
  induction keys with
  | nil => exact ⟨[], rfl, by simp⟩
  | cons wanted rest ih =>
    obtain ⟨row, isAllowed, rfl⟩ := each wanted mem_cons_self
    obtain ⟨rows, rfl, all⟩ := ih fun other member => each other (mem_cons_of_mem _ member)
    refine ⟨row :: rows, rfl, ?_⟩
    intro other member
    rcases mem_cons.mp member with rfl | later
    · exact isAllowed
    · exact all other later

section

variable [LinearOrder κ] {key : α → κ} {rows : List α} {row : α}

theorem argmax_key (distinct : (rows.map key).Nodup) (member : row ∈ rows)
    (largest : ∀ other ∈ rows, key other ≤ key row) : rows.argmax key = some row := by
  cases found : rows.argmax key with
  | none =>
    rw [argmax_eq_none] at found
    exact absurd member (found ▸ not_mem_nil)
  | some other =>
    have otherMember := argmax_mem found
    have atLeast := le_of_mem_argmax member found
    have same := le_antisymm (largest other otherMember) atLeast
    rw [inj_on_of_nodup_map distinct otherMember member same]

theorem argmin_key (distinct : (rows.map key).Nodup) (member : row ∈ rows)
    (smallest : ∀ other ∈ rows, key row ≤ key other) : rows.argmin key = some row := by
  cases found : rows.argmin key with
  | none =>
    rw [argmin_eq_none] at found
    exact absurd member (found ▸ not_mem_nil)
  | some other =>
    have otherMember := argmin_mem found
    have atMost := le_of_mem_argmin member found
    have same := le_antisymm atMost (smallest other otherMember)
    rw [inj_on_of_nodup_map distinct otherMember member same]

end

end Tables
