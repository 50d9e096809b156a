import Mathlib.Data.List.Basic

/-! A state with checkpoints. Work on the state starts by keeping a copy of it, gets a label when it is
done, and stays pending until it is confirmed, oldest first, or everything pending is undone. -/

namespace Checkpoints

open List

structure Checkpoint (ρ τ : Type) where
  number : ℕ
  label : Option ρ
  before : τ

structure Journal (ρ τ : Type) where
  current : τ
  pending : List (Checkpoint ρ τ)
  started : ℕ

inductive Act (ρ τ : Type) where
  | start
  | change (state : τ)
  | settle (label : ρ)
  | abandon
  | confirm (label : ρ)
  | revert
  | forget

namespace Journal

variable {ρ τ : Type}

def fresh (state : τ) : Journal ρ τ := ⟨state, [], 0⟩

def start (journal : Journal ρ τ) : Journal ρ τ :=
  ⟨journal.current, journal.pending ++ [⟨journal.started, none, journal.current⟩], journal.started + 1⟩

def settle (label : ρ) (journal : Journal ρ τ) : Journal ρ τ :=
  match journal.pending.getLast? with
  | some last =>
    if last.label.isNone then
      { journal with pending := journal.pending.dropLast ++ [{ last with label := some label }] }
    else journal
  | none => journal

def abandon (journal : Journal ρ τ) : Journal ρ τ :=
  match journal.pending.getLast? with
  | some last =>
    if last.label.isNone then { journal with current := last.before, pending := journal.pending.dropLast }
    else journal
  | none => journal

def confirms [DecidableEq ρ] (label : ρ) (journal : Journal ρ τ) : Bool :=
  journal.pending.head?.any fun first => first.label = some label

def confirm [DecidableEq ρ] (label : ρ) (journal : Journal ρ τ) : Journal ρ τ :=
  if journal.confirms label then { journal with pending := journal.pending.tail } else journal

def tip (journal : Journal ρ τ) : τ := (journal.pending.head?.map Checkpoint.before).getD journal.current

def revert (journal : Journal ρ τ) : Journal ρ τ := { journal with current := journal.tip, pending := [] }

def forget (journal : Journal ρ τ) : Journal ρ τ := { journal with pending := [] }

def act [DecidableEq ρ] : Act ρ τ → Journal ρ τ → Journal ρ τ
  | .start, journal => journal.start
  | .change state, journal => { journal with current := state }
  | .settle label, journal => journal.settle label
  | .abandon, journal => journal.abandon
  | .confirm label, journal => journal.confirm label
  | .revert, journal => journal.revert
  | .forget, journal => journal.forget

def run [DecidableEq ρ] (acts : List (Act ρ τ)) (journal : Journal ρ τ) : Journal ρ τ :=
  acts.foldl (fun journal action => journal.act action) journal

section

variable {journal : Journal ρ τ} {others : List (Checkpoint ρ τ)} {last : Checkpoint ρ τ}

theorem open_cases (journal : Journal ρ τ) : (∀ last ∈ journal.pending.getLast?, last.label.isSome) ∨
    ∃ others last, journal.pending = others ++ [last] ∧ last.label = none := by
  rcases eq_nil_or_concat journal.pending with empty | ⟨others, last, isPending⟩
  · simp [empty]
  · rw [concat_eq_append] at isPending
    cases isOpen : last.label with
    | none => exact .inr ⟨others, last, isPending, isOpen⟩
    | some known => simp [isPending, isOpen]

theorem settle_open (label : ρ) (isPending : journal.pending = others ++ [last]) (isOpen : last.label = none) :
    journal.settle label = { journal with pending := others ++ [{ last with label := some label }] } := by
  simp [settle, isPending, isOpen]

theorem settle_closed (label : ρ) (closed : ∀ last ∈ journal.pending.getLast?, last.label.isSome) :
    journal.settle label = journal := by
  cases isLast : journal.pending.getLast? with
  | none => simp [settle, isLast]
  | some last => simp [settle, isLast, Option.isSome_iff_ne_none.mp (closed last isLast)]

theorem abandon_open (isPending : journal.pending = others ++ [last]) (isOpen : last.label = none) :
    journal.abandon = { journal with current := last.before, pending := others } := by
  simp [abandon, isPending, isOpen]

theorem abandon_closed (closed : ∀ last ∈ journal.pending.getLast?, last.label.isSome) :
    journal.abandon = journal := by
  cases isLast : journal.pending.getLast? with
  | none => simp [abandon, isLast]
  | some last => simp [abandon, isLast, Option.isSome_iff_ne_none.mp (closed last isLast)]

end

section

structure Numbered (journal : Journal ρ τ) : Prop where
  increasing : (journal.pending.map Checkpoint.number).Pairwise (· < ·)
  below : ∀ number ∈ journal.pending.map Checkpoint.number, number < journal.started

variable {journal later : Journal ρ τ}

theorem numbered_fresh (state : τ) : (fresh state : Journal ρ τ).Numbered := ⟨.nil, by simp [fresh]⟩

theorem Numbered.start (numbered : journal.Numbered) : journal.start.Numbered := by
  constructor
  · rw [Journal.start, map_append, pairwise_append]
    refine ⟨numbered.increasing, pairwise_singleton _ _, ?_⟩
    intro number earlier other isLast
    rw [mem_singleton.mp isLast]
    exact numbered.below number earlier
  · simp only [Journal.start, map_append, forall_mem_append]
    exact ⟨fun number earlier => Nat.lt_succ_of_lt (numbered.below number earlier), by simp⟩

variable {front back : List (Checkpoint ρ τ)} {dropped : Checkpoint ρ τ}

theorem Numbered.apart (numbered : journal.Numbered) (isPending : journal.pending = front ++ dropped :: back) :
    ∀ checkpoint ∈ front ++ back, checkpoint.number ≠ dropped.number := by
  have increasing := numbered.increasing
  rw [isPending, pairwise_map, pairwise_append, pairwise_cons] at increasing
  intro checkpoint member
  rcases mem_append.mp member with before | after
  · exact Nat.ne_of_lt (increasing.2.2 checkpoint before dropped mem_cons_self)
  · exact Nat.ne_of_gt (increasing.2.1.1 checkpoint after)

variable [DecidableEq ρ]

theorem run_append (journal : Journal ρ τ) (first second : List (Act ρ τ)) :
    journal.run (first ++ second) = (journal.run first).run second := foldl_append

end

end Journal

end Checkpoints
