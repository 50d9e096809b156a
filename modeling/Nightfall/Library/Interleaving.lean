import Mathlib.Logic.Function.Basic

/-! Tasks that share a state and are interleaved at their calls to it. A task meets a rely and a
guarantee if, as long as the others only make steps of the rely, its own calls are steps of the
guarantee and it ends in the postcondition. -/

namespace Interleaving

variable {ι σ α : Type}

inductive Task (σ α : Type)
  | done (result : α)
  | call (write : σ → σ) (next : Option σ → Task σ α)

namespace Task

def turn (works : Bool) (state : σ) : Task σ α → σ × Task σ α
  | done result => (state, done result)
  | call write next => if works then (write state, next (some state)) else (state, next none)

def result : Task σ α → Option α
  | done result => some result
  | call _ _ => none

/-- What a turn lets the task see: the state it finds, or nothing if its call fails. -/
def record (works : Bool) (state : σ) : Task σ α → List (Option σ)
  | done _ => []
  | call _ _ => [if works then some state else none]

/-- What a task returns once it has seen these answers, and no others. -/
def replay : Task σ α → List (Option σ) → Option α
  | done result, [] => some result
  | call _ next, answer :: seen => (next answer).replay seen
  | _, _ => none

/-- The postcondition is on what the task has seen from here on, its result and the state. -/
def Meets (rely guarantee : σ → σ → Prop) (post : List (Option σ) → α → σ → Prop) : Task σ α → σ → Prop
  | done result, state => ∀ later, rely state later → post [] result later
  | call write next, state => ∀ later, rely state later → guarantee later (write later) ∧
      (next (some later)).Meets rely guarantee (fun seen => post (some later :: seen)) (write later) ∧
        (next none).Meets rely guarantee (fun seen => post (none :: seen)) later

variable {rely guarantee : σ → σ → Prop} {post : List (Option σ) → α → σ → Prop} {task : Task σ α} {state later : σ}

theorem Meets.wait (trans : ∀ a b c, rely a b → rely b c → rely a c) (meets : task.Meets rely guarantee post state)
    (step : rely state later) : task.Meets rely guarantee post later := by
  cases task with
  | done result | call write next => exact fun last after => meets last (trans _ _ _ step after)

theorem replay_nil : task.replay [] = task.result := by
  cases task <;> rfl

theorem replay_record (works : Bool) (seen : List (Option σ)) :
    task.replay (task.record works state ++ seen) = (task.turn works state).2.replay seen := by
  cases task with
  | done result => rfl
  | call write next => cases works <;> rfl

variable (refl : ∀ a, rely a a) (meets : task.Meets rely guarantee post state)
include refl meets

theorem Meets.turn (works : Bool) : ((task.turn works state).1 = state ∨ guarantee state (task.turn works state).1) ∧
      (task.turn works state).2.Meets rely guarantee (fun seen => post (task.record works state ++ seen))
        (task.turn works state).1 := by
  cases task with
  | done result => exact ⟨.inl rfl, meets⟩
  | call write next =>
    obtain ⟨guaranteed, succeeded, failed⟩ := meets state (refl state)
    cases works
    · exact ⟨.inl rfl, failed⟩
    · exact ⟨.inr guaranteed, succeeded⟩

theorem Meets.post_of_result {result : α} (isDone : task.result = some result) : post [] result state := by
  cases task with
  | done final => exact Option.some_inj.mp isDone ▸ meets state (refl state)
  | call write next => cases isDone

end Task

structure Pool (ι σ α : Type) where
  state : σ
  tasks : ι → Task σ α

namespace Pool

variable [DecidableEq ι]

def turn (pool : Pool ι σ α) (next : ι × Bool) : Pool ι σ α :=
  let moved := (pool.tasks next.1).turn next.2 pool.state
  ⟨moved.1, Function.update pool.tasks next.1 moved.2⟩

def run (pool : Pool ι σ α) (schedule : List (ι × Bool)) : Pool ι σ α := schedule.foldl turn pool

/-- What the calls of one task see in a run. -/
def seen (i : ι) : Pool ι σ α → List (ι × Bool) → List (Option σ)
  | _, [] => []
  | pool, next :: rest =>
    (if next.1 = i then (pool.tasks i).record next.2 pool.state else []) ++ seen i (pool.turn next) rest

def Undisturbed (rely : σ → σ → Prop) (i : ι) : Pool ι σ α → List (ι × Bool) → Prop
  | _, [] => True
  | pool, next :: rest => (next.1 ≠ i → rely pool.state (pool.turn next).state) ∧
    Undisturbed rely i (pool.turn next) rest

variable {pool : Pool ι σ α} {i : ι}

theorem turn_own (next : ι × Bool) :
    (pool.turn next).tasks next.1 = ((pool.tasks next.1).turn next.2 pool.state).2 :=
  Function.update_self ..

theorem turn_other {next : ι × Bool} (other : next.1 ≠ i) : (pool.turn next).tasks i = pool.tasks i :=
  Function.update_of_ne (Ne.symm other) ..

theorem replay_seen {schedule : List (ι × Bool)} {result : α}
    (isDone : ((pool.run schedule).tasks i).result = some result) :
    (pool.tasks i).replay (pool.seen i schedule) = some result := by
  induction schedule generalizing pool with
  | nil => exact Task.replay_nil.trans isDone
  | cons next rest ih =>
    rw [seen, ← ih isDone]
    by_cases own : next.1 = i
    · subst own
      rw [if_pos rfl, Task.replay_record, turn_own]
    · rw [if_neg own, turn_other own, List.nil_append]

theorem run_meets {rely guarantee : σ → σ → Prop} {post : List (Option σ) → α → σ → Prop} (refl : ∀ a, rely a a)
    (trans : ∀ a b c, rely a b → rely b c → rely a c)
    {schedule : List (ι × Bool)} (meets : (pool.tasks i).Meets rely guarantee post pool.state)
    (undisturbed : pool.Undisturbed rely i schedule) :
    ((pool.run schedule).tasks i).Meets rely guarantee (fun later => post (pool.seen i schedule ++ later))
      (pool.run schedule).state := by
  induction schedule generalizing pool post with
  | nil => exact meets
  | cons next rest ih =>
    simp only [seen, List.append_assoc]
    by_cases own : next.1 = i
    · subst own
      rw [if_pos rfl]
      have moved : ((pool.turn next).tasks next.1).Meets rely guarantee
          (fun later => post ((pool.tasks next.1).record next.2 pool.state ++ later)) (pool.turn next).state := by
        rw [turn_own]
        exact (meets.turn refl next.2).2
      exact ih moved undisturbed.2
    · rw [if_neg own]
      refine ih ?_ undisturbed.2
      rw [turn_other own]
      exact meets.wait trans (undisturbed.1 own)

variable {rely guarantee : ι → σ → σ → Prop} (refl : ∀ i a, rely i a a)
  (trans : ∀ i a b c, rely i a b → rely i b c → rely i a c)
  (compatible : ∀ i j, i ≠ j → ∀ a b, guarantee i a b → rely j a b)
include refl trans compatible

/-- Tasks that keep to their guarantees leave each other undisturbed. -/
theorem undisturbed_of_meets (meets : ∀ i, ∃ post, (pool.tasks i).Meets (rely i) (guarantee i) post pool.state)
    (schedule : List (ι × Bool)) (i : ι) : pool.Undisturbed (rely i) i schedule := by
  induction schedule generalizing pool with
  | nil => trivial
  | cons next rest ih =>
    obtain ⟨post, isMet⟩ := meets next.1
    obtain ⟨step, moved⟩ := isMet.turn (refl next.1) next.2
    have others : ∀ j, next.1 ≠ j → rely j pool.state (pool.turn next).state := by
      intro j other
      rcases step with same | guaranteed
      · exact (congrArg (rely j pool.state) same).mpr (refl j _)
      · exact compatible _ j other _ _ guaranteed
    refine ⟨others i, ih fun j => ?_⟩
    by_cases own : next.1 = j
    · subst own
      rw [turn_own]
      exact ⟨_, moved⟩
    · obtain ⟨post, isMet⟩ := meets j
      rw [turn_other own]
      exact ⟨post, isMet.wait (trans j) (others j own)⟩

theorem run_allMeet {post : ι → List (Option σ) → α → σ → Prop}
    (meets : ∀ i, (pool.tasks i).Meets (rely i) (guarantee i) (post i) pool.state)
    (schedule : List (ι × Bool)) (i : ι) :
    ((pool.run schedule).tasks i).Meets (rely i) (guarantee i) (fun later => post i (pool.seen i schedule ++ later))
      (pool.run schedule).state :=
  run_meets (refl i) (trans i) (meets i)
    (undisturbed_of_meets refl trans compatible (fun j => ⟨post j, meets j⟩) schedule i)

end Pool

end Interleaving
