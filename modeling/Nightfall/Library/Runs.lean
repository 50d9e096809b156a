import Mathlib.Tactic.Common

/-! Runs of a machine whose calls may fail. A failed call leaves the state as it
was; the trace of a run lists its successful calls with the states around them. -/

namespace Runs

open List

variable {State Action Error : Type}

structure Event (State Action : Type) where
  before : State
  action : Action
  after : State

def trace (step : State → Action → Except Error State) : State → List Action → List (Event State Action)
  | _, [] => []
  | state, action :: rest =>
    match step state action with
    | .ok next => ⟨state, action, next⟩ :: trace step next rest
    | .error _ => trace step state rest

def run (step : State → Action → Except Error State) : State → List Action → State
  | state, [] => state
  | state, action :: rest =>
    match step state action with
    | .ok next => run step next rest
    | .error _ => run step state rest

variable (step : State → Action → Except Error State)
variable {state : State} {action : Action} {reason : Error}

theorem trace_cons_ok {next : State} (accepted : step state action = .ok next) (rest : List Action) :
    trace step state (action :: rest) = ⟨state, action, next⟩ :: trace step next rest := by
  simp [trace, accepted]

theorem trace_cons_error (rejected : step state action = .error reason) (rest : List Action) :
    trace step state (action :: rest) = trace step state rest := by
  simp [trace, rejected]

theorem run_cons_ok {next : State} (accepted : step state action = .ok next)
    (rest : List Action) : run step state (action :: rest) = run step next rest := by
  simp [run, accepted]

theorem run_cons_error (rejected : step state action = .error reason) (rest : List Action) :
    run step state (action :: rest) = run step state rest := by
  simp [run, rejected]

theorem run_append (first second : List Action) :
    ∀ state, run step state (first ++ second) = run step (run step state first) second := by
  induction first with
  | nil => exact fun _ => rfl
  | cons action rest ih =>
    intro state
    cases outcome : step state action <;> simp [run, outcome, ih]

theorem trace_append (first second : List Action) : ∀ state, trace step state (first ++ second) =
      trace step state first ++ trace step (run step state first) second := by
  induction first with
  | nil => exact fun _ => rfl
  | cons action rest ih =>
    intro state
    cases outcome : step state action <;> simp [trace, run, outcome, ih]

theorem trace_head (actions : List Action) :
    ∀ state event later, trace step state actions = event :: later → event.before = state ∧ event.action ∈ actions ∧
        step event.before event.action = .ok event.after := by
  induction actions with
  | nil => simp [trace]
  | cons action rest ih =>
    intro state event later split
    cases outcome : step state action with
    | error reason =>
      rw [trace_cons_error step outcome] at split
      obtain ⟨here, member, stepped⟩ := ih state event later split
      exact ⟨here, mem_cons_of_mem _ member, stepped⟩
    | ok next =>
      rw [trace_cons_ok step outcome] at split
      obtain ⟨rfl, _⟩ := cons.inj split
      exact ⟨rfl, mem_cons_self, outcome⟩

theorem trace_split (actions : List Action) : ∀ state earlier later, trace step state actions = earlier ++ later →
      ∃ first second, actions = first ++ second ∧ trace step state first = earlier ∧
        trace step (run step state first) second = later := by
  induction actions with
  | nil =>
    intro state earlier later split
    obtain ⟨rfl, rfl⟩ := append_eq_nil_iff.mp split.symm
    exact ⟨[], [], rfl, rfl, rfl⟩
  | cons action rest ih =>
    intro state earlier later split
    cases outcome : step state action with
    | error reason =>
      rw [trace_cons_error step outcome] at split
      obtain ⟨first, second, rfl, rfl, rfl⟩ := ih state earlier later split
      exact ⟨action :: first, second, rfl, by simp [trace, outcome], by simp [run, outcome]⟩
    | ok next =>
      cases earlier with
      | nil => exact ⟨[], action :: rest, rfl, rfl, split⟩
      | cons event earlier =>
        rw [trace_cons_ok step outcome, cons_append, cons.injEq] at split
        obtain ⟨rfl, split⟩ := split
        obtain ⟨first, second, rfl, rfl, rfl⟩ := ih next earlier later split
        exact ⟨action :: first, second, rfl, by simp [trace, outcome], by simp [run, outcome]⟩

theorem mem_trace (state : State) (actions : List Action) (event : Event State Action)
    (member : event ∈ trace step state actions) :
    event.action ∈ actions ∧ step event.before event.action = .ok event.after := by
  obtain ⟨earlier, later, split⟩ := append_of_mem member
  obtain ⟨first, second, rfl, _, continued⟩ := trace_split step actions state _ _ split
  obtain ⟨_, called, stepped⟩ := trace_head step second _ event later continued
  exact ⟨mem_append_right first called, stepped⟩

theorem trace_step {actions : List Action} {earlier later : List (Event State Action)}
    {event : Event State Action} (split : trace step state actions = earlier ++ event :: later) :
    event.action ∈ actions ∧ step event.before event.action = .ok event.after :=
  mem_trace step state actions event (by simp [split])

section

variable (invariant : List (Event State Action) → State → Prop) (actions : List Action)

theorem invariant_run : ∀ past state, invariant past state →
      (∀ past event, event ∈ trace step state actions → invariant past event.before →
        step event.before event.action = .ok event.after → invariant (past ++ [event]) event.after) →
      invariant (past ++ trace step state actions) (run step state actions) := by
  induction actions with
  | nil =>
    intro past state holds _
    simpa [trace, run] using holds
  | cons action rest ih =>
    intro past state holds preserved
    cases outcome : step state action with
    | error reason =>
      rw [trace_cons_error step outcome] at preserved ⊢
      rw [run_cons_error step outcome]
      exact ih past state holds preserved
    | ok next =>
      rw [trace_cons_ok step outcome] at preserved ⊢
      rw [run_cons_ok step outcome]
      have nextHolds := preserved past ⟨state, action, next⟩ mem_cons_self holds outcome
      have kept := ih _ next nextHolds fun past event member =>
        preserved past event (mem_cons_of_mem _ member)
      simpa using kept

variable (state : State) (initially : invariant [] state)
  (preserved : ∀ past event, event ∈ trace step state actions → invariant past event.before →
    step event.before event.action = .ok event.after → invariant (past ++ [event]) event.after)

include initially preserved

theorem invariant_prefix (earlier later : List (Event State Action))
    (split : trace step state actions = earlier ++ later) :
    ∃ reached, invariant earlier reached ∧ ∀ event rest, later = event :: rest →
      event.before = reached ∧ step event.before event.action = .ok event.after := by
  obtain ⟨first, second, _, traced, continued⟩ := trace_split step actions state _ _ split
  have holds := invariant_run step invariant first [] state initially fun past event member =>
    preserved past event (by rw [split, ← traced]; exact mem_append_left _ member)
  refine ⟨run step state first, by simpa [traced] using holds, ?_⟩
  intro event rest isNext
  obtain ⟨here, _, stepped⟩ := trace_head step second _ event rest (continued.trans isNext)
  exact ⟨here, stepped⟩

theorem invariant_before {earlier later : List (Event State Action)} {event : Event State Action}
    (split : trace step state actions = earlier ++ event :: later) :
    invariant earlier event.before ∧ step event.before event.action = .ok event.after := by
  obtain ⟨reached, holds, here⟩ := invariant_prefix step invariant actions state initially preserved
    earlier (event :: later) split
  obtain ⟨isReached, stepped⟩ := here event later rfl
  exact ⟨isReached ▸ holds, stepped⟩

end

end Runs
