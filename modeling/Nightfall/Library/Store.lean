import Mathlib.Order.Defs.Unbundled
import Mathlib.Tactic.Common

/-! Programs over a store. A program reads and writes as it goes and may stop with an error;
what it wrote before it stopped stays written. -/

namespace Store

open List

structure Program (ε σ α : Type) where
  run : σ → Except ε α × σ

namespace Program

variable {ε σ τ α β : Type}

instance instMonad : Monad (Program ε σ) where
  pure value := ⟨fun state => (.ok value, state)⟩
  bind first next := ⟨fun state =>
    match first.run state with
    | (.ok value, later) => (next value).run later
    | (.error error, later) => (.error error, later)⟩

def reads (value : σ → Except ε α) : Program ε σ α := ⟨fun state => (value state, state)⟩

def lift (value : Except ε α) : Program ε σ α := reads fun _ => value

def fail (error : ε) : Program ε σ α := lift (.error error)

def writes (update : σ → σ) : Program ε σ Unit := ⟨fun state => (.ok (), update state)⟩

def zoom (part : σ → τ) (put : σ → τ → σ) (program : Program ε τ α) : Program ε σ α :=
  ⟨fun state => ((program.run (part state)).1, put state (program.run (part state)).2)⟩

@[simp] theorem pure_run (value : α) (state : σ) : (pure value : Program ε σ α).run state = (.ok value, state) := rfl

@[simp] theorem reads_run (value : σ → Except ε α) (state : σ) : (reads value).run state = (value state, state) := rfl

@[simp] theorem lift_run (value : Except ε α) (state : σ) :
    (lift value : Program ε σ α).run state = (value, state) := rfl

@[simp] theorem fail_run (error : ε) (state : σ) :
    (fail error : Program ε σ α).run state = (.error error, state) := rfl

@[simp] theorem writes_run (update : σ → σ) (state : σ) :
    (writes update : Program ε σ Unit).run state = (.ok (), update state) := rfl

variable {first : Program ε σ α} {next : α → Program ε σ β} {state later final : σ} {value : α}

theorem bind_ok (ran : first.run state = (.ok value, later)) :
    (first >>= next).run state = (next value).run later := by
  simp only [bind, ran]

theorem bind_error {error : ε} (ran : first.run state = (.error error, later)) :
    (first >>= next).run state = (.error error, later) := by
  simp only [bind, ran]

theorem bind_eq_error {error : ε} :
    (first >>= next).run state = (.error error, final) ↔ first.run state = (.error error, final) ∨
        ∃ value later, first.run state = (.ok value, later) ∧ (next value).run later = (.error error, final) := by
  rcases isFirst : first.run state with ⟨outcome, later⟩
  cases outcome with
  | ok value => simp [bind_ok isFirst]
  | error other => simp [bind_error isFirst]

theorem lift_bind {outcome : Except ε α} (isValue : outcome = .ok value) :
    (lift outcome >>= next).run state = (next value).run state := by
  rw [isValue, bind_ok (lift_run _ _)]

theorem reads_bind (view : σ → α) :
    (reads (fun state => .ok (view state)) >>= next).run state = (next (view state)).run state := rfl

theorem bind_eq_ok {result : β} : (first >>= next).run state = (.ok result, final) ↔
      ∃ value later, first.run state = (.ok value, later) ∧ (next value).run later = (.ok result, final) := by
  constructor
  · intro ran
    rcases isFirst : first.run state with ⟨outcome, later⟩
    cases outcome with
    | ok value => exact ⟨value, later, rfl, by rwa [bind_ok isFirst] at ran⟩
    | error error =>
      rw [bind_error isFirst] at ran
      cases ran
  · rintro ⟨value, later, isFirst, isNext⟩
    rwa [bind_ok isFirst]

theorem ext_run {other : Program ε σ α} (same : ∀ state, first.run state = other.run state) : first = other := by
  cases first
  cases other
  congr
  funext state
  exact same state

theorem bind_pure_run (program : Program ε σ α) : (program >>= fun value => pure value) = program := by
  apply ext_run
  intro state
  rcases isFirst : program.run state with ⟨outcome, later⟩
  cases outcome with
  | ok value => exact bind_ok isFirst
  | error error => exact bind_error isFirst

theorem bind_bind_run {γ : Type} (program : Program ε σ α) (middle : α → Program ε σ β) (last : β → Program ε σ γ) :
    program >>= middle >>= last = program >>= fun value => middle value >>= last := by
  apply ext_run
  intro state
  rcases isFirst : program.run state with ⟨outcome, later⟩
  cases outcome <;> simp only [bind, isFirst]

instance instLawfulMonad : LawfulMonad (Program ε σ) :=
  LawfulMonad.mk' (Program ε σ) bind_pure_run (fun _ _ => rfl) bind_bind_run

section

variable {items : List α} {body : α → Program ε σ β}

theorem mapM_run {view : α → β} (each : ∀ item ∈ items, (body item).run state = (.ok (view item), state)) :
    (items.mapM body).run state = (.ok (items.map view), state) := by
  induction items with
  | nil => rfl
  | cons item rest ih =>
    rw [mapM_cons, bind_ok (each item mem_cons_self),
      bind_ok (ih fun other member => each other (mem_cons_of_mem _ member)), pure_run, map_cons]

theorem forM_run {check : α → Program ε σ PUnit} (each : ∀ item ∈ items, (check item).run state = (.ok ⟨⟩, state)) :
    (items.forM check).run state = (.ok ⟨⟩, state) := by
  induction items with
  | nil => rfl
  | cons item rest ih =>
    rw [forM_eq_forM, forM_cons, bind_ok (each item mem_cons_self)]
    exact ih fun other member => each other (mem_cons_of_mem _ member)

theorem forM_append_run {others : List α} {step : α → Program ε σ PUnit}
    (ran : (items.forM step).run state = (.ok ⟨⟩, later)) :
    ((items ++ others).forM step).run state = (others.forM step).run later := by
  induction items generalizing state with
  | nil =>
    cases ran
    rfl
  | cons item rest ih =>
    obtain ⟨_, middle, first, last⟩ := bind_eq_ok.mp ran
    rw [cons_append, forM_eq_forM, forM_cons, bind_ok first]
    exact ih last

end

variable {part : σ → τ} {put : σ → τ → σ} {program : Program ε τ α}

theorem zoom_ok {later : τ} (ran : program.run (part state) = (.ok value, later)) :
    (zoom part put program).run state = (.ok value, put state later) := by
  simp only [zoom, ran]

theorem zoom_error {later : τ} {error : ε} (ran : program.run (part state) = (.error error, later)) :
    (zoom part put program).run state = (.error error, put state later) := by
  simp only [zoom, ran]

theorem zoom_eq_ok : (zoom part put program).run state = (.ok value, later) ↔
      ∃ after, program.run (part state) = (.ok value, after) ∧ later = put state after := by
  constructor
  · intro ran
    have isValue : (program.run (part state)).1 = .ok value := congrArg Prod.fst ran
    exact ⟨(program.run (part state)).2, Prod.ext isValue rfl, (congrArg Prod.snd ran).symm⟩
  · rintro ⟨after, ran, rfl⟩
    exact zoom_ok ran

def mapError {ε' : Type} (report : ε → ε') (program : Program ε σ α) : Program ε' σ α :=
  ⟨fun state => ((program.run state).1.mapError report, (program.run state).2)⟩

theorem mapError_eq_ok {ε' : Type} {report : ε → ε'} {program : Program ε σ α} :
    (mapError report program).run state = (.ok value, later) ↔ program.run state = (.ok value, later) := by
  rcases isRun : program.run state with ⟨_ | _, _⟩ <;> simp [mapError, isRun, Except.mapError]

/-- The program leads only to related states, whether it fails or not. -/
def Moves (related : σ → σ → Prop) (program : Program ε σ α) : Prop := ∀ state, related state (program.run state).2

def Keeps (view : σ → τ) (state later : σ) : Prop := view later = view state

instance isPreorder_keeps (view : σ → τ) : IsPreorder σ (Keeps view) where
  refl _ := rfl
  trans _ _ _ first second := Eq.trans second first

def FailsWith (allowed : ε → Prop) (program : Program ε σ α) : Prop :=
  ∀ state error later, program.run state = (.error error, later) → allowed error

def Confined (related : σ → σ → Prop) (allowed : ε → Prop) (program : Program ε σ α) : Prop :=
  Moves related program ∧ FailsWith allowed program

section

variable {related : σ → σ → Prop} {allowed : ε → Prop}

theorem Moves.ok (moves : Moves related first) (ran : first.run state = (.ok value, later)) : related state later := by
  have moved := moves state
  rwa [ran] at moved

theorem confined_writes {update : σ → σ} (moved : ∀ state, related state (update state)) :
    Confined related allowed (writes update : Program ε σ Unit) := by
  refine ⟨moved, ?_⟩
  rintro _ _ _ ⟨⟩

variable [IsPreorder σ related]

theorem moves_reads (value : σ → Except ε α) : Moves related (reads value) := fun _ => refl _

theorem moves_lift (value : Except ε α) : Moves related (lift value : Program ε σ α) := fun _ => refl _

theorem moves_pure (value : α) : Moves related (pure value : Program ε σ α) := fun _ => refl _

theorem Moves.bind (isFirst : Moves related first) (isNext : ∀ value, Moves related (next value)) :
    Moves related (first >>= next) := by
  intro state
  have moved := isFirst state
  rcases isRun : first.run state with ⟨outcome, later⟩
  rw [isRun] at moved
  cases outcome with
  | ok value =>
    rw [bind_ok isRun]
    exact IsTrans.trans _ _ _ moved (isNext value later)
  | error error => rwa [bind_error isRun]

theorem Moves.forM {items : List β} {body : β → Program ε σ PUnit} (each : ∀ item, Moves related (body item)) :
    Moves related (items.forM body) := by
  induction items with
  | nil => exact moves_pure _
  | cons item rest ih => exact (each item).bind fun _ => ih

theorem Moves.mapM {items : List β} {body : β → Program ε σ α} (each : ∀ item, Moves related (body item)) :
    Moves related (items.mapM body) := by
  induction items with
  | nil => exact moves_pure _
  | cons item rest ih =>
    rw [mapM_cons]
    exact (each item).bind fun _ => ih.bind fun _ => moves_pure _

theorem confined_fail {error : ε} (isAllowed : allowed error) :
    Confined related allowed (fail error : Program ε σ α) := by
  refine ⟨moves_lift _, ?_⟩
  rintro _ _ _ ⟨⟩
  exact isAllowed

theorem confined_pure (value : α) : Confined related allowed (pure value : Program ε σ α) := by
  refine ⟨moves_pure _, ?_⟩
  rintro _ _ _ ⟨⟩

theorem confined_reads (read : σ → α) :
    Confined related allowed (reads fun state => .ok (read state) : Program ε σ α) := by
  refine ⟨moves_reads _, ?_⟩
  rintro _ _ _ ⟨⟩

theorem Confined.bind (isFirst : Confined related allowed first)
    (isNext : ∀ value, Confined related allowed (next value)) : Confined related allowed (first >>= next) := by
  refine ⟨isFirst.1.bind fun value => (isNext value).1, ?_⟩
  intro state error later ran
  rcases isRun : first.run state with ⟨_ | value, middle⟩
  · rw [bind_error isRun] at ran
    cases ran
    exact isFirst.2 state _ _ isRun
  · rw [bind_ok isRun] at ran
    exact (isNext value).2 middle error later ran

end

theorem mapM_length {items : List β} {body : β → Program ε σ α} {values : List α}
    (ran : (items.mapM body).run state = (.ok values, later)) : values.length = items.length := by
  induction items generalizing state values with
  | nil =>
    cases ran
    rfl
  | cons item rest ih =>
    rw [mapM_cons, bind_eq_ok] at ran
    obtain ⟨value, middle, -, ran⟩ := ran
    obtain ⟨others, final, isRest, isLast⟩ := bind_eq_ok.mp ran
    cases isLast
    rw [length_cons, length_cons, ih isRest]

end Program

structure Written {κ ν : Type} (keys : κ → Prop) (value : κ → ν) (before after : κ → Option ν) : Prop where
  inside : ∀ key, keys key → after key = some (value key)
  outside : ∀ key, ¬keys key → after key = before key

namespace Written

variable {κ ν : Type} {keys others : κ → Prop} {value later : κ → ν} {before middle after : κ → Option ν}

theorem none (value : κ → ν) (before : κ → Option ν) : Written (fun _ => False) value before before where
  inside := by simp
  outside := by simp

theorem trans (first : Written keys value before middle) (second : Written others later middle after)
    (same : ∀ key, keys key → ¬others key → value key = later key) :
    Written (fun key => keys key ∨ others key) later before after where
  inside := by
    intro key written
    by_cases again : others key
    · exact second.inside key again
    · have once := written.resolve_right again
      rw [second.outside key again, first.inside key once, same key once again]
  outside := by
    intro key unwritten
    rw [not_or] at unwritten
    rw [second.outside key unwritten.2, first.outside key unwritten.1]

theorem congr (written : Written keys value before after) (same : ∀ key, keys key ↔ others key) :
    Written others value before after where
  inside := fun key inside => written.inside key ((same key).mpr inside)
  outside := fun key outside => written.outside key fun inside => outside ((same key).mp inside)

theorem unique (first : Written keys value before middle) (second : Written keys value before after) :
    middle = after := by
  funext key
  by_cases inside : keys key
  · rw [first.inside key inside, second.inside key inside]
  · rw [first.outside key inside, second.outside key inside]

end Written

end Store
