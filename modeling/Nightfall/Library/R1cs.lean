import Mathlib.Data.List.Forall2

/-! Rank-one constraint systems as programs: allocate a variable with the value an honest prover
gives it, or enforce a product. -/

namespace R1cs

inductive Synthesis (F α : Type) : Type where
  | done (result : α)
  | alloc (value : F) (rest : F → Synthesis F α)
  | enforce (left right output : F) (rest : Synthesis F α)

namespace Synthesis

variable {F α β : Type}

def bind : Synthesis F α → (α → Synthesis F β) → Synthesis F β
  | done result, next => next result
  | alloc value rest, next => alloc value fun assigned => (rest assigned).bind next
  | enforce left right output rest, next => enforce left right output (rest.bind next)

instance monad : Monad (Synthesis F) where
  pure := done
  bind := bind

theorem bind_done (program : Synthesis F α) : program.bind done = program := by
  induction program with
  | done result => rfl
  | alloc value rest ih =>
    rw [bind]
    congr 1
    funext assigned
    exact ih assigned
  | enforce left right output rest ih => rw [bind, ih]

theorem bind_assoc {γ : Type} (program : Synthesis F α) (next : α → Synthesis F β) (last : β → Synthesis F γ) :
    (program.bind next).bind last = program.bind fun result => (next result).bind last := by
  induction program with
  | done result => rfl
  | alloc value rest ih =>
    rw [bind, bind, bind]
    congr 1
    funext assigned
    exact ih assigned
  | enforce left right output rest ih => rw [bind, bind, bind, ih]

theorem lawful : LawfulMonad (Synthesis F) :=
  LawfulMonad.mk' (Synthesis F) bind_done (fun _ _ => rfl) bind_assoc

instance lawfulMonad : LawfulMonad (Synthesis F) := lawful

end Synthesis

open Synthesis List

section

variable {F α β : Type}

def alloc (value : F) : Synthesis F F := .alloc value .done

def enforce (left right output : F) : Synthesis F Unit := .enforce left right output (.done ())

def honest : Synthesis F α → α
  | .done result => result
  | .alloc value rest => honest (rest value)
  | .enforce _ _ _ rest => honest rest

def witness : Synthesis F α → List F
  | .done _ => []
  | .alloc value rest => value :: witness (rest value)
  | .enforce _ _ _ rest => witness rest

@[simp] theorem honest_pure (result : α) : honest (pure result : Synthesis F α) = result := rfl

@[simp] theorem honest_bind (program : Synthesis F α) (next : α → Synthesis F β) :
    honest (program >>= next) = honest (next (honest program)) := by
  induction program with
  | done result => rfl
  | alloc value rest ih => exact ih value
  | enforce left right output rest ih => exact ih

@[simp] theorem honest_alloc (value : F) : honest (alloc value) = value := rfl

@[simp] theorem honest_enforce (left right output : F) : honest (enforce left right output) = () := rfl

theorem honest_mapM (step : β → Synthesis F α) (inputs : List β) :
    honest (inputs.mapM step) = inputs.map fun input => honest (step input) := by
  induction inputs with
  | nil => rfl
  | cons input inputs ih => simp only [mapM_cons, honest_bind, honest_pure, ih, map_cons]

variable [Mul F]

/-- The assignment gives the allocated variables, in order, values that satisfy every
constraint, and the program ends with this result. -/
def Satisfies : Synthesis F α → List F → α → Prop
  | .done result, [], outcome => result = outcome
  | .done _, _ :: _, _ => False
  | .alloc _ _, [], _ => False
  | .alloc _ rest, value :: values, outcome => Satisfies (rest value) values outcome
  | .enforce left right output rest, values, outcome =>
    left * right = output ∧ Satisfies rest values outcome

def Holds : Synthesis F α → Prop
  | .done _ => True
  | .alloc value rest => Holds (rest value)
  | .enforce left right output rest => left * right = output ∧ Holds rest

theorem satisfies_witness (program : Synthesis F α) (holds : Holds program) :
    Satisfies program (witness program) (honest program) := by
  induction program with
  | done result => rfl
  | alloc value rest ih => exact ih value holds
  | enforce left right output rest ih => exact ⟨holds.1, ih holds.2⟩

def Reaches (program : Synthesis F α) (outcome : α) : Prop :=
  ∃ values, Satisfies program values outcome

theorem reaches_of_holds {program : Synthesis F α} {outcome : α} (holds : Holds program)
    (isOutcome : honest program = outcome) : Reaches program outcome :=
  ⟨witness program, isOutcome ▸ satisfies_witness program holds⟩

@[simp] theorem reaches_pure (result outcome : α) :
    Reaches (pure result : Synthesis F α) outcome ↔ result = outcome := by
  constructor
  · rintro ⟨values, satisfied⟩
    cases values with
    | nil => exact satisfied
    | cons value values => exact satisfied.elim
  · intro same
    exact ⟨[], same⟩

theorem satisfies_bind (program : Synthesis F α) (next : α → Synthesis F β) (values : List F) (outcome : β) :
    Satisfies (program >>= next) values outcome ↔
      ∃ front back result, values = front ++ back ∧ Satisfies program front result ∧
        Satisfies (next result) back outcome := by
  induction program generalizing values with
  | done result =>
    constructor
    · intro satisfied
      exact ⟨[], values, result, rfl, rfl, satisfied⟩
    · rintro ⟨front, back, middle, rfl, ended, satisfied⟩
      cases front with
      | nil =>
        cases ended
        exact satisfied
      | cons value front => exact ended.elim
  | alloc value rest ih =>
    cases values with
    | nil =>
      constructor
      · intro satisfied
        exact satisfied.elim
      · rintro ⟨front, back, result, split, satisfied, _⟩
        obtain ⟨rfl, _⟩ := append_eq_nil_iff.mp split.symm
        exact satisfied.elim
    | cons first values =>
      constructor
      · intro satisfied
        obtain ⟨front, back, result, split, here, later⟩ := (ih first values).mp satisfied
        exact ⟨first :: front, back, result, by rw [split, cons_append], here, later⟩
      · rintro ⟨front, back, result, split, satisfied, later⟩
        cases front with
        | nil => exact satisfied.elim
        | cons other front =>
          obtain ⟨rfl, rfl⟩ := cons.inj split
          exact (ih first _).mpr ⟨front, back, result, rfl, satisfied, later⟩
  | enforce left right output rest ih =>
    constructor
    · rintro ⟨product, satisfied⟩
      obtain ⟨front, back, result, split, here, later⟩ := (ih values).mp satisfied
      exact ⟨front, back, result, split, ⟨product, here⟩, later⟩
    · rintro ⟨front, back, result, split, ⟨product, here⟩, later⟩
      exact ⟨product, (ih values).mpr ⟨front, back, result, split, here, later⟩⟩

@[simp] theorem reaches_bind (program : Synthesis F α) (next : α → Synthesis F β) (outcome : β) :
    Reaches (program >>= next) outcome ↔ ∃ result, Reaches program result ∧ Reaches (next result) outcome := by
  constructor
  · rintro ⟨values, satisfied⟩
    obtain ⟨front, back, result, _, here, later⟩ := (satisfies_bind _ _ _ _).mp satisfied
    exact ⟨result, ⟨front, here⟩, ⟨back, later⟩⟩
  · rintro ⟨result, ⟨front, here⟩, ⟨back, later⟩⟩
    exact ⟨front ++ back, (satisfies_bind _ _ _ _).mpr ⟨front, back, result, rfl, here, later⟩⟩

@[simp] theorem reaches_alloc (value outcome : F) : Reaches (alloc value) outcome :=
  ⟨[outcome], rfl⟩

@[simp] theorem reaches_enforce (left right output : F) (outcome : Unit) :
    Reaches (enforce left right output) outcome ↔ left * right = output := by
  constructor
  · rintro ⟨values, product, _⟩
    exact product
  · intro product
    exact ⟨[], product, rfl⟩

@[simp] theorem holds_pure (result : α) : Holds (pure result : Synthesis F α) := trivial

@[simp] theorem holds_bind (program : Synthesis F α) (next : α → Synthesis F β) :
    Holds (program >>= next) ↔ Holds program ∧ Holds (next (honest program)) := by
  induction program with
  | done result => exact ⟨fun holds => ⟨trivial, holds⟩, fun both => both.2⟩
  | alloc value rest ih => exact ih value
  | enforce left right output rest ih =>
    constructor
    · rintro ⟨product, holds⟩
      exact ⟨⟨product, ((ih).mp holds).1⟩, ((ih).mp holds).2⟩
    · rintro ⟨⟨product, here⟩, later⟩
      exact ⟨product, (ih).mpr ⟨here, later⟩⟩

@[simp] theorem holds_alloc (value : F) : Holds (alloc value) := trivial

@[simp] theorem holds_enforce (left right output : F) : Holds (enforce left right output) ↔ left * right = output :=
  and_iff_left trivial

section

theorem reaches_mapM (step : β → Synthesis F α) (inputs : List β) (outcomes : List α) :
    Reaches (inputs.mapM step) outcomes ↔
      List.Forall₂ (fun input outcome => Reaches (step input) outcome) inputs outcomes := by
  induction inputs generalizing outcomes with
  | nil =>
    rw [mapM_nil, reaches_pure, forall₂_nil_left_iff]
    exact eq_comm
  | cons input inputs ih =>
    simp only [mapM_cons, reaches_bind, reaches_pure, ih, forall₂_cons_left_iff]
    constructor
    · rintro ⟨outcome, here, rest, later, rfl⟩
      exact ⟨outcome, rest, here, later, rfl⟩
    · rintro ⟨outcome, rest, here, later, rfl⟩
      exact ⟨outcome, here, rest, later, rfl⟩

theorem holds_mapM (step : β → Synthesis F α) (inputs : List β) :
    Holds (inputs.mapM step) ↔ ∀ input ∈ inputs, Holds (step input) := by
  induction inputs with
  | nil => simp only [mapM_nil, holds_pure, not_mem_nil, false_imp_iff, implies_true]
  | cons input inputs ih =>
    simp only [mapM_cons, holds_bind, holds_pure, ih, and_true, forall_mem_cons]

/-- The program has one outcome. A satisfying assignment ends with `value` and meets what is `needed`;
given `enough`, the honest one satisfies. -/
structure Forces (program : Synthesis F α) (value : α) (needed enough : Prop) : Prop where
  sound {outcome : α} (reached : Reaches program outcome) : outcome = value ∧ needed
  complete (given : enough) : Holds program ∧ honest program = value

variable {program : Synthesis F α} {next : α → Synthesis F β} {value : α} {last : β} {a b c d : Prop}

theorem Forces.bind (first : Forces program value a b) (rest : Forces (next value) last c d) :
    Forces (program >>= next) last (a ∧ c) (b ∧ d) where
  sound reached := by
    obtain ⟨result, here, later⟩ := (reaches_bind _ _ _).mp reached
    obtain ⟨rfl, met⟩ := first.sound here
    exact ⟨(rest.sound later).1, met, (rest.sound later).2⟩
  complete given := by
    obtain ⟨holds, isValue⟩ := first.complete given.1
    obtain ⟨later, isLast⟩ := rest.complete given.2
    rw [holds_bind, honest_bind, isValue]
    exact ⟨⟨holds, later⟩, isLast⟩

theorem Forces.mono (forces : Forces program value a b) (weaker : a → c) (stronger : d → b) :
    Forces program value c d :=
  ⟨fun reached => (forces.sound reached).imp_right weaker, fun given => forces.complete (stronger given)⟩

theorem Forces.andThen (first : Forces program value True True) (rest : Forces (next value) last c d) :
    Forces (program >>= next) last c d :=
  (first.bind rest).mono And.right fun given => ⟨trivial, given⟩

theorem Forces.reaches_iff (forces : Forces program value a a) (outcome : α) :
    Reaches program outcome ↔ outcome = value ∧ a := by
  constructor
  · exact forces.sound
  · rintro ⟨rfl, given⟩
    obtain ⟨holds, isValue⟩ := forces.complete given
    exact reaches_of_holds holds isValue

theorem forces_pure (value : α) : Forces (pure value : Synthesis F α) value True True :=
  ⟨fun reached => ⟨((reaches_pure _ _).mp reached).symm, trivial⟩, fun _ => ⟨trivial, rfl⟩⟩

theorem forces_enforce (left right output : F) :
    Forces (enforce left right output) () (left * right = output) (left * right = output) :=
  ⟨fun reached => ⟨rfl, (reaches_enforce _ _ _ _).mp reached⟩, fun given => ⟨⟨given, trivial⟩, rfl⟩⟩

theorem forces_alloc {value : F} {next : F → Synthesis F α} (last : F → α) (forced : F) {needed enough : F → Prop}
    (each : ∀ x, Forces (next x) (last x) (needed x) (enough x)) (determined : ∀ x, needed x → x = forced) :
    Forces (alloc value >>= next) (last forced) (needed forced) (value = forced ∧ enough forced) where
  sound reached := by
    obtain ⟨x, _, later⟩ := (reaches_bind _ _ _).mp reached
    obtain ⟨isLast, met⟩ := (each x).sound later
    obtain rfl := determined x met
    exact ⟨isLast, met⟩
  complete := by
    rintro ⟨rfl, given⟩
    exact (each value).complete given

theorem forces_free {next : F → Synthesis F α} {last : α} {enough : F → Prop}
    (each : ∀ x, Forces (next x) last True (enough x)) (value : F) :
    Forces (alloc value >>= next) last True (enough value) where
  sound reached := by
    obtain ⟨x, _, later⟩ := (reaches_bind _ _ _).mp reached
    exact (each x).sound later
  complete given := (each value).complete given

theorem forces_forM {step : β → Synthesis F Unit} {condition : β → Prop}
    (each : ∀ input, Forces (step input) () (condition input) (condition input)) (inputs : List β) :
    Forces (forM inputs step) () (∀ input ∈ inputs, condition input) (∀ input ∈ inputs, condition input) := by
  induction inputs with
  | nil => exact (forces_pure ()).mono (by simp) (by simp)
  | cons input inputs ih =>
    rw [forM_cons, forall_mem_cons]
    exact (each input).bind ih

end

end

end R1cs
