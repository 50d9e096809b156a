import Mathlib.Data.List.Forall2
import Mathlib.Data.List.Induction

/-! Computations that either return a value or stop with a message. A call that
stops has no effect, so a caller only needs to know which guards a successful
call passed and what it returned. -/

namespace Revert

open List

def require (condition : Prop) [Decidable condition] (message : String) : Except String Unit :=
  if condition then .ok () else .error message

variable {ε α σ : Type}

@[simp] theorem bind_eq_ok {β : Type} (first : Except ε α) (next : α → Except ε β) (result : β) :
    (first >>= next) = .ok result ↔ ∃ value, first = .ok value ∧ next value = .ok result := by
  cases first <;> simp [bind, Except.bind]

@[simp] theorem pure_eq_ok (value result : α) : (pure value : Except ε α) = .ok result ↔ value = result := by
  simp [pure, Except.pure]

@[simp] theorem map_eq_ok {β : Type} (first : Except ε α) (next : α → β) (result : β) :
    next <$> first = .ok result ↔ ∃ value, first = .ok value ∧ next value = result := by
  cases first <;> simp [Functor.map, Except.map]

@[simp] theorem exists_eq_ok (computation : Except ε Unit) :
    (∃ value, computation = .ok value) ↔ computation = .ok () :=
  Unique.exists_iff

@[simp] theorem mapError_eq_ok {δ : Type} (rename : ε → δ) (computation : Except ε α)
    (result : α) : computation.mapError rename = .ok result ↔ computation = .ok result := by
  cases computation <;> simp [Except.mapError]

@[simp] theorem require_eq_ok (condition : Prop) [Decidable condition] (message : String)
    (result : Unit) : require condition message = .ok result ↔ condition := by
  simp only [require]
  split <;> simp_all

theorem require_pos {condition : Prop} [Decidable condition] (holds : condition)
    (message : String) : require condition message = .ok () := by
  simp [holds]

theorem foldlM_total (body : σ → α → Except ε σ) (invariant : σ → Prop) (items : List α)
    (succeeds : ∀ state item, item ∈ items → invariant state → ∃ next, body state item = .ok next ∧ invariant next) :
    ∀ state, invariant state → ∃ result, items.foldlM body state = .ok result ∧ invariant result := by
  induction items with
  | nil =>
    intro state holds
    exact ⟨state, rfl, holds⟩
  | cons item rest ih =>
    intro state holds
    obtain ⟨next, first, kept⟩ := succeeds state item (by simp) holds
    obtain ⟨result, later, final⟩ :=
      ih (fun state item member => succeeds state item (by simp [member])) next kept
    refine ⟨result, ?_, final⟩
    rw [foldlM_cons, first]
    exact later

theorem foldlM_relates {body : σ → α → Except ε σ} (related : List α → σ → σ → Prop)
    (nil : ∀ state, related [] state state)
    (cons : ∀ item rest state next result, body state item = .ok next → related rest next result →
      related (item :: rest) state result) (items : List α) :
    ∀ state result, items.foldlM body state = .ok result → related items state result := by
  induction items with
  | nil =>
    intro state result finished
    simp only [foldlM_nil, pure_eq_ok] at finished
    exact finished ▸ nil state
  | cons item rest ih =>
    intro state result finished
    simp only [foldlM_cons, bind_eq_ok] at finished
    obtain ⟨next, first, later⟩ := finished
    exact cons item rest state next result first (ih next result later)

theorem foldlM_keeps {τ : Type} {body : σ → α → Except ε σ} (view : σ → τ)
    (each : ∀ state item next, body state item = .ok next → view next = view state) (items : List α) :
    ∀ state result, items.foldlM body state = .ok result → view result = view state :=
  foldlM_relates (fun _ state result => view result = view state) (fun _ => rfl)
    (fun item _ state next _ first later => later.trans (each state item next first)) items

theorem foldlM_fixed (body : σ → α → Except ε σ) (state : σ) (items : List α)
    (fixed : ∀ item ∈ items, body state item = .ok state) : items.foldlM body state = .ok state := by
  obtain ⟨result, finished, same⟩ := foldlM_total body (· = state) items
    (fun current item member same => ⟨state, same ▸ fixed item member, rfl⟩) state rfl
  rw [finished, same]

theorem foldlM_forall₂ {related : α → α → Prop} {left right : List α} (pairs : List.Forall₂ related left right)
    {body other : σ → α → Except ε σ} (agrees : ∀ state a b, related a b → body state a = other state b) :
    ∀ state, left.foldlM body state = right.foldlM other state := by
  induction pairs with
  | nil => exact fun _ => rfl
  | cons first rest ih =>
    intro state
    rw [foldlM_cons, foldlM_cons, agrees state _ _ first]
    exact congrArg _ (funext ih)

theorem forM_eq_ok (body : α → Except ε Unit) (items : List α) (result : Unit) :
    items.forM body = .ok result ↔ ∀ item ∈ items, body item = .ok () := by
  induction items with
  | nil => simp
  | cons item rest ih =>
    have unfolded : (item :: rest).forM body = (body item >>= fun _ => rest.forM body) := rfl
    rw [unfolded, bind_eq_ok, forall_mem_cons, ← ih]
    exact ⟨fun ⟨(), first, later⟩ => ⟨first, later⟩, fun ⟨first, later⟩ => ⟨(), first, later⟩⟩

@[simp] theorem forM_ok (items : List α) (body : α → Except ε PUnit) (result : PUnit) :
    forM items body = .ok result ↔ ∀ item ∈ items, body item = .ok () :=
  forM_eq_ok body items result

theorem foldlM_range (items : List α) (byIndex : σ → Nat → Except ε σ) (byItem : σ → α → Except ε σ)
    (agrees : ∀ state i item, items[i]? = some item → byIndex state i = byItem state item) (state : σ) :
    (range items.length).foldlM byIndex state = items.foldlM byItem state := by
  induction items using reverseRecOn with
  | nil => rfl
  | append_singleton items item ih =>
    have earlier := ih fun state i earlierItem found =>
      agrees state i earlierItem (by rw [getElem?_append_left (by grind), found])
    have last : ∀ state, byIndex state items.length = byItem state item := fun state =>
      agrees state items.length item (by simp)
    simp [range_succ, foldlM_append, earlier, last]

theorem mapM_total {β : Type} {items : List α} {body : α → Except ε β} {value : α → β}
    (each : ∀ item ∈ items, body item = .ok (value item)) : items.mapM body = .ok (items.map value) := by
  induction items with
  | nil => rfl
  | cons item rest ih =>
    have later := ih fun other member => each other (mem_cons_of_mem _ member)
    rw [mapM_cons, each item mem_cons_self, later]
    rfl

theorem mapM_range {β : Type} (items : List α) (byIndex : Nat → Except ε β) (byItem : α → β)
    (agrees : ∀ i item, items[i]? = some item → byIndex i = .ok (byItem item)) :
    (range items.length).mapM byIndex = .ok (items.map byItem) := by
  induction items using reverseRecOn with
  | nil => rfl
  | append_singleton items item ih =>
    have earlier := ih fun i earlierItem found =>
      agrees i earlierItem (by rw [getElem?_append_left (by grind), found])
    have last := agrees items.length item (by simp)
    simp [range_succ, earlier, last, bind, Except.bind, pure, Except.pure]

end Revert
