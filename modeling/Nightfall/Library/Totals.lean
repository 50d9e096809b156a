import Mathlib.Algebra.GroupWithZero.Nat
import Mathlib.Algebra.Order.BigOperators.Group.Finset
import Mathlib.Data.Fintype.BigOperators

/-! The total of a mapping: what its entries weigh together, over all keys. -/

namespace Totals

open Finset

theorem finite_bitVec (width : ℕ) : Finite (BitVec width) :=
  Finite.of_injective BitVec.toFin fun _ _ => BitVec.eq_of_toFin_eq

noncomputable instance bitVecFintype (width : ℕ) : Fintype (BitVec width) :=
  have := finite_bitVec width
  Fintype.ofFinite (BitVec width)

variable {K V : Type} [Fintype K]

def total (weight : V → ℕ) (mapping : K → V) : ℕ := ∑ key, weight (mapping key)

variable (weight : V → ℕ)
include weight

theorem total_eq_zero (mapping : K → V) (light : ∀ key, weight (mapping key) = 0) : total weight mapping = 0 :=
  sum_eq_zero fun key _ => light key

theorem le_total (mapping : K → V) (key : K) : weight (mapping key) ≤ total weight mapping :=
  single_le_sum (f := fun key => weight (mapping key)) (fun _ _ => Nat.zero_le _) (mem_univ key)

theorem total_congr {W : Type} (weight' : W → ℕ) (mapping : K → V) (mapping' : K → W)
    (same : ∀ key, weight (mapping key) = weight' (mapping' key)) : total weight mapping = total weight' mapping' :=
  sum_congr rfl fun key _ => same key

theorem total_update [DecidableEq K] (mapping : K → V) (key : K) (value : V) :
    total weight (Function.update mapping key value) + weight (mapping key) =
      total weight mapping + weight value := by
  have before := add_sum_erase univ (fun key => weight (mapping key)) (mem_univ key)
  have after := add_sum_erase univ (fun other => weight (Function.update mapping key value other)) (mem_univ key)
  have others : ∑ other ∈ univ.erase key, weight (Function.update mapping key value other) =
      ∑ other ∈ univ.erase key, weight (mapping other) :=
    sum_congr rfl fun other member => by
      rw [Function.update_of_ne (ne_of_mem_erase member)]
  simp only [Function.update_self, others] at after
  simp only [total]
  omega

theorem total_eq_sum [DecidableEq K] (mapping : K → V) (keys : List K) (once : keys.Nodup)
    (light : ∀ key, key ∉ keys → weight (mapping key) = 0) :
    total weight mapping = (keys.map fun key => weight (mapping key)).sum := by
  rw [← List.sum_toFinset _ once]
  symm
  apply sum_subset (subset_univ _)
  intro key _ outside
  exact light key fun member => outside (List.mem_toFinset.mpr member)

end Totals
