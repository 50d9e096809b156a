import Mathlib.NumberTheory.LucasPrimality

/-! Lucas's primality test with the factorisation of `p - 1` given as a list of prime powers. -/

namespace Primality

/-- The power of a number with an exponent of so many bits, by squaring. -/
def powMod (p base : ℕ) : ℕ → ℕ → ℕ
  | 0, _ => 1
  | bits + 1, exponent => powMod p base bits (exponent / 2) ^ 2 * base ^ (exponent % 2) % p

theorem powMod_cast (p base bits exponent : ℕ) (small : exponent < 2 ^ bits) :
    (powMod p base bits exponent : ZMod p) = (base : ZMod p) ^ exponent := by
  induction bits generalizing exponent with
  | zero =>
    obtain rfl : exponent = 0 := by omega
    simp [powMod]
  | succ bits ih =>
    have half : exponent / 2 < 2 ^ bits := by omega
    rw [powMod, ZMod.natCast_mod, Nat.cast_mul, Nat.cast_pow, Nat.cast_pow, ih _ half, ← pow_mul, ← pow_add,
      Nat.div_add_mod']

def certified (p root bits : ℕ) (factors : List (ℕ × ℕ)) : Bool :=
  2 ≤ p ∧ p ≤ 2 ^ bits ∧ (factors.map fun factor => factor.1 ^ factor.2).prod = p - 1 ∧
    powMod p root bits (p - 1) % p = 1 ∧
    ∀ factor ∈ factors, powMod p root bits ((p - 1) / factor.1) % p ≠ 1

theorem prime_of_certified {p root bits : ℕ} {factors : List (ℕ × ℕ)}
    (primes : factors.Forall fun factor => factor.1.Prime)
    (checked : certified p root bits factors = true) : p.Prime := by
  obtain ⟨large, fits, product, full, proper⟩ := of_decide_eq_true checked
  have one : ∀ exponent ≤ p - 1, (root : ZMod p) ^ exponent = 1 ↔ powMod p root bits exponent % p = 1 := by
    intro exponent below
    rw [← powMod_cast p root bits exponent (by omega), ← Nat.cast_one, ZMod.natCast_eq_natCast_iff',
      Nat.mod_eq_of_lt large]
  refine lucas_primality p root ((one _ le_rfl).mpr full) ?_
  intro q prime divides
  rw [← product] at divides
  obtain ⟨power, member, divisor⟩ := (Prime.dvd_prod_iff prime.prime).mp divides
  obtain ⟨factor, isFactor, rfl⟩ := List.mem_map.mp member
  rw [(Nat.prime_dvd_prime_iff_eq prime (List.forall_iff_forall_mem.mp primes factor isFactor)).mp
    (prime.dvd_of_dvd_pow divisor)]
  exact fun same => proper factor isFactor ((one _ (Nat.div_le_self _ _)).mp same)

end Primality
