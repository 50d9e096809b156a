import Mathlib.Tactic.NormNum.Prime
import Nightfall.Library.Literals
import Nightfall.Library.Primality

/-! The scalar field of BN254, in which both client circuits compute. -/

namespace Nightfall

open Primality

def fr254Modulus : ℕ :=
  21888242871839275222246405745257275088548364400416034343698204186575808495617

abbrev Fr254 := ZMod fr254Modulus

private theorem factor405928799_prime : Nat.Prime 405928799 :=
  @prime_of_certified _ 22 29 [(2, 1), (11, 1), (3691, 1), (4999, 1)]
    ⟨by norm_num, by norm_num, by norm_num, by norm_num⟩ (by decide +kernel)

private theorem factor12048837557_prime : Nat.Prime 12048837557 :=
  @prime_of_certified _ 2 34 [(2, 2), (7, 2), (661, 1), (93001, 1)]
    ⟨by norm_num, by norm_num, by norm_num, by norm_num⟩ (by decide +kernel)

private theorem factor5156902474397_prime : Nat.Prime 5156902474397 :=
  @prime_of_certified _ 2 43 [(2, 2), (107, 1), (12048837557, 1)]
    ⟨by norm_num, by norm_num, factor12048837557_prime⟩ (by decide +kernel)

private theorem factor1670836401704629_prime : Nat.Prime 1670836401704629 :=
  @prime_of_certified _ 2 51 [(2, 2), (3, 4), (5156902474397, 1)]
    ⟨by norm_num, by norm_num, factor5156902474397_prime⟩ (by decide +kernel)

private theorem factor639533339_prime : Nat.Prime 639533339 :=
  @prime_of_certified _ 2 30 [(2, 1), (229, 1), (853, 1), (1637, 1)]
    ⟨by norm_num, by norm_num, by norm_num, by norm_num⟩ (by decide +kernel)

private theorem factor65865678001877903_prime : Nat.Prime 65865678001877903 :=
  @prime_of_certified _ 5 56 [(2, 1), (83, 1), (379, 1), (1637, 1), (639533339, 1)]
    ⟨by norm_num, by norm_num, by norm_num, by norm_num, factor639533339_prime⟩ (by decide +kernel)

private theorem factor13818364434197438864469338081_prime : Nat.Prime 13818364434197438864469338081 :=
  @prime_of_certified _ 3 94 [(2, 5), (5, 1), (823, 1), (1593227, 1), (65865678001877903, 1)]
    ⟨by norm_num, by norm_num, by norm_num, by norm_num, factor65865678001877903_prime⟩ (by decide +kernel)

theorem fr254Modulus_prime : fr254Modulus.Prime :=
  @prime_of_certified _ 5 254 [(2, 28), (3, 2), (13, 1), (29, 1), (983, 1), (11003, 1), (237073, 1), (405928799, 1),
    (1670836401704629, 1), (13818364434197438864469338081, 1)]
    ⟨by norm_num, by norm_num, by norm_num, by norm_num, by norm_num, by norm_num, by norm_num, factor405928799_prime,
      factor1670836401704629_prime, factor13818364434197438864469338081_prime⟩
    (by decide +kernel)

instance : Fact fr254Modulus.Prime := ⟨fr254Modulus_prime⟩

instance lawfulBEqFr254 : LawfulBEq Fr254 := inferInstance

end Nightfall
