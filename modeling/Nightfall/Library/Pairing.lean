import Mathlib.Algebra.BigOperators.Group.List.Basic
import Mathlib.Algebra.Group.Hom.Instances
import Mathlib.Data.Int.Basic

/-! Signatures from a bilinear pairing, with keys on the left and signatures on the
right, and the check of a product of pairings over encoded points. -/

namespace Pairing

open List

structure Encoding (G : Type) (size : ℕ) where
  encode : G → List UInt8
  decode : List UInt8 → Option G
  encode_length : ∀ point, (encode point).length = size
  decode_encode : ∀ point, decode (encode point) = some point
  encode_decode : ∀ bytes point, decode bytes = some point → encode point = bytes

theorem Encoding.decode_eq_some {G : Type} {size : ℕ} (encoding : Encoding G size) (bytes : List UInt8) (point : G) :
    encoding.decode bytes = some point ↔ bytes = encoding.encode point := by
  constructor
  · exact fun decoded => (encoding.encode_decode bytes point decoded).symm
  · rintro rfl
    exact encoding.decode_encode point

theorem Encoding.encode_injective {G : Type} {size : ℕ} (encoding : Encoding G size) :
    Function.Injective encoding.encode := by
  intro left right same
  have decoded := encoding.decode_encode left
  rw [same, encoding.decode_encode right] at decoded
  exact (Option.some.inj decoded).symm

section

variable {G1 G2 : Type} {size1 size2 : ℕ} (g1 : Encoding G1 size1) (g2 : Encoding G2 size2)

def encodePairs (pairs : List (G1 × G2)) : List UInt8 :=
  pairs.flatMap fun pair => g1.encode pair.1 ++ g2.encode pair.2

theorem encodePairs_length (pairs : List (G1 × G2)) :
    (encodePairs g1 g2 pairs).length = pairs.length * (size1 + size2) := by
  induction pairs with
  | nil => simp [encodePairs]
  | cons pair rest ih =>
    rw [encodePairs, flatMap_cons, length_append, length_append,
      g1.encode_length, g2.encode_length, length_cons, Nat.succ_mul, ← ih, encodePairs]
    omega

def decodePairs : ℕ → List UInt8 → Option (List (G1 × G2))
  | 0, bytes => if bytes = [] then some [] else none
  | count + 1, bytes => do
      let left ← g1.decode (bytes.take size1)
      let right ← g2.decode ((bytes.drop size1).take size2)
      let rest ← decodePairs count (bytes.drop (size1 + size2))
      return (left, right) :: rest

theorem decodePairs_eq_some (count : ℕ) : ∀ bytes pairs, decodePairs g1 g2 count bytes = some pairs ↔
      pairs.length = count ∧ bytes = encodePairs g1 g2 pairs := by
  induction count with
  | zero =>
    intro bytes pairs
    simp only [decodePairs, Option.ite_none_right_eq_some, Option.some.injEq, length_eq_zero_iff]
    constructor
    · rintro ⟨rfl, rfl⟩
      exact ⟨rfl, rfl⟩
    · rintro ⟨rfl, rfl⟩
      exact ⟨rfl, rfl⟩
  | succ count ih =>
    intro bytes pairs
    simp only [decodePairs, Option.bind_eq_bind, Option.bind_eq_some_iff, Option.pure_def,
      Option.some.injEq, Encoding.decode_eq_some, ih]
    constructor
    · rintro ⟨left, isLeft, right, isRight, rest, ⟨counted, isRest⟩, rfl⟩
      refine ⟨by rw [length_cons, counted], ?_⟩
      rw [encodePairs, flatMap_cons, ← encodePairs, ← isLeft, ← isRight, ← isRest,
        append_assoc, ← drop_drop, take_append_drop, take_append_drop]
    · rintro ⟨counted, rfl⟩
      cases pairs with
      | nil => simp at counted
      | cons pair rest =>
        have whole : encodePairs g1 g2 (pair :: rest) =
            g1.encode pair.1 ++ (g2.encode pair.2 ++ encodePairs g1 g2 rest) := by
          rw [encodePairs, flatMap_cons, append_assoc, encodePairs]
        refine ⟨pair.1, ?_, pair.2, ?_, rest, ⟨by simpa using counted, ?_⟩, rfl⟩
        · rw [whole, take_left' (g1.encode_length _)]
        · rw [whole, drop_left' (g1.encode_length _), take_left' (g2.encode_length _)]
        · rw [whole, ← drop_drop, drop_left' (g1.encode_length _), drop_left' (g2.encode_length _)]

end

variable {G1 G2 GT : Type} [AddCommGroup G1] [AddCommGroup G2] [AddCommGroup GT]

structure Bilinear (G1 G2 GT : Type) [AddCommGroup G1] [AddCommGroup G2]
    [AddCommGroup GT] where
  pair : G1 →+ G2 →+ GT
  generator : G1
  generates : ∀ key : G1, ∃ secret : ℤ, key = secret • generator
  nondegenerate : ∀ signature : G2, pair generator signature = 0 → signature = 0

namespace Bilinear

variable (scheme : Bilinear G1 G2 GT) (key : G1) (message signature : G2)

def Signs : Prop :=
  scheme.pair scheme.generator signature = scheme.pair key message

theorem exists_signs (message : G2) : ∃ signature, scheme.Signs key message signature := by
  obtain ⟨secret, isKey⟩ := scheme.generates key
  refine ⟨secret • message, ?_⟩
  rw [Signs, isKey, map_zsmul, map_zsmul, AddMonoidHom.zsmul_apply]

noncomputable def sign (message : G2) : G2 := (scheme.exists_signs key message).choose

theorem signs_sign (message : G2) : scheme.Signs key message (scheme.sign key message) :=
  (scheme.exists_signs key message).choose_spec

theorem signs_iff : scheme.Signs key message signature ↔ signature = scheme.sign key message := by
  constructor
  · intro valid
    apply sub_eq_zero.mp
    apply scheme.nondegenerate
    rw [map_sub, valid, scheme.signs_sign key message, sub_self]
  · rintro rfl
    exact scheme.signs_sign key message

theorem sign_sum (keys : List G1) (message : G2) :
    scheme.sign keys.sum message = (keys.map fun key => scheme.sign key message).sum := by
  symm
  rw [← signs_iff]
  induction keys with
  | nil => simp [Signs]
  | cons key rest ih =>
    rw [Signs, map_cons, sum_cons, sum_cons, map_add, map_add,
      AddMonoidHom.add_apply, scheme.signs_sign key message, ih]

theorem check_iff : scheme.pair (-scheme.generator) signature + scheme.pair key message = 0 ↔
      signature = scheme.sign key message := by
  rw [← signs_iff, Signs, map_neg, AddMonoidHom.neg_apply, neg_add_eq_zero]

end Bilinear

section

variable {size1 size2 : ℕ} (g1 : Encoding G1 size1) (g2 : Encoding G2 size2) [DecidableEq GT]
  (scheme : Bilinear G1 G2 GT)

def pairSum (pairs : List (G1 × G2)) : GT :=
  (pairs.map fun pair => scheme.pair pair.1 pair.2).sum

def productCheck (bytes : List UInt8) : Option Bool :=
  if bytes ≠ [] ∧ bytes.length % (size1 + size2) = 0 then
    (decodePairs g1 g2 (bytes.length / (size1 + size2)) bytes).map fun pairs =>
      decide (pairSum scheme pairs = 0)
  else none

theorem productCheck_eq_some (positive : 0 < size1 + size2) (bytes : List UInt8) (verdict : Bool) :
    productCheck g1 g2 scheme bytes = some verdict ↔ ∃ pairs ≠ [], bytes = encodePairs g1 g2 pairs ∧
        verdict = decide (pairSum scheme pairs = 0) := by
  simp only [productCheck, Option.ite_none_right_eq_some, Option.map_eq_some_iff, decodePairs_eq_some]
  constructor
  · rintro ⟨⟨nonempty, _⟩, pairs, ⟨_, isBytes⟩, isVerdict⟩
    refine ⟨pairs, ?_, isBytes, isVerdict.symm⟩
    rintro rfl
    exact nonempty isBytes
  · rintro ⟨pairs, nonempty, rfl, rfl⟩
    have size := encodePairs_length g1 g2 pairs
    refine ⟨⟨?_, ?_⟩, pairs, ⟨?_, rfl⟩, rfl⟩
    · apply ne_nil_of_length_pos
      rw [size]
      exact Nat.mul_pos (length_pos_of_ne_nil nonempty) positive
    · rw [size, Nat.mul_mod_left]
    · rw [size, Nat.mul_div_cancel _ positive]

theorem productCheck_last (positive : 0 < size1 + size2) {front key message : List UInt8}
    (keySize : key.length = size1) (messageSize : message.length = size2) {verdict : Bool}
    (checked : productCheck g1 g2 scheme (front ++ (key ++ message)) = some verdict) :
    ∃ point, key = g1.encode point := by
  obtain ⟨pairs, nonempty, same, _⟩ := (productCheck_eq_some g1 g2 scheme positive _ _).mp checked
  obtain ⟨rest, last, rfl⟩ := (eq_nil_or_concat pairs).resolve_left nonempty
  rw [concat_eq_append, encodePairs, flatMap_append, flatMap_singleton] at same
  have ends := append_inj_right' same (by
    rw [length_append, length_append, keySize, messageSize, g1.encode_length, g2.encode_length])
  exact ⟨last.1, append_inj_left ends (by rw [keySize, g1.encode_length])⟩

theorem productCheck_signature (positive : 0 < size1 + size2) (key : G1) (message : G2)
    {signature : List UInt8} (signatureSize : signature.length = size2) :
    productCheck g1 g2 scheme (g1.encode (-scheme.generator) ++ signature ++ g1.encode key ++
        g2.encode message) = some true ↔ signature = g2.encode (scheme.sign key message) := by
  rw [productCheck_eq_some g1 g2 scheme positive]
  constructor
  · rintro ⟨pairs, _, same, accepted⟩
    have size := congrArg List.length same
    simp only [length_append, encodePairs_length, g1.encode_length, g2.encode_length, signatureSize] at size
    have two : pairs.length = 2 := by
      apply Nat.eq_of_mul_eq_mul_right positive
      omega
    obtain ⟨first, second, rfl⟩ := length_eq_two.mp two
    simp only [encodePairs, flatMap_cons, flatMap_nil, append_nil, append_assoc] at same
    obtain ⟨firstKey, same⟩ := append_inj same (by rw [g1.encode_length, g1.encode_length])
    obtain ⟨isSignature, same⟩ := append_inj same (by rw [g2.encode_length, signatureSize])
    obtain ⟨secondKey, isMessage⟩ := append_inj same (by rw [g1.encode_length, g1.encode_length])
    have balanced := decide_eq_true_eq.mp accepted.symm
    simp only [pairSum, map_cons, map_nil, sum_cons, sum_nil, add_zero,
      ← g1.encode_injective firstKey, ← g1.encode_injective secondKey, ← g2.encode_injective isMessage] at balanced
    rw [isSignature, (scheme.check_iff key message first.2).mp balanced]
  · rintro rfl
    refine ⟨[(-scheme.generator, scheme.sign key message), (key, message)], by simp, ?_, ?_⟩
    · simp [encodePairs]
    · symm
      simpa [pairSum] using (scheme.check_iff key message _).mpr rfl

end

end Pairing
