import Mathlib.Algebra.Field.ZMod
import Mathlib.Data.Nat.Size
import Mathlib.Tactic.Ring
import Nightfall.Library.Literals
import Nightfall.Library.R1cs

/-! Gadgets over rank-one constraints: bits and booleans, the conditional swap, the unpacking of a
number. -/

namespace R1cs

open List

section

variable {F : Type} [Field F]

def bit (value : Bool) : F := if value then 1 else 0

@[simp] theorem bit_true : (bit true : F) = 1 := rfl

@[simp] theorem bit_false : (bit false : F) = 0 := rfl

theorem bit_not (value : Bool) : 1 - (bit value : F) = bit !value := by
  cases value <;> simp

theorem bit_mul (first second : Bool) : (bit first : F) * bit second = bit (first && second) := by
  cases first <;> cases second <;> simp

def allocBit (value : Bool) : Synthesis F F := do
  let allocated ← alloc (bit value)
  enforce (1 - allocated) allocated 0
  pure allocated

theorem reaches_allocBit (value : Bool) (outcome : F) :
    Reaches (allocBit value) outcome ↔ ∃ assigned, outcome = bit assigned := by
  simp only [allocBit, reaches_bind, reaches_alloc, true_and, reaches_enforce, reaches_pure,
    exists_const, mul_eq_zero]
  constructor
  · rintro ⟨_, one | zero, rfl⟩
    · exact ⟨true, (sub_eq_zero.mp one).symm⟩
    · exact ⟨false, zero⟩
  · rintro ⟨assigned, rfl⟩
    refine ⟨bit assigned, ?_, rfl⟩
    cases assigned <;> simp

@[simp] theorem honest_allocBit (value : Bool) : honest (allocBit value : Synthesis F F) = bit value :=
  rfl

@[simp] theorem holds_allocBit (value : Bool) : Holds (allocBit value : Synthesis F F) := by
  simp only [allocBit, holds_bind, holds_alloc, holds_enforce, holds_pure, honest_alloc,
    and_true, bit_not, bit_mul, Bool.not_and_self, bit_false]

inductive Boolean (F : Type) where
  | is (bit : F)
  | isNot (bit : F)
  | constant (value : Bool)

namespace Boolean

def lc : Boolean F → F
  | is bit => bit
  | isNot bit => 1 - bit
  | constant value => R1cs.bit value

def not : Boolean F → Boolean F
  | is bit => isNot bit
  | isNot bit => is bit
  | constant value => constant !value

theorem lc_not (boolean : Boolean F) : boolean.not.lc = 1 - boolean.lc := by
  cases boolean with
  | is bit => rfl
  | isNot bit => exact (sub_sub_cancel 1 bit).symm
  | constant value => exact (bit_not value).symm

def enforceEqual (first second : Boolean F) : Synthesis F Unit :=
  enforce 0 0 (first.lc - second.lc)

variable [DecidableEq F]

def value (boolean : Boolean F) : Bool := boolean.lc = 1

theorem value_of_lc {boolean : Boolean F} {assigned : Bool} (isBit : boolean.lc = R1cs.bit assigned) :
    boolean.value = assigned := by
  cases assigned <;> simp [value, isBit]

def and : Boolean F → Boolean F → Synthesis F (Boolean F)
  | constant false, _ => pure (constant false)
  | _, constant false => pure (constant false)
  | constant true, second => pure second
  | first, constant true => pure first
  | first, second => do
      let allocated ← alloc (R1cs.bit (first.value && second.value))
      enforce first.lc second.lc allocated
      pure (is allocated)

variable {first second : Boolean F} {left right : Bool} (isLeft : first.lc = R1cs.bit left)
  (isRight : second.lc = R1cs.bit right)
include isLeft isRight

theorem lc_honest_and : (honest (first.and second)).lc = R1cs.bit (left && right) := by
  rw [← bit_mul, ← isLeft, ← isRight]
  unfold and
  split
  · simp [lc]
  · simp [lc]
  · simp [lc]
  · simp [lc]
  · rw [isLeft, isRight, bit_mul, value_of_lc isLeft, value_of_lc isRight]
    rfl

theorem forces_and : Forces (first.and second) (honest (first.and second)) True True := by
  unfold and
  split
  · exact forces_pure _
  · exact forces_pure _
  · exact forces_pure _
  · exact forces_pure _
  · have product : first.lc * second.lc = R1cs.bit (first.value && second.value) := by
      rw [isLeft, isRight, bit_mul, value_of_lc isLeft, value_of_lc isRight]
    refine Forces.mono (forces_alloc is _ (fun x => .bind (forces_enforce _ _ x) (forces_pure _)) ?_) ?_ ?_
    · exact fun x met => met.1.symm.trans product
    · exact fun _ => trivial
    · exact fun _ => ⟨rfl, product, trivial⟩

end Boolean

variable [DecidableEq F]

def conditionallyReverse (first second : F) (condition : Boolean F) : Synthesis F (F × F) := do
  let left ← alloc (if condition.value then second else first)
  enforce (first - second) condition.lc (first - left)
  let right ← alloc (if condition.value then first else second)
  enforce (second - first) condition.lc (second - right)
  pure (left, right)

theorem forces_conditionallyReverse (first second : F) {condition : Boolean F} {swapped : Bool}
    (isSwapped : condition.lc = bit swapped) : Forces (conditionallyReverse first second condition)
      (if swapped then (second, first) else (first, second)) True True where
  sound := by
    simp only [conditionallyReverse, reaches_bind, reaches_alloc, true_and, reaches_enforce,
      reaches_pure, exists_const, isSwapped, and_true]
    rintro _ ⟨left, isLeft, right, isRight, rfl⟩
    cases swapped
    · rw [bit_false, mul_zero, eq_comm, sub_eq_zero] at isLeft isRight
      rw [isLeft, isRight]
      rfl
    · rw [bit_true, mul_one, sub_right_inj] at isLeft isRight
      rw [isLeft, isRight]
      rfl
  complete _ := by
    simp only [conditionallyReverse, holds_bind, holds_alloc, holds_enforce, holds_pure, honest_bind,
      honest_alloc, honest_pure, Boolean.value_of_lc isSwapped, isSwapped]
    cases swapped <;> simp

/-- A zero test through the inverse: `x * inv = 1 - z` and `x * z = 0`. -/
def isZero (x : F) : Synthesis F (Boolean F) := do
  let zero ← allocBit (x = 0)
  let inverse ← alloc x⁻¹
  enforce x inverse (1 - zero)
  enforce x zero 0
  pure (.is zero)

theorem forces_isZero (x : F) : Forces (isZero x) (.is (bit (decide (x = 0)))) True True where
  sound := by
    simp only [isZero, reaches_bind, reaches_alloc, true_and, reaches_enforce, reaches_pure,
      exists_const, reaches_allocBit, and_true]
    rintro _ ⟨_, ⟨assigned, rfl⟩, inverse, product, zero, rfl⟩
    by_cases isZero : x = 0
    · rw [isZero, zero_mul, eq_comm, sub_eq_zero] at product
      rw [← product, decide_eq_true isZero, bit_true]
    · rw [(mul_eq_zero.mp zero).resolve_left isZero, decide_eq_false isZero, bit_false]
  complete _ := by
    refine ⟨?_, rfl⟩
    simp only [isZero, holds_bind, holds_allocBit, holds_alloc, holds_enforce, holds_pure,
      honest_allocBit, honest_alloc, true_and, and_true]
    by_cases isZero : x = 0 <;> simp [isZero]

end

section

def ofDigits : List Bool → ℕ
  | [] => 0
  | digit :: rest => digit.toNat + 2 * ofDigits rest

theorem ofDigits_drop (digits : List Bool) (width : ℕ) :
    (∀ digit ∈ digits.drop width, digit = false) ↔ ofDigits digits < 2 ^ width := by
  induction digits generalizing width with
  | nil => simp [ofDigits]
  | cons digit rest ih =>
    cases width with
    | zero =>
      have zero := ih 0
      rw [drop_zero, Nat.pow_zero, Nat.lt_one_iff] at zero
      rw [drop_zero, forall_mem_cons, zero, ofDigits, Nat.pow_zero, Nat.lt_one_iff]
      cases digit <;> simp
    | succ width =>
      have digitBound := digit.toNat_le
      rw [drop_succ_cons, ih, ofDigits, Nat.pow_succ]
      omega

def digits (width n : ℕ) : List Bool := (range width).map n.testBit

theorem digits_length (width n : ℕ) : (digits width n).length = width := by
  rw [digits, length_map, length_range]

theorem digits_succ (width n : ℕ) : digits (width + 1) n = n.testBit 0 :: digits width (n / 2) := by
  rw [digits, range_succ_eq_map, map_cons, map_map, digits]
  congr 1
  apply map_congr_left
  intro i _
  rw [Function.comp_apply, Nat.testBit_succ]

theorem ofDigits_digits {width n : ℕ} (fits : n < 2 ^ width) : ofDigits (digits width n) = n := by
  induction width generalizing n with
  | zero =>
    rw [Nat.pow_zero, Nat.lt_one_iff] at fits
    rw [fits]
    rfl
  | succ width ih =>
    rw [digits_succ, ofDigits, ih (by omega), Nat.testBit_zero]
    have parity := Nat.mod_two_eq_zero_or_one n
    rcases parity with even | odd
    · simp only [even]
      simp
      omega
    · simp only [odd]
      simp
      omega

variable {F : Type} [Field F]

def weighted : F → List F → F
  | _, [] => 0
  | weight, bit :: rest => weight * bit + weighted (weight + weight) rest

theorem weighted_bits (weight : F) (digits : List Bool) :
    weighted weight (digits.map bit) = weight * (ofDigits digits : F) := by
  induction digits generalizing weight with
  | nil => simp [weighted, ofDigits]
  | cons digit rest ih =>
    rw [map_cons, weighted, ih, ofDigits]
    have digitCast : (bit digit : F) = (digit.toNat : F) := by
      cases digit <;> simp
    rw [digitCast, Nat.cast_add, Nat.cast_mul, Nat.cast_two]
    ring

end

section

variable {p : ℕ} [Fact p.Prime] (x : ZMod p)

/-- Bits of the width of the modulus that add up to the number. They need not be the digits
of the number itself, only of one that is congruent to it. -/
def toBitsLe : Synthesis (ZMod p) (List (Boolean (ZMod p))) := do
  let bits ← (digits p.size x.val).mapM allocBit
  enforce 0 0 (weighted 1 bits - x)
  pure (bits.map .is)

theorem reaches_mapM_image {F α β γ : Type} [Field F] {alloc : α → Synthesis F β} {image : γ → β}
    (each : ∀ item outcome, Reaches (alloc item) outcome ↔ ∃ assigned, outcome = image assigned) (items : List α)
    (outcome : List β) : Reaches (items.mapM alloc) outcome ↔
      ∃ assigned : List γ, assigned.length = items.length ∧ outcome = assigned.map image := by
  rw [reaches_mapM]
  simp only [each]
  constructor
  · intro related
    induction related with
    | nil => exact ⟨[], rfl, rfl⟩
    | cons isImage _ ih =>
      obtain ⟨assigned, rfl⟩ := isImage
      obtain ⟨rest, length, rfl⟩ := ih
      exact ⟨assigned :: rest, by simp [length], rfl⟩
  · rintro ⟨assigned, length, rfl⟩
    rw [forall₂_iff_get]
    refine ⟨by simp [length], ?_⟩
    intro i _ _
    exact ⟨assigned.get ⟨i, by omega⟩, by simp⟩

theorem reaches_mapM_allocBit {F : Type} [Field F] (values : List Bool) (outcome : List F) :
    Reaches (values.mapM allocBit) outcome ↔
      ∃ assigned : List Bool, assigned.length = values.length ∧ outcome = assigned.map bit :=
  reaches_mapM_image reaches_allocBit values outcome

theorem reaches_toBitsLe (outcome : List (Boolean (ZMod p))) : Reaches (toBitsLe x) outcome ↔
      ∃ assigned : List Bool, assigned.length = p.size ∧ (ofDigits assigned : ZMod p) = x ∧
        outcome = assigned.map fun digit => .is (bit digit) := by
  simp only [toBitsLe, reaches_bind, reaches_mapM_allocBit, digits_length, reaches_enforce,
    reaches_pure, exists_const]
  constructor
  · rintro ⟨_, ⟨assigned, length, rfl⟩, sum, rfl⟩
    rw [weighted_bits, one_mul, zero_mul, eq_comm, sub_eq_zero] at sum
    exact ⟨assigned, length, sum, by rw [map_map]; rfl⟩
  · rintro ⟨assigned, length, sum, rfl⟩
    refine ⟨_, ⟨assigned, length, rfl⟩, ?_, by rw [map_map]; rfl⟩
    rw [weighted_bits, one_mul, zero_mul, sum, sub_self]

theorem val_lt_size : x.val < 2 ^ p.size :=
  (ZMod.val_lt x).trans (Nat.lt_size_self p)

theorem holds_toBitsLe : Holds (toBitsLe x) := by
  simp only [toBitsLe, holds_bind, holds_mapM, holds_allocBit, implies_true, true_and,
    holds_enforce, holds_pure, and_true, honest_mapM, honest_allocBit]
  rw [weighted_bits, ofDigits_digits (val_lt_size x), ZMod.natCast_zmod_val, one_mul, sub_self, zero_mul]

theorem honest_toBitsLe : honest (toBitsLe x) = (digits p.size x.val).map fun digit => .is (bit digit) := by
  simp only [toBitsLe, honest_bind, honest_mapM, honest_allocBit, honest_pure, map_map]
  rfl

def enforceWidth (width : ℕ) : Synthesis (ZMod p) Unit := do
  let bits ← toBitsLe x
  forM (bits.drop width) fun bit => bit.enforceEqual (.constant false)

theorem enforceEqual_bits (digits : List Bool) (width : ℕ) :
    (∀ boolean ∈ (digits.map fun digit => Boolean.is (bit digit : ZMod p)).drop width,
        (0 : ZMod p) * 0 = boolean.lc - (Boolean.constant false : Boolean (ZMod p)).lc) ↔
      ofDigits digits < 2 ^ width := by
  rw [← ofDigits_drop, ← map_drop, forall_mem_map]
  apply forall₂_congr
  intro digit _
  cases digit <;> simp [Boolean.lc]

theorem forces_enforceWidth (width : ℕ) : Forces (enforceWidth x width) () (x.val < 2 ^ width) (x.val < 2 ^ width) where
  sound reached := by
    obtain ⟨_, isBits, zeros⟩ := (reaches_bind _ _ _).mp reached
    obtain ⟨assigned, _, rfl, rfl⟩ := (reaches_toBitsLe x _).mp isBits
    have narrow := (enforceEqual_bits assigned width).mp ((forces_forM (fun _ => forces_enforce _ _ _) _).sound zeros).2
    rw [ZMod.val_natCast]
    exact ⟨rfl, (Nat.mod_le _ _).trans_lt narrow⟩
  complete fits := by
    refine ⟨?_, rfl⟩
    rw [enforceWidth, holds_bind, honest_toBitsLe]
    rw [← ofDigits_digits (val_lt_size x)] at fits
    exact ⟨holds_toBitsLe x, ((forces_forM (fun _ => forces_enforce _ _ _) _).complete
      ((enforceEqual_bits _ width).mpr fits)).1⟩

end

end R1cs
