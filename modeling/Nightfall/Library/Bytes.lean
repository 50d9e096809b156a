import Mathlib.Data.List.Induction
import Mathlib.Tactic.Ring

/-! Fixed-width byte strings of natural numbers. -/

namespace Bytes

open Nat List

def beBytes : Nat → Nat → List UInt8
  | 0, _ => []
  | width + 1, value => UInt8.ofNat (value / 256 ^ width) :: beBytes width value

def beNat (bytes : List UInt8) : Nat :=
  bytes.foldl (fun value byte => value * 256 + byte.toNat) 0

theorem beNat_concat (front : List UInt8) (last : UInt8) :
    beNat (front ++ [last]) = beNat front * 256 + last.toNat := by
  simp [beNat]

@[simp] theorem beBytes_length (width value : Nat) : (beBytes width value).length = width := by
  induction width with
  | zero => rfl
  | succ width ih => simp [beBytes, ih]

theorem beNat_append (front back : List UInt8) :
    beNat (front ++ back) = beNat front * 256 ^ back.length + beNat back := by
  induction back using reverseRecOn with
  | nil => simp [beNat]
  | append_singleton back last ih =>
    rw [← append_assoc, beNat_concat, beNat_concat, ih, length_append, length_singleton, pow_succ]
    ring

theorem beNat_lt (bytes : List UInt8) : beNat bytes < 256 ^ bytes.length := by
  induction bytes using reverseRecOn with
  | nil => simp [beNat]
  | append_singleton front last ih =>
    have small := last.toNat_lt
    rw [beNat_concat, length_append, length_singleton, pow_succ]
    omega

theorem beNat_beBytes (width value : Nat) : beNat (beBytes width value) = value % 256 ^ width := by
  induction width with
  | zero => simp [beBytes, beNat, mod_one]
  | succ width ih =>
    have first : beNat [UInt8.ofNat (value / 256 ^ width)] = value / 256 ^ width % 256 := by
      simp [beNat]
    rw [beBytes, ← singleton_append, beNat_append, ih, first, beBytes_length, pow_succ, mod_mul, add_comm, mul_comm]

theorem beNat_injective {left right : List UInt8} (sameLength : left.length = right.length)
    (same : beNat left = beNat right) : left = right := by
  induction left using reverseRecOn generalizing right with
  | nil => exact (length_eq_zero_iff.mp sameLength.symm).symm
  | append_singleton front last ih =>
    obtain rfl | ⟨other, otherLast, rfl⟩ := right.eq_nil_or_concat
    · simp at sameLength
    · rw [concat_eq_append] at sameLength same ⊢
      rw [beNat_concat, beNat_concat] at same
      have small := last.toNat_lt
      have otherSmall := otherLast.toNat_lt
      have lasts : last = otherLast := UInt8.toNat_inj.mp (by omega)
      have fronts : front = other := ih (by simpa using sameLength) (by omega)
      rw [fronts, lasts]

theorem beBytes_beNat (bytes : List UInt8) : beBytes bytes.length (beNat bytes) = bytes := by
  refine beNat_injective (beBytes_length _ _) ?_
  rw [beNat_beBytes, mod_eq_of_lt (beNat_lt bytes)]

theorem beBytes_injective (width : Nat) {left right : Nat} (leftFits : left < 256 ^ width)
    (rightFits : right < 256 ^ width) (same : beBytes width left = beBytes width right) : left = right := by
  have values := congrArg beNat same
  rwa [beNat_beBytes, beNat_beBytes, mod_eq_of_lt leftFits, mod_eq_of_lt rightFits] at values

theorem beNat_byte (front : List UInt8) (byte : UInt8) (back : List UInt8) :
    beNat (front ++ byte :: back) / 256 ^ back.length % 256 = byte.toNat := by
  have small := beNat_lt back
  have byteSmall := byte.toNat_lt
  have split : front ++ byte :: back = (front ++ [byte]) ++ back := by simp
  rw [split, beNat_append, beNat_concat, Nat.add_comm, Nat.add_mul_div_right _ _ (Nat.pow_pos (by decide)),
    Nat.div_eq_of_lt small]
  omega

theorem beNat_testBit (bytes : List UInt8) {index : Nat} {byte : UInt8} (inside : index / 8 < bytes.length)
    (found : bytes[bytes.length - 1 - index / 8]? = some byte) :
    (beNat bytes).testBit index = byte.toNat.testBit (index % 8) := by
  obtain ⟨bound, isByte⟩ := List.getElem?_eq_some_iff.mp found
  have digit := beNat_byte (bytes.take (bytes.length - 1 - index / 8)) byte
    (bytes.drop (bytes.length - 1 - index / 8 + 1))
  rw [← isByte, ← List.drop_eq_getElem_cons, List.take_append_drop, isByte, List.length_drop,
    sub_add_eq, show bytes.length - (bytes.length - 1 - index / 8) - 1 = index / 8 by omega,
    show (256 : Nat) = 2 ^ 8 from rfl, ← pow_mul] at digit
  rw [← digit, testBit_mod_two_pow, testBit_div_two_pow, mod_add_div,
    decide_eq_true (mod_lt _ (by decide)), Bool.true_and]

theorem beBytes_pad (extra width : Nat) {value : Nat} (fits : value < 256 ^ width) :
    beBytes (extra + width) value = replicate extra 0 ++ beBytes width value := by
  induction extra with
  | zero => simp
  | succ extra ih =>
    have small : value < 256 ^ (extra + width) :=
      Nat.lt_of_lt_of_le fits (Nat.pow_le_pow_right (by decide) (Nat.le_add_left _ _))
    rw [Nat.succ_add, beBytes, Nat.div_eq_of_lt small, ih, replicate_succ, cons_append]
    rfl

def leBytes (width value : Nat) : List UInt8 := (beBytes width value).reverse

@[simp] theorem leBytes_length (width value : Nat) : (leBytes width value).length = width := by
  simp [leBytes]

def leNat (bytes : List UInt8) : Nat := beNat bytes.reverse

theorem leNat_leBytes (width : Nat) {value : Nat} (fits : value < 256 ^ width) :
    leNat (leBytes width value) = value := by
  rw [leNat, leBytes, reverse_reverse, beNat_beBytes, mod_eq_of_lt fits]

theorem shiftLeft_or_byte (high byte shift : Nat) (small : byte < 256) :
    high <<< (shift + 8) ||| byte <<< shift = (high * 256 + byte) <<< shift := by
  rw [add_comm, shiftLeft_add, ← shiftLeft_or_distrib,
    ← shiftLeft_add_eq_or_of_lt (by simpa using small), shiftLeft_eq high]

def ascii (text : String) : List UInt8 :=
  text.toList.map fun letter => UInt8.ofNat letter.toNat

theorem digits_lt {a b m x y : ℕ} (left : x < m) (right : y < m) : a * m + x < b * m + y ↔ a < b ∨ a = b ∧ x < y := by
  rcases Nat.lt_trichotomy a b with less | rfl | greater
  · have step := Nat.mul_le_mul_right m (Nat.succ_le_of_lt less)
    rw [Nat.succ_mul] at step
    omega
  · omega
  · have step := Nat.mul_le_mul_right m (Nat.succ_le_of_lt greater)
    rw [Nat.succ_mul] at step
    omega

theorem beNat_cons_lt {a b : UInt8} {left right : List UInt8} (same : left.length = right.length) :
    beNat (a :: left) < beNat (b :: right) ↔ a < b ∨ a = b ∧ beNat left < beNat right := by
  have cons (byte : UInt8) (rest : List UInt8) :
      beNat (byte :: rest) = byte.toNat * 256 ^ rest.length + beNat rest := by
    rw [← singleton_append, beNat_append]
    simp [beNat]
  rw [cons, cons, same, digits_lt (same ▸ beNat_lt left) (beNat_lt right), UInt8.lt_iff_toNat_lt, UInt8.toNat_inj]

end Bytes
