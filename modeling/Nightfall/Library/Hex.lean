import Nightfall.Library.Bytes

/-! Hexadecimal text: two digits a byte, either case when read, lower case when written. -/

namespace Hex

open List Bytes

def digitValue (letter : Char) : Option ℕ :=
  if '0' ≤ letter ∧ letter ≤ '9' then some (letter.toNat - 48)
  else if 'a' ≤ letter ∧ letter ≤ 'f' then some (letter.toNat - 87)
  else if 'A' ≤ letter ∧ letter ≤ 'F' then some (letter.toNat - 55)
  else none

def digit (value : ℕ) : Char :=
  if value < 10 then Char.ofNat (48 + value) else Char.ofNat (87 + value)

def readDigit (letter : Char) (position : ℕ) : Except String ℕ :=
  match digitValue letter with
  | some value => .ok value
  | none => .error ("Invalid character '" ++ letter.toString ++ "' at position " ++ toString position)

def decodePairs : List Char → ℕ → Except String (List UInt8)
  | high :: low :: rest, position => do
      let highValue ← readDigit high position
      let lowValue ← readDigit low (position + 1)
      let bytes ← decodePairs rest (position + 2)
      return UInt8.ofNat (16 * highValue + lowValue) :: bytes
  | _, _ => .ok []

def decode (letters : List Char) : Except String (List UInt8) :=
  if letters.length % 2 ≠ 0 then .error "Odd number of digits" else decodePairs letters 0

def encode : List UInt8 → List Char
  | [] => []
  | byte :: rest => digit (byte.toNat / 16) :: digit (byte.toNat % 16) :: encode rest

theorem digitValue_digit : ∀ value < 16, digitValue (digit value) = some value := by decide

theorem readDigit_digit {value : ℕ} (small : value < 16) (position : ℕ) :
    readDigit (digit value) position = .ok value := by
  rw [readDigit, digitValue_digit value small]

theorem encode_length (bytes : List UInt8) : (encode bytes).length = 2 * bytes.length := by
  induction bytes with
  | nil => rfl
  | cons byte rest ih =>
    simp only [encode, length_cons, ih]
    omega

theorem decodePairs_encode (bytes : List UInt8) : ∀ position, decodePairs (encode bytes) position = .ok bytes := by
  induction bytes with
  | nil => exact fun _ => rfl
  | cons byte rest ih =>
    intro position
    have small := byte.toNat_lt
    have value : 16 * (byte.toNat / 16) + byte.toNat % 16 = byte.toNat := by omega
    rw [encode, decodePairs, readDigit_digit (by omega), readDigit_digit (by omega), ih]
    simp [bind, Except.bind, pure, Except.pure, value]

theorem decode_encode (bytes : List UInt8) : decode (encode bytes) = .ok bytes := by
  rw [decode, encode_length, if_neg (by omega), decodePairs_encode]

theorem forall_mem_encode (predicate : Char → Prop) (digits : ∀ value < 16, predicate (digit value))
    (bytes : List UInt8) : ∀ letter ∈ encode bytes, predicate letter := by
  induction bytes with
  | nil => simp [encode]
  | cons byte rest ih =>
    have small := byte.toNat_lt
    intro letter member
    rw [encode, mem_cons, mem_cons] at member
    rcases member with rfl | rfl | later
    · exact digits _ (by omega)
    · exact digits _ (by omega)
    · exact ih letter later

theorem digit_lt : ∀ a < 16, ∀ b < 16, (digit a < digit b ↔ a < b) ∧ (digit a = digit b ↔ a = b) := by decide

theorem encode_lt {left right : List UInt8} (same : left.length = right.length) :
    encode left < encode right ↔ beNat left < beNat right := by
  induction left generalizing right with
  | nil => simp [length_eq_zero_iff.mp same.symm, encode]
  | cons a left ih =>
    cases right with
    | nil => simp at same
    | cons b right =>
      have tails : left.length = right.length := by simpa using same
      have small := a.toNat_lt
      have otherSmall := b.toNat_lt
      obtain ⟨highLess, highSame⟩ := digit_lt (a.toNat / 16) (by omega) (b.toNat / 16) (by omega)
      obtain ⟨lowLess, lowSame⟩ := digit_lt (a.toNat % 16) (by omega) (b.toNat % 16) (by omega)
      rw [encode, encode, cons_lt_cons_iff, cons_lt_cons_iff, highLess, highSame, lowLess, lowSame,
        ih tails, beNat_cons_lt tails, UInt8.lt_iff_toNat_lt, ← UInt8.toNat_inj]
      omega

end Hex
