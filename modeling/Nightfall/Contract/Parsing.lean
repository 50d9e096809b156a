import Nightfall.Contract.NovaVerifier

/-! The two Solidity parsers of the proof envelope, `NovaRollupVerifier.parseProof` and
`NovaProofParsing.parseProof`, down to checked words and loads from calldata. -/

namespace Nightfall.Contract

open Bytes Revert List Nat

variable (proof : Calldata) (cursor : Word) (input : ByteString)

/-- A `bytes calldata` argument: a window of the call's input that passed the ABI decoder. -/
structure Calldata where
  input : ByteString
  offset : ℕ
  length : ℕ
  decoded : length < 2 ^ 64
  inside : offset + length ≤ input.length
  sized : input.length < 2 ^ 256

def Calldata.bytes : ByteString :=
  (proof.input.drop proof.offset).take proof.length

theorem around_inside (front bytes back : ByteString) :
    front.length + bytes.length ≤ (front ++ bytes ++ back).length := by
  simp only [length_append]
  omega

def Calldata.around (front bytes back : ByteString) (decoded : bytes.length < 2 ^ 64)
    (sized : (front ++ bytes ++ back).length < 2 ^ 256) : Calldata :=
  ⟨front ++ bytes ++ back, front.length, bytes.length, decoded, around_inside front bytes back, sized⟩

theorem Calldata.around_bytes (front bytes back : ByteString) (decoded : bytes.length < 2 ^ 64)
    (sized : (front ++ bytes ++ back).length < 2 ^ 256) :
    (Calldata.around front bytes back decoded sized).bytes = bytes := by
  simp [Calldata.bytes, Calldata.around]

def calldatacopy (position : Word) (length : ℕ) : ByteString :=
  let bytes := (input.drop position.toNat).take length
  bytes ++ List.replicate (length - bytes.length) 0

def calldataloadAt (position : Word) : Word :=
  BitVec.ofNat 256 (beNat (calldatacopy input position 32))

def Calldata.position : Word :=
  BitVec.ofNat 256 proof.offset + cursor

def NovaProofData.blank : NovaProofData := ⟨[], 0, 0, 0, 0⟩

/-- The named return values of `parseProof`. -/
structure ParseResult where
  parsedProof : NovaProofData
  cursor : Word
  ok : Bool
deriving DecidableEq

namespace NovaRollupVerifier

def readUint64LE : Word :=
  let word := calldataloadAt proof.input (proof.position cursor)
  let valBE := word >>> 192
  let b0 := valBE &&& 0xff
  let b1 := (valBE >>> 8) &&& 0xff
  let b2 := (valBE >>> 16) &&& 0xff
  let b3 := (valBE >>> 24) &&& 0xff
  let b4 := (valBE >>> 32) &&& 0xff
  let b5 := (valBE >>> 40) &&& 0xff
  let b6 := (valBE >>> 48) &&& 0xff
  let b7 := (valBE >>> 56) &&& 0xff
  ((b0 <<< 56 ||| b1 <<< 48) ||| (b2 <<< 40 ||| b3 <<< 32)) ||| ((b4 <<< 24 ||| b5 <<< 16) ||| (b6 <<< 8 ||| b7))

def readByteVec : Except String (Word × ByteString × Bool) := do
  let start ← checkedAdd cursor 8
  if start.toNat > proof.length then return (cursor, [], false)
  let len := readUint64LE proof cursor
  let newCursor ← checkedAdd start len
  if newCursor.toNat > proof.length then return (cursor, [], false)
  let out := if len.toNat > 0 then calldatacopy proof.input (proof.position cursor + 8) len.toNat
    else []
  return (newCursor, out, true)

def readRoot : Except String (Word × Word × Bool) := do
  let (newCursor, bytes, ok) ← readByteVec proof cursor
  if ok = false then return (newCursor, 0, false)
  if bytes.length ≠ 32 then return (newCursor, 0, false)
  return (newCursor, BitVec.ofNat 256 (beNat bytes), true)

def parseProof : Except String ParseResult := do
  let (cursor, snarkProof, ok) ← readByteVec proof 0
  let parsed := { NovaProofData.blank with snarkProof := snarkProof }
  if ok = false then return ⟨parsed, cursor, false⟩
  let (cursor, commitmentsRoot, ok) ← readRoot proof cursor
  let parsed := { parsed with commitmentsRoot := commitmentsRoot }
  if ok = false then return ⟨parsed, cursor, false⟩
  let (cursor, nullifiersRoot, ok) ← readRoot proof cursor
  let parsed := { parsed with nullifiersRoot := nullifiersRoot }
  if ok = false then return ⟨parsed, cursor, false⟩
  let (cursor, historicRootRoot, ok) ← readRoot proof cursor
  let parsed := { parsed with historicRootRoot := historicRootRoot }
  if ok = false then return ⟨parsed, cursor, false⟩
  let stop ← checkedAdd cursor 8
  if stop.toNat > proof.length then return ⟨parsed, cursor, false⟩
  let transactionCount := (readUint64LE proof cursor).toNat
  return ⟨{ parsed with transactionCount := transactionCount }, stop, true⟩

end NovaRollupVerifier

namespace NovaProofParsing

def readUint64LE : Word :=
  let word := calldataloadAt proof.input (proof.position cursor)
  let valBE := word >>> 192
  let b0 := valBE &&& 0xff
  let b1 := (valBE >>> 8) &&& 0xff
  let b2 := (valBE >>> 16) &&& 0xff
  let b3 := (valBE >>> 24) &&& 0xff
  let b4 := (valBE >>> 32) &&& 0xff
  let b5 := (valBE >>> 40) &&& 0xff
  let b6 := (valBE >>> 48) &&& 0xff
  let b7 := (valBE >>> 56) &&& 0xff
  ((b0 <<< 56 ||| b1 <<< 48) ||| (b2 <<< 40 ||| b3 <<< 32)) ||| ((b4 <<< 24 ||| b5 <<< 16) ||| (b6 <<< 8 ||| b7))

def readByteVec : Except String (Word × ByteString × Bool) := do
  let start ← checkedAdd cursor 8
  if start.toNat > proof.length then return (cursor, [], false)
  let len := readUint64LE proof cursor
  let newCursor ← checkedAdd start len
  if newCursor.toNat > proof.length then return (cursor, [], false)
  let out := if len.toNat > 0 then calldatacopy proof.input (proof.position cursor + 8) len.toNat
    else []
  return (newCursor, out, true)

def readRoot : Except String (Word × Word × Bool) := do
  let (newCursor, bytes, ok) ← readByteVec proof cursor
  if ok = false then return (newCursor, 0, false)
  if bytes.length ≠ 32 then return (newCursor, 0, false)
  return (newCursor, BitVec.ofNat 256 (beNat bytes), true)

def parseProof : Except String ParseResult := do
  let (cursor, snarkProof, ok) ← readByteVec proof 0
  let parsed := { NovaProofData.blank with snarkProof := snarkProof }
  if ok = false then return ⟨parsed, cursor, false⟩
  let (cursor, commitmentsRoot, ok) ← readRoot proof cursor
  let parsed := { parsed with commitmentsRoot := commitmentsRoot }
  if ok = false then return ⟨parsed, cursor, false⟩
  let (cursor, nullifiersRoot, ok) ← readRoot proof cursor
  let parsed := { parsed with nullifiersRoot := nullifiersRoot }
  if ok = false then return ⟨parsed, cursor, false⟩
  let (cursor, historicRootRoot, ok) ← readRoot proof cursor
  let parsed := { parsed with historicRootRoot := historicRootRoot }
  if ok = false then return ⟨parsed, cursor, false⟩
  let stop ← checkedAdd cursor 8
  if stop.toNat > proof.length then return ⟨parsed, cursor, false⟩
  let transactionCount := (readUint64LE proof cursor).toNat
  return ⟨{ parsed with transactionCount := transactionCount }, stop, true⟩

end NovaProofParsing

section

variable {proof : Calldata}

theorem Calldata.bytes_length : proof.bytes.length = proof.length := by
  have inside := proof.inside
  rw [Calldata.bytes, length_take, length_drop]
  omega

theorem Calldata.position_toNat {cursor : Word} (inside : cursor.toNat ≤ proof.length) :
    (proof.position cursor).toNat = proof.offset + cursor.toNat := by
  have window := proof.inside
  have sized := proof.sized
  rw [Calldata.position, BitVec.toNat_add, BitVec.toNat_ofNat, mod_eq_of_lt (by omega), mod_eq_of_lt (by omega)]

theorem calldatacopy_inside {position : Word} {start length : ℕ} (isPosition : position.toNat = proof.offset + start)
    (inside : start + length ≤ proof.length) :
    calldatacopy proof.input position length = (proof.bytes.drop start).take length := by
  have window := proof.inside
  have same : (proof.bytes.drop start).take length = (proof.input.drop position.toNat).take length := by
    rw [Calldata.bytes, drop_take, take_take, drop_drop, isPosition, Nat.min_eq_left (by omega)]
  have full : ((proof.input.drop position.toNat).take length).length = length := by
    rw [length_take, length_drop, isPosition]
    omega
  rw [calldatacopy, same, full, Nat.sub_self, replicate_zero, append_nil]

theorem calldatacopy_length (position : Word) (length : ℕ) :
    (calldatacopy input position length).length = length := by
  rw [calldatacopy, length_append, length_replicate, length_take]
  omega

theorem calldatacopy_take (position : Word) {few length : ℕ}
    (fewer : few ≤ length) (inside : position.toNat + few ≤ input.length) :
    (calldatacopy input position length).take few = calldatacopy input position few := by
  have full : ((input.drop position.toNat).take few).length = few := by
    rw [length_take, length_drop]
    omega
  rw [calldatacopy, calldatacopy, full, Nat.sub_self, replicate_zero, append_nil,
    take_append_of_le_length, take_take, Nat.min_eq_left fewer]
  rw [length_take, length_drop]
  omega

theorem calldataloadAt_top {cursor : Word} (inside : cursor.toNat + 8 ≤ proof.length) :
    (calldataloadAt proof.input (proof.position cursor) >>> 192).toNat =
      beNat ((proof.bytes.drop cursor.toNat).take 8) := by
  have window := proof.inside
  have isPosition : (proof.position cursor).toNat = proof.offset + cursor.toNat :=
    proof.position_toNat (by omega)
  let word := calldatacopy proof.input (proof.position cursor) 32
  have front : word.take 8 = (proof.bytes.drop cursor.toNat).take 8 := by
    rw [← calldatacopy_inside isPosition inside]
    exact calldatacopy_take _ _ (by decide) (by omega)
  have size : word.length = 32 := calldatacopy_length _ _ _
  have back := beNat_lt (word.drop 8)
  have whole : beNat word = beNat (word.take 8) * 256 ^ 24 + beNat (word.drop 8) := by
    have split := beNat_append (word.take 8) (word.drop 8)
    rwa [take_append_drop, length_drop, size] at split
  have bound := beNat_lt word
  rw [size] at bound
  rw [length_drop, size] at back
  have loaded : (calldataloadAt proof.input (proof.position cursor)).toNat = beNat word := by
    exact mod_eq_of_lt bound
  rw [BitVec.toNat_ushiftRight, loaded, shiftRight_eq_div_pow, ← front, whole]
  omega

theorem shiftedByte_toNat (value : Word) (down : ℕ) {up : ℕ} (small : up ≤ 56) :
    (((value >>> down) &&& 0xff) <<< up).toNat = ((value.toNat >>> down) &&& 0xff) <<< up := by
  have byte : (value.toNat >>> down) &&& 0xff < 2 ^ 8 := by
    rw [show (0xff : ℕ) = 2 ^ 8 - 1 from rfl, Nat.and_two_pow_sub_one_eq_mod]
    exact Nat.mod_lt _ (by decide)
  apply Nat.mod_eq_of_lt
  rw [Nat.shiftLeft_eq]
  calc (value.toNat >>> down &&& 0xff) * 2 ^ up
      < 2 ^ 8 * 2 ^ up := Nat.mul_lt_mul_of_pos_right byte (Nat.pow_pos (by decide))
    _ = 2 ^ (8 + up) := (Nat.pow_add 2 8 up).symm
    _ ≤ 2 ^ 256 := Nat.pow_le_pow_right (by decide) (by omega)

theorem readUint64LE_toNat {cursor : Word} (inside : cursor.toNat + 8 ≤ proof.length) :
    (NovaRollupVerifier.readUint64LE proof cursor).toNat = readUint64LE proof.bytes cursor.toNat := by
  have top := calldataloadAt_top inside
  simp only [NovaRollupVerifier.readUint64LE, readUint64LE]
  generalize calldataloadAt proof.input (proof.position cursor) >>> 192 = value at top
  have byte0 := shiftedByte_toNat value 0 (show 56 ≤ 56 by decide)
  have byte7 := shiftedByte_toNat value 56 (show 0 ≤ 56 by decide)
  rw [BitVec.ushiftRight_zero] at byte0
  rw [BitVec.shiftLeft_zero] at byte7
  simp only [BitVec.toNat_or, byte0, byte7, shiftedByte_toNat value _ (show 48 ≤ 56 by decide),
    shiftedByte_toNat value _ (show 40 ≤ 56 by decide), shiftedByte_toNat value _ (show 32 ≤ 56 by decide),
    shiftedByte_toNat value _ (show 24 ≤ 56 by decide), shiftedByte_toNat value _ (show 16 ≤ 56 by decide),
    shiftedByte_toNat value _ (show 8 ≤ 56 by decide), top]
  simp [Nat.or_assoc]

theorem readUint64LE_lt (bytes : ByteString) (cursor : ℕ) : readUint64LE bytes cursor < 2 ^ 64 := by
  have byte : ∀ index up : ℕ, up ≤ 56 → ((beNat ((bytes.drop cursor).take 8) >>> (8 * index)) &&&
      0xff) <<< up < 2 ^ 64 := by
    intro index up small
    rw [show (0xff : ℕ) = 2 ^ 8 - 1 from rfl, Nat.and_two_pow_sub_one_eq_mod, Nat.shiftLeft_eq]
    calc beNat ((bytes.drop cursor).take 8) >>> (8 * index) % 2 ^ 8 * 2 ^ up
        < 2 ^ 8 * 2 ^ up :=
          Nat.mul_lt_mul_of_pos_right (Nat.mod_lt _ (by decide)) (Nat.pow_pos (by decide))
      _ = 2 ^ (8 + up) := (Nat.pow_add 2 8 up).symm
      _ ≤ 2 ^ 64 := Nat.pow_le_pow_right (by decide) (by omega)
  have last := byte 7 0 (by decide)
  iterate 7 refine Nat.or_lt_two_pow ?_ ?_
  · exact byte 0 56 (by decide)
  · exact byte 1 48 (by decide)
  · exact byte 2 40 (by decide)
  · exact byte 3 32 (by decide)
  · exact byte 4 24 (by decide)
  · exact byte 5 16 (by decide)
  · exact byte 6 8 (by decide)
  · exact last

variable {cursor : Word}

theorem checkedAdd_fits {left right : Word} (fits : left.toNat + right.toNat < 2 ^ 256) :
    checkedAdd left right = .ok (left + right) ∧ (left + right).toNat = left.toNat + right.toNat := by
  refine ⟨?_, ?_⟩
  · rw [checkedAdd, require_pos fits]
    rfl
  · rw [BitVec.toNat_add, mod_eq_of_lt fits]

theorem readByteVec_eq (inside : cursor.toNat ≤ proof.length) :
    NovaRollupVerifier.readByteVec proof cursor = .ok (match readByteVec proof.bytes cursor.toNat with
      | none => (cursor, [], false)
      | some (next, out) => (BitVec.ofNat 256 next, out, true)) := by
  have decoded := proof.decoded
  have eight : (8 : Word).toNat = 8 := rfl
  have startFits : cursor.toNat + (8 : Word).toNat < 2 ^ 256 := by omega
  obtain ⟨started, startAt⟩ := checkedAdd_fits startFits
  rw [eight] at startAt
  simp only [NovaRollupVerifier.readByteVec, started, readByteVec, proof.bytes_length, startAt,
    bind, Except.bind, pure, Except.pure]
  by_cases short : cursor.toNat + 8 > proof.length
  · rw [if_pos short, if_pos short]
  · have whole : cursor.toNat + 8 ≤ proof.length := by omega
    have len := readUint64LE_toNat whole
    have lenFits := readUint64LE_lt proof.bytes cursor.toNat
    have stopFits : (cursor + 8).toNat + (NovaRollupVerifier.readUint64LE proof cursor).toNat < 2 ^ 256 := by omega
    obtain ⟨stopped, stopAt⟩ := checkedAdd_fits stopFits
    rw [startAt, len] at stopAt
    rw [if_neg short, if_neg short, stopped]
    simp only [stopAt]
    by_cases cut : cursor.toNat + 8 + readUint64LE proof.bytes cursor.toNat > proof.length
    · rw [if_pos cut, if_pos cut]
    · rw [if_neg cut, if_neg cut]
      have window := proof.inside
      have sized := proof.sized
      have base : (proof.position cursor).toNat = proof.offset + cursor.toNat :=
        proof.position_toNat inside
      have source : (proof.position cursor + 8).toNat = proof.offset + (cursor.toNat + 8) := by
        rw [BitVec.toNat_add, base, eight, mod_eq_of_lt (by omega), add_assoc]
      have next : cursor + 8 + NovaRollupVerifier.readUint64LE proof cursor =
          BitVec.ofNat 256 (cursor.toNat + 8 + readUint64LE proof.bytes cursor.toNat) := by
        rw [← stopAt, BitVec.ofNat_toNat, BitVec.setWidth_eq]
      rw [next, len, calldatacopy_inside source (by omega)]
      by_cases empty : readUint64LE proof.bytes cursor.toNat = 0
      · simp [empty]
      · rw [if_pos (pos_of_ne_zero empty)]

/-- A read of the bytes of a proof, wherever in the calldata they lie: it never panics, leaves
the cursor inside the proof, and gives the verdict and the value expected. -/
def Reads {α : Type} (bytes : ByteString) (read : Calldata → Word → Except String (Word × α × Bool)) (cursor : Word)
    (expected : Option (ℕ × α)) : Prop :=
  ∃ next value ok, (∀ proof : Calldata, proof.bytes = bytes → read proof cursor = .ok (next, value, ok)) ∧
    next.toNat ≤ bytes.length ∧ expected = if ok = true then some (next.toNat, value) else none

variable {bytes : ByteString} (fits : bytes.length < 2 ^ 64) (inside : cursor.toNat ≤ bytes.length)
include fits inside

theorem readByteVec_reads : Reads bytes NovaRollupVerifier.readByteVec cursor (readByteVec bytes cursor.toNat) := by
  have read : ∀ proof : Calldata, proof.bytes = bytes →
      NovaRollupVerifier.readByteVec proof cursor = .ok (match readByteVec bytes cursor.toNat with
        | none => (cursor, [], false)
        | some (next, out) => (BitVec.ofNat 256 next, out, true)) := by
    rintro proof rfl
    rw [proof.bytes_length] at inside
    exact readByteVec_eq inside
  cases parsed : readByteVec bytes cursor.toNat with
  | none =>
    refine ⟨cursor, [], false, fun proof same => ?_, inside, rfl⟩
    rw [read proof same, parsed]
  | some found =>
    have stop : found.1 ≤ bytes.length := by
      simp only [readByteVec] at parsed
      split at parsed
      · cases parsed
      · split at parsed
        · cases parsed
        · obtain rfl := Option.some.inj parsed
          omega
    have exact : (BitVec.ofNat 256 found.1).toNat = found.1 := by
      rw [BitVec.toNat_ofNat, mod_eq_of_lt (by omega)]
    refine ⟨BitVec.ofNat 256 found.1, found.2, true, fun proof same => ?_, by rwa [exact], ?_⟩
    · rw [read proof same, parsed]
    · rw [exact]
      rfl

theorem readRoot_reads : Reads bytes NovaRollupVerifier.readRoot cursor (readRoot bytes cursor.toNat) := by
  obtain ⟨next, vec, ok, read, bound, parsed⟩ := readByteVec_reads fits inside
  cases ok with
  | false =>
    refine ⟨next, 0, false, fun proof same => ?_, bound, ?_⟩
    · rw [NovaRollupVerifier.readRoot, read proof same]
      rfl
    · rw [readRoot, parsed]
      rfl
  | true =>
    by_cases size : vec.length = 32
    · refine ⟨next, BitVec.ofNat 256 (beNat vec), true, fun proof same => ?_, bound, ?_⟩
      · rw [NovaRollupVerifier.readRoot, read proof same]
        simp [bind, Except.bind, size, pure, Except.pure]
      · rw [readRoot, parsed]
        simp [size]
    · refine ⟨next, 0, false, fun proof same => ?_, bound, ?_⟩
      · rw [NovaRollupVerifier.readRoot, read proof same]
        simp [bind, Except.bind, size, pure, Except.pure]
      · rw [readRoot, parsed]
        simp [size]

omit inside in
theorem parseProof_reads : ∃ result : ParseResult, (∀ proof : Calldata, proof.bytes = bytes →
        NovaRollupVerifier.parseProof proof = .ok result) ∧ result.cursor.toNat ≤ bytes.length ∧ parseProof bytes =
        if result.ok = true then some (result.parsedProof, result.cursor.toNat) else none := by
  obtain ⟨first, snarkProof, okSnark, readSnark, firstBound, snark⟩ :=
    readByteVec_reads fits (show (0 : Word).toNat ≤ bytes.length from zero_le _)
  obtain ⟨second, commitments, okCommitments, readCommitments, secondBound, commitment⟩ :=
    readRoot_reads fits firstBound
  obtain ⟨third, nullifiers, okNullifiers, readNullifiers, thirdBound, nullifier⟩ :=
    readRoot_reads fits secondBound
  obtain ⟨fourth, historics, okHistoric, readHistoric, fourthBound, historic⟩ :=
    readRoot_reads fits thirdBound
  rw [show (0 : Word).toNat = 0 from rfl] at snark
  have stopFits : fourth.toNat + (8 : Word).toNat < 2 ^ 256 := by
    rw [show (8 : Word).toNat = 8 from rfl]
    omega
  obtain ⟨stopped, stopAt⟩ := checkedAdd_fits stopFits
  rw [show (8 : Word).toNat = 8 from rfl] at stopAt
  -- a read that fails ends the parse with what was read so far
  refine ⟨if okSnark = false then ⟨⟨snarkProof, 0, 0, 0, 0⟩, first, false⟩
    else if okCommitments = false then ⟨⟨snarkProof, commitments, 0, 0, 0⟩, second, false⟩
    else if okNullifiers = false then ⟨⟨snarkProof, commitments, nullifiers, 0, 0⟩, third, false⟩
    else if okHistoric = false ∨ fourth.toNat + 8 > bytes.length then
      ⟨⟨snarkProof, commitments, nullifiers, historics, 0⟩, fourth, false⟩
    else ⟨⟨snarkProof, commitments, nullifiers, historics, readUint64LE bytes fourth.toNat⟩, fourth + 8, true⟩,
    fun proof same => ?_, ?_, ?_⟩
  · have count : ¬ fourth.toNat + 8 > bytes.length →
        (NovaRollupVerifier.readUint64LE proof fourth).toNat = readUint64LE bytes fourth.toNat := by
      intro inside
      rw [← same] at inside ⊢
      rw [proof.bytes_length] at inside
      exact readUint64LE_toNat (by omega)
    simp only [NovaRollupVerifier.parseProof, readSnark proof same, readCommitments proof same,
      readNullifiers proof same, readHistoric proof same, stopped, bind, Except.bind, pure, Except.pure,
      ← proof.bytes_length, same, stopAt]
    by_cases short : fourth.toNat + 8 > bytes.length <;> cases okSnark <;> cases okCommitments <;>
      cases okNullifiers <;> cases okHistoric <;> simp [short, count, NovaProofData.blank]
  · split_ifs <;> simp only [stopAt] <;> omega
  · by_cases short : fourth.toNat + 8 > bytes.length <;> cases okSnark <;> cases okCommitments <;>
      cases okNullifiers <;> cases okHistoric <;>
      simp [parseProof, snark, commitment, nullifier, historic, short]
    omega

end

end Nightfall.Contract
