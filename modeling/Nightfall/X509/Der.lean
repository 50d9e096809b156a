import Nightfall.Contract.Types

/-! `DERParser`: a DER byte string flattened into the list of its TLVs. The walk steps
into every constructed TLV, and tells the nesting depth from the end offsets it has
noted on the way down. -/

namespace Nightfall.X509

open Bytes Contract Revert

variable (derBytes : ByteString) (levels : Levels) (pointer : ℕ) (header : Header)

structure Tag where
  isConstructed : Bool
  tagType : UInt8
deriving DecidableEq

structure DecodedTlv where
  start : ℕ
  headerLength : ℕ
  tag : Tag
  length : ℕ
  value : ByteString
  octets : ByteString
  depth : ℕ
deriving DecidableEq

def DecodedTlv.blank : DecodedTlv := ⟨0, 0, ⟨false, 0⟩, 0, [], [], 0⟩

def readAt {α : Type} (items : List α) (index : ℕ) : Except String α :=
  match items[index]? with
  | some item => .ok item
  | none => .error "panic: array out-of-bounds"

theorem readAt_eq_ok {α : Type} (items : List α) (index : ℕ) (item : α) :
    readAt items index = .ok item ↔ items[index]? = some item := by
  rw [readAt]
  cases items[index]? <;> simp

def slice (bytes : ByteString) (start length : ℕ) : ByteString := (bytes.drop start).take length

def getTlvTag (tagByte : UInt8) : Except String Tag := do
  let tagClass := tagByte &&& 0xC0
  let tagType := tagByte &&& 0x1F
  require (tagType < 0x1F) "DERParser: Tag is Long Form, which is not supported"
  require (tagClass = 0 ∨ tagClass = 0x80)
    "DERParser: Only the Universal or ContextSpecific tag classes are supported"
  return ⟨decide (tagByte &&& 0x20 ≠ 0), tagType⟩

def getTlvLength (derSlice : ByteString) : Except String (ℕ × ℕ) := do
  let first ← readAt derSlice 0
  let lengthBits := (first &&& 0x7F).toNat
  if first &&& 0x80 = 0 then return (lengthBits, 1)
  else do
    require (lengthBits ≠ 0) "DERParser: Indefinite lengths are not supported"
    require (lengthBits ≠ 0x7F) "DERParser: A value of 0x7F for a long form length is a reserved value"
    require (lengthBits < derSlice.length) "panic: array out-of-bounds"
    -- each byte is shifted into a 256-bit word, so only the last 32 bytes stay
    return (beNat (slice derSlice 1 lengthBits) % 2 ^ 256, lengthBits + 1)

structure Header where
  tag : Tag
  length : ℕ
  headerLength : ℕ

def Header.next (pointer : ℕ) : ℕ :=
  if header.tag.isConstructed then pointer + header.headerLength
  else pointer + header.headerLength + header.length

/-- The tag and the length that `getNextTlv` reads before the value. -/
def getTlvHeader : Except String Header := do
  let tagByte ← readAt derBytes pointer
  let tag ← getTlvTag tagByte
  let (length, lengthBytes) ← getTlvLength (derBytes.drop (pointer + 1))
  return ⟨tag, length, lengthBytes + 1⟩

def Header.tlv (derBytes : ByteString) (pointer depth : ℕ) : DecodedTlv :=
  ⟨pointer, header.headerLength, header.tag, header.length,
    slice derBytes (pointer + header.headerLength) header.length,
    slice derBytes pointer (header.headerLength + header.length), depth⟩

def getNextTlv (pointer depth : ℕ) : Except String (DecodedTlv × ℕ) := do
  let header ← getTlvHeader derBytes pointer
  require (pointer + header.headerLength + header.length ≤ derBytes.length) "slice out of bounds"
  return (header.tlv derBytes pointer depth, header.next pointer)

structure Levels where
  depth : ℕ
  depthChangesAt : Vector ℕ 5
deriving DecidableEq

def Levels.top : Levels := ⟨0, Vector.replicate 5 0⟩

def Levels.enter (change : ℕ) : Except String Levels :=
  if bound : levels.depth < 5 then
    .ok ⟨levels.depth + 1, levels.depthChangesAt.set levels.depth change⟩
  else .error "panic: array out-of-bounds"

def Levels.leave : Except String Levels := do
  let depth ← levels.depthChangesAt.toList.foldlM (fun depth change =>
    if pointer = change then do
      require (depth ≠ 0) "panic: arithmetic underflow"
      return depth - 1
    else return depth) levels.depth
  return { levels with depth := depth }

def Levels.advance (tag : Tag) (length pointer : ℕ) : Except String Levels := do
  let entered ← if tag.isConstructed then levels.enter (pointer + length) else pure levels
  entered.leave pointer

/-- The loop of `walkDerTree` with `slots` free places in the result. -/
def walkFrom (derBytes : ByteString) : ℕ → ℕ → Levels → Except String (List DecodedTlv)
  | 0, pointer, levels => do
      let _ ← getNextTlv derBytes pointer levels.depth
      .error "panic: array out-of-bounds"
  | slots + 1, pointer, levels => do
      let (tlv, next) ← getNextTlv derBytes pointer levels.depth
      let levels ← levels.advance tlv.tag tlv.length next
      if next < derBytes.length then do
        let rest ← walkFrom derBytes slots next levels
        return tlv :: rest
      else return [tlv]

def walkDerTree (pointer tlvLength : ℕ) : Except String (List DecodedTlv) := do
  let tlvs ← walkFrom derBytes tlvLength pointer .top
  return tlvs ++ List.replicate (tlvLength - tlvs.length) .blank

def parseDER (pointer tlvLength : ℕ) : Except String (List DecodedTlv) :=
  walkDerTree derBytes pointer tlvLength

def computeNumberOfTlvs : Except String ℕ := do
  let tlvs ← walkFrom derBytes (derBytes.length + 1) pointer .top
  return tlvs.length

theorem Levels.enter_eq_ok (change : ℕ) (later : Levels) :
    levels.enter change = .ok later ↔ ∃ shallow : levels.depth < 5,
        later = ⟨levels.depth + 1, levels.depthChangesAt.set levels.depth change⟩ := by
  rw [Levels.enter]
  split
  · rename_i shallow
    exact ⟨fun same => ⟨shallow, (Except.ok.inj same).symm⟩, fun same => congrArg _ same.2.symm⟩
  · rename_i deep
    constructor
    · intro same
      cases same
    · rintro ⟨shallow, _⟩
      exact absurd shallow deep

theorem Levels.leave_eq_ok (later : Levels) :
    levels.leave pointer = .ok later ↔ levels.depthChangesAt.toList.foldlM (fun depth change =>
        if pointer = change then do
          require (depth ≠ 0) "panic: arithmetic underflow"
          return depth - 1
        else return depth) levels.depth = .ok later.depth ∧
      later.depthChangesAt = levels.depthChangesAt := by
  simp only [Levels.leave, bind_eq_ok, pure_eq_ok]
  constructor
  · rintro ⟨depth, folded, rfl⟩
    exact ⟨folded, rfl⟩
  · rintro ⟨folded, same⟩
    exact ⟨later.depth, folded, by rw [← same]⟩

theorem Levels.advance_eq_ok (tag : Tag) (length pointer : ℕ) (later : Levels) :
    levels.advance tag length pointer = .ok later ↔
      ∃ entered, (tag.isConstructed = true ∧ levels.enter (pointer + length) = .ok entered ∨
          tag.isConstructed = false ∧ entered = levels) ∧ entered.leave pointer = .ok later := by
  rw [Levels.advance]
  cases tag.isConstructed with
  | true => simp
  | false => simp

theorem getTlvLength_eq_ok {derSlice : ByteString} {length lengthBytes : ℕ}
    (found : getTlvLength derSlice = .ok (length, lengthBytes)) :
    0 < lengthBytes ∧ lengthBytes ≤ derSlice.length := by
  simp only [getTlvLength, bind_eq_ok, readAt_eq_ok] at found
  obtain ⟨first, head, found⟩ := found
  obtain ⟨bound, _⟩ := List.getElem?_eq_some_iff.mp head
  split at found
  · obtain ⟨_, rfl⟩ := Prod.mk.inj ((pure_eq_ok _ _).mp found)
    exact ⟨Nat.one_pos, bound⟩
  · simp only [bind_eq_ok, require_eq_ok, pure_eq_ok, Prod.mk.injEq] at found
    obtain ⟨_, _, _, _, _, fits, _, rfl⟩ := found
    exact ⟨Nat.succ_pos _, fits⟩

theorem getTlvHeader_eq_ok :
    getTlvHeader derBytes pointer = .ok header ↔ ∃ tagByte lengthBytes, derBytes[pointer]? = some tagByte ∧
        getTlvTag tagByte = .ok header.tag ∧
        getTlvLength (derBytes.drop (pointer + 1)) = .ok (header.length, lengthBytes) ∧
        header.headerLength = lengthBytes + 1 := by
  obtain ⟨⟩ := header
  simp [getTlvHeader, readAt_eq_ok]
  grind

theorem getTlvHeader_bounds {derBytes : ByteString} {pointer : ℕ} {header : Header}
    (found : getTlvHeader derBytes pointer = .ok header) :
    2 ≤ header.headerLength ∧ pointer + header.headerLength ≤ derBytes.length := by
  obtain ⟨_, lengthBytes, here, _, isLength, size⟩ := (getTlvHeader_eq_ok _ _ _).mp found
  obtain ⟨positive, fits⟩ := getTlvLength_eq_ok isLength
  rw [List.length_drop] at fits
  omega

theorem getNextTlv_eq_ok (pointer depth : ℕ) (result : DecodedTlv × ℕ) :
    getNextTlv derBytes pointer depth = .ok result ↔ ∃ header, getTlvHeader derBytes pointer = .ok header ∧
        pointer + header.headerLength + header.length ≤ derBytes.length ∧
        result = (header.tlv derBytes pointer depth, header.next pointer) := by
  simp only [getNextTlv, bind_eq_ok, require_eq_ok, pure_eq_ok]
  constructor
  · rintro ⟨header, isHeader, _, fits, rfl⟩
    exact ⟨header, isHeader, fits, rfl⟩
  · rintro ⟨header, isHeader, fits, rfl⟩
    exact ⟨header, isHeader, (), fits, rfl⟩

theorem Header.next_ge (pointer : ℕ) : pointer + header.headerLength ≤ header.next pointer := by
  rw [Header.next]
  split <;> omega

/-- A walk that has taken all bytes from the pointer on. -/
inductive Walks (derBytes : ByteString) : ℕ → Levels → List DecodedTlv → Prop
  | done {pointer : ℕ} {levels : Levels} (beyond : derBytes.length ≤ pointer) : Walks derBytes pointer levels []
  | next (pointer : ℕ) (header : Header) {levels later : Levels} {rest : List DecodedTlv}
      (isHeader : getTlvHeader derBytes pointer = .ok header)
      (fits : pointer + header.headerLength + header.length ≤ derBytes.length)
      (advanced : levels.advance header.tag header.length (header.next pointer) = .ok later)
      (onward : Walks derBytes (header.next pointer) later rest) :
      Walks derBytes pointer levels (header.tlv derBytes pointer levels.depth :: rest)

theorem walks_of_walkFrom {derBytes : ByteString} {slots pointer : ℕ} {levels : Levels} {tlvs : List DecodedTlv}
    (walked : walkFrom derBytes slots pointer levels = .ok tlvs) : Walks derBytes pointer levels tlvs := by
  induction slots generalizing pointer levels tlvs with
  | zero => simp [walkFrom] at walked
  | succ slots ih =>
    simp only [walkFrom, bind_eq_ok, getNextTlv_eq_ok] at walked
    obtain ⟨_, ⟨header, isHeader, fits, rfl⟩, later, advanced, rest⟩ := walked
    split at rest
    · obtain ⟨rest, onward, same⟩ := (bind_eq_ok _ _ _).mp rest
      obtain rfl := (pure_eq_ok _ _).mp same
      exact .next pointer header isHeader fits advanced (ih onward)
    · rename_i outside
      obtain rfl := (pure_eq_ok _ _).mp rest
      exact .next pointer header isHeader fits advanced (.done (Nat.not_lt.mp outside))

end Nightfall.X509
