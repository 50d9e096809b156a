import Nightfall.X509.Der

/-! The walk over a part of a byte string. Inside the part it goes as it would over those
bytes alone: the headers are the same, and so are the values that end inside. -/

namespace Nightfall.X509

open Bytes Contract Revert List

section

variable {front part back : ByteString}

theorem slice_inside {start length : ℕ} (fits : start + length ≤ part.length) :
    slice (front ++ part ++ back) (front.length + start) length = slice part start length := by
  rw [slice, slice, ← drop_drop, append_assoc, drop_left,
    drop_append_of_le_length (by omega), take_append_of_le_length]
  rw [length_drop]
  omega

theorem slice_split (bytes : ByteString) (start length : ℕ) :
    bytes = bytes.take start ++ slice bytes start length ++ bytes.drop (start + length) := by
  rw [slice, append_assoc, ← drop_drop, take_append_drop, take_append_drop]

theorem slice_length {bytes : ByteString} {start length : ℕ} (fits : start + length ≤ bytes.length) :
    (slice bytes start length).length = length := by
  rw [slice, length_take, length_drop]
  omega

theorem getElem?_inside {index : ℕ} (inside : index < part.length) :
    (front ++ part ++ back)[front.length + index]? = part[index]? := by
  rw [append_assoc, List.getElem?_append_right (Nat.le_add_right _ _),
    Nat.add_sub_cancel_left, List.getElem?_append_left inside]

theorem drop_inside {start : ℕ} (inside : start ≤ part.length) :
    (front ++ part ++ back).drop (front.length + start) = part.drop start ++ back := by
  rw [← drop_drop, append_assoc, drop_left, drop_append_of_le_length inside]

theorem getTlvLength_iff (derSlice : ByteString) (length lengthBytes : ℕ) :
    getTlvLength derSlice = .ok (length, lengthBytes) ↔ ∃ first, derSlice[0]? = some first ∧
        ((first &&& 0x80 = 0 ∧ length = (first &&& 0x7F).toNat ∧ lengthBytes = 1) ∨
          first &&& 0x80 ≠ 0 ∧ (first &&& 0x7F).toNat ≠ 0 ∧ (first &&& 0x7F).toNat ≠ 0x7F ∧
            (first &&& 0x7F).toNat < derSlice.length ∧
            length = beNat (slice derSlice 1 (first &&& 0x7F).toNat) % 2 ^ 256 ∧
            lengthBytes = (first &&& 0x7F).toNat + 1) := by
  simp only [getTlvLength, bind_eq_ok, readAt_eq_ok]
  refine exists_congr fun first => and_congr_right fun _ => ?_
  by_cases short : first &&& 0x80 = 0 <;> simp only [short, if_true, if_false, bind_eq_ok, require_eq_ok, pure_eq_ok,
    Prod.mk.injEq, exists_const] <;> grind

theorem getTlvLength_append {bytes : ByteString} (rest : ByteString) {length lengthBytes : ℕ}
    (fits : lengthBytes ≤ bytes.length) :
    getTlvLength (bytes ++ rest) = .ok (length, lengthBytes) ↔ getTlvLength bytes = .ok (length, lengthBytes) := by
  by_cases empty : bytes = []
  · have none : lengthBytes = 0 := by simpa [empty] using fits
    constructor
    · intro found
      exact absurd (getTlvLength_eq_ok found).1 (by omega)
    · intro found
      exact absurd (getTlvLength_eq_ok found).1 (by omega)
  · have nonempty : 0 < bytes.length := length_pos_iff.mpr empty
    rw [getTlvLength_iff, getTlvLength_iff, List.getElem?_append_left nonempty]
    refine exists_congr fun first => and_congr_right fun _ => or_congr_right ?_
    have cut : (first &&& 0x7F).toNat + 1 ≤ bytes.length →
        slice (bytes ++ rest) 1 (first &&& 0x7F).toNat = slice bytes 1 (first &&& 0x7F).toNat := by
      intro inside
      have same := @slice_inside [] bytes rest 1 (first &&& 0x7F).toNat (by omega)
      simpa using same
    constructor
    · rintro ⟨isLong, nonzero, notReserved, _, rfl, rfl⟩
      exact ⟨isLong, nonzero, notReserved, fits, by rw [cut fits], rfl⟩
    · rintro ⟨isLong, nonzero, notReserved, _, rfl, rfl⟩
      refine ⟨isLong, nonzero, notReserved, ?_, by rw [cut fits], rfl⟩
      rw [length_append]
      omega

theorem getTlvHeader_inside {pointer : ℕ} {header : Header} (fits : pointer + header.headerLength ≤ part.length) :
    getTlvHeader (front ++ part ++ back) (front.length + pointer) = .ok header ↔
      getTlvHeader part pointer = .ok header := by
  rw [getTlvHeader_eq_ok, getTlvHeader_eq_ok]
  refine exists_congr fun tagByte => exists_congr fun lengthBytes => ?_
  by_cases size : header.headerLength = lengthBytes + 1
  · rw [getElem?_inside (by omega), Nat.add_assoc, drop_inside (by omega),
      getTlvLength_append back (by rw [length_drop]; omega)]
  · simp [size]

end

/-- The walk over the bytes of the signed part alone, up to where a header does not end
inside. Where a value does not, it is cut. -/
def signedFrom (signed : ByteString) : ℕ → ℕ → Levels → List DecodedTlv
  | 0, _, _ => []
  | slots + 1, pointer, levels =>
    match getTlvHeader signed pointer with
    | .error _ => []
    | .ok header =>
      header.tlv signed pointer levels.depth ::
        match levels.advance header.tag header.length (header.next pointer) with
        | .error _ => []
        | .ok later =>
          if header.next pointer < signed.length then
            signedFrom signed slots (header.next pointer) later
          else []

/-- The levels of the whole walk and of the walk over a part that starts at `origin` end
at the same places of the part. -/
structure Shifted (origin size : ℕ) (whole part : Levels) : Prop where
  depth : whole.depth = part.depth
  changes : ∀ i (bound : i < 5) offset, 0 < offset → offset < size →
    (origin + offset = whole.depthChangesAt[i] ↔ offset = part.depthChangesAt[i])

structure SameTlv (origin size : ℕ) (whole part : DecodedTlv) : Prop where
  start : whole.start = origin + part.start
  headerLength : whole.headerLength = part.headerLength
  tag : whole.tag = part.tag
  length : whole.length = part.length
  depth : whole.depth = part.depth
  headerInside : part.start + part.headerLength ≤ size
  first : whole.octets.head? = part.octets.head?
  content : part.start + part.headerLength + part.length ≤ size →
    whole.value = part.value ∧ whole.octets = part.octets

section

variable {origin size offset : ℕ} {whole part later : Levels}

variable (shifted : Shifted origin size whole part)
include shifted

theorem Shifted.leave (positive : 0 < offset) (inside : offset < size)
    (left : whole.leave (origin + offset) = .ok later) :
    ∃ partLater, part.leave offset = .ok partLater ∧ Shifted origin size later partLater := by
  obtain ⟨folded, same⟩ := (Levels.leave_eq_ok _ _ _).mp left
  have pairs : List.Forall₂ (fun a b => origin + offset = a ↔ offset = b)
      whole.depthChangesAt.toList part.depthChangesAt.toList := by
    refine forall₂_iff_get.mpr ⟨by simp, ?_⟩
    intro i bound _
    have here := shifted.changes i (by simpa using bound) offset positive inside
    simpa using here
  refine ⟨⟨later.depth, part.depthChangesAt⟩, (Levels.leave_eq_ok _ _ _).mpr ⟨?_, rfl⟩, rfl, ?_⟩
  · rw [← folded, shifted.depth]
    refine (foldlM_forall₂ pairs ?_ part.depth).symm
    intro depth a b related
    by_cases meets : offset = b
    · rw [if_pos meets, if_pos (related.mpr meets)]
    · rw [if_neg meets, if_neg (fun there => meets (related.mp there))]
  · rw [same]
    exact shifted.changes

theorem Shifted.enter (change : ℕ) (entered : whole.enter (origin + change) = .ok later) :
    ∃ partLater, part.enter change = .ok partLater ∧ Shifted origin size later partLater := by
  obtain ⟨shallow, rfl⟩ := (Levels.enter_eq_ok _ _ _).mp entered
  obtain ⟨depth, depthChangesAt⟩ := whole
  obtain rfl : depth = part.depth := shifted.depth
  refine ⟨_, (Levels.enter_eq_ok _ _ _).mpr ⟨shallow, rfl⟩, rfl, ?_⟩
  intro i bound offset positive inside
  by_cases isNew : part.depth = i
  · simp [isNew]
  · simpa [Vector.getElem_set, isNew] using shifted.changes i bound offset positive inside

theorem Shifted.advance (positive : 0 < offset) (inside : offset < size) {tag : Tag} {length : ℕ}
    (advanced : whole.advance tag length (origin + offset) = .ok later) :
    ∃ partLater, part.advance tag length offset = .ok partLater ∧ Shifted origin size later partLater := by
  simp only [Levels.advance_eq_ok] at advanced ⊢
  obtain ⟨entered, ⟨isConstructed, entering⟩ | ⟨isPrimitive, rfl⟩, left⟩ := advanced
  · rw [Nat.add_assoc] at entering
    obtain ⟨partEntered, partEntering, shifted⟩ := shifted.enter (offset + length) entering
    obtain ⟨partLater, partLeft, shifted⟩ := shifted.leave positive inside left
    exact ⟨partLater, ⟨partEntered, Or.inl ⟨isConstructed, partEntering⟩, partLeft⟩, shifted⟩
  · obtain ⟨partLater, partLeft, shifted⟩ := shifted.leave positive inside left
    exact ⟨partLater, ⟨part, Or.inr ⟨isPrimitive, rfl⟩, partLeft⟩, shifted⟩

end

/-- The bytes an element takes for itself: a constructed one leaves its value to the elements inside. -/
def DecodedTlv.ownBytes (tlv : DecodedTlv) : ByteString :=
  if tlv.tag.isConstructed then tlv.octets.take tlv.headerLength else tlv.octets

section

variable {derBytes : ByteString} {pointer : ℕ} {levels : Levels} {tlvs : List DecodedTlv}
  (walks : Walks derBytes pointer levels tlvs)
include walks

theorem Walks.bounds : ∀ tlv ∈ tlvs, pointer ≤ tlv.start ∧ 2 ≤ tlv.headerLength := by
  induction walks with
  | done => simp
  | next pointer header isHeader fits advanced onward ih =>
    intro tlv member
    obtain ⟨atLeast, _⟩ := getTlvHeader_bounds isHeader
    have farther := header.next_ge pointer
    obtain rfl | member := mem_cons.mp member
    · exact ⟨Nat.le_refl _, atLeast⟩
    · obtain ⟨beyond, size⟩ := ih tlv member
      exact ⟨by omega, size⟩

theorem Walks.head {tlv : DecodedTlv} (isHead : tlvs[0]? = some tlv) :
    ∃ header, getTlvHeader derBytes pointer = .ok header ∧
      pointer + header.headerLength + header.length ≤ derBytes.length ∧
      tlv = header.tlv derBytes pointer levels.depth := by
  cases walks with
  | done => cases isHead
  | next _ header isHeader fits => exact ⟨header, isHeader, fits, (Option.some.inj isHead).symm⟩

theorem Walks.deep : tlvs.Pairwise fun tlv later =>
    tlv.depth = 5 → tlv.start + tlv.headerLength + tlv.length ≤ later.start := by
  induction walks with
  | done => exact .nil
  | next pointer header isHeader fits advanced onward ih =>
    refine pairwise_cons.mpr ⟨?_, ih⟩
    intro later member deep
    obtain ⟨beyond, _⟩ := onward.bounds later member
    have isPrimitive : header.tag.isConstructed = false := by
      obtain ⟨_, ⟨_, entering⟩ | ⟨isPrimitive, _⟩, _⟩ := (Levels.advance_eq_ok _ _ _ _ _).mp advanced
      · obtain ⟨shallow, _⟩ := (Levels.enter_eq_ok _ _ _).mp entering
        exact absurd deep (Nat.ne_of_lt shallow)
      · exact isPrimitive
    rw [Header.next, isPrimitive] at beyond
    exact beyond

theorem Walks.lossless : tlvs.flatMap DecodedTlv.ownBytes = derBytes.drop pointer := by
  induction walks with
  | done beyond => exact (drop_eq_nil_of_le beyond).symm
  | next pointer header _ _ _ _ ih =>
    rw [flatMap_cons, ih, DecodedTlv.ownBytes, Header.next]
    cases kind : header.tag.isConstructed <;> simp only [Header.tlv, kind, slice, Bool.false_eq_true, if_false, if_true]
    · rw [Nat.add_assoc, ← drop_drop, take_append_drop]
    · rw [take_take, Nat.min_eq_left (Nat.le_add_right _ _), ← drop_drop, take_append_drop]

end

/-- The elements hold every byte from the pointer on once, in order. -/
theorem parseDER_lossless {derBytes : ByteString} {pointer tlvLength : ℕ} {tlvs : List DecodedTlv}
    (parsed : parseDER derBytes pointer tlvLength = .ok tlvs) :
    tlvs.flatMap DecodedTlv.ownBytes = derBytes.drop pointer := by
  obtain ⟨walked, isWalked, isResult⟩ := (bind_eq_ok _ _ _).mp parsed
  obtain rfl := (pure_eq_ok _ _).mp isResult
  have blank : DecodedTlv.blank.ownBytes = [] := rfl
  simp [blank, (walks_of_walkFrom isWalked).lossless]

theorem parseDER_lossless_sample : ∃ tlvs, parseDER [0x30, 3, 2, 1, 5] 0 4 = .ok tlvs ∧
    tlvs.flatMap DecodedTlv.ownBytes = [0x30, 3, 2, 1, 5] := by
  obtain ⟨tlvs, parsed⟩ : ∃ tlvs, parseDER [0x30, 3, 2, 1, 5] 0 4 = .ok tlvs := ⟨_, rfl⟩
  exact ⟨tlvs, parsed, parseDER_lossless parsed⟩

section

variable {front signed back : ByteString}

theorem Header.next_add (header : Header) (origin offset : ℕ) :
    header.next (origin + offset) = origin + header.next offset := by
  simp only [Header.next]
  split <;> omega

theorem sameTlv_inside {header : Header} {offset depth : ℕ} (positive : 0 < header.headerLength)
    (fits : offset + header.headerLength ≤ signed.length) :
    SameTlv front.length signed.length (header.tlv (front ++ signed ++ back) (front.length + offset) depth)
      (header.tlv signed offset depth) := by
  constructor
  · rfl
  · rfl
  · rfl
  · rfl
  · rfl
  · exact fits
  · have size : header.headerLength + header.length ≠ 0 := by omega
    simp only [Header.tlv, slice, List.head?_take, if_neg size, List.head?_drop]
    exact getElem?_inside (by omega)
  · intro inside
    simp only [Header.tlv] at inside ⊢
    rw [Nat.add_assoc, slice_inside (by omega), slice_inside (by omega)]
    exact ⟨rfl, rfl⟩

section

variable {fuel offset : ℕ} {part later : Levels} {header : Header}

theorem signedFrom_last (isHeader : getTlvHeader signed offset = .ok header)
    (outside : signed.length ≤ header.next offset) :
    signedFrom signed (fuel + 1) offset part = [header.tlv signed offset part.depth] := by
  simp only [signedFrom, isHeader, if_neg (Nat.not_lt.mpr outside)]
  cases part.advance header.tag header.length (header.next offset) with
  | error reason => rfl
  | ok later => rfl

theorem signedFrom_cut (isHeader : getTlvHeader (front ++ signed ++ back) (front.length + offset) = .ok header)
    (cut : signed.length < offset + header.headerLength) : signedFrom signed fuel offset part = [] := by
  cases fuel with
  | zero => rfl
  | succ fuel =>
    rw [signedFrom]
    cases read : getTlvHeader signed offset with
    | error reason => rfl
    | ok other =>
      obtain ⟨_, otherInside⟩ := getTlvHeader_bounds read
      rw [← @getTlvHeader_inside front signed back _ _ otherInside, isHeader] at read
      obtain rfl := Except.ok.inj read
      omega

end

theorem Walks.part {pointer : ℕ} {whole : Levels} {tlvs : List DecodedTlv}
    (walks : Walks (front ++ signed ++ back) pointer whole tlvs) : ∀ {fuel offset : ℕ} {part : Levels},
    pointer = front.length + offset → Shifted front.length signed.length whole part →
    offset < signed.length → signed.length ≤ offset + fuel →
    ∃ inner outer, tlvs = inner ++ outer ∧
      List.Forall₂ (SameTlv front.length signed.length) inner (signedFrom signed fuel offset part) ∧
      ∀ tlv ∈ outer, front.length + signed.length < tlv.start + tlv.headerLength := by
  induction walks with
  | done beyond =>
    rintro fuel offset part rfl shifted inside enough
    simp only [length_append] at beyond
    omega
  | next pointer header isHeader fits advanced onward ih =>
    rintro fuel offset part rfl shifted inside enough
    obtain ⟨atLeast, _⟩ := getTlvHeader_bounds isHeader
    have farther := header.next_ge offset
    rw [Header.next_add] at advanced onward ih
    by_cases headerInside : offset + header.headerLength ≤ signed.length
    · have partHeader := (getTlvHeader_inside headerInside).mp isHeader
      rw [shifted.depth]
      have same := @sameTlv_inside front signed back header offset part.depth (by omega) headerInside
      obtain ⟨fuel, rfl⟩ := Nat.exists_eq_add_one.mpr (show 0 < fuel by omega)
      by_cases nextInside : header.next offset < signed.length
      · obtain ⟨partLater, partAdvanced, shifted⟩ := shifted.advance (by omega) nextInside advanced
        simp only [signedFrom, partHeader, partAdvanced, if_pos nextInside]
        obtain ⟨inner, outer, rfl, pairs, outside⟩ := @ih fuel _ _ rfl shifted nextInside (by omega)
        exact ⟨_ :: inner, outer, rfl, .cons same pairs, outside⟩
      · rw [signedFrom_last partHeader (Nat.not_lt.mp nextInside)]
        refine ⟨[_], _, rfl, .cons same .nil, ?_⟩
        intro tlv member
        obtain ⟨beyond, size⟩ := onward.bounds tlv member
        omega
    · rw [signedFrom_cut isHeader (Nat.not_le.mp headerInside)]
      refine ⟨[], _, rfl, .nil, ?_⟩
      intro tlv member
      obtain rfl | member := mem_cons.mp member
      · simp only [Header.tlv]
        omega
      · obtain ⟨beyond, size⟩ := onward.bounds tlv member
        omega

end

end Nightfall.X509
