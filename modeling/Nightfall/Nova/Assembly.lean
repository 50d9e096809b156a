import Mathlib.Algebra.Field.ZMod
import Nightfall.Nova.Committee

/-! How the proposer puts the shares of the committee together
(`assemble_committee_signature`), and that the contract accepts the result. -/

namespace Nightfall.Nova

open Bytes Contract Pairing Revert
open List hiding Vector

variable {G1 G2 GT : Type} [AddCommGroup G1] [AddCommGroup G2] [AddCommGroup GT] (bitmap : Vector UInt8 32)
  (point : ZMod 3)

abbrev Share := { bytes : ByteString // bytes.length = 256 }

section

variable (curve : Curve G1 G2 GT)

def Curve.toShare (point : G2) : Share := ⟨curve.g2.encode point, curve.g2.encode_length point⟩

def p2From256 (bytes : Share) : Except String G2 :=
  match curve.g2.decode bytes.val with
  | some point => .ok point
  | none => .error "BLS point not in the prime-order subgroup"

def addSignatures : G2 → List Share → Except String G2
  | sum, [] => .ok sum
  | sum, share :: rest => do
      let point ← p2From256 curve share
      addSignatures (sum + point) rest

def aggregateSignatures : List Share → Except String Share
  | [] => .error "empty input to BLS aggregation"
  | first :: rest => do
      let start ← p2From256 curve first
      let sum ← addSignatures curve start rest
      return curve.toShare sum

end

theorem slot_lt (index : ℕ) : 31 - index / 8 < 32 := by omega

def setBit (index : ℕ) : Vector UInt8 32 :=
  bitmap.set (31 - index / 8)
    (bitmap.get ⟨31 - index / 8, slot_lt index⟩ ||| 1 <<< UInt8.ofNat (index % 8)) (slot_lt index)

def markSigners : Vector UInt8 32 → List (ℕ × Share) → Except String (Vector UInt8 32)
  | bitmap, [] => .ok bitmap
  | bitmap, entry :: rest => do
      require (entry.1 < 256) ("committee signer index " ++ toString entry.1 ++ " out of range")
      markSigners (setBit bitmap entry.1) rest

def assembleCommitteeSignature (curve : Curve G1 G2 GT) (shares : List (ℕ × Share))
    (threshold : ℕ) : Except String (Share × Vector UInt8 32) := do
  require (threshold ≤ shares.length) ("committee attestation refused: collected " ++
    toString shares.length ++ " shares < threshold " ++ toString threshold)
  let sigma ← (aggregateSignatures curve (shares.map Prod.snd)).mapError
    ("aggregating committee signature shares: " ++ ·)
  let bitmap ← markSigners (Vector.replicate 32 0) shares
  return (sigma, bitmap)

def bitmapWord : Word := BitVec.ofNat 256 (beNat bitmap.toList)

theorem bitmapWord_toNat : (bitmapWord bitmap).toNat = beNat bitmap.toList := by
  have small := beNat_lt bitmap.toList
  rw [bitmapWord, BitVec.toNat_ofNat, Nat.mod_eq_of_lt]
  simpa [← Nat.pow_mul] using small

theorem bitmapWord_testBit {index : ℕ} (inside : index < 256) : (bitmapWord bitmap).toNat.testBit index =
      (bitmap.get ⟨31 - index / 8, slot_lt index⟩).toNat.testBit (index % 8) := by
  rw [bitmapWord_toNat]
  apply beNat_testBit
  · rw [Vector.length_toList]
    omega
  · rw [Vector.length_toList, Vector.getElem?_toList]
    exact Vector.getElem?_eq_getElem (slot_lt index)

theorem oneBit : ∀ shift < 8, ∀ bit < 8,
    ((1 : UInt8) <<< UInt8.ofNat shift).toNat.testBit bit = decide (bit = shift) := by
  decide

theorem setBit_testBit {index other : ℕ} (inside : index < 256) (otherInside : other < 256) :
    (bitmapWord (setBit bitmap index)).toNat.testBit other =
      (decide (other = index) || (bitmapWord bitmap).toNat.testBit other) := by
  rw [bitmapWord_testBit _ otherInside, bitmapWord_testBit _ otherInside]
  by_cases sameSlot : other / 8 = index / 8
  · have written : (setBit bitmap index).get ⟨31 - other / 8, slot_lt other⟩ =
        bitmap.get ⟨31 - other / 8, slot_lt other⟩ ||| 1 <<< UInt8.ofNat (index % 8) := by
      simp only [sameSlot]
      exact Vector.getElem_set_self _
    have sameIndex : (other % 8 = index % 8) ↔ other = index := by omega
    rw [written, UInt8.toNat_or, Nat.testBit_or, oneBit _ (Nat.mod_lt _ (by decide)) _
      (Nat.mod_lt _ (by decide)), Bool.or_comm, decide_eq_decide.mpr sameIndex]
  · have kept : (setBit bitmap index).get ⟨31 - other / 8, slot_lt other⟩ =
        bitmap.get ⟨31 - other / 8, slot_lt other⟩ :=
      Vector.getElem_set_ne _ _ (by omega)
    have different : other ≠ index := by
      rintro rfl
      exact sameSlot rfl
    rw [kept, decide_eq_false different, Bool.false_or]

theorem markSigners_eq_ok (shares : List (ℕ × Share)) (inside : ∀ entry ∈ shares, entry.1 < 256) :
    ∀ bitmap, ∃ marked, markSigners bitmap shares = .ok marked ∧ ∀ index < 256,
      (bitmapWord marked).toNat.testBit index =
        (decide (index ∈ shares.map Prod.fst) || (bitmapWord bitmap).toNat.testBit index) := by
  induction shares with
  | nil => exact fun bitmap => ⟨bitmap, rfl, by simp⟩
  | cons entry rest ih =>
    intro bitmap
    have here := inside entry mem_cons_self
    obtain ⟨marked, isMarked, bits⟩ := ih (fun other member =>
      inside other (mem_cons_of_mem _ member)) (setBit bitmap entry.1)
    refine ⟨marked, ?_, ?_⟩
    · simp only [markSigners, bind_eq_ok, require_eq_ok]
      exact ⟨(), here, isMarked⟩
    · intro index small
      rw [bits index small, setBit_testBit bitmap here small, ← Bool.or_assoc]
      congr 1
      rw [map_cons, decide_eq_decide.mpr mem_cons, Bool.decide_or, Bool.or_comm]

section

variable (curve : Curve G1 G2 GT) (keys : List G1) (digest : Word)

def ValidShare (entry : ℕ × Share) : Prop :=
  ∃ key, keys[entry.1]? = some key ∧ entry.2 = curve.toShare (curve.share digest key)

def shareKeys (shares : List (ℕ × Share)) : List G1 :=
  (shares.map Prod.fst).filterMap fun index => keys[index]?

theorem p2From256_toShare (point : G2) : p2From256 curve (curve.toShare point) = .ok point := by
  simp [p2From256, Curve.toShare, curve.g2.decode_encode]

variable {curve keys digest}

theorem addSignatures_eq_ok (shares : List (ℕ × Share))
    (valid : ∀ entry ∈ shares, ValidShare curve keys digest entry) :
    ∀ start, addSignatures curve start (shares.map Prod.snd) =
      .ok (start + ((shareKeys keys shares).map (curve.share digest)).sum) := by
  induction shares with
  | nil => simp [addSignatures, shareKeys]
  | cons entry rest ih =>
    intro start
    obtain ⟨key, isKey, isShare⟩ := valid entry mem_cons_self
    have later := ih fun other member => valid other (mem_cons_of_mem _ member)
    have chosen : shareKeys keys (entry :: rest) = key :: shareKeys keys rest := by
      simp [shareKeys, isKey]
    rw [map_cons, addSignatures, isShare, p2From256_toShare, chosen, map_cons, sum_cons, ← add_assoc]
    exact later _

theorem aggregateSignatures_eq_ok {shares : List (ℕ × Share)} (nonempty : shares ≠ [])
    (valid : ∀ entry ∈ shares, ValidShare curve keys digest entry) : aggregateSignatures curve (shares.map Prod.snd) =
      .ok (curve.toShare ((shareKeys keys shares).map (curve.share digest)).sum) := by
  have fromZero := addSignatures_eq_ok shares valid 0
  cases shares with
  | nil => exact absurd rfl nonempty
  | cons entry rest =>
    rw [zero_add, map_cons, addSignatures, bind_eq_ok] at fromZero
    obtain ⟨point, isPoint, summed⟩ := fromZero
    rw [zero_add] at summed
    simp only [map_cons, aggregateSignatures, bind_eq_ok, pure_eq_ok]
    exact ⟨point, isPoint, _, summed, rfl⟩

end

section

variable [DecidableEq GT] {curve : Curve G1 G2 GT} {chain : Chain}

theorem assembled_accepted (serves : curve.Serves chain) (verifier : NovaCommitteeVerifier) {keys : List G1}
    (registered : verifier.pubkeys = keys.map curve.g1.encode) (configured : verifier.threshold ≠ 0) (digest : Word)
    {shares : List (ℕ × Share)} (distinct : (shares.map Prod.fst).Nodup) (inside : ∀ entry ∈ shares, entry.1 < 256)
    (valid : ∀ entry ∈ shares, ValidShare curve keys digest entry) (enough : verifier.threshold ≤ shares.length) :
    ∃ sigma bitmap, assembleCommitteeSignature curve shares verifier.threshold = .ok (sigma, bitmap) ∧
      verifier.verifyDigest chain digest sigma.val (bitmapWord bitmap) = some true ∧
      ∀ index, index ∈ shares.map Prod.fst ↔
        index < keys.length ∧ (bitmapWord bitmap).toNat.testBit index = true := by
  have member : ∀ index ∈ shares.map Prod.fst, index < keys.length := by
    intro index listed
    obtain ⟨entry, isEntry, rfl⟩ := mem_map.mp listed
    obtain ⟨key, isKey, _⟩ := valid entry isEntry
    exact (List.getElem?_eq_some_iff.mp isKey).1
  have nonempty : shares ≠ [] := by
    rintro rfl
    exact configured (Nat.le_zero.mp enough)
  obtain ⟨bitmap, isBitmap, bits⟩ := markSigners_eq_ok shares inside (Vector.replicate 32 0)
  have marked : ∀ index, (bitmapWord bitmap).toNat.testBit index = decide (index ∈ shares.map Prod.fst) := by
    intro index
    by_cases small : index < 256
    · have zero : (bitmapWord (Vector.replicate 32 0)).toNat = 0 := by decide
      rw [bits index small, zero, Nat.zero_testBit, Bool.or_false]
    · rw [Nat.testBit_lt_two_pow (Nat.lt_of_lt_of_le (BitVec.isLt _)
        (Nat.pow_le_pow_right (by decide) (Nat.not_lt.mp small)))]
      symm
      rw [decide_eq_false_iff_not]
      intro listed
      obtain ⟨entry, isEntry, rfl⟩ := mem_map.mp listed
      exact small (inside entry isEntry)
  have members : ∀ index, index ∈ shares.map Prod.fst ↔
      index < keys.length ∧ (bitmapWord bitmap).toNat.testBit index = true := by
    intro index
    rw [marked, decide_eq_true_eq]
    exact ⟨fun listed => ⟨member index listed, listed⟩, fun both => both.2⟩
  refine ⟨curve.toShare ((shareKeys keys shares).map (curve.share digest)).sum, bitmap, ?_, ?_, members⟩
  · simp only [assembleCommitteeSignature, bind_eq_ok, require_eq_ok, pure_eq_ok, mapError_eq_ok]
    exact ⟨(), enough, _, aggregateSignatures_eq_ok nonempty valid, bitmap, isBitmap, rfl⟩
  · have chosen : (shareKeys keys shares).Perm (selected (bitmapWord bitmap).toNat keys) :=
      selected_perm _ keys distinct members
    refine (verifyDigest_eq_true serves verifier registered digest _ _).mpr ⟨configured, ?_, ?_, ?_, ?_⟩
    · intro zero
      obtain ⟨entry, rest, rfl⟩ := exists_cons_of_ne_nil nonempty
      have set := ((members entry.1).mp (by simp)).2
      rw [zero] at set
      simp at set
    · intro _
      rw [Nat.shiftRight_eq_div_pow, Nat.div_eq_of_lt]
      apply Nat.lt_pow_two_of_testBit
      intro index large
      rw [marked, decide_eq_false_iff_not]
      intro listed
      have := member index listed
      omega
    · rw [selected_length _ keys distinct members, length_map]
      exact enough
    · rw [Curve.toShare, (chosen.map _).sum_eq]

/-- One share for each signing member, in any order, reaches the contract as an accepted
signature; fewer than the threshold are refused before. -/
theorem committee_signature_accepted (serves : curve.Serves chain) (self : Address)
    (keys : List G1) (few : keys.length ≤ 256) (threshold : ℕ) (preimage : ByteString) (shares : List (ℕ × Share)) :
    ((shares.map Prod.fst).Nodup → (∀ entry ∈ shares, ValidShare curve keys (chain.keccak256 preimage) entry) →
      1 ≤ threshold → threshold ≤ shares.length →
      ∃ sigma bitmap, assembleCommitteeSignature curve shares threshold = .ok (sigma, bitmap) ∧
        NovaCommitteeVerifier.verifyDigest chain ⟨self, keys.map curve.g1.encode, threshold⟩
          (chain.keccak256 preimage) sigma.val (bitmapWord bitmap) = some true) ∧
    (shares.length < threshold → ∃ reason, assembleCommitteeSignature curve shares threshold = .error reason) := by
  constructor
  · intro distinct valid configured enough
    have inside : ∀ entry ∈ shares, entry.1 < 256 := by
      intro entry member
      obtain ⟨key, isKey, _⟩ := valid entry member
      have bound := (List.getElem?_eq_some_iff.mp isKey).1
      omega
    obtain ⟨sigma, bitmap, assembled, accepted, _⟩ := assembled_accepted serves
      ⟨self, keys.map curve.g1.encode, threshold⟩ rfl (Nat.one_le_iff_ne_zero.mp configured)
      (chain.keccak256 preimage) distinct inside valid enough
    exact ⟨sigma, bitmap, assembled, accepted⟩
  · intro tooFew
    cases outcome : assembleCommitteeSignature curve shares threshold with
    | error reason => exact ⟨reason, rfl⟩
    | ok pair =>
      simp only [assembleCommitteeSignature, bind_eq_ok, require_eq_ok] at outcome
      omega

end

def smallG1 : ByteString :=
  if point = 2 then negG1 else List.replicate 127 0 ++ [UInt8.ofNat point.val]

def smallG2 : ByteString := List.replicate 255 0 ++ [UInt8.ofNat point.val]

def findPoint (encode : ZMod 3 → ByteString) (bytes : ByteString) : Option (ZMod 3) :=
  [0, 1, 2].find? fun point => encode point = bytes

theorem encode_findPoint (encode : ZMod 3 → ByteString) (bytes : ByteString) (point : ZMod 3)
    (found : findPoint encode bytes = some point) : encode point = bytes := by
  simpa using List.find?_some found

theorem smallG1_length : (smallG1 point).length = 128 := by
  rw [smallG1]
  split
  · exact beBytes_length 128 _
  · rw [length_append, length_replicate, length_singleton]

theorem smallG2_length : (smallG2 point).length = 256 := by
  rw [smallG2, length_append, length_replicate, length_singleton]

theorem findPoint_smallG1 : ∀ point, findPoint smallG1 (smallG1 point) = some point := by
  decide +kernel

theorem findPoint_smallG2 : ∀ point, findPoint smallG2 (smallG2 point) = some point := by
  decide +kernel

theorem small_generates (key : ZMod 3) : ∃ secret : ℤ, key = secret • 1 :=
  ⟨key.val, by simp⟩

theorem small_nondegenerate (signature : ZMod 3) (zero : AddMonoidHom.mul 1 signature = 0) : signature = 0 := by
  simpa using zero

theorem smallG1_negated : smallG1 (-1) = negG1 := if_pos (by decide)

def smallCurve : Curve (ZMod 3) (ZMod 3) (ZMod 3) where
  pair := AddMonoidHom.mul
  generator := 1
  generates := small_generates
  nondegenerate := small_nondegenerate
  g1 := ⟨smallG1, findPoint smallG1, smallG1_length, findPoint_smallG1, encode_findPoint smallG1⟩
  g2 := ⟨smallG2, findPoint smallG2, smallG2_length, findPoint_smallG2, encode_findPoint smallG2⟩
  hash := fun _ _ => 1
  negG1_encoded := smallG1_negated

def smallChain : Chain where
  sha256 := fun _ => 0
  keccak256 := fun _ => 0
  chainId := 31337
  tryRecover := fun _ _ => none
  g1Add := fun left right => do
    let first ← findPoint smallG1 left
    let second ← findPoint smallG1 right
    return smallG1 (first + second)
  hashToG2 := fun _ _ => some (smallG2 1)
  pairing := productCheck smallCurve.g1 smallCurve.g2 smallCurve.toBilinear

theorem smallCurve_serves : smallCurve.Serves smallChain where
  adds := by
    intro left right
    simp [smallChain, smallCurve, findPoint_smallG1]
  hashes := fun _ _ _ => rfl
  pairs := fun _ => rfl

theorem smallCurve_share (digest : Word) (key : ZMod 3) : smallCurve.share digest key = key := by
  symm
  refine (smallCurve.signs_iff key _ key).mp ?_
  simp [Pairing.Bilinear.Signs, smallCurve, Curve.digestPoint]

theorem committee_signature_accepted_sample : ∃ sigma bitmap, assembleCommitteeSignature smallCurve
        [(1, smallCurve.toShare 2), (0, smallCurve.toShare 1)] 2 = .ok (sigma, bitmap) ∧
      NovaCommitteeVerifier.verifyDigest smallChain ⟨7, [1, 2].map smallCurve.g1.encode, 2⟩
        (smallChain.keccak256 []) sigma.val (bitmapWord bitmap) = some true := by
  refine (committee_signature_accepted smallCurve_serves 7 [1, 2] (by decide) 2 [] _).1 (by simp) ?_
    (by decide) (by simp)
  intro entry member
  simp only [mem_cons, not_mem_nil, or_false] at member
  obtain rfl | rfl := member
  · exact ⟨2, rfl, by rw [smallCurve_share]⟩
  · exact ⟨1, rfl, by rw [smallCurve_share]⟩

/-- With the threshold at zero the share of a member is assembled and then refused; and the
count of shares is not a count of members when one of them is listed twice. -/
theorem zero_threshold_refused : ValidShare smallCurve [1] (smallChain.keccak256 []) (0, smallCurve.toShare 1) ∧
    (∃ sigma bitmap, assembleCommitteeSignature smallCurve [(0, smallCurve.toShare 1)] 0 = .ok (sigma, bitmap) ∧
      NovaCommitteeVerifier.verifyDigest smallChain ⟨7, [1].map smallCurve.g1.encode, 0⟩
        (smallChain.keccak256 []) sigma.val (bitmapWord bitmap) = some false) ∧
    ∃ pair, assembleCommitteeSignature smallCurve
      [(0, smallCurve.toShare 1), (0, smallCurve.toShare 1)] 2 = .ok pair := by
  refine ⟨⟨1, rfl, by rw [smallCurve_share]⟩, ?_, ?_⟩
  · refine ⟨smallCurve.toShare 1, setBit (Vector.replicate 32 0) 0, ?_, rfl⟩
    simp only [assembleCommitteeSignature, map_cons, map_nil, aggregateSignatures,
      addSignatures, p2From256_toShare, markSigners]
    rfl
  · refine ⟨(smallCurve.toShare (1 + 1), setBit (setBit (Vector.replicate 32 0) 0) 0), ?_⟩
    simp only [assembleCommitteeSignature, map_cons, map_nil, aggregateSignatures,
      addSignatures, p2From256_toShare, markSigners]
    rfl

end Nightfall.Nova
