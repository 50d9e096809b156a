import Nightfall.Library.Hex
import Nightfall.Noir.BabyJubJub

/-! The public keys of a transfer or swap request: hexadecimal text, read as a compressed curve point
without validation. -/

namespace Nightfall.Client

open Noir Revert Bytes

abbrev JubJub := babyJubJub.Group

/-- Decompression without validation; a curve point, if anything. -/
abbrev Decompress := List UInt8 → Except String JubJub

def fromHexString (hexStr : List Char) : Except String (List UInt8) := do
  let digits := if ['0', 'x'].isPrefixOf hexStr then hexStr.drop 2 else hexStr
  require ((String.ofList digits).utf8ByteSize % 2 = 0 ∧ digits ≠ []) "Invalid string length"
  (Hex.decode digits).mapError fun _ => "Invalid string"

variable (decompress : Decompress)

def arkDeHex (hexStr : List Char) : Except String JubJub := do
  let bytes ← fromHexString hexStr
  decompress bytes.reverse

/-- The key between quotes as JSON: quotes, backslashes and control characters do not pass. -/
def publicKeyFromJson (key : String) : Except String JubJub := do
  require (key.toList.all fun letter => letter.toNat ≠ 34 ∧ letter.toNat ≠ 92 ∧ 32 ≤ letter.toNat)
    "not a borrowed string"
  arkDeHex decompress key.toList

/-- The recipient key of `handle_transfer`. -/
def recipientKey (keys : List String) : Except String JubJub := do
  let firstKey ← keys.head?.elim (.error "missing recipient public key") .ok
  let key ← (publicKeyFromJson decompress firstKey).mapError ("Could not deserialize recipient public key: " ++ ·)
  require (key.point ≠ identity) "Recipient public key cannot be the identity point"
  return key

/-- The party keys of `handle_swap`, with the client's role. -/
def partyKeys (zkpPublicKey : JubJub) (partyA partyB : String) : Except String (JubJub × JubJub) := do
  let a ← (publicKeyFromJson decompress partyA).mapError ("Could not deserialize party A public key: " ++ ·)
  let b ← (publicKeyFromJson decompress partyB).mapError ("Could not deserialize party B public key: " ++ ·)
  let isPartyA := zkpPublicKey.point = a.point
  let isPartyB := zkpPublicKey.point = b.point
  require (isPartyA ∨ isPartyB) "My public key doesn't match party A or party B"
  require (¬ (isPartyA ∧ isPartyB)) "Party A and party B cannot be the same"
  return (a, b)

/-- A point of the prime-order subgroup other than the identity. -/
def Sound (key : JubJub) : Prop := subgroupOrder • key = 0 ∧ key ≠ 0

/-- A key that passes is sound if it is in the subgroup; in a swap the other party's
key must also not be the identity. -/
theorem accepted_keys_sound_iff : (∀ keys recipient, recipientKey decompress keys = .ok recipient →
      (Sound recipient ↔ subgroupOrder • recipient = 0)) ∧
    ∀ own partyA partyB a b, Sound own → partyKeys decompress own partyA partyB = .ok (a, b) →
      (own = a ∧ (Sound a ∧ Sound b ↔ Sound b)) ∨ (own = b ∧ (Sound a ∧ Sound b ↔ Sound a)) := by
  constructor
  · intro keys recipient accepted
    simp only [recipientKey, bind_eq_ok, require_eq_ok, pure_eq_ok] at accepted
    obtain ⟨_, _, key, _, _, other, rfl⟩ := accepted
    have nonzero : key ≠ 0 := fun zero => other (congrArg _ zero)
    exact and_iff_left nonzero
  · intro own partyA partyB a b sound accepted
    simp only [partyKeys, bind_eq_ok, require_eq_ok, pure_eq_ok, Prod.mk.injEq] at accepted
    obtain ⟨_, _, _, _, _, role, _, _, rfl, rfl⟩ := accepted
    obtain isA | isB := role
    · obtain rfl := Edwards.Curve.Group.ext isA
      exact .inl ⟨rfl, and_iff_right sound⟩
    · obtain rfl := Edwards.Curve.Group.ext isB
      exact .inr ⟨rfl, and_iff_left sound⟩

theorem lowOrder_onCurve : Edwards.OnCurve babyJubJub.d ⟨0, -1⟩ := by simp [Edwards.OnCurve]

/-- The point of order two. -/
def lowOrder : JubJub := ⟨⟨0, -1⟩, lowOrder_onCurve⟩

theorem lowOrder_unsound : ¬ Sound lowOrder := by
  rintro ⟨member, _⟩
  have twice : 2 • lowOrder = 0 := by
    rw [two_nsmul]
    apply Edwards.Curve.Group.ext
    apply Edwards.add_eq
    all_goals simp [lowOrder, Edwards.crossTerm, Edwards.neutral]
  have odd : subgroupOrder = 2 * (subgroupOrder / 2) + 1 := by decide
  rw [odd, add_nsmul, one_nsmul, mul_nsmul, twice, nsmul_zero, zero_add] at member
  have isOne : (-1 : Fr254) = 1 := congrArg (fun key : JubJub => key.point.y) member
  exact absurd isOne (by decide)

/-- The ordinates of the generator (with the sign of its abscissa), the identity and the point of order two. -/
def sampleDecompress : Decompress := fun bytes =>
  if leNat bytes = generator.y.val + 2 ^ 255 then .ok generatorPoint
  else if leNat bytes = 1 then .ok 0
  else if leNat bytes = fr254Modulus - 1 then .ok lowOrder
  else .error "the input buffer contained invalid data"

theorem unsound_keys_accepted : (recipientKey sampleDecompress
        ["30644e72e131a029b85045b68181585d2833e84879b9709143e1f593f0000000"] = .ok lowOrder ∧ ¬ Sound lowOrder) ∧
    partyKeys sampleDecompress generatorPoint "aaaa6c24a758209e90aced1f10277b762a7c1115dbc0e16ac276fc2c671a861f"
        "0000000000000000000000000000000000000000000000000000000000000001" = .ok (generatorPoint, 0) ∧ ¬ Sound 0 := by
  refine ⟨⟨rfl, lowOrder_unsound⟩, rfl, fun sound => sound.2 rfl⟩

end Nightfall.Client
