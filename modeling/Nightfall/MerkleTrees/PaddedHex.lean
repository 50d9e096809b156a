import Mathlib.Data.List.MinMax
import Mathlib.Data.String.Basic
import Nightfall.Field
import Nightfall.Library.Hex
import Nightfall.MerkleTrees.Indexed

/-! The padded hexadecimal text under which a leaf is stored, and the query for the low leaf, which
compares such texts. -/

namespace Nightfall.MerkleTrees

open Bytes List

def bytesToHexLpadded (bytes : List UInt8) (maxBytes : ℕ) : List Char :=
  (Hex.encode bytes).leftpad (maxBytes * 2) '0'

def serializeFrPadded (a : Fr254) : String :=
  .ofList (bytesToHexLpadded (leBytes 32 a.val).reverse 32)

/-- Reading a field element from little-endian bytes with validation. -/
def frFromBytes (bytes : List UInt8) : Except String Fr254 :=
  if bytes.length < 32 then .error "failed to fill whole buffer"
  else if fr254Modulus ≤ leNat (bytes.take 32) then .error "the input buffer contained invalid data"
  else .ok (leNat (bytes.take 32) : ℕ)

def deserializeFrPadded (text : String) : Except String Fr254 := do
  let bytes ← Hex.decode text.toList
  let unpaddedBytes := if 32 < bytes.length then bytes.drop (bytes.length - 32) else bytes
  frFromBytes unpaddedBytes.reverse

theorem serializeFrPadded_toList (a : Fr254) : (serializeFrPadded a).toList = Hex.encode (beBytes 32 a.val) := by
  simp [serializeFrPadded, bytesToHexLpadded, leBytes, leftpad, Hex.encode_length]

theorem serializeFrPadded_lt (a b : Fr254) : serializeFrPadded a < serializeFrPadded b ↔ a.val < b.val := by
  have fits (x : Fr254) : x.val < 256 ^ 32 := (ZMod.val_lt x).trans (by decide)
  rw [String.lt_iff_toList_lt, serializeFrPadded_toList, serializeFrPadded_toList, Hex.encode_lt (by simp),
    beNat_beBytes, beNat_beBytes, Nat.mod_eq_of_lt (fits a), Nat.mod_eq_of_lt (fits b)]

theorem deserializeFrPadded_serialize (a : Fr254) : deserializeFrPadded (serializeFrPadded a) = .ok a := by
  have fits : a.val < 256 ^ 32 := (ZMod.val_lt a).trans (by decide)
  rw [deserializeFrPadded, serializeFrPadded_toList, Hex.decode_encode]
  simp only [bind, Except.bind]
  rw [beBytes_length, if_neg (by decide), frFromBytes, length_reverse, beBytes_length, if_neg (by decide),
    take_of_length_le (by simp), leNat, reverse_reverse, beNat_beBytes, Nat.mod_eq_of_lt fits,
    if_neg (Nat.not_le.mpr (ZMod.val_lt a)), ZMod.natCast_zmod_val]

/-- The query of `get_low_leaf`, on the texts under which the values are stored. -/
def lowLeafQuery (leaves : List (IndexedLeaf Fr254)) (leafValue : Fr254) : Option (IndexedLeaf Fr254) :=
  (leaves.filter fun leaf => serializeFrPadded leaf.value < serializeFrPadded leafValue).argmax
    fun leaf => serializeFrPadded leaf.value

/-- The stored texts are ordered as the integers, so the query finds the predecessor. -/
theorem serializeFrPadded_orders : (∀ a b : Fr254, a.val < b.val ↔ serializeFrPadded a < serializeFrPadded b) ∧
      (∀ a, deserializeFrPadded (serializeFrPadded a) = .ok a) ∧
      ∀ (leaves : List (IndexedLeaf Fr254)) (x : Fr254),
        (∀ low, lowLeafQuery leaves x = some low → low ∈ leaves ∧ low.value.val < x.val ∧
          ∀ leaf ∈ leaves, leaf.value.val < x.val → leaf.value.val ≤ low.value.val) ∧
        (lowLeafQuery leaves x = none → ∀ leaf ∈ leaves, ¬leaf.value.val < x.val) := by
  refine ⟨fun a b => (serializeFrPadded_lt a b).symm, deserializeFrPadded_serialize, fun leaves x => ?_⟩
  have below (leaf : IndexedLeaf Fr254) : leaf ∈ leaves.filter (fun leaf =>
      serializeFrPadded leaf.value < serializeFrPadded x) ↔ leaf ∈ leaves ∧ leaf.value.val < x.val := by
    rw [mem_filter, decide_eq_true_iff, serializeFrPadded_lt]
  refine ⟨fun low found => ?_, fun none leaf member less => ?_⟩
  · obtain ⟨stored, less⟩ := (below low).mp (argmax_mem found)
    refine ⟨stored, less, fun leaf member lower => Nat.not_lt.mp fun higher => ?_⟩
    exact not_lt_of_mem_argmax ((below leaf).mpr ⟨member, lower⟩) found ((serializeFrPadded_lt _ _).mpr higher)
  · rw [lowLeafQuery, argmax_eq_none] at none
    exact not_mem_nil (none ▸ (below leaf).mpr ⟨member, less⟩)

end Nightfall.MerkleTrees
