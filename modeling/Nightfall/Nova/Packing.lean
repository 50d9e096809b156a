import Nightfall.Nova.Retargeting
import Nightfall.Plonk.Rollup

/-! The proof bytes on their way through `recursive_prove` and `prove_block`, as field elements of 31 bytes each. -/

namespace Nightfall.Nova

open Bytes Contract List

/-- The 32-byte arrays of `recursive_prove`: a zero, a chunk of at most 31 bytes, and zeros. -/
def paddedChunks : ByteString → List ByteString
  | [] => []
  | byte :: rest => (0 :: byte :: (rest.take 30 ++ replicate (30 - rest.length) 0)) :: paddedChunks (rest.drop 30)
termination_by bytes => bytes.length
decreasing_by simp

def packElements (proofBytes : ByteString) : List Plonk.Fq254 :=
  (paddedChunks proofBytes).map fun padded => (beNat padded : ℕ)

def packProof (proofBytes : ByteString) : List Plonk.Fq254 :=
  if (packElements proofBytes).isEmpty then [0] else packElements proofBytes

def unpackProof (fqVec : List Plonk.Fq254) : ByteString := fqVec.flatMap fun fq => (beBytes 32 fq.val).drop 1

theorem val_padded {chunk : ByteString} (size : chunk.length = 31) :
    ((beNat (0 :: chunk) : ℕ) : Plonk.Fq254).val = beNat (0 :: chunk) ∧
      (beBytes 32 (beNat (0 :: chunk))).drop 1 = chunk := by
  have bound := beNat_lt chunk
  have isNat : beNat (0 :: chunk) = beNat chunk := by simp [beNat]
  have isBytes := beBytes_beNat (0 :: chunk)
  rw [length_cons, size] at isBytes
  refine ⟨?_, by rw [isBytes]; rfl⟩
  rw [isNat, ZMod.val_natCast_of_lt]
  rw [size] at bound
  exact bound.trans (by decide)

theorem packElements_unpacked (bytes : ByteString) :
    (∀ padded ∈ paddedChunks bytes, ((beNat padded : ℕ) : Plonk.Fq254).val = beNat padded) ∧
      ∃ k < 31, unpackProof (packElements bytes) = bytes ++ replicate k 0 := by
  induction bytes using paddedChunks.induct with
  | case1 => exact ⟨by simp [paddedChunks], 0, by decide, by simp [packElements, paddedChunks, unpackProof]⟩
  | case2 byte rest ih =>
    obtain ⟨whole, k, small, unpacked⟩ := ih
    have size : (byte :: (rest.take 30 ++ replicate (30 - rest.length) 0)).length = 31 := by
      simp
      omega
    obtain ⟨isVal, isChunk⟩ := val_padded size
    have first : unpackProof (packElements (byte :: rest)) = byte :: (rest.take 30 ++ replicate (30 - rest.length) 0) ++
        unpackProof (packElements (rest.drop 30)) := by
      rw [packElements, paddedChunks, map_cons, unpackProof, flatMap_cons, isVal, isChunk]
      rfl
    rw [paddedChunks, forall_mem_cons, first]
    refine ⟨⟨isVal, whole⟩, ?_⟩
    rcases le_total 30 rest.length with long | short
    · refine ⟨k, small, ?_⟩
      simp [unpacked, Nat.sub_eq_zero_of_le long, ← append_assoc]
    · refine ⟨30 - rest.length, by omega, ?_⟩
      simp [drop_eq_nil_of_le short, take_of_length_le short, packElements, paddedChunks, unpackProof]

theorem unpack_packProof (bytes : ByteString) :
    (∀ padded ∈ paddedChunks bytes, ((beNat padded : ℕ) : Plonk.Fq254).val = beNat padded) ∧
    (∃ k, unpackProof (packProof bytes) = bytes ++ replicate k 0 ∧ if bytes = [] then k = 31 else k < 31) ∧
    ∀ proof : NovaProof, NovaProof.deserialize (unpackProof (packProof proof.serialize)) = .ok proof := by
  have padded : ∀ bytes, ∃ k, unpackProof (packProof bytes) = bytes ++ replicate k 0 ∧
      if bytes = [] then k = 31 else k < 31 := by
    intro bytes
    obtain ⟨-, k, small, unpacked⟩ := packElements_unpacked bytes
    cases bytes with
    | nil => exact ⟨31, by simp [packProof, packElements, paddedChunks, unpackProof]; rfl, rfl⟩
    | cons byte rest =>
      refine ⟨k, ?_, by simpa using small⟩
      rw [← unpacked, packProof, if_neg (by simp [packElements, paddedChunks])]
  refine ⟨(packElements_unpacked bytes).1, padded bytes, fun proof => ?_⟩
  obtain ⟨k, unpacked, -⟩ := padded proof.serialize
  rw [unpacked]
  exact deserialize_append proof _

end Nightfall.Nova
