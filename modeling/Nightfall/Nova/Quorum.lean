import Nightfall.Nova.Assembly
import Nightfall.Nova.Attestation

/-! How many different keys stand behind a proof that the committee's verifier accepts. -/

namespace Nightfall.Nova

open Bytes Contract Pairing Revert
open List hiding Vector

variable {G1 G2 GT : Type} [AddCommGroup G1] [AddCommGroup G2] [AddCommGroup GT]
  [DecidableEq GT] (curve : Curve G1 G2 GT) (chain : Chain) (verifier : NovaCommitteeVerifier) (sigma : Share)
  (bitmap : Vector UInt8 32)

/-- The signature is the sum of the valid signatures of the marked keys, and there are as many
different ones among them as the threshold asks for. -/
def DistinctlySigned (digest : Word) (sigma : ByteString) (bitmap : Word) : Prop :=
  ∃ keys : List G1, verifier.signers bitmap = keys.map curve.g1.encode ∧
    sigma = curve.g2.encode (keys.map (curve.share digest)).sum ∧
    ∃ contributors : List G1, contributors.Nodup ∧ contributors ⊆ keys ∧ verifier.threshold ≤ contributors.length

def QuorumDistinct : Prop :=
  ∀ proof publicInputs, verifier.verifyProof chain proof publicInputs = .ok true →
    ∃ novaProof cursor, parseProof proof = some (novaProof, cursor) ∧ DistinctlySigned curve verifier
        (chain.keccak256 (attestPreimage chain verifier.self novaProof publicInputs))
        ((proof.drop cursor).take 256)
        (BitVec.ofNat 256 (beNat ((proof.drop (cursor + 256)).take 32)))

variable {curve chain}

theorem verifyProof_eq_true (proof : ByteString) (publicInputs : List Word) :
    verifier.verifyProof chain proof publicInputs = .ok true ↔
      publicInputs.length = 4 ∧ verifier.threshold ≠ 0 ∧ verifier.pubkeys.length ≠ 0 ∧
      ∃ novaProof cursor, parseProof proof = some (novaProof, cursor) ∧
        structuralBinding novaProof publicInputs = true ∧ cursor + 288 ≤ proof.length ∧ verifier.verifyDigest chain
          (chain.keccak256 (attestPreimage chain verifier.self novaProof publicInputs))
          ((proof.drop cursor).take 256)
          (BitVec.ofNat 256 (beNat ((proof.drop (cursor + 256)).take 32))) = some true := by
  rw [NovaCommitteeVerifier.verifyProof]
  by_cases sized : publicInputs.length = 4
  · rw [if_neg (not_not.mpr sized)]
    by_cases configured : verifier.threshold = 0 ∨ verifier.pubkeys.length = 0
    · rw [if_pos configured]
      refine iff_of_false (by simp) ?_
      rintro ⟨_, threshold, members, _⟩
      exact configured.elim threshold members
    · rw [if_neg configured]
      obtain ⟨threshold, members⟩ := not_or.mp configured
      cases parsed : parseProof proof with
      | none => simp
      | some found =>
        obtain ⟨novaProof, cursor⟩ := found
        simp only [sized, threshold, members, ne_eq, not_false_eq_true, true_and, Option.some.injEq, Prod.mk.injEq]
        by_cases bound : structuralBinding novaProof publicInputs = true
        · by_cases long : cursor + 288 ≤ proof.length
          · simp [bound, Nat.not_lt.mpr long, long, Option.getD_eq_iff]
          · simp [bound, Nat.not_le.mp long, long]
        · simp [bound]
  · rw [if_pos sized]
    exact iff_of_false (by simp) fun accepted => sized accepted.1

variable {verifier : NovaCommitteeVerifier} {keys : List G1}

theorem distinctlySigned_of_accepted (serves : curve.Serves chain)
    (registered : verifier.pubkeys = keys.map curve.g1.encode)
    (sound : verifier.threshold ≤ 1 ∨ min verifier.pubkeys.length 256 < verifier.threshold ∨
      (verifier.pubkeys.take 256).Nodup)
    {digest : Word} {sigma : ByteString} {bitmap : Word}
    (accepted : verifier.verifyDigest chain digest sigma bitmap = some true) :
    DistinctlySigned curve verifier digest sigma bitmap := by
  obtain ⟨configured, _, _, enough, signed⟩ :=
    (verifyDigest_eq_true serves verifier registered digest sigma bitmap).mp accepted
  have among := selected_sublist bitmap keys
  refine ⟨selected bitmap.toNat keys, signers_keys registered bitmap, signed, ?_⟩
  obtain one | many | distinct := sound
  · obtain ⟨key, rest, isHead⟩ := exists_cons_of_length_pos
      (Nat.lt_of_lt_of_le (Nat.pos_of_ne_zero configured) enough)
    refine ⟨[key], nodup_singleton key, ?_, one⟩
    rw [isHead]
    exact cons_subset_cons key (nil_subset rest)
  · have length := among.length_le
    rw [registered, length_map] at many
    rw [length_take, Nat.min_comm] at length
    omega
  · rw [registered, ← map_take] at distinct
    exact ⟨_, among.nodup (List.Nodup.of_map _ distinct), List.Subset.refl _, enough⟩

def sampleEnvelope : ByteString :=
  sampleNovaProof.serialize ++ (sigma.val ++ bitmap.toList)

def sampleInputs : List Word :=
  [sampleNovaProof.parsed.commitmentsRoot, sampleNovaProof.parsed.nullifiersRoot,
    sampleNovaProof.parsed.historicRootRoot, 1]

theorem sampleInputs_bound : structuralBinding sampleNovaProof.parsed sampleInputs = true := by
  rw [structuralBinding, decide_eq_true_eq]
  exact ⟨le_of_eq length_replicate.symm, rfl, rfl, rfl, by decide⟩

theorem sampleEnvelope_parsed :
    parseProof (sampleEnvelope sigma bitmap) = some (sampleNovaProof.parsed, sampleNovaProof.serialize.length) :=
  parseProof_serialize sampleNovaProof sampleNovaProof_rootsFit _

theorem sampleEnvelope_sigma :
    ((sampleEnvelope sigma bitmap).drop sampleNovaProof.serialize.length).take 256 = sigma.val := by
  rw [sampleEnvelope, drop_left, take_left' sigma.property]

theorem sampleEnvelope_bitmap : BitVec.ofNat 256 (beNat (((sampleEnvelope sigma bitmap).drop
      (sampleNovaProof.serialize.length + 256)).take 32)) = bitmapWord bitmap := by
  rw [sampleEnvelope, ← drop_drop, drop_left, drop_left' sigma.property,
    take_of_length_le (by rw [Vector.length_toList]), bitmapWord]

theorem sampleEnvelope_accepted {sigma : Share} {bitmap : Vector UInt8 32} (configured : verifier.threshold ≠ 0)
    (members : verifier.pubkeys.length ≠ 0)
    (accepted : verifier.verifyDigest chain
      (chain.keccak256 (attestPreimage chain verifier.self sampleNovaProof.parsed sampleInputs))
      sigma.val (bitmapWord bitmap) = some true) :
    verifier.verifyProof chain (sampleEnvelope sigma bitmap) sampleInputs = .ok true := by
  refine (verifyProof_eq_true verifier _ _).mpr ⟨rfl, configured, members, _, _,
    sampleEnvelope_parsed sigma bitmap, sampleInputs_bound, ?_, ?_⟩
  · rw [sampleEnvelope, length_append, length_append, sigma.property, Vector.length_toList]
  · rw [sampleEnvelope_sigma, sampleEnvelope_bitmap]
    exact accepted

theorem exists_accepted (serves : curve.Serves chain) (registered : verifier.pubkeys = keys.map curve.g1.encode)
    (configured : verifier.threshold ≠ 0) {members : Finset ℕ}
    (inside : ∀ index ∈ members, index < keys.length ∧ index < 256) (enough : verifier.threshold ≤ members.card) :
    ∃ sigma bitmap, verifier.verifyProof chain (sampleEnvelope sigma bitmap) sampleInputs = .ok true ∧
      ∀ index, index ∈ members ↔ index < keys.length ∧ (bitmapWord bitmap).toNat.testBit index = true := by
  let digest := chain.keccak256 (attestPreimage chain verifier.self sampleNovaProof.parsed sampleInputs)
  let entry := fun index => (index, curve.toShare (curve.share digest (keys.getD index 0)))
  have indices : (members.toList.map entry).map Prod.fst = members.toList := by
    rw [map_map]
    exact map_id _
  have valid : ∀ share ∈ members.toList.map entry, ValidShare curve keys digest share := by
    intro share member
    obtain ⟨index, listed, rfl⟩ := mem_map.mp member
    have small := (inside index (Finset.mem_toList.mp listed)).1
    refine ⟨keys.getD index 0, ?_, rfl⟩
    rw [getD_eq_getElem keys 0 small]
    exact List.getElem?_eq_getElem small
  have below : ∀ share ∈ members.toList.map entry, share.1 < 256 := by
    intro share member
    obtain ⟨index, listed, rfl⟩ := mem_map.mp member
    exact (inside index (Finset.mem_toList.mp listed)).2
  obtain ⟨sigma, bitmap, _, accepted, marked⟩ := assembled_accepted serves verifier registered
    configured digest (by rw [indices]; exact members.nodup_toList) below valid
    (by rw [length_map, Finset.length_toList]; exact enough)
  have someMember : 0 < members.card := Nat.lt_of_lt_of_le (Nat.pos_of_ne_zero configured) enough
  obtain ⟨first, isFirst⟩ := Finset.card_pos.mp someMember
  refine ⟨sigma, bitmap, sampleEnvelope_accepted configured ?_ accepted, ?_⟩
  · have small := (inside first isFirst).1
    rw [registered, length_map]
    omega
  · intro index
    rw [← marked index, indices, Finset.mem_toList]

theorem mem_selected {α : Type} {bitmap : ℕ} {items : List α} {item : α} : item ∈ selected bitmap items →
      ∃ index, index < items.length ∧ bitmap.testBit index = true ∧ items[index]? = some item := by
  intro member
  obtain ⟨index, listed, isItem⟩ := mem_filterMap.mp member
  obtain ⟨small, set⟩ := mem_filter.mp listed
  exact ⟨index, mem_range.mp small, set, isItem⟩

theorem quorum_counts_twice (serves : curve.Serves chain) (registered : verifier.pubkeys = keys.map curve.g1.encode)
    (several : 1 < verifier.threshold) (reachable : verifier.threshold ≤ min keys.length 256) {first second : ℕ}
    (before : first < second) (small : second < min keys.length 256) (copied : keys[first]? = keys[second]?) :
    ¬ QuorumDistinct curve chain verifier := by
  intro distinct
  have pair : ({first, second} : Finset ℕ) ⊆ Finset.range (min keys.length 256) := by
    intro index member
    rw [Finset.mem_insert, Finset.mem_singleton] at member
    rw [Finset.mem_range]
    omega
  have two : ({first, second} : Finset ℕ).card = 2 := Finset.card_pair (by omega)
  have atLeast : ({first, second} : Finset ℕ).card ≤ verifier.threshold := by omega
  have atMost : verifier.threshold ≤ (Finset.range (min keys.length 256)).card := by
    rw [Finset.card_range]
    exact reachable
  obtain ⟨members, containsPair, within, size⟩ :=
    Finset.exists_subsuperset_card_eq pair atLeast atMost
  have inside : ∀ index ∈ members, index < keys.length ∧ index < 256 := by
    intro index member
    have := Finset.mem_range.mp (within member)
    omega
  obtain ⟨sigma, bitmap, accepted, marked⟩ := exists_accepted serves registered (by omega) inside
    (le_of_eq size.symm)
  obtain ⟨novaProof, cursor, parsed, signers, isSigners, _, contributors, unique, among, enough⟩ :=
    distinct _ _ accepted
  rw [sampleEnvelope_parsed, Option.some.injEq, Prod.mk.injEq] at parsed
  obtain ⟨rfl, rfl⟩ := parsed
  rw [sampleEnvelope_bitmap, signers_keys registered] at isSigners
  have same : selected (bitmapWord bitmap).toNat keys = signers :=
    map_injective_iff.mpr curve.g1.encode_injective isSigners
  classical
  -- Every contributor stands at a marked index, and two marked indices share a key.
  have covered : (contributors.map some).toFinset ⊆ members.image fun index => keys[index]? := by
    intro key member
    rw [mem_toFinset, mem_map] at member
    obtain ⟨contributor, listed, rfl⟩ := member
    obtain ⟨index, below, set, isKey⟩ := mem_selected (same ▸ among listed)
    exact Finset.mem_image.mpr ⟨index, (marked index).mpr ⟨below, set⟩, isKey⟩
  have fewer : (members.image fun index => keys[index]?).card < members.card := by
    refine lt_of_le_of_ne Finset.card_image_le fun equal => ?_
    have injective := Finset.card_image_iff.mp equal
    have equalIndex := injective (containsPair (by simp)) (containsPair (by simp)) copied
    omega
  have counted := Finset.card_le_card covered
  rw [toFinset_card_of_nodup (unique.map (Option.some_injective _)), length_map] at counted
  omega

/-- In every state that the owner's calls reach, an accepted proof stands on `threshold`
different keys exactly when no reachable bit pattern can hold one key twice. -/
theorem quorum_distinct_iff (serves : curve.Serves chain) (initialOwner self : Address)
    (calls : List (Address × Update)) (verifier : NovaCommitteeVerifier)
    (reached : (Runs.run (Committee.step chain) (.deployed initialOwner self) calls).verifier = verifier) :
    QuorumDistinct curve chain verifier ↔
      verifier.threshold ≤ 1 ∨ min verifier.pubkeys.length 256 < verifier.threshold ∨
        (verifier.pubkeys.take 256).Nodup := by
  obtain ⟨keys, registered⟩ := exists_keys (onCurve_run serves initialOwner self calls)
  rw [reached] at registered
  constructor
  · intro distinct
    by_contra unsound
    obtain ⟨several, unsound⟩ := not_or.mp unsound
    obtain ⟨reachable, copied⟩ := not_or.mp unsound
    rw [registered, length_map] at reachable
    rw [registered, ← map_take, nodup_map_iff curve.g1.encode_injective, nodup_iff_getElem?_ne_getElem?] at copied
    push Not at copied
    obtain ⟨first, second, before, small, copied⟩ := copied
    rw [length_take] at small
    rw [List.getElem?_take_of_lt (by omega), List.getElem?_take_of_lt (by omega)] at copied
    exact quorum_counts_twice serves registered (by omega) (by omega) before (by omega) copied distinct
  · intro sound proof publicInputs accepted
    obtain ⟨_, _, _, novaProof, cursor, parsed, _, _, checked⟩ :=
      (verifyProof_eq_true verifier proof publicInputs).mp accepted
    exact ⟨novaProof, cursor, parsed, distinctlySigned_of_accepted serves registered sound checked⟩

def twiceRegistered : List (Address × Update) :=
  [(1, .addAttestor (smallG1 1) (smallG2 1)), (1, .addAttestor (smallG1 1) (smallG2 1)), (1, .setThreshold 2)]

def twiceVerifier : NovaCommitteeVerifier := ⟨7, [1, 1].map smallCurve.g1.encode, 2⟩

theorem smallChain_addAttestor (committee : Committee) (isOwner : committee.owner = 1) :
    committee.step smallChain (1, .addAttestor (smallG1 1) (smallG2 1)) =
      .ok (committee.withKeys (committee.verifier.pubkeys ++ [smallG1 1])) := by
  have possession : smallCurve.sign 1 (smallCurve.hash (smallG1 1) popDst) = 1 := by
    symm
    refine (smallCurve.signs_iff 1 _ 1).mp ?_
    simp [Bilinear.Signs, smallCurve]
  have registered := addAttestor_possession smallCurve_serves committee 1
  simp only [Committee.step, bind_eq_ok, require_eq_ok]
  refine ⟨(), isOwner.symm, ?_⟩
  rw [show smallG2 1 = smallCurve.g2.encode
    (smallCurve.sign 1 (smallCurve.hash (smallG1 1) popDst)) by rw [possession]; rfl]
  exact registered

theorem twiceRegistered_reaches :
    (Runs.run (Committee.step smallChain) (.deployed 1 7) twiceRegistered).verifier = twiceVerifier := by
  rw [twiceRegistered, Runs.run_cons_ok _ (smallChain_addAttestor (.deployed 1 7) rfl),
    Runs.run_cons_ok _ (smallChain_addAttestor _ rfl)]
  rfl

theorem quorum_distinct_iff_sample : ¬ QuorumDistinct smallCurve smallChain twiceVerifier := by
  intro distinct
  have sound := (quorum_distinct_iff smallCurve_serves 1 7 twiceRegistered twiceVerifier
    twiceRegistered_reaches).mp distinct
  obtain one | many | unique := sound
  · exact absurd one (by decide)
  · exact absurd many (by decide)
  · exact absurd unique (by simp [twiceVerifier])

/-- The holder of a single key has a proof accepted for which two signatures are asked. -/
theorem one_key_reaches_threshold : (Runs.run (Committee.step smallChain) (.deployed 1 7) twiceRegistered).verifier =
      twiceVerifier ∧ twiceVerifier.threshold = 2 ∧ (∀ pubkey ∈ twiceVerifier.pubkeys, pubkey = smallG1 1) ∧
    ∃ proof publicInputs, twiceVerifier.verifyProof smallChain proof publicInputs = .ok true := by
  refine ⟨twiceRegistered_reaches, rfl, ?_, ?_⟩
  · intro pubkey member
    have copies : pubkey ∈ [smallG1 1, smallG1 1] := member
    simpa using copies
  · have registered : twiceVerifier.pubkeys = [1, 1].map smallCurve.g1.encode := rfl
    have inside : ∀ index ∈ ({0, 1} : Finset ℕ), index < [(1 : ZMod 3), 1].length ∧ index < 256 := by
      decide
    obtain ⟨sigma, bitmap, accepted, _⟩ := exists_accepted smallCurve_serves registered
      (by decide) inside (by decide)
    exact ⟨_, _, accepted⟩

end Nightfall.Nova
