import Mathlib.Data.Nat.Bitwise
import Nightfall.Contract.NovaVerifier
import Nightfall.Library.Pairing
import Nightfall.Library.Runs

/-! The attestor committee: its registration by the owner of `NovaCommitteeVerifier.sol`
and what its signature check means on a chain whose precompiles compute a pairing. -/

namespace Nightfall.Nova

open Bytes Contract Pairing Revert List Option

variable {G1 G2 GT : Type} [AddCommGroup G1] [AddCommGroup G2] [AddCommGroup GT] {α : Type} (bitmap : ℕ)
  (items : List α)

structure Curve (G1 G2 GT : Type) [AddCommGroup G1] [AddCommGroup G2] [AddCommGroup GT]
    extends Bilinear G1 G2 GT where
  g1 : Encoding G1 128
  g2 : Encoding G2 256
  hash : ByteString → ByteString → G2
  negG1_encoded : g1.encode (-generator) = negG1

structure Curve.Serves [DecidableEq GT] (curve : Curve G1 G2 GT) (chain : Chain) : Prop where
  adds : ∀ left right, chain.g1Add (curve.g1.encode left) (curve.g1.encode right) =
    some (curve.g1.encode (left + right))
  hashes : ∀ message dst, dst.length ≤ 255 →
    chain.hashToG2 message dst = some (curve.g2.encode (curve.hash message dst))
  pairs : ∀ bytes, chain.pairing bytes = productCheck curve.g1 curve.g2 curve.toBilinear bytes

def Curve.digestPoint (curve : Curve G1 G2 GT) (digest : Word) : G2 :=
  curve.hash (wordBytes digest) sigDst

noncomputable def Curve.share (curve : Curve G1 G2 GT) (digest : Word) (key : G1) : G2 :=
  curve.sign key (curve.digestPoint digest)

theorem and_shiftLeft_ne_zero (value index : ℕ) : value &&& (1 <<< index) ≠ 0 ↔ value.testBit index = true := by
  rw [Nat.one_shiftLeft, Nat.and_two_pow]
  cases value.testBit index with
  | false => simp
  | true => simp

/-- The items whose bit is set, as the loop of `verifyDigest` meets them. -/
def selected : List α :=
  ((List.range items.length).filter fun index => bitmap.testBit index).filterMap fun index =>
    items[index]?

theorem selected_concat (last : α) : selected bitmap (items ++ [last]) =
      selected bitmap items ++ if bitmap.testBit items.length = true then [last] else [] := by
  have earlier : ((List.range items.length).filter fun index => bitmap.testBit index).filterMap
      (fun index => (items ++ [last])[index]?) = selected bitmap items := by
    apply filterMap_congr
    intro index member
    exact List.getElem?_append_left (mem_range.mp (mem_of_mem_filter member))
  rw [selected, length_append, length_singleton, range_succ, filter_append, filterMap_append, earlier]
  congr 1
  by_cases bit : bitmap.testBit items.length = true
  · simp [bit]
  · simp [bit]

theorem signers_eq (verifier : NovaCommitteeVerifier) (bitmap : Word) :
    verifier.signers bitmap = selected bitmap.toNat verifier.pubkeys := by
  rw [NovaCommitteeVerifier.signers]
  induction verifier.pubkeys using List.reverseRecOn with
  | nil => rfl
  | append_singleton front last ih =>
    rw [zipIdx_append, filterMap_append, ih, selected_concat]
    congr 1
    simp only [zipIdx_singleton, filterMap_cons, filterMap_nil, Nat.zero_add, and_shiftLeft_ne_zero]
    by_cases bit : bitmap.toNat.testBit front.length = true
    · simp [bit]
    · simp [bit]

theorem selected_map {α β : Type} (bitmap : ℕ) (encode : α → β) (items : List α) :
    selected bitmap (items.map encode) = (selected bitmap items).map encode := by
  rw [selected, selected, length_map, map_filterMap]
  simp

theorem signers_keys {curve : Curve G1 G2 GT} {verifier : NovaCommitteeVerifier} {keys : List G1}
    (registered : verifier.pubkeys = keys.map curve.g1.encode) (bitmap : Word) :
    verifier.signers bitmap = (selected bitmap.toNat keys).map curve.g1.encode := by
  rw [signers_eq, registered, selected_map]

section

variable {indices : List ℕ} (distinct : indices.Nodup)
  (members : ∀ index, index ∈ indices ↔ index < items.length ∧ bitmap.testBit index = true)
include distinct members

theorem selected_perm : (indices.filterMap fun index => items[index]?).Perm (selected bitmap items) := by
  apply List.Perm.filterMap
  rw [perm_ext_iff_of_nodup distinct (nodup_range.filter _)]
  intro index
  rw [members, mem_filter, mem_range]

theorem selected_length : (selected bitmap items).length = indices.length := by
  rw [← (selected_perm bitmap items distinct members).length_eq]
  have some : ∀ index ∈ indices, (items[index]?).isSome = true := by
    intro index member
    simpa using ((members index).mp member).1
  exact filterMap_length_eq_length.mpr some

end

theorem selected_sublist (bitmap : Word) (items : List α) :
    (selected bitmap.toNat items).Sublist (items.take 256) := by
  induction items using List.reverseRecOn with
  | nil => exact List.Sublist.refl _
  | append_singleton front last ih =>
    rw [selected_concat, take_append]
    apply ih.append
    by_cases bit : bitmap.toNat.testBit front.length = true
    · have small : front.length < 256 := by
        by_contra large
        have above : bitmap.toNat < 2 ^ front.length := Nat.lt_of_lt_of_le bitmap.isLt
          (Nat.pow_le_pow_right (by decide) (Nat.not_lt.mp large))
        rw [Nat.testBit_lt_two_pow above] at bit
        exact Bool.false_ne_true bit
      have room : [last].length ≤ 256 - front.length := by
        rw [length_singleton]
        omega
      rw [if_pos bit, take_of_length_le room]
    · rw [if_neg bit]
      exact nil_sublist _

section

variable [DecidableEq GT] {curve : Curve G1 G2 GT} {chain : Chain}

theorem foldlM_g1Add (serves : curve.Serves chain) (keys : List G1) :
    ∀ start, (keys.map curve.g1.encode).foldlM chain.g1Add (curve.g1.encode start) =
      some (curve.g1.encode (start + keys.sum)) := by
  induction keys with
  | nil =>
    intro start
    rw [sum_nil, add_zero]
    rfl
  | cons key rest ih =>
    intro start
    rw [map_cons, foldlM_cons, serves.adds, bind_eq_bind, bind_some, ih, sum_cons, add_assoc]

theorem aggregate_encoded (serves : curve.Serves chain) {keys : List G1} (nonempty : keys ≠ []) :
    aggregate chain (keys.map curve.g1.encode) = some (curve.g1.encode keys.sum) := by
  cases keys with
  | nil => exact absurd rfl nonempty
  | cons first rest =>
    rw [map_cons, aggregate, foldlM_g1Add serves, sum_cons]

theorem verifyDigest_eq_true (serves : curve.Serves chain) (verifier : NovaCommitteeVerifier) {keys : List G1}
    (registered : verifier.pubkeys = keys.map curve.g1.encode) (digest : Word) (sigma : ByteString) (bitmap : Word) :
    verifier.verifyDigest chain digest sigma bitmap = some true ↔ verifier.threshold ≠ 0 ∧ bitmap ≠ 0 ∧
      (keys.length < 256 → bitmap.toNat >>> keys.length = 0) ∧
      verifier.threshold ≤ (selected bitmap.toNat keys).length ∧
      sigma = curve.g2.encode ((selected bitmap.toNat keys).map (curve.share digest)).sum := by
  have count : verifier.pubkeys.length = keys.length := by rw [registered, length_map]
  have shortDst : sigDst.length ≤ 255 := by decide
  simp only [NovaCommitteeVerifier.verifyDigest, signers_keys registered, count, length_map]
  constructor
  · intro accepted
    split at accepted
    · simp at accepted
    rename_i configured
    split at accepted
    · simp at accepted
    rename_i sized
    split at accepted
    · simp at accepted
    rename_i signed
    split at accepted
    · simp at accepted
    rename_i inside
    simp only [bind_eq_bind, bind_eq_some_iff] at accepted
    obtain ⟨apk, isApk, accepted⟩ := accepted
    split at accepted
    · simp at accepted
    rename_i enough
    simp only [not_or] at configured
    have nonempty : selected bitmap.toNat keys ≠ [] := by
      apply ne_nil_of_length_pos
      omega
    rw [aggregate_encoded serves nonempty, some.injEq] at isApk
    subst isApk
    rw [serves.hashes _ _ shortDst, bind_some, serves.pairs, ← curve.negG1_encoded,
      productCheck_signature _ _ _ (by decide) _ _ (by simpa using sized), curve.sign_sum] at accepted
    refine ⟨configured.1, signed, ?_, Nat.not_lt.mp enough, accepted⟩
    intro few
    by_contra outside
    exact inside ⟨few, outside⟩
  · rintro ⟨configured, signed, inside, enough, rfl⟩
    have nonempty : selected bitmap.toNat keys ≠ [] := by
      apply ne_nil_of_length_pos
      omega
    have some : keys.length ≠ 0 := by
      rintro zero
      rw [length_eq_zero_iff.mp zero] at nonempty
      exact nonempty rfl
    rw [if_neg (by simp [configured, some]), if_neg (by simp [curve.g2.encode_length]),
      if_neg signed, if_neg (fun outside => outside.2 (inside outside.1)), aggregate_encoded serves nonempty]
    simp only [bind_eq_bind, bind_some]
    rw [if_neg (Nat.not_lt.mpr enough), serves.hashes _ _ shortDst, bind_some, serves.pairs,
      ← curve.negG1_encoded, productCheck_signature _ _ _ (by decide) _ _ (curve.g2.encode_length _), curve.sign_sum]
    rfl

end

def popDst : ByteString := ascii "BLS_POP_BLS12381G2_XMD:SHA-256_SSWU_RO_POP_"

structure Committee where
  owner : Address
  verifier : NovaCommitteeVerifier

def Committee.deployed (initialOwner self : Address) : Committee := ⟨initialOwner, ⟨self, [], 0⟩⟩

inductive Update where
  | transferOwnership (newOwner : Address)
  | addAttestor (pk pop : ByteString)
  | removeAttestor (index : Word)
  | setThreshold (t : Word)

def Committee.transferOwnership (committee : Committee) (newOwner : Address) : Except String Committee := do
  require (newOwner ≠ 0) "new owner is zero"
  return { committee with owner := newOwner }

def Committee.withKeys (committee : Committee) (pubkeys : List ByteString) : Committee :=
  { committee with verifier := { committee.verifier with pubkeys } }

def Committee.addAttestor (chain : Chain) (committee : Committee) (pk pop : ByteString) :
    Except String Committee := do
  require (pk.length = 128) "BadPubkeyLen"
  match chain.hashToG2 pk popDst with
  | none => .error "bls precompile failed"
  | some hpop =>
    match chain.pairing (negG1 ++ pop ++ pk ++ hpop) with
    | none => .error "bls precompile failed"
    | some proven =>
      require (proven = true) "BadPoP"
      return committee.withKeys (committee.verifier.pubkeys ++ [pk])

def Committee.removeAttestor (committee : Committee) (index : Word) : Except String Committee := do
  let pubkeys := committee.verifier.pubkeys
  require (index.toNat < pubkeys.length) "IndexOOB"
  return committee.withKeys (pubkeys.set index.toNat (pubkeys.getLastD [])).dropLast

def Committee.setThreshold (committee : Committee) (t : Word) : Committee :=
  { committee with verifier := { committee.verifier with threshold := t.toNat } }

def Committee.step (chain : Chain) (committee : Committee) (call : Address × Update) : Except String Committee := do
  require (call.1 = committee.owner) "NotOwner"
  match call.2 with
  | .transferOwnership newOwner => committee.transferOwnership newOwner
  | .addAttestor pk pop => committee.addAttestor chain pk pop
  | .removeAttestor index => committee.removeAttestor index
  | .setThreshold t => return committee.setThreshold t

section

variable (curve : Curve G1 G2 GT) {chain : Chain}

def Committee.OnCurve (committee : Committee) : Prop :=
  ∀ pubkey ∈ committee.verifier.pubkeys, ∃ key, pubkey = curve.g1.encode key

theorem addAttestor_eq_ok (committee next : Committee) (pk pop : ByteString) :
    committee.addAttestor chain pk pop = .ok next ↔ pk.length = 128 ∧ ∃ hpop, chain.hashToG2 pk popDst = some hpop ∧
        chain.pairing (negG1 ++ pop ++ pk ++ hpop) = some true ∧
        next = committee.withKeys (committee.verifier.pubkeys ++ [pk]) := by
  simp only [Committee.addAttestor, bind_eq_ok, require_eq_ok, exists_const]
  apply and_congr_right
  intro _
  cases chain.hashToG2 pk popDst with
  | none => simp
  | some hpop =>
    simp only [some.injEq, exists_eq_left']
    cases chain.pairing (negG1 ++ pop ++ pk ++ hpop) with
    | none => simp
    | some proven =>
      simp only [bind_eq_ok, require_eq_ok, pure_eq_ok, exists_const, some.injEq]
      rw [eq_comm (a := next)]

variable {curve}

theorem Committee.OnCurve.removeAttestor {committee next : Committee} (points : committee.OnCurve curve)
    {index : Word} (accepted : committee.removeAttestor index = .ok next) : next.OnCurve curve := by
  simp only [Committee.removeAttestor, bind_eq_ok, require_eq_ok, pure_eq_ok, exists_const] at accepted
  obtain ⟨inside, rfl⟩ := accepted
  have nonempty : committee.verifier.pubkeys ≠ [] :=
    ne_nil_of_length_pos (Nat.zero_lt_of_lt inside)
  intro pubkey member
  obtain kept | rfl := mem_or_eq_of_mem_set ((dropLast_sublist _).subset member)
  · exact points pubkey kept
  · rw [getLastD_eq_getLast?, List.getLast?_eq_some_getLast nonempty]
    exact points _ (getLast_mem nonempty)

theorem exists_keys {committee : Committee} (points : committee.OnCurve curve) :
    ∃ keys : List G1, committee.verifier.pubkeys = keys.map curve.g1.encode := by
  have all : ∀ pubkeys : List ByteString, (∀ pubkey ∈ pubkeys, ∃ key, pubkey = curve.g1.encode key) →
      ∃ keys : List G1, pubkeys = keys.map curve.g1.encode := by
    intro pubkeys
    induction pubkeys with
    | nil => exact fun _ => ⟨[], rfl⟩
    | cons pubkey rest ih =>
      intro points
      obtain ⟨key, rfl⟩ := points pubkey mem_cons_self
      obtain ⟨keys, rfl⟩ := ih fun other member => points other (mem_cons_of_mem _ member)
      exact ⟨key :: keys, rfl⟩
  exact all _ points

variable [DecidableEq GT]

variable (serves : curve.Serves chain)
include serves

theorem Committee.OnCurve.addAttestor {committee next : Committee} (points : committee.OnCurve curve)
    {pk pop : ByteString} (accepted : committee.addAttestor chain pk pop = .ok next) : next.OnCurve curve := by
  obtain ⟨size, hpop, hashed, proven, rfl⟩ := (addAttestor_eq_ok _ _ _ _).mp accepted
  rw [serves.hashes pk popDst (by decide), some.injEq] at hashed
  rw [serves.pairs, append_assoc] at proven
  have point := productCheck_last _ _ _ (by decide) size (by rw [← hashed, curve.g2.encode_length]) proven
  intro pubkey member
  rw [Committee.withKeys, mem_append, mem_singleton] at member
  obtain earlier | rfl := member
  · exact points pubkey earlier
  · exact point

theorem addAttestor_possession (committee : Committee) (key : G1) :
    committee.addAttestor chain (curve.g1.encode key)
        (curve.g2.encode (curve.sign key (curve.hash (curve.g1.encode key) popDst))) =
      .ok (committee.withKeys (committee.verifier.pubkeys ++ [curve.g1.encode key])) := by
  refine (addAttestor_eq_ok _ _ _ _).mpr ⟨curve.g1.encode_length key, _, serves.hashes _ _ (by decide), ?_, rfl⟩
  rw [serves.pairs, ← curve.negG1_encoded]
  exact (productCheck_signature _ _ _ (by decide) _ _ (curve.g2.encode_length _)).mpr rfl

theorem Committee.OnCurve.step {committee next : Committee} (points : committee.OnCurve curve)
    {call : Address × Update} (accepted : committee.step chain call = .ok next) : next.OnCurve curve := by
  simp only [Committee.step, bind_eq_ok, require_eq_ok, exists_const] at accepted
  obtain ⟨_, accepted⟩ := accepted
  split at accepted
  · simp only [Committee.transferOwnership, bind_eq_ok, require_eq_ok, pure_eq_ok, exists_const] at accepted
    obtain ⟨_, rfl⟩ := accepted
    exact points
  · exact points.addAttestor serves accepted
  · exact points.removeAttestor accepted
  · obtain rfl := (pure_eq_ok _ _).mp accepted
    exact points

theorem onCurve_run (initialOwner self : Address) (calls : List (Address × Update)) :
    (Runs.run (Committee.step chain) (.deployed initialOwner self) calls).OnCurve curve := by
  apply Runs.invariant_run (Committee.step chain) (fun _ committee => committee.OnCurve curve) calls []
  · intro pubkey member
    cases member
  · intro past event _ points accepted
    exact points.step serves accepted

end

end Nightfall.Nova
