import Nightfall.Library.Gadgets
import Nightfall.Library.Levels

/-! The circuit gadgets of the Nova rollup step. Each gadget is one program: its assignments
are an adversary's, its own values the honest prover's. Poseidon is library code; its gadget
constrains one variable to the hash. -/

namespace Nightfall.Nova

open R1cs Merkle List

structure Poseidon (F : Type) where
  hash2 : F → F → F
  hash3 : F → F → F → F

/-- `MerklePathHop { sibling, is_right }`: a right node has its sibling on the left. -/
abbrev MerklePathHop (F : Type) := PathElement F

structure ImtNonInclusionWitness (F : Type) where
  nullifier : F
  lowValue : F
  lowNextIndex : F
  lowNextValue : F
  path : List (MerklePathHop F)

structure ImtInsertionWitness (F : Type) where
  newLeafIndex : F
  updatedLowPath : List (MerklePathHop F)
  newLeafPath : List (MerklePathHop F)

structure AllocatedMerkleHop (F : Type) where
  sibling : F
  isRight : Boolean F

structure AllocatedImtNonInclusion (F : Type) where
  nullifier : F
  lowValue : F
  lowNextIndex : F
  lowNextValue : F
  path : List (AllocatedMerkleHop F)

structure AllocatedImtInsertion (F : Type) where
  newLeafIndex : F
  updatedLowPath : List (AllocatedMerkleHop F)
  newLeafPath : List (AllocatedMerkleHop F)

section

variable {F : Type} (poseidon : Poseidon F)

def computeMerkleRootNative (leaf : F) (path : List (MerklePathHop F)) : F :=
  computeRoot poseidon.hash2 leaf path

def imtLeafHashNative (value nextIndex nextValue : F) : F :=
  poseidon.hash3 value nextIndex nextValue

variable [Field F]

def poseidonHash2Circuit (a b : F) : Synthesis F F := do
  let out ← alloc (poseidon.hash2 a b)
  enforce (poseidon.hash2 a b) 1 out
  pure out

def poseidonHash3Circuit (a b c : F) : Synthesis F F := do
  let out ← alloc (poseidon.hash3 a b c)
  enforce (poseidon.hash3 a b c) 1 out
  pure out

theorem forces_copy (value : F) :
    Forces (alloc value >>= fun out => enforce value 1 out >>= fun _ => pure out) value True True := by
  refine Forces.mono (forces_alloc id value (fun x => .bind (forces_enforce value 1 x) (forces_pure x)) ?_) ?_ ?_
  · exact fun x met => met.1.symm.trans (mul_one value)
  · exact fun _ => trivial
  · exact fun _ => ⟨rfl, mul_one value, trivial⟩

theorem forces_poseidonHash2Circuit (a b : F) :
    Forces (poseidonHash2Circuit poseidon a b) (poseidon.hash2 a b) True True :=
  forces_copy _

theorem forces_poseidonHash3Circuit (a b c : F) :
    Forces (poseidonHash3Circuit poseidon a b c) (poseidon.hash3 a b c) True True :=
  forces_copy _

end

section

variable {F : Type} [Field F] (witness : ImtNonInclusionWitness F) (hop : MerklePathHop F)

def AllocatedMerkleHop.alloc (hop : MerklePathHop F) : Synthesis F (AllocatedMerkleHop F) := do
  let sibling ← R1cs.alloc hop.sibling
  let bit ← allocBit hop.siblingOnLeft
  pure ⟨sibling, .is bit⟩

def AllocatedImtNonInclusion.alloc (witness : ImtNonInclusionWitness F) :
    Synthesis F (AllocatedImtNonInclusion F) := do
  let nullifier ← R1cs.alloc witness.nullifier
  let lowValue ← R1cs.alloc witness.lowValue
  let lowNextIndex ← R1cs.alloc witness.lowNextIndex
  let lowNextValue ← R1cs.alloc witness.lowNextValue
  let path ← witness.path.mapM AllocatedMerkleHop.alloc
  pure ⟨nullifier, lowValue, lowNextIndex, lowNextValue, path⟩

def AllocatedImtInsertion.alloc (witness : ImtInsertionWitness F) : Synthesis F (AllocatedImtInsertion F) := do
  let newLeafIndex ← R1cs.alloc witness.newLeafIndex
  let updatedLowPath ← witness.updatedLowPath.mapM AllocatedMerkleHop.alloc
  let newLeafPath ← witness.newLeafPath.mapM AllocatedMerkleHop.alloc
  pure ⟨newLeafIndex, updatedLowPath, newLeafPath⟩

def allocatedHop : AllocatedMerkleHop F :=
  ⟨hop.sibling, .is (bit hop.siblingOnLeft)⟩

def ImtNonInclusionWitness.allocated : AllocatedImtNonInclusion F :=
  ⟨witness.nullifier, witness.lowValue, witness.lowNextIndex, witness.lowNextValue, witness.path.map allocatedHop⟩

def ImtInsertionWitness.allocated (witness : ImtInsertionWitness F) : AllocatedImtInsertion F :=
  ⟨witness.newLeafIndex, witness.updatedLowPath.map allocatedHop, witness.newLeafPath.map allocatedHop⟩

@[simp] theorem honest_allocHop : honest (AllocatedMerkleHop.alloc hop) = allocatedHop hop := rfl

@[simp] theorem holds_allocHop : Holds (AllocatedMerkleHop.alloc hop) := by
  simp only [AllocatedMerkleHop.alloc, holds_bind, holds_alloc, holds_allocBit, holds_pure, and_self]

theorem reaches_allocHop (outcome : AllocatedMerkleHop F) : Reaches (AllocatedMerkleHop.alloc hop) outcome ↔
      ∃ assigned : MerklePathHop F, outcome = allocatedHop assigned := by
  simp only [AllocatedMerkleHop.alloc, reaches_bind, reaches_alloc, true_and, reaches_allocBit, reaches_pure]
  constructor
  · rintro ⟨sibling, _, ⟨right, rfl⟩, rfl⟩
    exact ⟨⟨sibling, right⟩, rfl⟩
  · rintro ⟨assigned, rfl⟩
    exact ⟨assigned.sibling, _, ⟨assigned.siblingOnLeft, rfl⟩, rfl⟩

theorem reaches_allocPath (path : List (MerklePathHop F)) (outcome : List (AllocatedMerkleHop F)) :
    Reaches (path.mapM AllocatedMerkleHop.alloc) outcome ↔ ∃ assigned : List (MerklePathHop F),
        assigned.length = path.length ∧ outcome = assigned.map allocatedHop :=
  reaches_mapM_image reaches_allocHop path outcome

theorem reaches_allocNonInclusion (outcome : AllocatedImtNonInclusion F) :
    Reaches (AllocatedImtNonInclusion.alloc witness) outcome ↔ ∃ assigned : ImtNonInclusionWitness F,
        assigned.path.length = witness.path.length ∧ outcome = assigned.allocated := by
  simp only [AllocatedImtNonInclusion.alloc, reaches_bind, reaches_alloc, true_and, reaches_allocPath, reaches_pure]
  constructor
  · rintro ⟨nullifier, lowValue, lowNextIndex, lowNextValue, _, ⟨path, length, rfl⟩, rfl⟩
    exact ⟨⟨nullifier, lowValue, lowNextIndex, lowNextValue, path⟩, length, rfl⟩
  · rintro ⟨assigned, length, rfl⟩
    exact ⟨assigned.nullifier, assigned.lowValue, assigned.lowNextIndex, assigned.lowNextValue, _,
      ⟨assigned.path, length, rfl⟩, rfl⟩

theorem reaches_allocInsertion (witness : ImtInsertionWitness F) (outcome : AllocatedImtInsertion F) :
    Reaches (AllocatedImtInsertion.alloc witness) outcome ↔ ∃ assigned : ImtInsertionWitness F,
        assigned.updatedLowPath.length = witness.updatedLowPath.length ∧
        assigned.newLeafPath.length = witness.newLeafPath.length ∧ outcome = assigned.allocated := by
  simp only [AllocatedImtInsertion.alloc, reaches_bind, reaches_alloc, true_and, reaches_allocPath, reaches_pure]
  constructor
  · rintro ⟨newLeafIndex, _, ⟨low, lowLength, rfl⟩, _, ⟨leaf, leafLength, rfl⟩, rfl⟩
    exact ⟨⟨newLeafIndex, low, leaf⟩, lowLength, leafLength, rfl⟩
  · rintro ⟨assigned, lowLength, leafLength, rfl⟩
    exact ⟨assigned.newLeafIndex, _, ⟨assigned.updatedLowPath, lowLength, rfl⟩, _,
      ⟨assigned.newLeafPath, leafLength, rfl⟩, rfl⟩

theorem honest_allocNonInclusion : honest (AllocatedImtNonInclusion.alloc witness) = witness.allocated := by
  simp only [AllocatedImtNonInclusion.alloc, honest_bind, honest_alloc, honest_pure, honest_mapM, honest_allocHop]
  rfl

theorem holds_allocNonInclusion : Holds (AllocatedImtNonInclusion.alloc witness) := by
  simp only [AllocatedImtNonInclusion.alloc, holds_bind, holds_alloc, holds_mapM, holds_allocHop,
    holds_pure, implies_true, and_self]

theorem honest_allocInsertion (witness : ImtInsertionWitness F) :
    honest (AllocatedImtInsertion.alloc witness) = witness.allocated := by
  simp only [AllocatedImtInsertion.alloc, honest_bind, honest_alloc, honest_pure, honest_mapM, honest_allocHop]
  rfl

theorem holds_allocInsertion (witness : ImtInsertionWitness F) : Holds (AllocatedImtInsertion.alloc witness) := by
  simp only [AllocatedImtInsertion.alloc, holds_bind, holds_alloc, holds_mapM, holds_allocHop,
    holds_pure, implies_true, and_self]

end

section

variable {F : Type} [Field F] [DecidableEq F] (poseidon : Poseidon F) (current : F) (hop : MerklePathHop F)

def conditionalAssertEqual (condition : Boolean F) (x y : F) : Synthesis F Unit :=
  enforce condition.lc (x - y) 0

def conditionalSwap (a b : F) (condition : Boolean F) : Synthesis F (F × F) :=
  conditionallyReverse a b condition

def hashLevel (hop : AllocatedMerkleHop F) : Synthesis F F := do
  let ordered ← conditionalSwap current hop.sibling hop.isRight
  poseidonHash2Circuit poseidon ordered.1 ordered.2

def verifyMerkleInclusionCircuit (leaf : F) (path : List (AllocatedMerkleHop F)) (expectedRoot : F)
    (enabled : Boolean F) : Synthesis F Unit := do
  let root ← path.foldlM (hashLevel poseidon) leaf
  conditionalAssertEqual enabled root expectedRoot

def enforcePathIndex (path : List (AllocatedMerkleHop F)) (expectedIndex : F)
    (enabled : Boolean F) : Synthesis F Unit :=
  enforce enabled.lc (expectedIndex - weighted 1 (path.map fun hop => hop.isRight.lc)) 0

variable {poseidon}

theorem forces_hashLevel : Forces (hashLevel poseidon current (allocatedHop hop))
    (parent poseidon.hash2 current hop) True True := by
  have side : (allocatedHop hop).isRight.lc = bit hop.siblingOnLeft := rfl
  exact .andThen (forces_conditionallyReverse _ _ side) (forces_poseidonHash2Circuit _ _ _)

theorem forces_climb (leaf : F) (path : List (MerklePathHop F)) :
    Forces ((path.map allocatedHop).foldlM (hashLevel poseidon) leaf) (computeRoot poseidon.hash2 leaf path) True
      True := by
  induction path generalizing leaf with
  | nil => exact forces_pure _
  | cons hop rest ih =>
    rw [map_cons, foldlM_cons]
    exact (forces_hashLevel _ _).andThen (ih _)

omit [DecidableEq F] in
theorem gated_eq_zero {on : Bool} {x y : F} : (bit on : F) * (x - y) = 0 ↔ (on = true → x = y) := by
  cases on <;> simp [sub_eq_zero]

section

variable {enabled : Boolean F} {on : Bool} (isOn : enabled.lc = bit on) (path : List (MerklePathHop F))

include isOn

omit [DecidableEq F] in
theorem forces_conditionalAssertEqual (x y : F) :
    Forces (conditionalAssertEqual enabled x y) () (on = true → x = y) (on = true → x = y) := by
  rw [← gated_eq_zero, ← isOn]
  exact forces_enforce _ _ _

theorem forces_verifyMerkleInclusionCircuit (leaf expectedRoot : F) :
    Forces (verifyMerkleInclusionCircuit poseidon leaf (path.map allocatedHop) expectedRoot enabled) ()
      (on = true → computeRoot poseidon.hash2 leaf path = expectedRoot)
      (on = true → computeRoot poseidon.hash2 leaf path = expectedRoot) :=
  (forces_climb leaf path).andThen (forces_conditionalAssertEqual isOn _ _)

omit isOn [DecidableEq F] in
theorem weighted_path :
    weighted 1 ((path.map allocatedHop).map fun hop => hop.isRight.lc) = (pathIndex path : F) := by
  have digits : ((path.map allocatedHop).map fun hop => hop.isRight.lc) =
      (path.map PathElement.siblingOnLeft).map (bit : Bool → F) := by
    rw [map_map, map_map]
    rfl
  have index : ofDigits (path.map PathElement.siblingOnLeft) = pathIndex path := by
    induction path with
    | nil => rfl
    | cons hop rest ih =>
      have lower := ih (by rw [map_map, map_map]; rfl)
      rw [map_cons, ofDigits, pathIndex, lower]
      cases hop.siblingOnLeft <;> rfl
  rw [digits, weighted_bits, one_mul, index]

omit [DecidableEq F] in
theorem forces_enforcePathIndex (expectedIndex : F) :
    Forces (enforcePathIndex (path.map allocatedHop) expectedIndex enabled) ()
      (on = true → expectedIndex = (pathIndex path : F)) (on = true → expectedIndex = (pathIndex path : F)) := by
  rw [← gated_eq_zero, ← isOn, ← weighted_path]
  exact forces_enforce _ _ _

end

end

section

variable {p : ℕ} [Fact p.Prime] (a b : ZMod p) (numBits : ℕ)

def enforceLessThan : Synthesis (ZMod p) Unit := do
  let diff ← alloc (b - a - 1)
  enforce (diff + a + 1) 1 b
  enforceWidth diff numBits
  enforceWidth a numBits
  enforceWidth b numBits

def conditionalEnforceLessThan (enabled : Boolean (ZMod p)) : Synthesis (ZMod p) Unit := do
  let aEff ← alloc (if enabled.value then a else 0)
  let bEff ← alloc (if enabled.value then b else 1)
  enforce enabled.lc a aEff
  enforce enabled.lc (b - 1) (bEff - 1)
  enforceLessThan aEff bEff numBits

/-- What the constraints of `enforce_less_than` say of the two numbers. -/
structure LessThan (a b : ZMod p) (numBits : ℕ) : Prop where
  diff : (b - a - 1).val < 2 ^ numBits
  left : a.val < 2 ^ numBits
  right : b.val < 2 ^ numBits

theorem LessThan.val_lt {a b : ZMod p} {numBits : ℕ} (less : LessThan a b numBits)
    (spare : 2 ^ (numBits + 1) ≤ p) : a.val < b.val := by
  have sum : b = ((a.val + ((b - a - 1).val + 1) : ℕ) : ZMod p) := by
    push_cast
    rw [ZMod.natCast_zmod_val, ZMod.natCast_zmod_val]
    ring
  have fits : a.val + ((b - a - 1).val + 1) < p := by
    have diff := less.diff
    have left := less.left
    omega
  have isSum := ZMod.val_natCast_of_lt fits
  rw [← sum] at isSum
  omega

theorem lessThan_of_val_lt {a b : ZMod p} {numBits : ℕ} (less : a.val < b.val)
    (fits : b.val < 2 ^ numBits) : LessThan a b numBits := by
  have diff : b - a - 1 = ((b.val - a.val - 1 : ℕ) : ZMod p) := by
    rw [Nat.cast_sub (by omega), Nat.cast_sub less.le, ZMod.natCast_zmod_val, ZMod.natCast_zmod_val, Nat.cast_one]
  refine ⟨?_, less.trans fits, fits⟩
  rw [diff, ZMod.val_natCast]
  exact (Nat.mod_le _ _).trans_lt (by omega)

theorem lessThan_of_size {numBits : ℕ} (wide : p.size ≤ numBits) : LessThan a b numBits := by
  have bound (x : ZMod p) : x.val < 2 ^ numBits :=
    (val_lt_size x).trans_le (Nat.pow_le_pow_right (by decide) wide)
  exact ⟨bound _, bound _, bound _⟩

theorem lessThan_zero_one {numBits : ℕ} (some : 0 < numBits) : LessThan (0 : ZMod p) 1 numBits := by
  have two : 2 ≤ 2 ^ numBits := by
    calc 2 = 2 ^ 1 := rfl
      _ ≤ 2 ^ numBits := Nat.pow_le_pow_right (by decide) some
  apply lessThan_of_val_lt
  · rw [ZMod.val_zero, ZMod.val_one]
    exact Nat.one_pos
  · rw [ZMod.val_one]
    omega

theorem forces_enforceLessThan :
    Forces (enforceLessThan a b numBits) () (LessThan a b numBits) (LessThan a b numBits) := by
  refine Forces.mono (forces_alloc (fun _ => ()) (b - a - 1) (fun diff => .bind (forces_enforce _ _ _)
    (.bind (forces_enforceWidth diff _) (.bind (forces_enforceWidth a _) (forces_enforceWidth b _)))) ?_) ?_ ?_
  · rintro diff ⟨sum, _⟩
    rw [← sum]
    ring
  · exact fun met => ⟨met.2.1, met.2.2.1, met.2.2.2⟩
  · exact fun less => ⟨rfl, by ring, less.diff, less.left, less.right⟩

theorem forces_conditionalEnforceLessThan {enabled : Boolean (ZMod p)} {on : Bool} (isOn : enabled.lc = bit on) :
    Forces (conditionalEnforceLessThan a b numBits enabled) ()
      (LessThan (if on then a else 0) (if on then b else 1) numBits)
      (LessThan (if on then a else 0) (if on then b else 1) numBits) := by
  have left : (bit on : ZMod p) * a = if on then a else 0 := by cases on <;> simp
  have right : (bit on : ZMod p) * (b - 1) = (if on then b else 1) - 1 := by cases on <;> simp
  rw [conditionalEnforceLessThan, Boolean.value_of_lc isOn, isOn]
  refine Forces.mono (forces_alloc (fun _ => ()) (if on then a else 0)
    (fun aEff => forces_alloc (fun _ => ()) (if on then b else 1) (fun bEff => .bind (forces_enforce _ _ _)
    (.bind (forces_enforce _ _ _) (forces_enforceLessThan aEff bEff _))) ?_) ?_) ?_ ?_
  · exact fun bEff met => sub_left_inj.mp (met.2.1.symm.trans right)
  · exact fun aEff met => met.1.symm.trans left
  · exact fun met => met.2.2
  · exact fun less => ⟨rfl, rfl, left, right, less⟩

end

section

variable {p : ℕ} [Fact p.Prime] (poseidon : Poseidon (ZMod p)) (witness : ImtNonInclusionWitness (ZMod p))

def verifyImtNonInclusionCircuit (witness : AllocatedImtNonInclusion (ZMod p)) (oldNullifiersRoot : ZMod p)
    (numBits : ℕ) (enabled : Boolean (ZMod p)) : Synthesis (ZMod p) Unit := do
  let lowLeafHash ← poseidonHash3Circuit poseidon witness.lowValue witness.lowNextIndex witness.lowNextValue
  verifyMerkleInclusionCircuit poseidon lowLeafHash witness.path oldNullifiersRoot enabled
  conditionalEnforceLessThan witness.lowValue witness.nullifier numBits enabled
  let nextIsZero ← isZero witness.lowNextValue
  let upperCheckEnabled ← enabled.and nextIsZero.not
  conditionalEnforceLessThan witness.nullifier witness.lowNextValue numBits upperCheckEnabled

def verifyImtInsertionCircuit (nonInclusion : AllocatedImtNonInclusion (ZMod p))
    (insertion : AllocatedImtInsertion (ZMod p)) (newNullifiersRoot : ZMod p) (numBits : ℕ)
    (enabled : Boolean (ZMod p)) : Synthesis (ZMod p) Unit := do
  let updatedLowHash ←
    poseidonHash3Circuit poseidon nonInclusion.lowValue insertion.newLeafIndex nonInclusion.nullifier
  verifyMerkleInclusionCircuit poseidon updatedLowHash insertion.updatedLowPath newNullifiersRoot enabled
  let newLeafHash ← poseidonHash3Circuit poseidon nonInclusion.nullifier nonInclusion.lowNextIndex
    nonInclusion.lowNextValue
  verifyMerkleInclusionCircuit poseidon newLeafHash insertion.newLeafPath newNullifiersRoot enabled
  -- the bound is a variable without a constraint of its own
  let upperBound ← alloc (2 ^ numBits - 1)
  conditionalEnforceLessThan insertion.newLeafIndex upperBound numBits enabled

def ImtNonInclusionWitness.lowHash : ZMod p :=
  poseidon.hash3 witness.lowValue witness.lowNextIndex witness.lowNextValue

def ImtNonInclusionWitness.updatedLowHash (newLeafIndex : ZMod p) : ZMod p :=
  poseidon.hash3 witness.lowValue newLeafIndex witness.nullifier

def ImtNonInclusionWitness.newLeafHash : ZMod p :=
  poseidon.hash3 witness.nullifier witness.lowNextIndex witness.lowNextValue

structure NonInclusion (witness : ImtNonInclusionWitness (ZMod p)) (root : ZMod p) (numBits : ℕ) : Prop where
  opened : computeRoot poseidon.hash2 (witness.lowHash poseidon) witness.path = root
  above : LessThan witness.lowValue witness.nullifier numBits
  below : witness.lowNextValue ≠ 0 → LessThan witness.nullifier witness.lowNextValue numBits

structure Insertion (witness : ImtNonInclusionWitness (ZMod p))
    (insertion : ImtInsertionWitness (ZMod p)) (root : ZMod p) : Prop where
  low : computeRoot poseidon.hash2 (witness.updatedLowHash poseidon insertion.newLeafIndex)
    insertion.updatedLowPath = root
  new : computeRoot poseidon.hash2 (witness.newLeafHash poseidon) insertion.newLeafPath = root

variable {poseidon} {enabled : Boolean (ZMod p)} {on : Bool} (isOn : enabled.lc = bit on)

include isOn

variable {witness : ImtNonInclusionWitness (ZMod p)} {root : ZMod p} {numBits : ℕ}
  {insertion : ImtInsertionWitness (ZMod p)}

theorem forces_verifyImtNonInclusionCircuit :
    Forces (verifyImtNonInclusionCircuit poseidon witness.allocated root numBits enabled) ()
      (on = true → NonInclusion poseidon witness root numBits)
      (0 < numBits ∧ (on = true → NonInclusion poseidon witness root numBits)) := by
  have nextOn : (Boolean.is (bit (decide (witness.lowNextValue = 0)) : ZMod p)).not.lc =
      bit (!decide (witness.lowNextValue = 0)) := by
    rw [Boolean.lc_not, Boolean.lc, bit_not]
  refine Forces.mono (.andThen (forces_poseidonHash3Circuit _ _ _ _)
    (.bind (forces_verifyMerkleInclusionCircuit isOn _ _ _)
    (.bind (forces_conditionalEnforceLessThan _ _ _ isOn) (.andThen (forces_isZero _)
    (.andThen (Boolean.forces_and isOn nextOn)
    (forces_conditionalEnforceLessThan _ _ _ (Boolean.lc_honest_and isOn nextOn))))))) ?_ ?_
  · rintro ⟨opened, above, upper⟩ rfl
    refine ⟨opened rfl, above, fun nonzero => ?_⟩
    simpa [nonzero, ImtNonInclusionWitness.allocated] using upper
  · rintro ⟨some, checked⟩
    cases on with
    | false => exact ⟨by simp, lessThan_zero_one some, lessThan_zero_one some⟩
    | true =>
      refine ⟨fun _ => (checked rfl).opened, (checked rfl).above, ?_⟩
      by_cases zero : witness.lowNextValue = 0
      · simpa [zero] using lessThan_zero_one some
      · simpa [zero, ImtNonInclusionWitness.allocated] using (checked rfl).below zero

theorem forces_verifyImtInsertionCircuit :
    Forces (verifyImtInsertionCircuit poseidon witness.allocated insertion.allocated root numBits enabled) ()
      (on = true → Insertion poseidon witness insertion root)
      (0 < numBits ∧ 2 ^ numBits ≤ p ∧
        (on = true → Insertion poseidon witness insertion root ∧ insertion.newLeafIndex.val + 1 < 2 ^ numBits)) := by
  refine Forces.mono (.andThen (forces_poseidonHash3Circuit _ _ _ _)
    (.bind (forces_verifyMerkleInclusionCircuit isOn _ _ _) (.andThen (forces_poseidonHash3Circuit _ _ _ _)
    (.bind (forces_verifyMerkleInclusionCircuit isOn _ _ _) (forces_free
    (fun upperBound => (forces_conditionalEnforceLessThan _ upperBound _ isOn).mono (fun _ => trivial) id) _))))) ?_ ?_
  · exact fun met isOn => ⟨met.1 isOn, met.2.1 isOn⟩
  · rintro ⟨some, fits, checked⟩
    have bound : (2 ^ numBits - 1 : ZMod p).val = 2 ^ numBits - 1 := by
      have positive := Nat.two_pow_pos numBits
      have cast : (2 ^ numBits - 1 : ZMod p) = ((2 ^ numBits - 1 : ℕ) : ZMod p) := by
        rw [Nat.cast_sub positive, Nat.cast_pow, Nat.cast_two, Nat.cast_one]
      rw [cast, ZMod.val_natCast_of_lt (by omega)]
    cases on with
    | false => exact ⟨by simp, by simp, lessThan_zero_one some⟩
    | true =>
      obtain ⟨inserted, inRange⟩ := checked rfl
      refine ⟨fun _ => inserted.low, fun _ => inserted.new, lessThan_of_val_lt ?_ ?_⟩
      · rw [if_pos rfl, if_pos rfl, bound]
        exact Nat.lt_sub_of_add_lt inRange
      · rw [if_pos rfl, bound]
        omega

end

end Nightfall.Nova
