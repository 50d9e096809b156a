import Mathlib.Tactic.FieldSimp
import Mathlib.Tactic.LinearCombination
import Mathlib.Tactic.Ring

/-! The Edwards curve `x² + y² = 1 + d·x²·y²` with a coefficient that is not a square. -/

namespace Edwards

variable {F : Type} [Field F]

@[ext] structure Point (F : Type) where
  x : F
  y : F
deriving DecidableEq

def neutral : Point F := ⟨0, 1⟩

def OnCurve (d : F) (point : Point F) : Prop :=
  point.x * point.x + point.y * point.y = 1 + d * (point.x * point.x) * (point.y * point.y)

def crossTerm (d : F) (p q : Point F) : F := d * (p.x * q.x) * (p.y * q.y)

def add (d : F) (p q : Point F) : Point F :=
  ⟨(p.x * q.y + p.y * q.x) / (1 + crossTerm d p q), (p.y * q.y - p.x * q.x) / (1 - crossTerm d p q)⟩

theorem neutral_onCurve (d : F) : OnCurve d neutral := by
  simp [OnCurve, neutral]

theorem add_neutral (d : F) (p : Point F) : add d p neutral = p := by
  simp [add, crossTerm, neutral]

theorem neutral_add (d : F) (p : Point F) : add d neutral p = p := by
  simp [add, crossTerm, neutral]

theorem add_eq {d : F} {p q r : Point F} (plus : 1 + crossTerm d p q ≠ 0) (minus : 1 - crossTerm d p q ≠ 0)
    (x : p.x * q.y + p.y * q.x = r.x * (1 + crossTerm d p q))
    (y : p.y * q.y - p.x * q.x = r.y * (1 - crossTerm d p q)) : add d p q = r := by
  apply Point.ext
  · exact (div_eq_iff plus).mpr x
  · exact (div_eq_iff minus).mpr y

section

variable {d : F} (nonsquare : ¬ IsSquare d) (two : (2 : F) ≠ 0) {p q : Point F} (onP : OnCurve d p)
  (onQ : OnCurve d q)

include d nonsquare two p q onP onQ

theorem crossTerm_square_ne_one : crossTerm d p q * crossTerm d p q ≠ 1 := by
  intro unit
  unfold OnCurve at onP onQ
  have factors : d * (p.x * q.x) * (p.y * q.y) ≠ 0 := by
    intro zero
    rw [crossTerm, zero] at unit
    simp at unit
  have px : p.x ≠ 0 := by rintro zero; simp [zero] at factors
  have py : p.y ≠ 0 := by rintro zero; simp [zero] at factors
  have qx : q.x ≠ 0 := by rintro zero; simp [zero] at factors
  unfold crossTerm at unit
  -- (x₁ ± t·y₁)² = d·x₁²·y₁²·(x₂ ± y₂)², so one nonzero choice of sign gives a root of d
  have root : ∀ sign : F, sign * sign = 1 → q.x + sign * q.y ≠ 0 → IsSquare d := by
    intro sign signUnit nonzero
    have scale : p.x * p.y * (q.x + sign * q.y) ≠ 0 := mul_ne_zero (mul_ne_zero px py) nonzero
    refine ⟨(p.x + sign * (d * (p.x * q.x) * (p.y * q.y)) * p.y) / (p.x * p.y * (q.x + sign * q.y)), ?_⟩
    rw [div_mul_div_comm, eq_div_iff (mul_ne_zero scale scale)]
    linear_combination (d * p.x * p.x * p.y * p.y) * onQ - onP + (d * p.x * p.x * p.y * p.y * q.y * q.y -
        p.y * p.y * (d * (p.x * q.x) * (p.y * q.y)) * (d * (p.x * q.x) * (p.y * q.y))) * signUnit +
      (1 - p.y * p.y) * unit
  by_cases plus : q.x + 1 * q.y = 0
  · by_cases minus : q.x + (-1) * q.y = 0
    · have doubled : 2 * q.x = 0 := by linear_combination plus + minus
      exact qx ((mul_eq_zero.mp doubled).resolve_left two)
    · exact nonsquare (root (-1) (by ring) minus)
  · exact nonsquare (root 1 (by ring) plus)

theorem denominators_ne_zero : 1 + crossTerm d p q ≠ 0 ∧ 1 - crossTerm d p q ≠ 0 := by
  have notUnit := crossTerm_square_ne_one nonsquare two onP onQ
  constructor
  · intro zero
    exact notUnit (by linear_combination (crossTerm d p q - 1) * zero)
  · intro zero
    exact notUnit (by linear_combination (-crossTerm d p q - 1) * zero)

theorem add_onCurve : OnCurve d (add d p q) := by
  obtain ⟨plus, minus⟩ := denominators_ne_zero nonsquare two onP onQ
  have curveP : d * (p.x * p.y) ^ 2 - (p.x ^ 2 + p.y ^ 2 - 1) = 0 := by
    unfold OnCurve at onP
    linear_combination -onP
  have curveQ : d * (q.x * q.y) ^ 2 - (q.x ^ 2 + q.y ^ 2 - 1) = 0 := by
    unfold OnCurve at onQ
    linear_combination -onQ
  simp only [OnCurve, add]
  field_simp
  simp only [crossTerm]
  linear_combination (((p.x ^ 2 + p.y ^ 2) * (q.x ^ 2 + q.y ^ 2) + 2 - (d * (p.x * q.x) * (p.y * q.y)) ^ 2 -
        (p.x ^ 2 + p.y ^ 2 - 1) * (q.x ^ 2 + q.y ^ 2 - 1)) * (d * (q.x * q.y) ^ 2) -
      (q.x ^ 2 + q.y ^ 2) ^ 2) * curveP +
    (((p.x ^ 2 + p.y ^ 2) * (q.x ^ 2 + q.y ^ 2) + 2 - (d * (p.x * q.x) * (p.y * q.y)) ^ 2 -
        (p.x ^ 2 + p.y ^ 2 - 1) * (q.x ^ 2 + q.y ^ 2 - 1)) * (p.x ^ 2 + p.y ^ 2 - 1) -
      (p.x ^ 2 + p.y ^ 2) ^ 2) * curveQ

end

theorem crossTerm_comm (d : F) (p q : Point F) : crossTerm d p q = crossTerm d q p := by
  simp only [crossTerm]
  ring

theorem add_comm (d : F) (p q : Point F) : add d p q = add d q p := by
  apply Point.ext
  · simp only [add, crossTerm_comm d p q]
    ring
  · simp only [add, crossTerm_comm d p q]
    ring

def neg (p : Point F) : Point F := ⟨-p.x, p.y⟩

theorem neg_onCurve {d : F} {p : Point F} (onP : OnCurve d p) : OnCurve d (neg p) := by
  simpa [OnCurve, neg] using onP

theorem neg_add {d : F} (nonsquare : ¬ IsSquare d) (two : (2 : F) ≠ 0) {p : Point F}
    (onP : OnCurve d p) : add d (neg p) p = neutral := by
  obtain ⟨plus, minus⟩ := denominators_ne_zero nonsquare two (neg_onCurve onP) onP
  apply add_eq plus minus
  · simp only [neg, neutral]
    ring
  · unfold OnCurve at onP
    simp only [neg, neutral, crossTerm]
    linear_combination onP

section

variable {d : F} {p q r : Point F} (onP : OnCurve d p) (onQ : OnCurve d q) (onR : OnCurve d r)
include onP onQ onR

theorem assoc_x :
    ((p.x * q.y + p.y * q.x) * (1 - crossTerm d p q) * r.y + (p.y * q.y - p.x * q.x) * (1 + crossTerm d p q) * r.x) *
      ((1 + crossTerm d q r) * (1 - crossTerm d q r) +
        d * (q.x * r.y + q.y * r.x) * (q.y * r.y - q.x * r.x) * p.x * p.y) =
    (p.x * (q.y * r.y - q.x * r.x) * (1 + crossTerm d q r) + p.y * (q.x * r.y + q.y * r.x) * (1 - crossTerm d q r)) *
      ((1 + crossTerm d p q) * (1 - crossTerm d p q) +
        d * (p.x * q.y + p.y * q.x) * (p.y * q.y - p.x * q.x) * r.x * r.y) := by
  unfold OnCurve at onP onQ onR
  unfold crossTerm
  -- cofactors from division by the three curve equations, with leading terms d·x²·y²
  linear_combination
    (d ^ 2 * p.x * q.x ^ 4 * q.y ^ 3 * r.x ^ 2 * r.y - d ^ 2 * p.x * q.x ^ 3 * q.y ^ 4 * r.x * r.y ^ 2 +
      d ^ 2 * p.y * q.x ^ 4 * q.y ^ 3 * r.x * r.y ^ 2 +
      d ^ 2 * p.y * q.x ^ 3 * q.y ^ 4 * r.x ^ 2 * r.y - d * p.x * q.x ^ 4 * q.y * r.x ^ 2 * r.y -
      d * p.x * q.x ^ 3 * q.y ^ 2 * r.x ^ 3 + d * p.x * q.x ^ 3 * q.y ^ 2 * r.x +
      d * p.x * q.x ^ 2 * q.y ^ 3 * r.y ^ 3 - d * p.x * q.x ^ 2 * q.y ^ 3 * r.y +
      d * p.x * q.x * q.y ^ 4 * r.x * r.y ^ 2 - d * p.y * q.x ^ 4 * q.y * r.x * r.y ^ 2 +
      d * p.y * q.x ^ 3 * q.y ^ 2 * r.y ^ 3 - d * p.y * q.x ^ 3 * q.y ^ 2 * r.y +
      d * p.y * q.x ^ 2 * q.y ^ 3 * r.x ^ 3 - d * p.y * q.x ^ 2 * q.y ^ 3 * r.x -
      d * p.y * q.x * q.y ^ 4 * r.x ^ 2 * r.y) * onP +
    (d * p.x ^ 3 * q.x ^ 2 * q.y * r.x ^ 2 * r.y - d * p.x ^ 3 * q.x * q.y ^ 2 * r.x * r.y ^ 2 -
      d * p.x ^ 2 * p.y * q.x ^ 2 * q.y * r.x ^ 3 + d * p.x ^ 2 * p.y * q.x ^ 2 * q.y * r.x -
      d * p.x ^ 2 * p.y * q.x * q.y ^ 2 * r.y ^ 3 + d * p.x ^ 2 * p.y * q.x * q.y ^ 2 * r.y -
      d * p.x * p.y ^ 2 * q.x ^ 2 * q.y * r.y ^ 3 + d * p.x * p.y ^ 2 * q.x ^ 2 * q.y * r.y +
      d * p.x * p.y ^ 2 * q.x * q.y ^ 2 * r.x ^ 3 - d * p.x * p.y ^ 2 * q.x * q.y ^ 2 * r.x -
      d * p.x * q.x ^ 2 * q.y * r.x ^ 2 * r.y + d * p.x * q.x * q.y ^ 2 * r.x * r.y ^ 2 +
      d * p.y ^ 3 * q.x ^ 2 * q.y * r.x * r.y ^ 2 + d * p.y ^ 3 * q.x * q.y ^ 2 * r.x ^ 2 * r.y -
      d * p.y * q.x ^ 2 * q.y * r.x * r.y ^ 2 - d * p.y * q.x * q.y ^ 2 * r.x ^ 2 * r.y) * onQ +
    (-d ^ 2 * p.x ^ 2 * p.y * q.x ^ 4 * q.y ^ 3 * r.x - d ^ 2 * p.x ^ 2 * p.y * q.x ^ 3 * q.y ^ 4 * r.y -
      d ^ 2 * p.x * p.y ^ 2 * q.x ^ 4 * q.y ^ 3 * r.y +
      d ^ 2 * p.x * p.y ^ 2 * q.x ^ 3 * q.y ^ 4 * r.x + d * p.x ^ 3 * q.x ^ 3 * q.y ^ 2 * r.x -
      d * p.x ^ 3 * q.x ^ 2 * q.y ^ 3 * r.y + d * p.x ^ 2 * p.y * q.x ^ 4 * q.y * r.x +
      d * p.x ^ 2 * p.y * q.x * q.y ^ 4 * r.y + d * p.x * p.y ^ 2 * q.x ^ 4 * q.y * r.y -
      d * p.x * p.y ^ 2 * q.x * q.y ^ 4 * r.x - d * p.x * q.x ^ 3 * q.y ^ 2 * r.x +
      d * p.x * q.x ^ 2 * q.y ^ 3 * r.y - d * p.y ^ 3 * q.x ^ 3 * q.y ^ 2 * r.y -
      d * p.y ^ 3 * q.x ^ 2 * q.y ^ 3 * r.x + d * p.y * q.x ^ 3 * q.y ^ 2 * r.y +
      d * p.y * q.x ^ 2 * q.y ^ 3 * r.x) * onR

theorem assoc_y :
    ((p.y * q.y - p.x * q.x) * (1 + crossTerm d p q) * r.y - (p.x * q.y + p.y * q.x) * (1 - crossTerm d p q) * r.x) *
      ((1 + crossTerm d q r) * (1 - crossTerm d q r) -
        d * (q.x * r.y + q.y * r.x) * (q.y * r.y - q.x * r.x) * p.x * p.y) =
    (p.y * (q.y * r.y - q.x * r.x) * (1 + crossTerm d q r) - p.x * (q.x * r.y + q.y * r.x) * (1 - crossTerm d q r)) *
      ((1 + crossTerm d p q) * (1 - crossTerm d p q) -
        d * (p.x * q.y + p.y * q.x) * (p.y * q.y - p.x * q.x) * r.x * r.y) := by
  -- adding the point (1, 0) of order four turns one coordinate into the other
  have onTurned : OnCurve d ⟨r.y, -r.x⟩ := by
    unfold OnCurve at onR ⊢
    linear_combination onR
  have turned := assoc_x onP onQ onTurned
  unfold crossTerm at turned ⊢
  linear_combination turned

end

theorem crossTerm_add (d : F) (p q r : Point F) : crossTerm d (add d p q) r =
    d * ((p.x * q.y + p.y * q.x) / (1 + crossTerm d p q) * r.x) *
      ((p.y * q.y - p.x * q.x) / (1 - crossTerm d p q) * r.y) := rfl

theorem add_assoc {d : F} (nonsquare : ¬ IsSquare d) (two : (2 : F) ≠ 0) {p q r : Point F} (onP : OnCurve d p)
    (onQ : OnCurve d q) (onR : OnCurve d r) : add d (add d p q) r = add d p (add d q r) := by
  obtain ⟨plusPQ, minusPQ⟩ := denominators_ne_zero nonsquare two onP onQ
  obtain ⟨plusQR, minusQR⟩ := denominators_ne_zero nonsquare two onQ onR
  obtain ⟨plusLeft, minusLeft⟩ :=
    denominators_ne_zero nonsquare two (add_onCurve nonsquare two onP onQ) onR
  obtain ⟨plusRight, minusRight⟩ :=
    denominators_ne_zero nonsquare two onP (add_onCurve nonsquare two onQ onR)
  apply Point.ext
  · apply (div_eq_div_iff plusLeft plusRight).mpr
    rw [crossTerm_add d p q r, crossTerm_comm d p (add d q r), crossTerm_add d q r p]
    simp only [add]
    field_simp
    linear_combination assoc_x onP onQ onR
  · apply (div_eq_div_iff minusLeft minusRight).mpr
    rw [crossTerm_add d p q r, crossTerm_comm d p (add d q r), crossTerm_add d q r p]
    simp only [add]
    field_simp
    linear_combination assoc_y onP onQ onR

structure Curve (F : Type) [Field F] where
  d : F
  nonsquare : ¬ IsSquare d
  two : (2 : F) ≠ 0

@[ext] structure Curve.Group (curve : Curve F) where
  point : Point F
  onCurve : OnCurve curve.d point

namespace Curve

variable {curve : Curve F}

instance : Add curve.Group where
  add p q := ⟨Edwards.add curve.d p.point q.point, add_onCurve curve.nonsquare curve.two p.onCurve q.onCurve⟩

instance : Zero curve.Group where
  zero := ⟨neutral, neutral_onCurve curve.d⟩

instance : Neg curve.Group where
  neg p := ⟨Edwards.neg p.point, neg_onCurve p.onCurve⟩

@[simp] theorem point_add (p q : curve.Group) : (p + q).point = Edwards.add curve.d p.point q.point := rfl

@[simp] theorem point_zero : (0 : curve.Group).point = neutral := rfl

instance : AddCommGroup curve.Group where
  add_assoc p q r :=
    Group.ext (Edwards.add_assoc curve.nonsquare curve.two p.onCurve q.onCurve r.onCurve)
  zero_add p := Group.ext (neutral_add curve.d p.point)
  add_zero p := Group.ext (add_neutral curve.d p.point)
  add_comm p q := Group.ext (Edwards.add_comm curve.d p.point q.point)
  neg_add_cancel p := Group.ext (Edwards.neg_add curve.nonsquare curve.two p.onCurve)
  nsmul := nsmulRec
  zsmul := zsmulRec

end Curve

structure Projective (F : Type) where
  x : F
  y : F
  z : F

namespace Projective

def add (d : F) (p q : Projective F) : Projective F :=
  let z := p.z * q.z
  let cross := d * (p.x * q.x) * (p.y * q.y)
  let minus := z * z - cross
  let plus := z * z + cross
  ⟨z * minus * (p.x * q.y + p.y * q.x), z * plus * (p.y * q.y - p.x * q.x), plus * minus⟩

def multiple (d : F) (base : Projective F) : ℕ → ℕ → Projective F
  | 0, _ => ⟨0, 1, 1⟩
  | rounds + 1, scalar =>
    let half := multiple d base rounds (scalar / 2)
    let doubled := half.add d half
    if scalar % 2 = 1 then doubled.add d base else doubled

structure Represents (p : Projective F) (point : Point F) : Prop where
  denominator : p.z ≠ 0
  x : p.x = point.x * p.z
  y : p.y = point.y * p.z

variable {curve : Curve F} {p q : Projective F} {a b : curve.Group}

theorem Represents.add (first : Represents p a.point) (second : Represents q b.point) :
    Represents (p.add curve.d q) (a + b).point := by
  obtain ⟨plus, minus⟩ := denominators_ne_zero curve.nonsquare curve.two a.onCurve b.onCurve
  obtain ⟨pz, px, py⟩ := first
  obtain ⟨qz, qx, qy⟩ := second
  have square : p.z * q.z * (p.z * q.z) ≠ 0 := mul_ne_zero (mul_ne_zero pz qz) (mul_ne_zero pz qz)
  have plusScaled : p.z * q.z * (p.z * q.z) + curve.d * (p.x * q.x) * (p.y * q.y) =
      p.z * q.z * (p.z * q.z) * (1 + crossTerm curve.d a.point b.point) := by
    rw [px, py, qx, qy, crossTerm]
    ring
  have minusScaled : p.z * q.z * (p.z * q.z) - curve.d * (p.x * q.x) * (p.y * q.y) =
      p.z * q.z * (p.z * q.z) * (1 - crossTerm curve.d a.point b.point) := by
    rw [px, py, qx, qy, crossTerm]
    ring
  constructor
  · simp only [Projective.add, plusScaled, minusScaled]
    exact mul_ne_zero (mul_ne_zero square plus) (mul_ne_zero square minus)
  · simp only [Projective.add, plusScaled, minusScaled, Curve.point_add, Edwards.add]
    rw [px, py, qx, qy]
    field_simp
  · simp only [Projective.add, plusScaled, minusScaled, Curve.point_add, Edwards.add]
    rw [px, py, qx, qy]
    field_simp

theorem multiple_represents (base : Represents p a.point) (rounds scalar : ℕ) (fits : scalar < 2 ^ rounds) :
    Represents (multiple curve.d p rounds scalar) (scalar • a).point := by
  induction rounds generalizing scalar with
  | zero =>
    obtain rfl : scalar = 0 := by simpa using fits
    exact ⟨one_ne_zero, by simp [multiple, neutral], by simp [multiple, neutral]⟩
  | succ rounds ih =>
    have half := ih (scalar / 2) (by omega)
    have doubled := half.add half
    rw [← two_nsmul, ← mul_nsmul'] at doubled
    simp only [multiple]
    split
    · rename_i odd
      have split : scalar • a = (2 * (scalar / 2)) • a + a := by
        rw [← succ_nsmul]
        congr 1
        omega
      rw [split]
      exact doubled.add base
    · rename_i even
      have split : scalar • a = (2 * (scalar / 2)) • a := by
        congr 1
        omega
      rw [split]
      exact doubled

theorem nsmul_eq_zero (base : Represents p a.point) {rounds scalar : ℕ} (fits : scalar < 2 ^ rounds)
    (x : (multiple curve.d p rounds scalar).x = 0)
    (y : (multiple curve.d p rounds scalar).y = (multiple curve.d p rounds scalar).z) : scalar • a = 0 := by
  obtain ⟨denominator, xScaled, yScaled⟩ := multiple_represents base rounds scalar fits
  apply Curve.Group.ext
  apply Point.ext
  · exact (mul_eq_zero.mp (xScaled.symm.trans x)).resolve_right denominator
  · exact mul_right_cancel₀ denominator ((yScaled.symm.trans y).trans (one_mul _).symm)

end Projective

end Edwards
