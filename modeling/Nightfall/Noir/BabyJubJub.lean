import Mathlib.Tactic.ReduceModChar
import Mathlib.NumberTheory.LegendreSymbol.Basic
import Nightfall.Field
import Nightfall.Library.Edwards
import Nightfall.Library.Revert

/-! `bjj.nr`: Baby JubJub in the form `x² + y² = 1 + d·x²·y²`. A division by zero
aborts the program; on points of the curve none can occur, because `d` is not a
square. -/

namespace Nightfall.Noir

open Revert

variable (scalar : Fr254) (p : Point)

abbrev Point := Edwards.Point Fr254

def coeffD : Fr254 :=
  9706598848417545097372247223557719406784115219466060233080913168975159366771

def generator : Point :=
  ⟨19698561148652590122159747500897617769866003486955115824547446575314762165298,
    19298250018296453272277890825869354524455968081175474282777126169995084727839⟩

def identity : Point := Edwards.neutral

def subgroupOrder : ℕ :=
  2736030358979909402780800718157159386076813972158567259200215660948447373041

def scalarBits : ℕ := 251

def divide (numerator denominator : Fr254) : Except String Fr254 := do
  require (denominator ≠ 0) "attempt to divide by zero"
  return numerator / denominator

def add (p q : Point) : Except String Point := do
  let dxy := coeffD * (p.x * q.x) * (p.y * q.y)
  let x ← divide (p.x * q.y + p.y * q.x) (1 + dxy)
  let y ← divide (p.y * q.y - p.x * q.x) (1 - dxy)
  return ⟨x, y⟩

def double : Except String Point := add p p

def ladderStep (scalar : ℕ) (state : Point × Point) (i : ℕ) : Except String (Point × Point) := do
  let acc ← if scalar.testBit i then add state.1 state.2 else pure state.1
  let cur ← double state.2
  return (acc, cur)

def scalarMul (base : Point) : Except String Point := do
  require (scalar.val < 2 ^ scalarBits) "field does not fit in 251 bits"
  let (acc, _) ← (List.range scalarBits).foldlM (ladderStep scalar.val) (identity, base)
  return acc

def mulByGenerator : Except String Point := scalarMul scalar generator

def isOnCurve : Prop := Edwards.OnCurve coeffD p

instance (p : Point) : Decidable (isOnCurve p) := inferInstanceAs (Decidable (_ = _))

def assertOnCurve : Except String Unit :=
  require (isOnCurve p) "bjj: point not on curve"

def assertValidScalar : Except String Unit :=
  require (scalar.val < subgroupOrder) "bjj: scalar out of subgroup range"

def isNeutral : Bool := p.x = 0 ∧ p.y = 1

def assertInSubgroup : Except String Unit := do
  assertOnCurve p
  let cofactorCleared ← scalarMul subgroupOrder p
  require (isNeutral cofactorCleared = true) "bjj: DH base not in prime-order subgroup"

theorem isNeutral_iff : isNeutral p = true ↔ p = identity := by
  simp [isNeutral, identity, Edwards.neutral, Edwards.Point.ext_iff]

theorem coeffD_nonsquare : ¬ IsSquare coeffD := by
  intro square
  have power := (ZMod.euler_criterion fr254Modulus (show coeffD ≠ 0 by decide)).mp square
  have minusOne : (9706598848417545097372247223557719406784115219466060233080913168975159366771 :
      ZMod 21888242871839275222246405745257275088548364400416034343698204186575808495617) ^
      10944121435919637611123202872628637544274182200208017171849102093287904247808 ≠ 1 := by
    reduce_mod_char
    decide
  exact minusOne power

theorem two_ne_zero_fr254 : (2 : Fr254) ≠ 0 := by decide

theorem injOn_diagonal_of_sum {hash : Fr254 → Fr254 → Fr254} (isSum : ∀ a b, hash a b = a + b + 1) :
    Set.InjOn (fun pair : Fr254 × Fr254 => hash pair.1 pair.2) (Set.diagonal Fr254) := by
  intro left onLeft right onRight same
  have leftEqual : left.1 = left.2 := onLeft
  have rightEqual : right.1 = right.2 := onRight
  have doubled : 2 * (left.1 - right.1) = 0 := by
    simp only [isSum] at same
    linear_combination same + leftEqual - rightEqual
  have equal := sub_eq_zero.mp ((mul_eq_zero.mp doubled).resolve_left two_ne_zero_fr254)
  exact Prod.ext equal (leftEqual.symm.trans (equal.trans rightEqual))

theorem generator_onCurve : isOnCurve generator := by decide

def babyJubJub : Edwards.Curve Fr254 := ⟨coeffD, coeffD_nonsquare, two_ne_zero_fr254⟩

theorem add_ok {p q : Point} (onP : isOnCurve p) (onQ : isOnCurve q) : add p q = .ok (Edwards.add coeffD p q) := by
  obtain ⟨plus, minus⟩ := Edwards.denominators_ne_zero coeffD_nonsquare two_ne_zero_fr254 onP onQ
  simp only [add, divide, bind_eq_ok, require_eq_ok, pure_eq_ok]
  exact ⟨_, ⟨(), plus, rfl⟩, _, ⟨(), minus, rfl⟩, rfl⟩

theorem ladderStep_ok (scalar : ℕ) {acc cur : Point} (onAcc : isOnCurve acc) (onCur : isOnCurve cur) (i : ℕ) :
    ladderStep scalar (acc, cur) i = .ok (if scalar.testBit i then Edwards.add coeffD acc cur else acc,
        Edwards.add coeffD cur cur) := by
  simp only [ladderStep, double, add_ok onCur onCur]
  split
  · rw [add_ok onAcc onCur]
    rfl
  · rfl

theorem ladder_eq (scalar : ℕ) (base : babyJubJub.Group) (rounds : ℕ) :
    (List.range rounds).foldlM (ladderStep scalar) (identity, base.point) =
      .ok (((scalar % 2 ^ rounds) • base).point, (2 ^ rounds • base).point) := by
  induction rounds with
  | zero =>
    rw [pow_zero, Nat.mod_one, zero_nsmul, one_nsmul]
    rfl
  | succ rounds ih =>
    have doubled : 2 ^ (rounds + 1) • base = 2 ^ rounds • base + 2 ^ rounds • base := by
      rw [pow_succ, mul_two, add_nsmul]
    rw [List.range_succ, List.foldlM_append, ih, doubled, Nat.mod_pow_succ, ← Nat.toNat_testBit]
    have turned := ladderStep_ok scalar ((scalar % 2 ^ rounds) • base).onCurve (2 ^ rounds • base).onCurve rounds
    simp only [bind, Except.bind, List.foldlM_cons, List.foldlM_nil, turned]
    cases scalar.testBit rounds
    · rw [Bool.toNat_false, mul_zero, add_zero]
      rfl
    · rw [Bool.toNat_true, mul_one, add_nsmul]
      rfl

theorem scalarMul_eq (range : scalar.val ≤ subgroupOrder) (base : babyJubJub.Group) :
    scalarMul scalar base.point = .ok (scalar.val • base).point := by
  have fits : scalar.val < 2 ^ scalarBits := range.trans_lt (by decide)
  rw [scalarMul, require_pos fits, ladder_eq, Nat.mod_eq_of_lt fits]
  rfl

theorem scalarMul_neutral (range : scalar.val ≤ subgroupOrder) : scalarMul scalar identity = .ok identity := by
  have multiple := scalarMul_eq scalar range 0
  rw [nsmul_zero] at multiple
  exact multiple

def generatorPoint : babyJubJub.Group := ⟨generator, generator_onCurve⟩

theorem mulByGenerator_eq (range : scalar.val ≤ subgroupOrder) :
    mulByGenerator scalar = .ok (scalar.val • generatorPoint).point :=
  scalarMul_eq scalar range generatorPoint

theorem mulByGenerator_one : mulByGenerator 1 = .ok generator := by
  have multiple := mulByGenerator_eq 1 (by decide)
  rw [show (1 : Fr254).val = 1 from rfl, one_nsmul] at multiple
  exact multiple

theorem mulByGenerator_two : mulByGenerator 2 = .ok (Edwards.add coeffD generator generator) := by
  have multiple := mulByGenerator_eq 2 (by decide)
  rw [show (2 : Fr254).val = 2 from rfl, two_nsmul] at multiple
  exact multiple

theorem subgroupOrder_nsmul_generator : subgroupOrder • generatorPoint = 0 := by
  have represented : Edwards.Projective.Represents ⟨generator.x, generator.y, 1⟩
      generatorPoint.point := ⟨one_ne_zero, (mul_one _).symm, (mul_one _).symm⟩
  apply Edwards.Projective.nsmul_eq_zero represented (show subgroupOrder < 2 ^ scalarBits by decide)
  · decide +kernel
  · decide +kernel

theorem assertInSubgroup_eq_ok (result : Unit) :
    assertInSubgroup p = .ok result ↔ ∃ member : babyJubJub.Group, member.point = p ∧ subgroupOrder • member = 0 := by
  have order : (subgroupOrder : Fr254).val = subgroupOrder := by decide
  simp only [assertInSubgroup, assertOnCurve, bind_eq_ok, require_eq_ok, isNeutral_iff]
  constructor
  · rintro ⟨_, onCurve, cleared, multiplied, neutral⟩
    refine ⟨⟨p, onCurve⟩, rfl, ?_⟩
    have multiple := scalarMul_eq subgroupOrder order.le ⟨p, onCurve⟩
    apply Edwards.Curve.Group.ext
    exact (Except.ok.inj (multiple.symm.trans multiplied)).trans neutral
  · rintro ⟨member, rfl, cleared⟩
    have multiple := scalarMul_eq subgroupOrder order.le member
    rw [order, cleared] at multiple
    exact ⟨(), member.onCurve, identity, multiple, rfl⟩

def doublings : Fin 5 → Point :=
  ![generator, ⟨10888583586923931208544682894223808592889594683695707023810418596490376666084,
      5385439990830629333790141808766489564004042426613953605842428838252723138518⟩,
    ⟨6617324571313676286843372227140278895907049832248229689369420195496459749250,
      12702992722502293829442787120836917515300717186196477509244682198008534095346⟩,
    ⟨5519137470395461063537112384736200284573851811057071884390730938070852129734,
      8687804081404452377282491145596437667443372954154792349302794456187086464772⟩,
    ⟨11156928599785165082922352285819448641882560818511727361244962856024435534793,
      16299476472859803845389031360308059119859598195690243651929589258161150013292⟩]

theorem doublings_succ (i : Fin 4) :
    Edwards.add coeffD (doublings i.castSucc) (doublings i.castSucc) = doublings i.succ := by
  have checks : ∀ i : Fin 4,
      let p := doublings i.castSucc
      let t := Edwards.crossTerm coeffD p p
      1 + t ≠ 0 ∧ 1 - t ≠ 0 ∧ p.x * p.y + p.y * p.x = (doublings i.succ).x * (1 + t) ∧
        p.y * p.y - p.x * p.x = (doublings i.succ).y * (1 - t) := by
    decide
  obtain ⟨plus, minus, x, y⟩ := checks i
  exact Edwards.add_eq plus minus x y

theorem generator_ne_double : generator ≠ Edwards.add coeffD generator generator := by
  rw [show Edwards.add coeffD generator generator = doublings 1 from doublings_succ 0]
  decide

end Nightfall.Noir
