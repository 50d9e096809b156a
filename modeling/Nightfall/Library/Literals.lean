import Mathlib.Algebra.GroupWithZero.Nat
import Mathlib.Data.Nat.Cast.Defs

/-! Shortcuts to the library's instances behind the literals of small index types and of a ring: with a
name for each, an index or a numeral is the same term in every module. -/

namespace Literals

instance neZeroTwo : NeZero 2 := inferInstance

instance neZeroThree : NeZero 3 := inferInstance

instance neZeroFour : NeZero 4 := inferInstance

instance neZeroFive : NeZero 5 := inferInstance

instance atLeastTwoTwo : Nat.AtLeastTwo 2 := inferInstance

instance atLeastTwoThree : Nat.AtLeastTwo 3 := inferInstance

instance atLeastTwoFour : Nat.AtLeastTwo 4 := inferInstance

instance atLeastTwoFive : Nat.AtLeastTwo 5 := inferInstance

instance atLeastTwoSeven : Nat.AtLeastTwo 7 := inferInstance

instance atLeastTwoNine : Nat.AtLeastTwo 9 := inferInstance

end Literals
