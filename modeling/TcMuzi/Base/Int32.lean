import Mathlib.Tactic.Common

/-!
# The `int` of the code

A number is an unbounded integer here, so what an `int` cannot hold is cut down where the
code computes in an `int` or reads a text into one.  An addition that overflows is taken to
keep the 32 low bits, as the machines of the code do.
-/

namespace TcMuzi
namespace Base

/-- The values of an `int`, and of an `int(11)` column. -/
def IsInt32 (n : Int) : Prop := -2147483648 ≤ n ∧ n ≤ 2147483647

instance (n : Int) : Decidable (IsInt32 n) := inferInstanceAs (Decidable (_ ∧ _))

/-- The 32 low bits of a number, with a sign. -/
def wrapInt32 (n : Int) : Int := (n + 2147483648) % 4294967296 - 2147483648

theorem isInt32_wrapInt32 (n : Int) : IsInt32 (wrapInt32 n) := by
  unfold IsInt32 wrapInt32
  omega

/-- Exactly the values of an `int` are kept. -/
theorem wrapInt32_eq_iff (n : Int) : wrapInt32 n = n ↔ IsInt32 n := by
  unfold IsInt32 wrapInt32
  omega

theorem wrapInt32_eq {n : Int} (h : IsInt32 n) : wrapInt32 n = n := (wrapInt32_eq_iff n).mpr h

/-- An increment is never without effect. -/
theorem wrapInt32_add_one_ne (n : Int) : wrapInt32 (n + 1) ≠ n := by
  unfold wrapInt32
  omega

/-- Cutting down on the way does not change the result. -/
theorem wrapInt32_wrapInt32_add (m n : Int) : wrapInt32 (wrapInt32 m + n) = wrapInt32 (m + n) := by
  unfold wrapInt32
  omega

example : wrapInt32 (2147483647 + 1) = -2147483648 := by decide

end Base
end TcMuzi
