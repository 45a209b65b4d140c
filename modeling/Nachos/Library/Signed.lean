import Mathlib.Algebra.Ring.Int.Defs
import Mathlib.Algebra.Group.Nat.Defs

-- Integers in two's complement, with w bits, and the division of C.
namespace Signed

-- What is left of x in a variable of w bits.
def wrap (w : Nat) (x : Int) : Int := x.bmod (2 ^ w)

variable {v w : Nat} {x y : Int}

theorem wrap_small (low : -2 ^ w ≤ x) (high : x < 2 ^ w) : wrap (w + 1) x = x := by
  refine Int.bmod_eq_of_le ?_ ?_
  · rw [Nat.pow_succ]
    push_cast
    omega
  · rw [Nat.pow_succ]
    push_cast
    omega

-- A narrower variable does not see the wider one in between.
theorem wrap_wrap (narrower : v ≤ w) (x : Int) : wrap v (wrap w x) = wrap v x :=
  Int.bmod_bmod_of_dvd (Nat.pow_dvd_pow 2 narrower)

theorem wrap_add (narrower : v ≤ w) (x y : Int) : wrap v (wrap w x + y) = wrap v (x + y) := by
  have inner := wrap_wrap narrower x
  unfold wrap at *
  rw [← Int.bmod_add_bmod,inner,Int.bmod_add_bmod]

-- Only whole turns are lost.
theorem wrap_zero (positive : 0 ≤ x) (high : x < 2 ^ w) (zero : wrap w x = 0) : x = 0 := by
  have divides := Int.dvd_of_bmod_eq_zero zero
  push_cast at divides
  exact Int.eq_zero_of_dvd_of_nonneg_of_lt positive high divides

-- The quotient goes towards 0.
theorem tdiv_negative (negative : x < 0) (d : Int) : x.tdiv d = -(-x / d) := by
  rw [← Int.tdiv_eq_ediv_of_nonneg (show 0 ≤ -x by omega),Int.neg_tdiv,Int.neg_neg]

theorem tmod_negative (negative : x < 0) (d : Int) : x.tmod d = -(-x % d) := by
  rw [← Int.tmod_eq_emod_of_nonneg (show 0 ≤ -x by omega),Int.neg_tmod,Int.neg_neg]

end Signed
