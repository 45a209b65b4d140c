import Nachos.Mips.Arithmetic
import Mathlib.Data.BitVec
import Mathlib.Tactic.Ring

-- The product that Mult leaves in Hi and Lo.
namespace Nachos.Mips

-- Two words as one of double length.
def double (hi lo : BitVec 32) : BitVec 64 := hi ++ lo

section
variable {a bLo bHi lo hi : BitVec 32}

theorem double_toNat (hi lo : BitVec 32) : (double hi lo).toNat = hi.toNat * 2 ^ 32 + lo.toNat := by
  rw [double,BitVec.toNat_append,← Nat.shiftLeft_add_eq_or_of_lt lo.isLt,Nat.shiftLeft_eq]

theorem one_toNat : (1 : BitVec 32).toNat = 1 := rfl

-- The addition with its carry.
theorem double_add (hi lo bHi bLo : BitVec 32) :
    double ((if lo + bLo < bLo then hi + 1 else hi) + bHi) (lo + bLo) = double hi lo + double bHi bLo := by
  apply BitVec.eq_of_toNat_eq
  rw [BitVec.toNat_add,double_toNat,double_toNat,double_toNat]
  have carry : (lo + bLo < bLo) ↔ 2 ^ 32 ≤ lo.toNat + bLo.toNat := by
    rw [BitVec.lt_def,BitVec.toNat_add]
    omega
  split
  · rename_i out
    rw [carry] at out
    simp only [BitVec.toNat_add,one_toNat]
    omega
  · rename_i none
    rw [carry] at none
    simp only [BitVec.toNat_add]
    omega

theorem shift_toNat (word : BitVec 32) : (word <<< 1).toNat = 2 * word.toNat % 2 ^ 32 := by
  rw [BitVec.toNat_shiftLeft,Nat.shiftLeft_eq]
  omega

theorem shift_one_toNat (word : BitVec 32) : (word <<< 1 ||| 1).toNat = 2 * word.toNat % 2 ^ 32 + 1 := by
  rw [BitVec.toNat_or,shift_toNat,one_toNat]
  have even : 2 * word.toNat % 2 ^ 32 = (word.toNat % 2 ^ 31) <<< 1 := by
    rw [Nat.shiftLeft_eq]
    omega
  rw [even,Nat.shiftLeft_add_eq_or_of_lt (by decide)]

theorem top_bit (word : BitVec 32) : word &&& 0x80000000 = 0 ↔ word.toNat < 2 ^ 31 := by
  rw [show (0x80000000 : BitVec 32) = SIGN_BIT from rfl,sign_clear,BitVec.msb_eq_decide]
  simp

-- One place to the left.
theorem double_shift (bHi bLo : BitVec 32) :
    double (if bLo &&& 0x80000000 ≠ 0 then bHi <<< 1 ||| 1 else bHi <<< 1) (bLo <<< 1) = double bHi bLo + double bHi bLo := by
  apply BitVec.eq_of_toNat_eq
  rw [BitVec.toNat_add,double_toNat,double_toNat,shift_toNat]
  by_cases top : bLo &&& 0x80000000 = 0
  · rw [if_neg (not_not.mpr top),shift_toNat]
    rw [top_bit] at top
    omega
  · rw [if_pos top,shift_one_toNat]
    rw [top_bit] at top
    omega

-- The two's complement of both words.
theorem double_neg (hi lo : BitVec 32) :
    double (if ~~~lo + 1 = 0 then (~~~hi + 1,~~~lo + 1) else (~~~hi,~~~lo + 1)).1
      (if ~~~lo + 1 = 0 then (~~~hi + 1,~~~lo + 1) else (~~~hi,~~~lo + 1)).2 = -double hi lo := by
  apply BitVec.eq_of_toNat_eq
  have zero : ~~~lo + 1 = 0 ↔ lo.toNat = 0 := by
    rw [← BitVec.toNat_inj,BitVec.toNat_add,BitVec.toNat_not,one_toNat,show (0 : BitVec 32).toNat = 0 from rfl]
    omega
  split
  · rename_i out
    rw [zero] at out
    simp only [double_toNat,BitVec.toNat_neg,BitVec.toNat_add,BitVec.toNat_not,one_toNat]
    omega
  · rename_i none
    rw [zero] at none
    simp only [double_toNat,BitVec.toNat_neg,BitVec.toNat_add,BitVec.toNat_not,one_toNat]
    omega

-- The bits of `a` below `left` have still to be multiplied.
theorem low_bits (a : BitVec 32) (small : left + 1 ≤ 32) :
    a.toNat % 2 ^ (left + 1) = a.toNat % 2 + 2 * ((a.sshiftRight 1).toNat % 2 ^ left) := by
  have shifted : (a.sshiftRight 1).toNat % 2 ^ left = a.toNat / 2 % 2 ^ left := by
    rw [BitVec.toNat_sshiftRight]
    split
    · rename_i top
      rw [BitVec.msb_eq_decide,decide_eq_true_eq] at top
      have filled : 2 ^ 32 - 1 - (2 ^ 32 - 1 - a.toNat) >>> 1 = a.toNat / 2 + 2 ^ 31 := by
        rw [Nat.shiftRight_eq_div_pow]
        have bound := a.isLt
        omega
      have whole : 2 ^ 31 = 2 ^ left * 2 ^ (31 - left) := by
        rw [← pow_add,Nat.add_sub_of_le (by omega)]
      rw [filled,whole,Nat.add_mul_mod_self_left]
    · rw [Nat.shiftRight_eq_div_pow,pow_one]
  rw [shifted,pow_succ']
  exact Nat.mod_mul

theorem low_bit (a : BitVec 32) : a &&& 1 = 0 ↔ a.toNat % 2 = 0 := by
  rw [← BitVec.toNat_inj,BitVec.toNat_and,one_toNat,Nat.and_one_is_mod]
  rfl

theorem other_bits (a : BitVec 32) : a &&& 0xfffffffe = 0 ↔ a.toNat / 2 = 0 := by
  have cleared : a &&& (0xfffffffe : BitVec 32) = (a >>> 1) <<< 1 := by
    rw [show (0xfffffffe : BitVec 32) = ~~~1#32 from rfl]
    refine BitVec.eq_of_getLsbD_eq ?_
    intro i bound
    rw [BitVec.getLsbD_and,BitVec.getLsbD_not,BitVec.getLsbD_shiftLeft,BitVec.getLsbD_ushiftRight,BitVec.getLsbD_one]
    cases i with
    | zero => simp
    | succ i => simp [bound,Nat.add_comm]
  rw [cleared,← BitVec.toNat_inj,shift_toNat,BitVec.toNat_ushiftRight,Nat.shiftRight_eq_div_pow,pow_one,
    show (0 : BitVec 32).toNat = 0 from rfl]
  omega

-- The loop adds what is left of the product: `a` has been shifted as far as the other
-- number, so only its bits below `left` count.
theorem multLoop_sum (a bLo bHi lo hi : BitVec 32) (left : Nat) (small : left ≤ 32) :
    double (multLoop a bLo bHi lo hi left).1 (multLoop a bLo bHi lo hi left).2 =
      double hi lo + double bHi bLo * BitVec.ofNat 64 (a.toNat % 2 ^ left) := by
  induction left generalizing a bLo bHi lo hi with
  | zero => simp [multLoop,Nat.mod_one]
  | succ left ih =>
    have product : double bHi bLo * BitVec.ofNat 64 (a.toNat % 2 ^ (left + 1)) =
        double bHi bLo * BitVec.ofNat 64 (a.toNat % 2) +
          (double bHi bLo + double bHi bLo) * BitVec.ofNat 64 ((a.sshiftRight 1).toNat % 2 ^ left) := by
      rw [low_bits a small,BitVec.ofNat_add,BitVec.ofNat_mul,show BitVec.ofNat 64 2 = 1 + 1 from rfl]
      ring
    rw [multLoop]
    dsimp only
    by_cases odd : a &&& 1 = 0
    · rw [if_neg (not_not.mpr odd),ih _ _ _ _ _ (by omega),double_shift,product,(low_bit a).mp odd]
      simp
    · have one : a.toNat % 2 = 1 := by
        have bit := mt (low_bit a).mpr odd
        omega
      rw [if_pos odd]
      by_cases last : a &&& 0xfffffffe = 0
      · have rest := (other_bits a).mp last
        have alone : a.toNat % 2 ^ (left + 1) = 1 := by
          have single : a.toNat = 1 := by omega
          rw [single]
          exact Nat.mod_eq_of_lt (Nat.one_lt_two_pow (by omega))
        rw [if_pos last,double_add,alone]
        simp
      · rw [if_neg last,ih _ _ _ _ _ (by omega),double_add,double_shift,product,one,show BitVec.ofNat 64 1 = 1 from rfl]
        ring

theorem multLoop_product (a b : BitVec 32) :
    double (multLoop a b 0 0 0 32).1 (multLoop a b 0 0 0 32).2 = BitVec.ofNat 64 (a.toNat * b.toNat) := by
  have word : double 0 b = BitVec.ofNat 64 b.toNat := by
    apply BitVec.eq_of_toNat_eq
    rw [double_toNat,show (0 : BitVec 32).toNat = 0 from rfl,BitVec.toNat_ofNat]
    omega
  rw [multLoop_sum a b 0 0 0 32 (by decide),word,Nat.mod_eq_of_lt a.isLt,BitVec.ofNat_mul,show double 0 0 = 0 from rfl]
  ring

-- Without its sign; the most negative integer is 2^31 then.
theorem magnitude (a : BitVec 32) : (if a.slt 0 then -a else a).toNat = a.toInt.natAbs := by
  have number := BitVec.toInt_eq_toNat_cond a
  have bound := a.isLt
  have sign : a.slt 0 = true ↔ a.toInt < 0 := BitVec.slt_iff_toInt_lt
  split
  · rename_i negative
    rw [sign] at negative
    rw [BitVec.toNat_neg]
    split at number <;> omega
  · rename_i positive
    rw [sign] at positive
    split at number <;> omega

theorem product_sign (x y : Int) :
    x * y = if (decide (x < 0) ^^ decide (y < 0)) = true then -((x.natAbs * y.natAbs : Nat) : Int)
      else ((x.natAbs * y.natAbs : Nat) : Int) := by
  rw [Nat.cast_mul]
  rcases lt_or_ge x 0 with left | left <;> rcases lt_or_ge y 0 with right | right
  · rw [Int.ofNat_natAbs_of_nonpos left.le,Int.ofNat_natAbs_of_nonpos right.le]
    simp [left,right]
  · rw [Int.ofNat_natAbs_of_nonpos left.le,Int.natAbs_of_nonneg right]
    simp [left,right]
  · rw [Int.natAbs_of_nonneg left,Int.ofNat_natAbs_of_nonpos right.le]
    simp [not_lt.mpr left,right]
  · rw [Int.natAbs_of_nonneg left,Int.natAbs_of_nonneg right]
    simp [not_lt.mpr left,not_lt.mpr right]

theorem mult_signed (a b : BitVec 32) :
    double (mult a b true).1 (mult a b true).2 = BitVec.ofInt 64 (a.toInt * b.toInt) := by
  unfold mult
  split
  · rename_i zero
    rcases zero with rfl | rfl <;> simp [double]
  · have signs : a.toInt * b.toInt = if (a.slt 0 ^^ b.slt 0) = true then -((a.toInt.natAbs * b.toInt.natAbs : Nat) : Int)
        else ((a.toInt.natAbs * b.toInt.natAbs : Nat) : Int) := product_sign a.toInt b.toInt
    rw [signs,← magnitude a,← magnitude b]
    simp only [Bool.true_and]
    generalize (if a.slt 0 = true then -a else a) = x
    generalize (if b.slt 0 = true then -b else b) = y
    have product := multLoop_product x y
    split
    · rw [double_neg,product,BitVec.ofInt_neg,BitVec.ofInt_natCast]
    · rw [product,BitVec.ofInt_natCast]

theorem product_bound (a b : BitVec 32) : -2 ^ 63 ≤ a.toInt * b.toInt ∧ a.toInt * b.toInt < 2 ^ 63 := by
  have low := BitVec.le_toInt_mul_toInt (x := a) (y := b)
  have high := BitVec.toInt_mul_toInt_le (x := a) (y := b)
  constructor <;> omega

end

-- Mult leaves the product of the two words, both of them read with their signs or both
-- without.
theorem mult_exact (a b : BitVec 32) :
    (double (mult a b true).1 (mult a b true).2).toInt = a.toInt * b.toInt ∧
      (double (mult a b false).1 (mult a b false).2).toNat = a.toNat * b.toNat := by
  constructor
  · have bound := product_bound a b
    rw [mult_signed,BitVec.toInt_ofInt_eq_self (by decide) bound.1 bound.2]
  · unfold mult
    split
    · rename_i zero
      rcases zero with rfl | rfl <;> simp [double]
    · have exact_ : a.toNat * b.toNat < 2 ^ 32 * 2 ^ 32 := Nat.mul_lt_mul'' a.isLt b.isLt
      simp only [Bool.false_and,Bool.false_eq_true,if_false,multLoop_product,BitVec.toNat_ofNat]
      exact Nat.mod_eq_of_lt exact_

end Nachos.Mips
