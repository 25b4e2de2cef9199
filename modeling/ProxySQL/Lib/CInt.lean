/-
  Lib.CInt

  Values stored in an `int` of 32 bits.
-/
import Mathlib.Algebra.Ring.Int.Defs
import Mathlib.Algebra.Ring.Nat

namespace Lib

/-- Narrowing to `int`. -/
def toInt (n : Int) : Int := Int.bmod n (2 ^ 32)

theorem toInt_range (n : Int) : -2 ^ 31 ≤ toInt n ∧ toInt n < 2 ^ 31 := by
  simp only [toInt, Int.bmod]
  omega

theorem toInt_congr (n : Int) : (n - toInt n) % 2 ^ 32 = 0 := by
  simp only [toInt, Int.bmod]
  omega

theorem toInt_eq {n v : Int} (hcongr : (n - v) % 2 ^ 32 = 0) (hlo : -2 ^ 31 ≤ v)
    (hhi : v < 2 ^ 31) : toInt n = v := by
  simp only [toInt, Int.bmod]
  omega

theorem toInt_of_lt {n : Nat} (h : n < 2 ^ 31) : toInt n = n :=
  toInt_eq (by omega) (by omega) (by omega)

theorem toInt_toInt_add (n m : Int) : toInt (toInt n + m) = toInt (n + m) :=
  Int.bmod_add_bmod

theorem toInt_inj_of_lt {j k : Nat} (hj : j < 2 ^ 32) (hk : k < 2 ^ 32) (h : toInt j = toInt k) :
    j = k := by
  have hj' := toInt_congr j
  have hk' := toInt_congr k
  rw [h] at hj'
  omega

end Lib
