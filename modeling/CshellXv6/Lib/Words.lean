import Mathlib.Tactic

/-! # Values of type `int`

What a variable of 32 bits holds after an assignment. Sums and differences may be cut
at any point.
-/

namespace CshellXv6.Lib

/-- The value of an `int` variable to which `x` has been assigned. -/
def toInt (x : Int) : Int := (BitVec.ofInt 32 x).toInt

lemma toInt_eq_bmod (x : Int) : toInt x = x.bmod (2 ^ 32) :=
  BitVec.toInt_ofInt x

lemma toInt_toInt_add (x y : Int) : toInt (toInt x + y) = toInt (x + y) := by
  simp only [toInt_eq_bmod, Int.bmod_add_bmod]

lemma toInt_add_toInt (x y : Int) : toInt (x + toInt y) = toInt (x + y) := by
  simp only [toInt_eq_bmod, Int.add_bmod_bmod]

lemma toInt_toInt_sub (x y : Int) : toInt (toInt x - y) = toInt (x - y) := by
  simp only [toInt_eq_bmod, Int.bmod_sub_bmod]

lemma toInt_of_range {x : Int} (hlow : -2 ^ 31 ≤ x) (hhigh : x < 2 ^ 31) : toInt x = x := by
  rw [toInt_eq_bmod, Int.bmod]
  split <;> omega

lemma toInt_of_lt {m : Nat} (h : m < 2 ^ 31) : toInt m = m :=
  toInt_of_range (by omega) (by omega)

lemma toInt_lt (x : Int) : toInt x < 2 ^ 31 := by
  rw [toInt_eq_bmod, Int.bmod]
  split <;> omega

lemma le_toInt (x : Int) : -2 ^ 31 ≤ toInt x := by
  rw [toInt_eq_bmod, Int.bmod]
  split <;> omega

lemma toNat_toInt_le (m : Nat) : (toInt m).toNat ≤ m := by
  rw [toInt_eq_bmod, Int.bmod]
  split <;> omega

end CshellXv6.Lib
