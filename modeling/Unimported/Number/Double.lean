/-
Doubles: numbers with 53 significant bits.

Only numbers that are not negative are needed, and none that is near the ends of the range of
exponents, so a double is a natural mantissa and an exponent without bounds. A number that is no
double stands for the nearest one; where two are equally near, for the one with the even mantissa.
-/

set_option autoImplicit false

namespace Unimported.Number

/-- The number `mantissa * 2 ^ exponent`. -/
structure Double where
  mantissa : Nat
  exponent : Int
deriving DecidableEq, Repr

/-- The natural number nearest to a quotient, and of two the even one. -/
def roundedQuotient (num den : Nat) : Nat :=
  let q := num / den
  let twice := 2 * (num % den)
  if twice < den ∨ (twice = den ∧ q % 2 = 0) then q else q + 1

namespace Double

/-- The quotient `num / den` as a multiple of `2 ^ e`: numerator and denominator. -/
def scaled (num den : Nat) (e : Int) : Nat × Nat :=
  (num * Nat.pow 2 (-e).toNat, den * Nat.pow 2 e.toNat)

/-- The exponent of the doubles around a positive quotient: with it, the mantissa has 53 bits. -/
def exponentOf (num den : Nat) : Int :=
  let e : Int := (num.log2 : Int) - den.log2 - 52
  let (n, d) := scaled num den e
  if n < Nat.pow 2 52 * d then e - 1 else e

/-- The double nearest to a quotient. -/
def ofRatio (num den : Nat) : Double :=
  if num = 0 then ⟨0, 0⟩
  else
    let e := exponentOf num den
    let (n, d) := scaled num den e
    let m := roundedQuotient n d
    if m = Nat.pow 2 53 then ⟨Nat.pow 2 52, e + 1⟩ else ⟨m, e⟩

/-- The numerator of a double as a fraction. -/
def num (x : Double) : Nat := x.mantissa * Nat.pow 2 x.exponent.toNat

/-- The denominator of a double as a fraction. -/
def den (x : Double) : Nat := Nat.pow 2 (-x.exponent).toNat

/-- The double nearest to a sum. -/
def add (x y : Double) : Double := ofRatio (x.num * y.den + y.num * x.den) (x.den * y.den)

example : ofRatio 1 10 = ⟨0x1999999999999A, -56⟩ := by decide
example : ofRatio 9007199254740993 1 = ⟨Nat.pow 2 52, 1⟩ := by decide

end Double

end Unimported.Number
