/-
Decimals: the fewest digits that tell a double from all others, and fixed places.

All numbers nearer to a double than to any other are rounded to it. They form an interval, which
holds its ends exactly when the mantissa is even. The multiples of a power of ten form a grid;
the coarsest grid with a point in the interval gives the fewest digits, and of the two points
that lie around the double the nearer one is taken, on a tie the even one.
-/
import Unimported.Number.Double

set_option autoImplicit false

namespace Unimported.Number

/-- The number `digits * 10 ^ exponent`. -/
structure Decimal where
  digits : Nat
  exponent : Int
deriving DecidableEq, Repr

namespace Double

/-- Whether the gap below a double is half the gap above it. -/
def narrowBelow (x : Double) : Bool := x.mantissa = Nat.pow 2 52

/-- How a decimal compares with `n * 2 ^ e`. -/
def compareDecimal (d : Decimal) (n : Nat) (e : Int) : Ordering :=
  compare (d.digits * Nat.pow 10 d.exponent.toNat * Nat.pow 2 (-e).toNat)
    (n * Nat.pow 2 e.toNat * Nat.pow 10 (-d.exponent).toNat)

/-- Whether a decimal is rounded to the double. -/
def readsBack (x : Double) (d : Decimal) : Bool :=
  let lower := compareDecimal d (4 * x.mantissa - if x.narrowBelow then 1 else 2) (x.exponent - 2)
  let upper := compareDecimal d (4 * x.mantissa + 2) (x.exponent - 2)
  let closed := x.mantissa % 2 == 0
  (lower == .gt || (closed && lower == .eq)) && (upper == .lt || (closed && upper == .eq))

/-- The double as a multiple of `10 ^ k`: numerator and denominator. -/
def onGrid (x : Double) (k : Int) : Nat × Nat :=
  (x.num * Nat.pow 10 (-k).toNat, x.den * Nat.pow 10 k.toNat)

/-- The point of a grid that is rounded to the double, if there is one: of the two around the
double the nearer one first. -/
def onGrid? (x : Double) (k : Int) : Option Decimal :=
  let (n, d) := x.onGrid k
  let near := roundedQuotient n d
  let far := if near = n / d then near + 1 else n / d
  [Decimal.mk near k, Decimal.mk far k].find? x.readsBack

/-- The exponent of a grid on which the double lies itself. -/
def finest (x : Double) : Int := min x.exponent 0

/-- The double on the finest grid. -/
def exact (x : Double) : Decimal :=
  ⟨x.num * Nat.pow 5 (-x.exponent).toNat, x.finest⟩

/-- The point of the coarsest grid that is rounded to the double, of the grids up to so many
steps coarser than the finest. -/
def coarsest (x : Double) : Nat → Decimal
  | 0 => x.exact
  | steps + 1 => (x.onGrid? (x.finest + (steps + 1))).getD (x.coarsest steps)

/-- The decimal with the fewest digits that is rounded to the double. -/
def shortest (x : Double) : Decimal :=
  if x.mantissa = 0 then ⟨0, 0⟩
  else x.coarsest ((Nat.toDigits 10 (x.num / x.den)).length + (-x.finest).toNat)

end Double

/-! ## Writing -/

/-- So many zeros. -/
def zeros (n : Nat) : List Char := List.replicate n '0'

/-- A decimal with its point, or with an exponent of ten where it is very large or very small:
the point is written for numbers from `10 ^ -5` to below `10 ^ 16`. -/
def Decimal.write (d : Decimal) : List Char :=
  if d.digits = 0 then ['0', '.', '0']
  else
    let digits := Nat.toDigits 10 d.digits
    let point : Int := digits.length + d.exponent
    if 0 ≤ d.exponent ∧ point ≤ 16 then digits ++ zeros d.exponent.toNat ++ ['.', '0']
    else if 0 < point ∧ point ≤ 16 then
      digits.take point.toNat ++ '.' :: digits.drop point.toNat
    else if -5 < point ∧ point ≤ 0 then '0' :: '.' :: zeros (-point).toNat ++ digits
    else
      let power := point - 1
      digits.take 1 ++ (if digits.length = 1 then [] else '.' :: digits.drop 1)
        ++ 'e' :: (if power < 0 then '-' else '+') :: Nat.toDigits 10 power.natAbs

/-- The double with the fewest digits that tell it from all others. -/
def Double.write (x : Double) : List Char := x.shortest.write

/-- The double with two digits behind the point: its exact value is rounded, on a tie to the even
last digit. -/
def Double.writeHundredths (x : Double) : List Char :=
  let hundredths := roundedQuotient (x.num * 100) x.den
  let cents := hundredths % 100
  Nat.toDigits 10 (hundredths / 100) ++ '.' :: zeros (if cents < 10 then 1 else 0)
    ++ Nat.toDigits 10 cents

example : (Double.ofRatio 1 10).write = ['0', '.', '1'] := by decide
example : (Double.ofRatio (Nat.pow 10 17) 1).write = ['1', 'e', '+', '1', '7'] := by decide
example : (Double.ofRatio 1 8).writeHundredths = ['0', '.', '1', '2'] := by decide

end Unimported.Number
