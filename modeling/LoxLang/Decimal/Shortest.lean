/-!
# Shortest decimals

The fewest decimal digits that read back as a given binary64 number.

A finite number is `mantissa * 2 ^ exponent`.  The reals that round to it form an interval whose
ends lie half way to its two neighbours; the ends belong to it exactly when the mantissa is even.
`shortest` looks at the grids of one, two, … seventeen significant digits and stops at the first
grid that has a point in the interval.  If a grid has one, then so does one of the two grid points
around the number itself, so only these two are tested.  All arithmetic is exact.
-/

namespace LoxLang

/-- Which of two equally near decimals is taken. -/
inductive Tie where
  | up
  | even
deriving DecidableEq, Repr

/-- The number `coefficient * 10 ^ exponent`. -/
structure Decimal where
  coefficient : Nat
  exponent : Int
deriving DecidableEq, Repr

/-- The absolute value `mantissa * 2 ^ exponent` of a finite binary64 number.  `tight` says that
the neighbour below is half as far away as the neighbour above. -/
structure Magnitude where
  mantissa : Nat
  exponent : Int
  tight : Bool
deriving DecidableEq, Repr

namespace Magnitude

/-- Reads the absolute value off the fraction and exponent fields of a finite number. -/
def ofFloat (x : Float) : Magnitude :=
  let bits := x.toBits.toNat
  let fraction := bits % Nat.pow 2 52
  let biased : Nat := bits / Nat.pow 2 52 % Nat.pow 2 11
  if biased = 0 then
    { mantissa := fraction, exponent := -1074, tight := false }
  else
    { mantissa := Nat.pow 2 52 + fraction
      exponent := (biased : Int) - 1075
      tight := fraction == 0 && biased != 1 }

/-- The whole number that the magnitude is, if it is one. -/
def whole? (x : Magnitude) : Option Nat :=
  let numerator := x.mantissa * Nat.pow 2 x.exponent.toNat
  let denominator := Nat.pow 2 (-x.exponent).toNat
  if numerator % denominator = 0 then some (numerator / denominator) else none

/-- The power of ten of the leading decimal digit of a positive magnitude. -/
def order (x : Magnitude) : Int :=
  let numerator := x.mantissa * Nat.pow 2 x.exponent.toNat
  let denominator := Nat.pow 2 (-x.exponent).toNat
  let guess : Int := (Nat.toDigits 10 numerator).length - (Nat.toDigits 10 denominator).length
  if denominator * Nat.pow 10 guess.toNat ≤ numerator * Nat.pow 10 (-guess).toNat then guess
  else guess - 1

end Magnitude

/-- A magnitude among the multiples of `10 ^ power`.  To stay with whole numbers, lengths are
counted in quarters of the last binary place, of which the magnitude itself has `4 * mantissa`; `n`
of them reach the grid point `point` exactly when `n * up = point * down`. -/
structure Grid where
  magnitude : Magnitude
  power : Int

namespace Grid

/-- Numerator of one quarter of the last binary place, in grid steps. -/
def up (g : Grid) : Nat :=
  Nat.pow 2 (g.magnitude.exponent - 2).toNat * Nat.pow 10 (-g.power).toNat

/-- Denominator of one quarter of the last binary place, in grid steps. -/
def down (g : Grid) : Nat :=
  Nat.pow 2 (2 - g.magnitude.exponent).toNat * Nat.pow 10 g.power.toNat

/-- The grid point at or just below the magnitude. -/
def floor (g : Grid) : Nat :=
  4 * g.magnitude.mantissa * g.up / g.down

/-- Whether the grid point `point * 10 ^ power` rounds to the magnitude. -/
def reads (g : Grid) (point : Nat) : Bool :=
  let m := g.magnitude.mantissa
  let low := (4 * m - if g.magnitude.tight then 1 else 2) * g.up
  let high := (4 * m + 2) * g.up
  let here := point * g.down
  if m % 2 = 0 then
    decide (low ≤ here ∧ here ≤ high)
  else
    decide (low < here ∧ here < high)

/-- The nearer of the two grid points around the magnitude. -/
def nearer (g : Grid) (tie : Tie) : Nat :=
  let point := g.floor
  let twice := 2 * (4 * g.magnitude.mantissa * g.up)
  let middle := (2 * point + 1) * g.down
  if twice < middle then
    point
  else if middle < twice then
    point + 1
  else
    match tie with
    | .up => point + 1
    | .even => if point % 2 = 0 then point else point + 1

/-- The grid point around the magnitude that rounds to it, the nearer one if both do. -/
def pick? (g : Grid) (tie : Tie) : Option Nat :=
  let point := g.floor
  match g.reads point, g.reads (point + 1) with
  | true, true => some (g.nearer tie)
  | true, false => some point
  | false, true => some (point + 1)
  | false, false => none

end Grid

/-- The decimal with the fewest digits that rounds to a positive magnitude, and of those the
nearest.  Seventeen digits always suffice. -/
def Magnitude.shortest (x : Magnitude) (tie : Tie) : Decimal :=
  let order := x.order
  let onGrid? (places : Nat) : Option Decimal :=
    let grid : Grid := ⟨x, order - places⟩
    (grid.pick? tie).map fun point => ⟨point, order - places⟩
  ((List.range 17).findSome? onGrid?).getD ⟨(Grid.mk x (order - 16)).floor, order - 16⟩

namespace Decimal

/-- The digits from the first to the last that is not zero; none for zero. -/
def significant (d : Decimal) : List Char :=
  ((Nat.toDigits 10 d.coefficient).reverse.dropWhile (· == '0')).reverse

/-- The power of ten of the leading digit; zero for zero. -/
def order (d : Decimal) : Int :=
  if d.coefficient = 0 then 0
  else d.exponent + (Nat.toDigits 10 d.coefficient).length - 1

end Decimal

end LoxLang
