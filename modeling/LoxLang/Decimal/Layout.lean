import LoxLang.Decimal.Shortest

/-!
# Layouts of numbers

A `Layout` holds every decision about how a number is written once its digits are known.  Each
place that prints numbers has a layout of its own; `Layout.write` is the one writer.
-/

namespace LoxLang

/-- How numbers are written. -/
structure Layout where
  /-- Which of two equally near shortest decimals is written. -/
  tie : Tie
  /-- The orders of magnitude that are written without an exponent. -/
  positional : Int → Bool
  /-- Whether a number without a fraction is written with the fraction `.0`. -/
  keepFraction : Bool
  /-- Whether whole numbers are written with all their digits instead of the shortest. -/
  wholeExact : Bool
  /-- Whether an exponent that is not negative has a plus sign. -/
  exponentPlus : Bool
  /-- Whether negative zero has its sign. -/
  signedZero : Bool
  nan : String
  infinity : String
  minusInfinity : String

namespace Layout

/-- What follows the point: nothing, the digits, or the single zero that the layout asks for. -/
def fraction (l : Layout) (digits : List Char) : List Char :=
  if digits.isEmpty then
    if l.keepFraction then ['.', '0'] else []
  else
    '.' :: digits

/-- Digits written without an exponent, zeros filling the places up to the point. -/
def plain (l : Layout) (digits : List Char) (order : Int) : List Char :=
  match order with
  | .ofNat n =>
      let places := n + 1
      digits.take places ++ List.replicate (places - digits.length) '0' ++
        l.fraction (digits.drop places)
  | .negSucc n => '0' :: '.' :: (List.replicate n '0' ++ digits)

/-- Digits written with one digit before the point and an exponent. -/
def scientific (l : Layout) (digits : List Char) (order : Int) : List Char :=
  let sign : List Char := if order < 0 then ['-'] else if l.exponentPlus then ['+'] else []
  let fraction := if (digits.drop 1).isEmpty then [] else '.' :: digits.drop 1
  digits.take 1 ++ fraction ++ 'e' :: (sign ++ Nat.toDigits 10 order.natAbs)

/-- The text of a magnitude. -/
def magnitude (l : Layout) (x : Magnitude) : List Char :=
  if x.mantissa = 0 then
    l.plain ['0'] 0
  else
    match l.wholeExact, x.whole? with
    | true, some n => Nat.toDigits 10 n ++ l.fraction []
    | _, _ =>
        let decimal := x.shortest l.tie
        if l.positional decimal.order then
          l.plain decimal.significant decimal.order
        else
          l.scientific decimal.significant decimal.order

/-- Whether the sign bit of a number is set. -/
def signBit (x : Float) : Bool :=
  x.toBits.toNat / Nat.pow 2 63 == 1

/-- The text of a number. -/
def write (l : Layout) (x : Float) : String :=
  if x.isNaN then
    l.nan
  else if x.isInf then
    if signBit x then l.minusInfinity else l.infinity
  else
    let magnitude := Magnitude.ofFloat x
    let text := l.magnitude magnitude
    if signBit x && (magnitude.mantissa != 0 || l.signedZero) then
      String.ofList ('-' :: text)
    else
      String.ofList text

end Layout

end LoxLang
