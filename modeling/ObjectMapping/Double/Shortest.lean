import ObjectMapping.Double.Basic
import ObjectMapping.Text

/-! # Shortest decimal texts of doubles

A double stands for an interval of reals, those that round to it. Its text shows the fewest digits
of a decimal in that interval, and of several such decimals the one nearest to the double.

* `Double.readsBack` tests in exact arithmetic whether a decimal lies in the interval.
* `Double.shortest` searches the decimal grids from one digit to seventeen.
* `Double.Layout` holds what a format decides about the digits it is given, and `Double.render`
  writes a double in a layout. -/

namespace ObjectMapping

/-- The decimal `digits · 10 ^ exponent`. -/
structure Decimal where
  digits : Nat
  exponent : Int
deriving DecidableEq, Repr

namespace Double

/-- Compares `a · 10 ^ i` with `n · 2 ^ j`. -/
def compareScaled (a : Nat) (i : Int) (n : Nat) (j : Int) : Ordering :=
  compare (a * Nat.pow 10 i.toNat * Nat.pow 2 (-j).toNat)
    (n * Nat.pow 2 j.toNat * Nat.pow 10 (-i).toNat)

/-- Whether the number below is only half as far away as the number above, as it is at the powers
of two. -/
def narrowBelow (x : Double) : Bool := x.fractionBits == 0 && 1 < x.exponentBits

/-- Whether the decimal is among the reals that round to the magnitude of `x`; the ends of that
interval belong to it when the significand is even. -/
def readsBack (x : Double) (d : Decimal) : Bool :=
  let low := if x.narrowBelow then 4 * x.significand - 1 else 4 * x.significand - 2
  let high := 4 * x.significand + 2
  let closed := x.significand % 2 == 0
  let atLow := compareScaled d.digits d.exponent low (x.exponent - 2)
  let atHigh := compareScaled d.digits d.exponent high (x.exponent - 2)
  (atLow == .gt || (closed && atLow == .eq)) && (atHigh == .lt || (closed && atHigh == .eq))

/-- The least `k` from `guess` on with `x < 10 ^ k`, looking at most `steps` further. -/
def decimalScale (x : Double) (guess : Int) : Nat → Int
  | 0 => guess
  | steps + 1 =>
      if compareScaled 1 guess x.significand x.exponent == .gt then guess
      else decimalScale x (guess + 1) steps

/-- Which of two equally near decimals is taken. -/
inductive Tie where
  | larger
  | evenDigit
deriving DecidableEq, Repr

/-- The decimal with `place` as its last place that is nearest to `x` among those of its two
neighbours there which read back. -/
def nearestAt (tie : Tie) (x : Double) (place : Int) : Option Decimal :=
  let (n, d) :=
    scaled (x.significand * Nat.pow 10 (-place).toNat) x.exponent (Nat.pow 10 place.toNat) 0
  let below : Decimal := ⟨n / d, place⟩
  let above : Decimal := ⟨n / d + 1, place⟩
  match x.readsBack below, x.readsBack above with
  | true, true =>
      let middle := (2 * (n / d) + 1) * d
      let lower := 2 * n < middle || (2 * n == middle && tie == .evenDigit && n / d % 2 == 0)
      some (if lower then below else above)
  | true, false => some below
  | false, true => some above
  | false, false => none

/-- The decimal without trailing zeros, at most `fuel` of them. -/
def Decimal.stripped (d : Decimal) : Nat → Decimal
  | 0 => d
  | fuel + 1 =>
      if d.digits != 0 && d.digits % 10 == 0 then
        Decimal.stripped ⟨d.digits / 10, d.exponent + 1⟩ fuel
      else d

/-- The exact decimal value of a finite double's magnitude. -/
def exactly (x : Double) : Decimal :=
  ⟨x.significand * Nat.pow 2 x.exponent.toNat * Nat.pow 5 (-x.exponent).toNat, min x.exponent 0⟩

/-- The decimal with the fewest digits that reads back to the magnitude of a finite double. -/
def shortest (tie : Tie) (x : Double) : Decimal :=
  if x.isZero then ⟨0, 0⟩ else
    let guess : Int := ((x.significand.log2 : Int) + x.exponent) * 30103 / 100000 - 1
    let scale := x.decimalScale guess 4
    match (List.range 17).findSome? fun n : Nat => x.nearestAt tie (scale - (n : Int) - 1) with
    | some d => Decimal.stripped d 17
    | none => x.exactly

/-- What a format of numbers decides about the digits it is given. -/
structure Layout where
  /-- The least exponent of the leading digit that is still written positionally. -/
  plainFrom : Int
  /-- The first exponent of the leading digit that is no longer written positionally. -/
  plainBelow : Int
  /-- What follows the mark `e` of an exponent that is not negative. -/
  plusSign : String
  tie : Tie

/-- The digits with a point, or with an exponent where the layout asks for one. A number written
positionally shows at least one digit on each side of the point. -/
def Layout.write (layout : Layout) (d : Decimal) : String :=
  let digits := toString d.digits
  let count := digits.length
  let lead : Int := if d.digits == 0 then 0 else (count : Int) + d.exponent - 1
  if layout.plainFrom ≤ lead && lead < layout.plainBelow then
    if 0 ≤ d.exponent then digits.pushn '0' d.exponent.toNat ++ ".0"
    else if 0 ≤ lead then
      String.ofList (digits.toList.take (lead.toNat + 1)) ++ "." ++
        String.ofList (digits.toList.drop (lead.toNat + 1))
    else "0." ++ "".pushn '0' ((-lead).toNat - 1) ++ digits
  else
    let first := String.ofList (digits.toList.take 1)
    let others := String.ofList (digits.toList.drop 1)
    first ++ (if others.isEmpty then "" else "." ++ others) ++ "e" ++
      (if lead < 0 then "-" else layout.plusSign) ++ toString lead.natAbs

/-- The text of a double in a layout. -/
def render (layout : Layout) (x : Double) : String :=
  if x.isNaN then "NaN"
  else (if x.isNegative then "-" else "") ++
    (if x.isFinite then layout.write (x.shortest layout.tie) else "inf")

end Double

end ObjectMapping
