/-! # Double-precision numbers

A `Double` is held by its 64 bits, so that every number, sign of zero included, is a plain value
of the logic. A finite one is `±significand · 2 ^ exponent`.

* `Double.ofRatio` rounds an exact quotient to the nearest double, ties to even; every other way to
  make a double goes through it.
* `Double.same` is the equality of numbers: all NaNs are one number, both zeros are one number. It
  compares `Double.key`, so it is an equivalence. -/

namespace ObjectMapping

/-- A double-precision number, held by its bits. -/
structure Double where
  bits : UInt64
deriving DecidableEq, Repr

namespace Double

/-- The sign bit. -/
def isNegative (x : Double) : Bool := x.bits >>> 63 == 1

/-- The eleven exponent bits. -/
def exponentBits (x : Double) : Nat := ((x.bits >>> 52) &&& 0x7FF).toNat

/-- The fifty-two fraction bits. -/
def fractionBits (x : Double) : Nat := (x.bits &&& 0xFFFFFFFFFFFFF).toNat

/-- Neither a NaN nor an infinity. -/
def isFinite (x : Double) : Bool := x.exponentBits != 0x7FF

/-- Whether it is no number. -/
def isNaN (x : Double) : Bool := x.exponentBits == 0x7FF && x.fractionBits != 0

/-- Positive or negative zero. -/
def isZero (x : Double) : Bool := x.exponentBits == 0 && x.fractionBits == 0

/-- `m` in `±m · 2 ^ q`. -/
def significand (x : Double) : Nat :=
  if x.exponentBits == 0 then x.fractionBits else Nat.pow 2 52 + x.fractionBits

/-- `q` in `±m · 2 ^ q`. -/
def exponent (x : Double) : Int :=
  if x.exponentBits == 0 then -1074 else (x.exponentBits : Int) - 1075

/-- The bits of a magnitude under a sign. -/
def ofMagnitude (negative : Bool) (magnitude : Nat) : Double :=
  ⟨UInt64.ofNat (magnitude + if negative then Nat.pow 2 63 else 0)⟩

/-- The zero of a sign. -/
def zero (negative : Bool) : Double := ofMagnitude negative 0

/-- The infinity of a sign. -/
def infinity (negative : Bool) : Double := ofMagnitude negative (0x7FF * Nat.pow 2 52)

/-- The representative of what is no number. -/
def nan : Double := ofMagnitude false (0x7FF * Nat.pow 2 52 + Nat.pow 2 51)

/-! ## Rounding -/

/-- `num / den` rounded to a whole number, a half to the even neighbour. -/
def roundQuotient (num den : Nat) : Nat :=
  let q := num / den
  let r := num % den
  if 2 * r < den then q
  else if den < 2 * r then q + 1
  else if q % 2 == 0 then q else q + 1

/-- `n · 2 ^ i` over `d · 2 ^ j`, as a quotient of naturals. -/
def scaled (n : Nat) (i : Int) (d : Nat) (j : Int) : Nat × Nat :=
  let shift := i - j
  (n * Nat.pow 2 shift.toNat, d * Nat.pow 2 (-shift).toNat)

/-- The binary exponent of the leading bit of `num / den`. -/
def leadingExponent (num den : Nat) : Int :=
  let guess : Int := (num.log2 : Int) - (den.log2 : Int)
  let (n, d) := scaled num 0 den guess
  if n < d then guess - 1 else guess

/-- The double nearest to `num / den`, ties to even; too large a quotient is an infinity. -/
def ofRatio (negative : Bool) (num den : Nat) : Double :=
  if num == 0 then zero negative else
    let q := max (leadingExponent num den - 52) (-1074)
    let (n, d) := scaled num 0 den q
    let magnitude := (q + 1074).toNat * Nat.pow 2 52 + roundQuotient n d
    if magnitude < 0x7FF * Nat.pow 2 52 then ofMagnitude negative magnitude else infinity negative

/-- The double nearest to a whole number. -/
def ofInt (i : Int) : Double := ofRatio (i < 0) i.natAbs 1

/-- The double nearest to `digits · 10 ^ exponent`. -/
def ofDecimal (negative : Bool) (digits : Nat) (exponent : Int) : Double :=
  let size := ((toString digits).length : Int) + exponent
  if digits == 0 || size < -400 then zero negative
  else if 400 < size then infinity negative
  else ofRatio negative (digits * Nat.pow 10 exponent.toNat) (Nat.pow 10 (-exponent).toNat)

/-- The rounded product of two finite doubles. -/
def mul (x y : Double) : Double :=
  let (n, d) := scaled (x.significand * y.significand) (x.exponent + y.exponent) 1 0
  ofRatio (x.isNegative != y.isNegative) n d

/-- The rounded quotient of two finite doubles, the second not zero. -/
def div (x y : Double) : Double :=
  let (n, d) := scaled x.significand x.exponent y.significand y.exponent
  ofRatio (x.isNegative != y.isNegative) n d

/-- The number with the opposite sign bit. -/
def neg (x : Double) : Double := ⟨x.bits ^^^ 0x8000000000000000⟩

/-! ## Equality of numbers -/

/-- One representative for all NaNs and one for both zeros. -/
def key (x : Double) : Double :=
  if x.isNaN then nan else if x.isZero then zero false else x

/-- Equality of numbers: it holds between any two NaNs and between the two zeros. -/
def same (x y : Double) : Bool := x.key == y.key

/-- Numbers are the same exactly if they have the same key. -/
theorem same_iff {x y : Double} : same x y = true ↔ x.key = y.key := by
  simp [same]

/-- A number is the same as itself, even if it is no number. -/
@[simp] theorem same_self (x : Double) : same x x = true := by simp [same]

/-- The order in which two numbers are compared does not matter. -/
theorem same_comm (x y : Double) : same x y = same y x := by
  rw [Bool.eq_iff_iff, same_iff, same_iff, eq_comm]

end Double

end ObjectMapping
