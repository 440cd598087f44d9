import ObjectMapping.Double.Basic

/-! # Reading doubles from text

`Double.ofText?` reads a decimal number with an optional sign, point and exponent, or one of the
names of the infinities and of NaN in any letter case. The result is the double nearest to the
number that is written. -/

namespace ObjectMapping.Double

/-- The value of a digit character. -/
def digitValue (c : Char) : Nat := c.toNat - '0'.toNat

/-- The number that a run of digits writes, after `start`. -/
def digitsValue (start : Nat) (digits : List Char) : Nat :=
  digits.foldl (fun n c => 10 * n + digitValue c) start

/-- An optional sign: whether it is a minus, and the text after it. -/
def splitSign : List Char → Bool × List Char
  | '-' :: rest => (true, rest)
  | '+' :: rest => (false, rest)
  | text => (false, text)

/-- An exponent mark with its exponent, or nothing at all. -/
def readExponent : List Char → Option Int
  | [] => some 0
  | c :: rest =>
      if c == 'e' || c == 'E' then
        let (negative, digits) := splitSign rest
        if digits.isEmpty || !digits.all Char.isDigit then none
        else
          let n : Int := digitsValue 0 digits
          some (if negative then -n else n)
      else none

/-- A number without its sign: digits, a point and an exponent, with at least one digit. -/
def readMagnitude (negative : Bool) (text : List Char) : Option Double :=
  let whole := text.takeWhile Char.isDigit
  let afterWhole := text.dropWhile Char.isDigit
  let (fraction, rest) :=
    match afterWhole with
    | '.' :: tail => (tail.takeWhile Char.isDigit, tail.dropWhile Char.isDigit)
    | _ => ([], afterWhole)
  if whole.isEmpty && fraction.isEmpty then none
  else
    match readExponent rest with
    | some e =>
        some (ofDecimal negative (digitsValue (digitsValue 0 whole) fraction)
          (e - (fraction.length : Int)))
    | none => none

/-- The double that a text writes, if it writes one. -/
def ofText? (text : String) : Option Double :=
  let (negative, body) := splitSign text.toList
  let name := String.ofList (body.map Char.toLower)
  if name == "inf" || name == "infinity" then some (infinity negative)
  else if name == "nan" then some (if negative then nan.neg else nan)
  else readMagnitude negative body

end ObjectMapping.Double
