import ObjectMapping.Json.Basic
import ObjectMapping.Json.Cursor
import ObjectMapping.Double.Reader

/-! # Words, numbers and strings of JSON texts

Readers for the parts of a document that hold no other documents.

* `Cursor.readWord` reads the rest of `null`, `true` or `false`.
* `Cursor.readNumber` keeps the digits of a number in 64 bits as long as they fit. Digits of the
  whole part that do not fit raise the exponent, digits of the fraction that do not fit are
  skipped, and the digits are then scaled by a power of ten in double precision.
* `Cursor.readString` undoes the escapes; the two halves of a surrogate pair have to follow each
  other. -/

namespace ObjectMapping.Cursor

/-- The rest of a word, letter by letter. -/
def readWord : List Char → Cursor → Except Fault Cursor
  | [], c => .ok c
  | letter :: letters, c =>
      match c.peek? with
      | none => c.fault .endInValue
      | some d => if d == letter then readWord letters c.advance else c.nextFault .expectedWord

/-! ## Numbers -/

/-- The largest number of 64 bits. -/
def maxWord : Nat := Nat.pow 2 64 - 1

/-- Appends digits to a number while it fits in 64 bits, and returns the digits left over. -/
def appendDigits (n : Nat) : List Char → Nat × List Char
  | [] => (n, [])
  | d :: rest =>
      let larger := 10 * n + Double.digitValue d
      if larger ≤ maxWord then appendDigits larger rest else (n, d :: rest)

/-- The digits at the cursor. -/
def digits (c : Cursor) : List Char := c.rest.takeWhile Char.isDigit

/-- `x · 10 ^ exponent` in double precision, none when it is too large. Scales by at most 308
places at a time, `steps` times. -/
def scaleTen (x : Double) (exponent : Int) : Nat → Option Double
  | 0 => some x
  | steps + 1 =>
      if exponent.natAbs ≤ 308 then
        let power := Double.ofInt (Nat.pow 10 exponent.natAbs)
        if 0 ≤ exponent then
          let product := x.mul power
          if product.isFinite then some product else none
        else some (x.div power)
      else if x.isZero then some x
      else if 0 ≤ exponent then none
      else scaleTen (x.div (Double.ofInt (Nat.pow 10 308))) (exponent + 308) steps

/-- The double of a sign, a significand and an exponent, read up to the cursor. -/
def doubleOfParts (negative : Bool) (significand : Nat) (exponent : Int) (c : Cursor) :
    Except Fault (Number × Cursor) :=
  match scaleTen (Double.ofInt significand) exponent 4 with
  | some x => .ok (.double (if negative then x.neg else x), c)
  | none => c.fault .numberOutOfRange

/-- The largest exponent that is read as a number. -/
def maxExponent : Nat := Nat.pow 2 31 - 1

/-- Appends digits to an exponent while it stays within bounds; beyond them, the digit where it
leaves them is told by the number of digits read. -/
def exponentDigits (n count : Nat) : List Char → Except Nat Nat
  | [] => .ok n
  | d :: rest =>
      let larger := 10 * n + Double.digitValue d
      if larger ≤ maxExponent then exponentDigits larger (count + 1) rest
      else .error (count + 1)

/-- An exponent without its mark, for the digits in front of it. -/
def readExponent (negative : Bool) (significand : Nat) (start : Int) (c : Cursor) :
    Except Fault (Number × Cursor) :=
  let below := c.peek? == some '-'
  let first := if below || c.peek? == some '+' then c.advance else c
  match first.peek? with
  | none => first.fault .endInValue
  | some d =>
      if !d.isDigit then first.nextFault .invalidNumber
      else
        let run := first.digits
        let after := skipList run first
        match exponentDigits (Double.digitValue d) 1 (run.drop 1) with
        | .ok n =>
            let exponent := if below then start - (n : Int) else start + (n : Int)
            doubleOfParts negative significand exponent after
        | .error count =>
            if significand != 0 && !below then
              (skipList (run.take count) first).fault .numberOutOfRange
            else .ok (.double (Double.zero negative), after)

/-- The end of a number whose digits are known: an exponent or nothing. -/
def finishDouble (negative : Bool) (significand : Nat) (exponent : Int) (c : Cursor) :
    Except Fault (Number × Cursor) :=
  match c.peek? with
  | some 'e' => readExponent negative significand exponent c.advance
  | some 'E' => readExponent negative significand exponent c.advance
  | _ => doubleOfParts negative significand exponent c

/-- A fraction without its point, for the digits in front of it. -/
def readFraction (negative : Bool) (significand : Nat) (exponent : Int) (c : Cursor) :
    Except Fault (Number × Cursor) :=
  let run := c.digits
  if run.isEmpty then c.nextFault (if c.rest.isEmpty then .endInValue else .invalidNumber)
  else
    let (n, surplus) := appendDigits significand run
    let places : Nat := run.length - surplus.length
    finishDouble negative n (exponent - (places : Int)) (skipList run c)

/-- The number of a sign and a whole significand: a whole number if it fits in 64 bits, else a
double; minus zero is a double. -/
def wholeNumber (negative : Bool) (n : Nat) : Number :=
  if !negative then .int n
  else if n == 0 || Nat.pow 2 63 < n then .double (Double.ofRatio true n 1)
  else .int (-(n : Int))

/-- A number without its sign. -/
def readNumber (negative : Bool) (c : Cursor) : Except Fault (Number × Cursor) :=
  match c.peek? with
  | none => c.fault .endInValue
  | some d =>
      if !d.isDigit then c.nextFault .invalidNumber
      else
        let run := c.digits
        if d == '0' && 1 < run.length then c.advance.nextFault .invalidNumber
        else
          let (n, surplus) := appendDigits 0 run
          let after := skipList run c
          match after.peek? with
          | some '.' => readFraction negative n surplus.length after.advance
          | some 'e' => readExponent negative n surplus.length after.advance
          | some 'E' => readExponent negative n surplus.length after.advance
          | _ =>
              if surplus.isEmpty then .ok (wholeNumber negative n, after)
              else doubleOfParts negative n surplus.length after

/-! ## Strings -/

/-- The value of a hexadecimal digit. -/
def hexValue? (c : Char) : Option Nat :=
  if c.isDigit then some (c.toNat - '0'.toNat)
  else if 'a' ≤ c ∧ c ≤ 'f' then some (c.toNat - 'a'.toNat + 10)
  else if 'A' ≤ c ∧ c ≤ 'F' then some (c.toNat - 'A'.toNat + 10)
  else none

/-- Four hexadecimal digits. -/
def readHex (c : Cursor) : Except Fault (Nat × Cursor) :=
  match c.rest.take 4 with
  | [a, b, d, e] =>
      match hexValue? a, hexValue? b, hexValue? d, hexValue? e with
      | some a, some b, some d, some e =>
          .ok (((a * 16 + b) * 16 + d) * 16 + e, skipList (c.rest.take 4) c)
      | _, _, _, _ => wrongHex c
  | _ => wrongHex c
where
  /-- Four bytes that are no hexadecimal digits, or fewer than four bytes. -/
  wrongHex (c : Cursor) : Except Fault (Nat × Cursor) :=
    match placeAfter 4 c.rest c.position with
    | some place => .error ⟨.invalidEscape, place⟩
    | none => (skipList c.rest c).fault .endInString

/-- The next character, which has to be `expected`, of the second half of a surrogate pair. -/
def expectPair (expected : Char) (c : Cursor) : Except Fault Cursor :=
  match c.peek? with
  | none => c.fault .endInString
  | some d => if d == expected then .ok c.advance else c.nextFault .unfinishedPair

/-- A character written by its number, after the `u`. -/
def readUnicode (c : Cursor) : Except Fault (Char × Cursor) := do
  let (high, afterHigh) ← readHex c
  if 0xDC00 ≤ high ∧ high ≤ 0xDFFF then afterHigh.fault .loneSurrogate
  else if high < 0xD800 ∨ 0xDBFF < high then .ok (Char.ofNat high, afterHigh)
  else
    let (low, afterLow) ← readHex (← expectPair 'u' (← expectPair '\\' afterHigh))
    if low < 0xDC00 ∨ 0xDFFF < low then afterLow.fault .loneSurrogate
    else .ok (Char.ofNat ((high - 0xD800) * 1024 + (low - 0xDC00) + 0x10000), afterLow)

/-- A character written with a backslash, after it. -/
def readEscape (c : Cursor) : Except Fault (Char × Cursor) :=
  match c.peek? with
  | none => c.fault .endInString
  | some d =>
      match d with
      | '"' => .ok ('"', c.advance)
      | '\\' => .ok ('\\', c.advance)
      | '/' => .ok ('/', c.advance)
      | 'b' => .ok (Char.ofNat 8, c.advance)
      | 'f' => .ok (Char.ofNat 12, c.advance)
      | 'n' => .ok ('\n', c.advance)
      | 'r' => .ok ('\r', c.advance)
      | 't' => .ok ('\t', c.advance)
      | 'u' => readUnicode c.advance
      | _ => c.nextFault .invalidEscape

/-- The characters of a string up to its closing quote. Every character uses up text, so the
length of the text bounds the number of steps. -/
def readChars (collected : List Char) (c : Cursor) : Nat → Except Fault (String × Cursor)
  | 0 => c.fault .endInString
  | steps + 1 =>
      match c.peek? with
      | none => c.fault .endInString
      | some '"' => .ok (String.ofList collected.reverse, c.advance)
      | some '\\' => do
          let (char, after) ← readEscape c.advance
          readChars (char :: collected) after steps
      | some char =>
          if char.toNat < 32 then c.nextFault .controlCharacter
          else readChars (char :: collected) c.advance steps

/-- A string after its opening quote. -/
def readString (c : Cursor) : Except Fault (String × Cursor) :=
  readChars [] c (c.rest.length + 1)

end ObjectMapping.Cursor
