import ObjectMapping.Text

/-! # Dates and date-times

Calendar dates of the Gregorian calendar from the year -262143 to 262142, and date-times with a
fraction of a second down to the nanosecond. Every value of `Date` and `DateTime` is a real one:
the types carry the check.

* `Date.ofText?` reads `2024-01-02`; months and days may lack their leading zeros, and blanks may
  stand in front of a number.
* `DateTime.ofText?` reads a date and a time of day with `T` between them, with or without a
  fraction, or with a blank between them and without a fraction. The second 60 is a leap second.
* `Date.toText` and `DateTime.toText` write them, the fraction with three, six or nine digits. -/

namespace ObjectMapping

/-- The number of days of a month, zero for a number that is no month. -/
def daysInMonth (year : Int) (month : Nat) : Nat :=
  match month with
  | 1 | 3 | 5 | 7 | 8 | 10 | 12 => 31
  | 4 | 6 | 9 | 11 => 30
  | 2 => if year % 4 == 0 && (year % 100 != 0 || year % 400 == 0) then 29 else 28
  | _ => 0

/-- Whether year, month and day name a day of the calendar. -/
def isDate (year : Int) (month day : Nat) : Bool :=
  -262143 ≤ year && year ≤ 262142 && 1 ≤ day && day ≤ daysInMonth year month

/-- Whether the numbers name a time of day; the second 60 is a leap second. -/
def isTime (hour minute second nanosecond : Nat) : Bool :=
  hour < 24 && minute < 60 && second ≤ 60 && nanosecond < 1000000000

/-- A day of the calendar. -/
structure Date where
  year : Int
  month : Nat
  day : Nat
  valid : isDate year month day = true
deriving DecidableEq

/-- A day and a time of day. -/
structure DateTime where
  date : Date
  hour : Nat
  minute : Nat
  second : Nat
  nanosecond : Nat
  valid : isTime hour minute second nanosecond = true
deriving DecidableEq

namespace Calendar

/-! ## Reading -/

/-- A run of one to `width` digits and the text after it. -/
def readDigits (width : Nat) (text : List Char) : Option (Nat × List Char) :=
  let digits := (text.take width).takeWhile Char.isDigit
  if digits.isEmpty then none
  else some (digits.foldl (fun n c => 10 * n + (c.toNat - '0'.toNat)) 0, text.drop digits.length)

/-- A number of at most two digits, blanks in front of it skipped. -/
def readPair (text : List Char) : Option (Nat × List Char) :=
  readDigits 2 (Text.dropBlanks text)

/-- A year: four digits at most, or a sign and any number of digits. -/
def readYear (text : List Char) : Option (Int × List Char) :=
  match Text.dropBlanks text with
  | '-' :: rest => (readDigits rest.length rest).map fun (n, tail) => (-(n : Int), tail)
  | '+' :: rest => (readDigits rest.length rest).map fun (n, tail) => ((n : Int), tail)
  | rest => (readDigits 4 rest).map fun (n, tail) => ((n : Int), tail)

/-- The text after the character `c`, which has to come first. -/
def expect (c : Char) : List Char → Option (List Char)
  | [] => none
  | d :: rest => if d == c then some rest else none

/-- Year, month and day with dashes between them. -/
def readDate (text : List Char) : Option (Date × List Char) := do
  let (year, text) ← readYear text
  let text ← expect '-' text
  let (month, text) ← readPair text
  let text ← expect '-' text
  let (day, text) ← readPair text
  if h : isDate year month day = true then some (⟨year, month, day, h⟩, text) else none

/-- Hour, minute and second with colons between them. -/
def readTime (text : List Char) : Option ((Nat × Nat × Nat) × List Char) := do
  let (hour, text) ← readPair text
  let text ← expect ':' text
  let (minute, text) ← readPair text
  let text ← expect ':' text
  let (second, text) ← readPair text
  some ((hour, minute, second), text)

/-- An optional fraction of a second in nanoseconds; digits after the ninth are skipped. -/
def readFraction : List Char → Option (Nat × List Char)
  | '.' :: rest => do
      let (n, tail) ← readDigits 9 rest
      some (n * Nat.pow 10 (9 - (rest.length - tail.length)), tail.dropWhile Char.isDigit)
  | text => some (0, text)

/-- The date-time made of the parts, if the whole text has been read. -/
def assemble (date : Date) (time : Nat × Nat × Nat) (nanosecond : Nat) (rest : List Char) :
    Option DateTime :=
  if h : isTime time.1 time.2.1 time.2.2 nanosecond = true then
    if rest.isEmpty then some ⟨date, time.1, time.2.1, time.2.2, nanosecond, h⟩ else none
  else none

/-- A date and a time with `T` between them and an optional fraction at the end. -/
def readJoined (text : List Char) : Option DateTime := do
  let (date, text) ← readDate text
  let text ← expect 'T' text
  let (time, text) ← readTime text
  let (nanosecond, text) ← readFraction text
  assemble date time nanosecond text

/-- A date and a time with blanks between them and no fraction. -/
def readSpaced (text : List Char) : Option DateTime := do
  let (date, text) ← readDate text
  let (time, text) ← readTime (Text.dropBlanks text)
  assemble date time 0 text

/-! ## Writing -/

/-- A year with four digits; before the year 0 and from the year 10000 on with its sign. -/
def yearText (year : Int) : String :=
  if 0 ≤ year && year ≤ 9999 then Text.padded 4 year.natAbs
  else (if year < 0 then "-" else "+") ++ Text.padded 4 year.natAbs

/-- Nothing for a whole second, else three, six or nine digits, the fewest that are exact. -/
def fractionText (nanosecond : Nat) : String :=
  if nanosecond == 0 then ""
  else if nanosecond % 1000000 == 0 then "." ++ Text.padded 3 (nanosecond / 1000000)
  else if nanosecond % 1000 == 0 then "." ++ Text.padded 6 (nanosecond / 1000)
  else "." ++ Text.padded 9 nanosecond

end Calendar

/-- The date that the whole text writes. -/
def Date.ofText? (text : String) : Option Date :=
  match Calendar.readDate text.toList with
  | some (date, []) => some date
  | _ => none

/-- The date as `2024-01-02`. -/
def Date.toText (d : Date) : String :=
  Calendar.yearText d.year ++ "-" ++ Text.padded 2 d.month ++ "-" ++ Text.padded 2 d.day

/-- The date-time that the whole text writes. -/
def DateTime.ofText? (text : String) : Option DateTime :=
  (Calendar.readJoined text.toList).or (Calendar.readSpaced text.toList)

/-- The date-time as `2024-01-02T03:04:05.006`. -/
def DateTime.toText (t : DateTime) : String :=
  t.date.toText ++ "T" ++ Text.padded 2 t.hour ++ ":" ++ Text.padded 2 t.minute ++ ":" ++
    Text.padded 2 t.second ++ Calendar.fractionText t.nanosecond

end ObjectMapping
