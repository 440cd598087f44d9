/-! # Bytes as text

Byte strings are read as UTF-8. Where they are not valid UTF-8, the longest beginning of a character
that cannot be continued is shown as one replacement character.

* `Bytes.text` is the text of a byte string, `Bytes.ofText` the bytes of a text.
* `Bytes.hex` and `Bytes.ofHex?` write and read two hexadecimal digits per byte. -/

namespace ObjectMapping.Bytes

/-- How many bytes have to follow a first byte, and the range of the next of them; nothing for a
byte that starts no character of several bytes. -/
def following? (first : UInt8) : Option (Nat × UInt8 × UInt8) :=
  if 0xC2 ≤ first && first ≤ 0xDF then some (1, 0x80, 0xBF)
  else if first == 0xE0 then some (2, 0xA0, 0xBF)
  else if first == 0xED then some (2, 0x80, 0x9F)
  else if 0xE1 ≤ first && first ≤ 0xEF then some (2, 0x80, 0xBF)
  else if first == 0xF0 then some (3, 0x90, 0xBF)
  else if 0xF1 ≤ first && first ≤ 0xF3 then some (3, 0x80, 0xBF)
  else if first == 0xF4 then some (3, 0x80, 0x8F)
  else none

/-- The bits that a first byte contributes to a character with so many bytes to follow. -/
def firstBits (first : UInt8) (count : Nat) : Nat := first.toNat % Nat.pow 2 (6 - count)

/-- Reads `count` more bytes of a character, the next one in a range. The result is the code point,
if all of them are there, and the bytes after the last one that fits. -/
def continueChar (code : Nat) (low high : UInt8) : Nat → List UInt8 → Option Nat × List UInt8
  | 0, rest => (some code, rest)
  | _ + 1, [] => (none, [])
  | count + 1, b :: rest =>
      if low ≤ b && b ≤ high then continueChar (64 * code + b.toNat % 64) 0x80 0xBF count rest
      else (none, b :: rest)

/-- The first character of a byte string that starts with `first`, and the bytes after it. -/
def readChar (first : UInt8) (rest : List UInt8) : Char × List UInt8 :=
  if first < 0x80 then (Char.ofNat first.toNat, rest)
  else
    match following? first with
    | none => (Char.ofNat 0xFFFD, rest)
    | some (count, low, high) =>
        let (code, rest) := continueChar (firstBits first count) low high count rest
        (Char.ofNat (code.getD 0xFFFD), rest)

/-- Reading on takes characters away, so less is left. -/
theorem continueChar_length (code : Nat) (low high : UInt8) (count : Nat) (data : List UInt8) :
    (continueChar code low high count data).2.length ≤ data.length := by
  induction count generalizing code low high data with
  | zero => simp [continueChar]
  | succ count ih =>
    cases data with
    | nil => simp [continueChar]
    | cons b rest =>
      simp only [continueChar]
      split
      · exact Nat.le_succ_of_le (ih _ _ _ _)
      · simp

/-- Reading a character takes nothing back. -/
theorem readChar_length (first : UInt8) (rest : List UInt8) :
    (readChar first rest).2.length ≤ rest.length := by
  simp only [readChar]
  split
  · simp
  · split
    · simp
    · exact continueChar_length _ _ _ _ _

/-- The characters of a byte string. -/
def chars : List UInt8 → List Char
  | [] => []
  | first :: rest => (readChar first rest).1 :: chars (readChar first rest).2
termination_by data => data.length
decreasing_by
  have := readChar_length first rest
  simp only [List.length_cons]
  omega

/-- The text of a byte string. -/
def text (data : List UInt8) : String := String.ofList (chars data)

/-- The bytes of a text. -/
def ofText (s : String) : List UInt8 := s.toUTF8.toList

/-- The value of a hexadecimal digit. -/
def hexValue? (c : Char) : Option UInt8 :=
  if c.isDigit then some (UInt8.ofNat (c.toNat - '0'.toNat))
  else if 'a' ≤ c && c ≤ 'f' then some (UInt8.ofNat (c.toNat - 'a'.toNat + 10))
  else if 'A' ≤ c && c ≤ 'F' then some (UInt8.ofNat (c.toNat - 'A'.toNat + 10))
  else none

/-- The bytes that pairs of hexadecimal digits write. -/
def ofHex? : List Char → Option (List UInt8)
  | [] => some []
  | [_] => none
  | high :: low :: rest => do
      let high ← hexValue? high
      let low ← hexValue? low
      return (16 * high + low) :: (← ofHex? rest)

/-- A lower-case hexadecimal digit. -/
def hexDigit (n : UInt8) : Char :=
  if n < 10 then Char.ofNat ('0'.toNat + n.toNat) else Char.ofNat ('a'.toNat + n.toNat - 10)

/-- Two lower-case hexadecimal digits for each byte. -/
def hex (data : List UInt8) : String :=
  String.ofList (data.flatMap fun b => [hexDigit (b / 16), hexDigit (b % 16)])

end ObjectMapping.Bytes
