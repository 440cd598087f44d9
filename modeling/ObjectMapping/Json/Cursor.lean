import ObjectMapping.Text

/-! # Places in a text and what is wrong there

A `Cursor` is the rest of a text together with the line and the column at which it starts. Lines
count from one, columns count bytes from zero. A `Fault` is something wrong with a text at a
position; the position with line zero is the unknown one, and messages leave it out. -/

namespace ObjectMapping

/-- A line, counted from one, and the number of bytes in front of a place on it. -/
structure Position where
  line : Nat
  column : Nat
deriving DecidableEq, Repr

/-- The position of something that stands in no text. -/
def Position.unknown : Position := ⟨0, 0⟩

/-- What a position adds to a message. -/
def Position.suffix (p : Position) : String :=
  if p.line == 0 then "" else s!" at line {p.line} column {p.column}"

/-- The rest of a text and the place where it starts. -/
structure Cursor where
  rest : List Char
  line : Nat
  column : Nat

namespace Cursor

/-- The beginning of a text. -/
def ofText (text : String) : Cursor := ⟨text.toList, 1, 0⟩

/-- The place where the rest starts. -/
def position (c : Cursor) : Position := ⟨c.line, c.column⟩

/-- The place one byte further. -/
def nextPosition (c : Cursor) : Position :=
  match c.rest with
  | [] => c.position
  | '\n' :: _ => ⟨c.line + 1, 0⟩
  | _ => ⟨c.line, c.column + 1⟩

/-- The rest without its first character. -/
def advance (c : Cursor) : Cursor :=
  match c.rest with
  | [] => c
  | '\n' :: rest => ⟨rest, c.line + 1, 0⟩
  | char :: rest => ⟨rest, c.line, c.column + char.utf8Size⟩

/-- Skips a run of characters, first to last. -/
def skipList : List Char → Cursor → Cursor
  | [], c => c
  | _ :: others, c => skipList others c.advance

/-- Whether a character may stand between the parts of a document. -/
def isSpace (c : Char) : Bool := c == ' ' || c == '\n' || c == '\t' || c == '\r'

/-- The first place that is not a space. -/
def skipSpaces (c : Cursor) : Cursor := skipList (c.rest.takeWhile isSpace) c

/-- The first character of the rest. -/
def peek? (c : Cursor) : Option Char := c.rest.head?

/-- The place `bytes` bytes further, or none if the text is shorter. A place inside a character is
counted on that character's line. -/
def placeAfter : Nat → List Char → Position → Option Position
  | 0, _, p => some p
  | _ + 1, [], _ => none
  | bytes + 1, c :: rest, p =>
      if c == '\n' then placeAfter bytes rest ⟨p.line + 1, 0⟩
      else if bytes + 1 < c.utf8Size then some ⟨p.line, p.column + bytes + 1⟩
      else placeAfter (bytes + 1 - c.utf8Size) rest ⟨p.line, p.column + c.utf8Size⟩
termination_by _ text _ => text.length

end Cursor

/-- What can be wrong with the text of a document. -/
inductive Problem where
  | endInList
  | endInObject
  | endInString
  | endInValue
  | expectedColon
  | expectedItemEnd
  | expectedMemberEnd
  | expectedWord
  | expectedValue
  | invalidEscape
  | invalidNumber
  | numberOutOfRange
  | controlCharacter
  | nameNotString
  | loneSurrogate
  | trailingComma
  | trailingCharacters
  | unfinishedPair
  | tooDeep
deriving DecidableEq, Repr

/-- The wording of a problem. -/
def Problem.message : Problem → String
  | .endInList => "EOF while parsing a list"
  | .endInObject => "EOF while parsing an object"
  | .endInString => "EOF while parsing a string"
  | .endInValue => "EOF while parsing a value"
  | .expectedColon => "expected `:`"
  | .expectedItemEnd => "expected `,` or `]`"
  | .expectedMemberEnd => "expected `,` or `\x7d`"
  | .expectedWord => "expected ident"
  | .expectedValue => "expected value"
  | .invalidEscape => "invalid escape"
  | .invalidNumber => "invalid number"
  | .numberOutOfRange => "number out of range"
  | .controlCharacter => "control character (\\u0000-\\u001F) found while parsing a string"
  | .nameNotString => "key must be a string"
  | .loneSurrogate => "lone leading surrogate in hex escape"
  | .trailingComma => "trailing comma"
  | .trailingCharacters => "trailing characters"
  | .unfinishedPair => "unexpected end of hex escape"
  | .tooDeep => "recursion limit exceeded"

/-- Whether a problem is found only inside of a string. -/
def Problem.isInString : Problem → Bool
  | .endInString | .invalidEscape | .controlCharacter | .loneSurrogate | .unfinishedPair => true
  | _ => false

/-- A problem at a position. -/
structure Fault where
  problem : Problem
  position : Position
deriving DecidableEq, Repr

/-- The wording of a fault. -/
def Fault.message (f : Fault) : String := f.problem.message ++ f.position.suffix

/-- A problem where the cursor stands. -/
def Cursor.fault {α : Type} (c : Cursor) (problem : Problem) : Except Fault α :=
  .error ⟨problem, c.position⟩

/-- A problem with the byte that the cursor is looking at. -/
def Cursor.nextFault {α : Type} (c : Cursor) (problem : Problem) : Except Fault α :=
  .error ⟨problem, c.nextPosition⟩

end ObjectMapping
