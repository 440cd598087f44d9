import ObjectMapping.Json.Basic
import ObjectMapping.Double.Shortest
import ObjectMapping.Text

/-! # Writing JSON documents

`Json.compact` writes a document without any blanks, `Json.pretty` over several lines with two
blanks per level. Strings escape the quote, the backslash and the control characters below the
blank, and nothing else. -/

namespace ObjectMapping

/-- Numbers of documents are positional from 0.00001 up to sixteen digits before the point; beyond,
their exponent shows its sign. -/
def Json.numberLayout : Double.Layout where
  plainFrom := -5
  plainBelow := 16
  plusSign := "+"
  tie := .evenDigit

namespace Json

/-- The lower-case hexadecimal digit of a number below sixteen. -/
def hexDigit (n : Nat) : Char :=
  if n < 10 then Char.ofNat ('0'.toNat + n) else Char.ofNat ('a'.toNat + n - 10)

/-- A character as it stands inside a quoted string. -/
def escapeChar (c : Char) : List Char :=
  if c == '"' then ['\\', '"']
  else if c == '\\' then ['\\', '\\']
  else if c == '\n' then ['\\', 'n']
  else if c == '\r' then ['\\', 'r']
  else if c == '\t' then ['\\', 't']
  else if c.toNat == 8 then ['\\', 'b']
  else if c.toNat == 12 then ['\\', 'f']
  else if c.toNat < 32 then
    ['\\', 'u', '0', '0', hexDigit (c.toNat / 16), hexDigit (c.toNat % 16)]
  else [c]

/-- The string in quotes. -/
def quoted (s : String) : String :=
  "\"" ++ String.ofList (s.toList.flatMap escapeChar) ++ "\""

/-- The text of a number. -/
def numberText : Number → String
  | .int i => toString i
  | .double x => x.render numberLayout

mutual

/-- The document without blanks. -/
def compact : Json → String
  | .null => "null"
  | .bool b => if b then "true" else "false"
  | .number n => numberText n
  | .string s => quoted s
  | .array items => "[" ++ ",".intercalate (compactItems items) ++ "]"
  | .object members => "\x7b" ++ ",".intercalate (compactMembers members) ++ "\x7d"

/-- The documents of a list, each without blanks. -/
def compactItems : List Json → List String
  | [] => []
  | item :: rest => compact item :: compactItems rest

/-- The members of an object, each without blanks. -/
def compactMembers : List (String × Json) → List String
  | [] => []
  | (name, value) :: rest => (quoted name ++ ":" ++ compact value) :: compactMembers rest

end

/-- Parts between two brackets, each on a line of its own one level further in. -/
def block (opening closing : String) (depth : Nat) (parts : List String) : String :=
  if parts.isEmpty then opening ++ closing
  else
    let line := "\n" ++ "".pushn ' ' (2 * depth)
    opening ++ line ++ "  " ++ ("," ++ line ++ "  ").intercalate parts ++ line ++ closing

mutual

/-- The document over several lines, the first one at a depth of levels. -/
def prettyAt (depth : Nat) : Json → String
  | .array items => block "[" "]" depth (prettyItems (depth + 1) items)
  | .object members => block "\x7b" "\x7d" depth (prettyMembers (depth + 1) members)
  | .null => "null"
  | .bool b => if b then "true" else "false"
  | .number n => numberText n
  | .string s => quoted s

/-- The documents of a list at a depth. -/
def prettyItems (depth : Nat) : List Json → List String
  | [] => []
  | item :: rest => prettyAt depth item :: prettyItems depth rest

/-- The members of an object at a depth. -/
def prettyMembers (depth : Nat) : List (String × Json) → List String
  | [] => []
  | (name, value) :: rest =>
      (quoted name ++ ": " ++ prettyAt depth value) :: prettyMembers depth rest

end

/-- The document over several lines. -/
def pretty (document : Json) : String := prettyAt 0 document

end Json

end ObjectMapping
