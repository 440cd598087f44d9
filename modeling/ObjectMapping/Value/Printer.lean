import ObjectMapping.Bytes
import ObjectMapping.Double.Shortest
import ObjectMapping.Value.Basic

/-! # Values as code

`Value.text` writes a value the way it stands in generated code and in messages. -/

namespace ObjectMapping.Value

/-- Numbers in code are positional from 0.0001 up to sixteen digits before the point. -/
def numberLayout : Double.Layout where
  plainFrom := -4
  plainBelow := 16
  plusSign := ""
  tie := .larger

/-- A string in single quotes, with backslashes in front of backslashes and quotes. -/
def quoted (s : String) : String :=
  let escape := fun c => if c == '\\' || c == '\'' then ['\\', c] else [c]
  "'" ++ String.ofList (s.toList.flatMap escape) ++ "'"

/-- A date as a call with its year, month and day. -/
def dateText (d : Date) : String :=
  "date(" ++ Text.commas [Calendar.yearText d.year, toString d.month, toString d.day] ++ ")"

/-- Parts in braces. -/
def braced (parts : List String) : String := "\x7b" ++ Text.commas parts ++ "\x7d"

/-- Parts in parentheses, a single one with a comma after it. -/
def parenthesized (parts : List String) : String :=
  match parts with
  | [part] => "(" ++ part ++ ",)"
  | _ => "(" ++ Text.commas parts ++ ")"

mutual

/-- The value as it is written in code. -/
def text : Value → String
  | none => "None"
  | bool b => if b then "True" else "False"
  | int i => toString i.toInt
  | float x => x.render numberLayout
  | str s => quoted s
  | bytes data => "b'" ++ Bytes.text data ++ "'"
  | date d => dateText d
  | datetime t => "datetime.fromisoformat('" ++ t.toText ++ "')"
  | list items => "[" ++ Text.commas (texts items) ++ "]"
  | set [] => "set()"
  | set items => braced (texts items)
  | dict entries => braced (entryTexts entries)
  | tuple items => parenthesized (texts items)
  | member owner name => owner.name ++ "." ++ name
  | object owner fields _ => owner.name ++ "(" ++ Text.commas (fieldTexts fields) ++ ")"

/-- The values of a list as they are written in code. -/
def texts : List Value → List String
  | [] => []
  | item :: rest => text item :: texts rest

/-- The entries of a dictionary as they are written in code. -/
def entryTexts : List (Value × Value) → List String
  | [] => []
  | (key, value) :: rest => (text key ++ ": " ++ text value) :: entryTexts rest

/-- The fields of an object as they are written in code. -/
def fieldTexts : List (String × Value) → List String
  | [] => []
  | (name, value) :: rest => (name ++ "=" ++ text value) :: fieldTexts rest

end

/-- The value under a key of a dictionary, or at a position of a list or tuple; anything else is no
valid key. -/
def subscript (v key : Value) : Except Error Value :=
  match v.subscript? key with
  | some found => .ok found
  | Option.none => .error (.runtime (.invalidKey key.text v.typeName))

end ObjectMapping.Value
