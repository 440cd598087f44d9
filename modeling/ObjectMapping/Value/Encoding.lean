import ObjectMapping.Bytes
import ObjectMapping.Json.Printer
import ObjectMapping.Value.Basic

/-! # Values as documents

`Value.toJson` writes a value as a JSON document, `Value.ofJson` reads a document for which no type
is known. Member names of objects are strings, so keys of dictionaries that are neither strings nor
enum members are written as the text of their own document. -/

namespace ObjectMapping.Value

/-- The name under which a key is written, given the document of the key. -/
def keyName (key : Value) (document : Json) : String :=
  match key with
  | str s => s
  | member _ name => name
  | _ => document.compact

mutual

/-- The document of a value. NaNs and infinities have no number in a document. -/
def toJson : Value → Json
  | none => .null
  | bool b => .bool b
  | int i => .number (.int i.toInt)
  | float x => if x.isFinite then .number (.double x) else .null
  | str s => .string s
  | bytes data => .string (Bytes.text data)
  | date d => .string d.toText
  | datetime t => .string t.toText
  | list items | set items | tuple items => .array (toJsonAll items)
  | dict entries => .object (Keyed.ofList (toJsonEntries entries))
  | member _ name => .string name
  | object _ fields _ => .object (Keyed.ofList (toJsonFields fields))

/-- The documents of the values of a list. -/
def toJsonAll : List Value → List Json
  | [] => []
  | item :: rest => toJson item :: toJsonAll rest

/-- The members for the entries of a dictionary. -/
def toJsonEntries : List (Value × Value) → List (String × Json)
  | [] => []
  | (key, value) :: rest => (keyName key (toJson key), toJson value) :: toJsonEntries rest

/-- The members for the fields of an object. -/
def toJsonFields : List (String × Value) → List (String × Json)
  | [] => []
  | (name, value) :: rest => (name, toJson value) :: toJsonFields rest

end

mutual

/-- The value of a document for which no type is known: objects are dictionaries, and numbers are
integers if they can be. -/
def ofJson : Json → Value
  | .null => none
  | .bool b => bool b
  | .number n =>
      match n.toInt64? with
      | some i => int i
      | Option.none => float n.toDouble
  | .string s => str s
  | .array items => list (ofJsonAll items)
  | .object members => dict (Keyed.ofList (ofJsonMembers members))

/-- The values of the documents of a list. -/
def ofJsonAll : List Json → List Value
  | [] => []
  | item :: rest => ofJson item :: ofJsonAll rest

/-- The entries for the members of an object. -/
def ofJsonMembers : List (String × Json) → List (Value × Value)
  | [] => []
  | (name, document) :: rest => (str name, ofJson document) :: ofJsonMembers rest

end

end ObjectMapping.Value
