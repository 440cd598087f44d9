import ObjectMapping.Double.Basic
import ObjectMapping.Keyed

/-! # JSON documents

Documents with the order of their members kept, and with whole numbers told apart from doubles. A
number without fraction and exponent that fits in 64 bits, signed or unsigned, is a whole number;
every other number is a double.

* `Json.pointer?` selects a part of a document by a JSON pointer.
* `Json.kind` names the shape of a document in messages. -/

namespace ObjectMapping

/-- A number of a document. -/
inductive Number where
  | int (i : Int)
  | double (x : Double)
deriving DecidableEq

namespace Number

/-- The number as a signed 64-bit integer, if it is a whole number in that range. -/
def toInt64? : Number → Option Int64
  | .int i =>
      if Int64.minValue.toInt ≤ i ∧ i ≤ Int64.maxValue.toInt then some (Int64.ofInt i) else none
  | .double _ => none

/-- The double nearest to the number. -/
def toDouble : Number → Double
  | .int i => Double.ofInt i
  | .double x => x

end Number

/-- A JSON document. -/
inductive Json where
  | null
  | bool (b : Bool)
  | number (n : Number)
  | string (s : String)
  | array (items : List Json)
  | object (members : List (String × Json))

namespace Json

instance : Inhabited Json := ⟨.null⟩

/-- The shape of a document with its article. -/
def kind : Json → String
  | .null => "null"
  | .bool _ => "a boolean"
  | .number _ => "a number"
  | .string _ => "a string"
  | .array _ => "an array"
  | .object _ => "an object"

/-- The member of an object under a name. -/
def member? (name : String) : Json → Option Json
  | .object members => members.lookup name
  | _ => none

/-- The integer that a document is, if it is one. -/
def int? : Json → Option Int64
  | .number n => n.toInt64?
  | _ => none

/-! ## Pointers -/

/-- A step of a pointer with its escapes undone: `~1` is a slash and `~0` a tilde. -/
def unescapeStep (step : String) : String :=
  (step.replace "~1" "/").replace "~0" "~"

/-- The position that a step names in an array: digits without a leading zero. -/
def stepIndex? (step : String) : Option Nat :=
  let digits := step.toList
  if digits.isEmpty || !digits.all Char.isDigit then none
  else if digits.head? == some '0' && digits.length != 1 then none
  else step.toNat?

/-- The part of a document that one step selects. -/
def step? (document : Json) (step : String) : Option Json :=
  match document with
  | .object members => members.lookup step
  | .array items => (stepIndex? step).bind fun i => items[i]?
  | _ => none

/-- The part of a document that a pointer selects: the empty pointer the whole, and a pointer that
does not start with a slash nothing. -/
def pointer? (document : Json) (pointer : String) : Option Json :=
  if pointer.isEmpty then some document
  else if !pointer.startsWith "/" then none
  else (((pointer.splitOn "/").drop 1).map unescapeStep).foldl
    (fun found step => found.bind (step? · step)) (some document)

end Json

end ObjectMapping
