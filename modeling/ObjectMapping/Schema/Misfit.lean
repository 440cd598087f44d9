import ObjectMapping.Json.Outline
import ObjectMapping.Json.Printer
import ObjectMapping.Text.Printable
import ObjectMapping.Error

/-! # Documents of the wrong form

A `Misfit` says where a document does not have the form that is expected, and why. The place is
told twice: as a path through the document, and as a position in its text if it has one.

* `Misfit.toError` is the error for a misfit.
* `Outline.fault?` is the first place where a text goes wrong, whatever form is expected. -/

namespace ObjectMapping

/-- A step of the path to a part of a document. -/
inductive Segment where
  | name (name : String)
  | position (i : Nat)
  /-- A member whose name cannot be read. -/
  | unreadable
deriving DecidableEq, Repr

namespace Segment

/-- The text of a path: names with dots in front of them, except at the start, and positions in
brackets. -/
def pathText : List Segment → String
  | [] => "."
  | first :: rest => atStart first ++ String.join (rest.map further)
where
  /-- A segment at the start of a path. -/
  atStart : Segment → String
    | .name s => s
    | .position i => "[" ++ toString i ++ "]"
    | .unreadable => "?"
  /-- A segment behind another one. -/
  further : Segment → String
    | .position i => "[" ++ toString i ++ "]"
    | other => "." ++ atStart other

end Segment

/-- Names to choose from, as messages list them. -/
def oneOf (names : List String) : String :=
  let quoted := names.map fun name => "`" ++ name ++ "`"
  match quoted with
  | [one] => one
  | [one, other] => one ++ " or " ++ other
  | _ => "one of " ++ Text.commas quoted

/-- Why a document does not have the form that is expected. -/
inductive Mismatch where
  | invalidType (found expected : String)
  | invalidValue (found expected : String)
  | invalidLength (length : Nat) (expected : String)
  | unknownVariant (name : String) (expected : List String)
  | unknownField (name : String) (expected : List String)
  | missingField (name : String)
  | duplicateField (name : String)
  | noVariant (expected : String)
  /-- The text itself goes wrong. -/
  | text (problem : Problem)
deriving DecidableEq, Repr

/-- The text of a mismatch. -/
def Mismatch.message : Mismatch → String
  | .invalidType found expected => s!"invalid type: {found}, expected {expected}"
  | .invalidValue found expected => s!"invalid value: {found}, expected {expected}"
  | .invalidLength length expected => s!"invalid length {length}, expected {expected}"
  | .unknownVariant name expected => s!"unknown variant `{name}`, expected {oneOf expected}"
  | .unknownField name expected => s!"unknown field `{name}`, expected {oneOf expected}"
  | .missingField name => s!"missing field `{name}`"
  | .duplicateField name => s!"duplicate field `{name}`"
  | .noVariant expected => s!"data did not match any variant of {expected}"
  | .text problem => problem.message

/-- Where and why a document does not have the form that is expected. -/
structure Misfit where
  path : List Segment
  mismatch : Mismatch
  position : Position
deriving DecidableEq, Repr

namespace Misfit

/-- A misfit with the document itself. -/
def here (mismatch : Mismatch) (position : Position) : Misfit := ⟨[], mismatch, position⟩

/-- A text that goes wrong. -/
def ofFault (fault : Fault) : Misfit := here (.text fault.problem) fault.position

/-- The misfit as seen from outside of a part. -/
def under (m : Misfit) (step : Segment) : Misfit := { m with path := step :: m.path }

/-- The misfit with a position, unless it has one. -/
def at_ (m : Misfit) (position : Position) : Misfit :=
  if m.position == .unknown then { m with position := position } else m

/-- The misfit without its place. -/
def unplaced (m : Misfit) : Misfit := here m.mismatch .unknown

/-- The error for a misfit. -/
def toError (m : Misfit) : Error :=
  .json (Segment.pathText m.path) (m.mismatch.message ++ m.position.suffix)

end Misfit

/-- What a reader makes of a document. -/
abbrev Reading (α : Type) := Except Misfit α

namespace Reading

variable {α : Type}

/-- Reads a part of a document; `closing` is where a reader ends up that rejects it. -/
def part (step : Segment) (closing : Position) : Reading α → Reading α
  | .ok a => .ok a
  | .error m => .error ((m.under step).at_ closing)

/-- Reads a part that has been read before without being looked at, so that nothing is known about
places any more. -/
def unplaced : Reading α → Reading α
  | .ok a => .ok a
  | .error m => .error m.unplaced

end Reading

namespace Outline

/-- What a document is, in messages. -/
def kindText : Json → String
  | .null => "null"
  | .bool b => "boolean `" ++ (if b then "true" else "false") ++ "`"
  | .number (.int i) => "integer `" ++ toString i ++ "`"
  | .number (.double x) => "floating point `" ++ Json.numberText (.double x) ++ "`"
  | .string s => "string " ++ Text.visible s
  | .array _ => "sequence"
  | .object _ => "map"

/-- Reports a document of the wrong type. -/
def wrongType {α : Type} (expected : String) : Outline → Reading α
  | .scalar document _ stop => .error (.here (.invalidType (kindText document) expected) stop)
  | .array start _ => .error (.here (.invalidType "sequence" expected) start)
  | .object start _ => .error (.here (.invalidType "map" expected) start)
  | .broken _ fault => .error (.ofFault fault)

mutual

/-- The first place where the text goes wrong. -/
def fault? : Outline → Option Misfit
  | .scalar .. => none
  | .array _ items => itemsFault? 0 items
  | .object _ members => membersFault? members
  | .broken _ fault => some (.ofFault fault)

/-- The first place where the text goes wrong in items, the first of them at a position. -/
def itemsFault? (i : Nat) : Items → Option Misfit
  | .close _ => none
  | .broken fault => some (.ofFault fault)
  | .item value _ _ rest =>
      match fault? value with
      | some m => some (m.under (.position i))
      | none => itemsFault? (i + 1) rest

/-- The first place where the text goes wrong in members. -/
def membersFault? : Members → Option Misfit
  | .close _ => none
  | .broken _ fault => some ((Misfit.ofFault fault).under .unreadable)
  | .unpaired _ _ _ fault => some (.ofFault fault)
  | .member name _ _ value _ rest =>
      match fault? value with
      | some m => some (m.under (.name name))
      | none => membersFault? rest

end

end Outline

end ObjectMapping
