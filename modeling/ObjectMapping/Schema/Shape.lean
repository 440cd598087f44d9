import ObjectMapping.Schema.Misfit

/-! # Reading documents of a known form

Readers for strings, lists, mappings and records over outlines. They report the first misfit in the
order of the text.

* `Shape` describes a record by its fields. `Shape.read` reads it from an object, whose members may
  come in any order but only once each, or from an array with the values of the fields in order.
* `Outline.readList` and `Outline.readMap` read collections of equal parts. -/

namespace ObjectMapping

namespace Outline

/-- Reads a string. -/
def readString : Outline → Reading String
  | .scalar (.string s) _ _ => .ok s
  | other => other.wrongType "a string"

/-- Reads a truth value. -/
def readBool : Outline → Reading Bool
  | .scalar (.bool b) _ _ => .ok b
  | other => other.wrongType "a boolean"

/-- Reads something that may be null. -/
def readOptional {α : Type} (read : Outline → Reading α) : Outline → Reading (Option α)
  | .scalar .null _ _ => .ok none
  | other => (read other).map some

/-- Reads any document. -/
def readAny (o : Outline) : Reading Json :=
  match o.toJson with
  | .ok document => .ok document
  | .error fault => .error (.ofFault fault)

/-- Reads the items of an array, the first of them at a position. -/
def itemsOf {α : Type} (read : Outline → Reading α) (i : Nat) : Items → Reading (List α)
  | .close _ => .ok []
  | .broken fault => .error (.ofFault fault)
  | .item value closing _ rest => do
      let item ← Reading.part (.position i) closing (read value)
      return item :: (← itemsOf read (i + 1) rest)

/-- Reads an array of equal parts. -/
def readList {α : Type} (read : Outline → Reading α) : Outline → Reading (List α)
  | .array _ items => itemsOf read 0 items
  | other => other.wrongType "a sequence"

/-- Reads the members of an object. -/
def entriesOf {α : Type} (read : Outline → Reading α) : Members → Reading (List (String × α))
  | .close _ => .ok []
  | .broken _ fault => .error ((Misfit.ofFault fault).under .unreadable)
  | .unpaired _ _ _ fault => .error (.ofFault fault)
  | .member name _ _ value closing rest => do
      let item ← Reading.part (.name name) closing (read value)
      return (name, item) :: (← entriesOf read rest)

/-- Reads an object of equal parts under any names. Of equal names the last value counts. -/
def readMap {α : Type} (read : Outline → Reading α) : Outline → Reading (List (String × α))
  | .object _ members => (entriesOf read members).map Keyed.ofList
  | other => other.wrongType "a map"

end Outline

/-- A field of a record. -/
structure Field (α : Type) where
  name : String
  /-- Whether an object has to have the field. -/
  inObject : Bool
  /-- Whether an array has to reach the field. -/
  inArray : Bool
  /-- Reads the value of the field into a record. -/
  read : Outline → α → Reading α

/-- A record. -/
structure Shape (α : Type) where
  /-- The name of the record in messages. -/
  label : String
  /-- The record before any field has been read. -/
  start : α
  fields : List (Field α)

/-- Whether a document is read from its source or from memory. -/
inductive Origin where
  | source
  | memory
deriving DecidableEq, Repr

namespace Field

variable {α : Type}

/-- A field that has to be there. -/
def required (name : String) (read : Outline → α → Reading α) : Field α := ⟨name, true, true, read⟩

/-- A field that may be left out. -/
def defaulted (name : String) (read : Outline → α → Reading α) : Field α :=
  ⟨name, false, false, read⟩

/-- A field that an object may leave out, but not an array. -/
def optional (name : String) (read : Outline → α → Reading α) : Field α :=
  ⟨name, false, true, read⟩

end Field

namespace Shape

variable {α : Type} (s : Shape α)

/-- The names of the fields. -/
def names : List String := s.fields.map (·.name)

/-- What an array with the fields of the record is expected to be. -/
def arrayLabel : String := s.label ++ " with " ++ toString s.fields.length ++ " elements"

/-- The field of a name that has not been read yet. -/
def nextField (seen : List String) (name : String) (nameStop : Position) : Reading (Field α) :=
  match s.fields.find? fun field => field.name == name with
  | none => .error ((Misfit.here (.unknownField name s.names) nameStop).under (.name name))
  | some field =>
      if seen.contains name then .error (.here (.duplicateField name) nameStop) else .ok field

/-- Reads the fields from the members of an object; `seen` are the names read so far. -/
def readMembers (seen : List String) (record : α) : Members → Reading α
  | .close stop =>
      match s.fields.find? fun field => field.inObject && !seen.contains field.name with
      | some field => .error (.here (.missingField field.name) stop)
      | none => .ok record
  | .broken _ fault => .error ((Misfit.ofFault fault).under .unreadable)
  | .unpaired name _ nameStop fault => do
      let _ ← s.nextField seen name nameStop
      .error (.ofFault fault)
  | .member name _ nameStop value closing rest => do
      let field ← s.nextField seen name nameStop
      let record ← Reading.part (.name name) closing (field.read value record)
      readMembers (name :: seen) record rest

/-- The number of items. -/
def itemCount : Items → Nat
  | .close _ | .broken _ => 0
  | .item _ _ _ rest => itemCount rest + 1

/-- What is wrong with items that no field is left for, `count` items into an array. -/
def rejectItems (origin : Origin) (count : Nat) (surplus : Option Fault) (record : α)
    (rest : Items) : Reading α :=
  let length := count + itemCount rest
  match origin, surplus with
  | .source, some fault => .error (.ofFault fault)
  | .source, none =>
      if length == count then .ok record
      else .error (.here (.invalidLength length "fewer elements in array") .unknown)
  | .memory, _ =>
      if length == count then .ok record
      else
        let expected := toString s.fields.length ++ " elements in sequence"
        .error (.here (.invalidLength length expected) .unknown)

/-- Reads fields from the items of an array, the first of them at a position. -/
def readItems (origin : Origin) (i : Nat) (surplus : Option Fault) (record : α) :
    List (Field α) → Items → Reading α
  | [], rest => s.rejectItems origin i surplus record rest
  | field :: others, .close stop =>
      match ((field :: others).findIdx? fun f => f.inArray) with
      | some k => .error (.here (.invalidLength (i + k) s.arrayLabel) stop)
      | none => .ok record
  | _ :: _, .broken fault => .error (.ofFault fault)
  | field :: others, .item value closing surplus rest => do
      let record ← Reading.part (.position i) closing (field.read value record)
      readItems origin (i + 1) surplus record others rest

/-- Reads a record. -/
def read (origin : Origin) : Outline → Reading α
  | .object _ members => s.readMembers [] s.start members
  | .array _ items => s.readItems origin 0 none s.start s.fields items
  | other => other.wrongType s.label

end Shape

end ObjectMapping
