import ObjectMapping.Class.Strategy
import ObjectMapping.FieldType.Basic
import ObjectMapping.Value.Basic

/-! # Classes

A class has a flavor and slots, one for each declared field. Its constructor takes arguments by
name: a field may be accepted under its own name, under its alias, under both, or not at all.

* `Class.params` are the names under which the constructor accepts a field.
* `Class.construct` constructs an object from arguments: a field that is not given takes its
  default; an argument that belongs to no field is an error. -/

namespace ObjectMapping

/-- A declared field of a class. -/
structure Slot where
  name : String
  type : FieldType
  /-- The value of the field if it is not given. -/
  default? : Option Value
  /-- Another name for the field in the constructor of a model. -/
  alias? : Option String
  /-- Whether the constructor accepts the field. -/
  accepted : Bool
  /-- Whether a mapping has to provide the field. -/
  required : Bool

/-- A check of a new object; the result is what is wrong with it. -/
abbrev Validator := Value → Option String

/-- What belongs to the flavor of a class. -/
inductive ClassBody where
  | dataclass
  /-- A model, and whether its constructor accepts fields with an alias under their own names too.
  -/
  | model (populateByName : Bool) (validators : List Validator)
  | orm

/-- A class. -/
structure Class where
  handle : ClassHandle
  slots : List Slot
  body : ClassBody

/-- Arguments of a constructor by name. -/
abbrev Arguments := List (String × Value)

namespace Class

/-- The name of a class. -/
def name (c : Class) : String := c.handle.name

/-- What kind of class it is, by its body. -/
def flavor (c : Class) : Flavor :=
  match c.body with
  | .dataclass => .dataclass
  | .model .. => .model
  | .orm => .orm

/-- The checks that run on new objects. -/
def validators (c : Class) : List Validator :=
  match c.body with
  | .model _ validators => validators
  | _ => []

/-- The names under which the constructor accepts a field, in the order in which they are looked
for. -/
def params (c : Class) (strategy : Strategy) (slot : Slot) : List String :=
  match c.body, slot.alias?, strategy with
  | .model populateByName _, some other, .validating =>
      if populateByName then [other, slot.name] else [other]
  | _, _, _ => [slot.name]

/-- The first argument that is given under one of the names, and the arguments without it. -/
def takeFirst? (args : Arguments) : List String → Option (Value × Arguments)
  | [] => none
  | param :: rest =>
      match Keyed.take? args param with
      | some found => some found
      | none => takeFirst? args rest

/-- What a constructor does with one field. -/
structure Filled where
  name : String
  value : Value
  /-- Whether the value was given. -/
  given : Bool

/-- The value of a field that was not given. -/
def defaultOf (c : Class) (slot : Slot) : Except Error Value :=
  match slot.default? with
  | some value => .ok value
  | none =>
      if slot.accepted then .error (.construction c.name (.missingArgument slot.name))
      else .ok .none

/-- The value of one field, and the arguments that are left for the others. -/
def fillSlot (c : Class) (strategy : Strategy) (slot : Slot) (args : Arguments) :
    Except Error (Filled × Arguments) :=
  let given := if slot.accepted then takeFirst? args (c.params strategy slot) else none
  match given with
  | some (value, rest) => .ok (⟨slot.name, value, true⟩, rest)
  | none => do return (⟨slot.name, ← c.defaultOf slot, false⟩, args)

/-- The values of the fields, and the arguments that are left. -/
def fillSlots (c : Class) (strategy : Strategy) :
    List Slot → Arguments → Except Error (List Filled × Arguments)
  | [], args => .ok ([], args)
  | slot :: rest, args => do
      let (filled, args) ← c.fillSlot strategy slot args
      let (others, args) ← c.fillSlots strategy rest args
      return (filled :: others, args)

/-- The object with the given field values. -/
def objectOf (c : Class) (filled : List Filled) : Value :=
  .object c.handle (Keyed.ofList (filled.map fun f => (f.name, f.value)))
    (Value.sortNames ((filled.filter (·.given)).map (·.name)))

/-- Runs the checks of the class on a new object. -/
def validate (c : Class) (object : Value) : Except Error Value :=
  match c.validators.findSome? fun validator => validator object with
  | some complaint => .error (.validation c.name complaint)
  | none => .ok object

/-- The object that the constructor makes of the arguments. -/
def construct (c : Class) (strategy : Strategy) (args : Arguments) : Except Error Value := do
  let (filled, left) ← c.fillSlots strategy c.slots args
  match left with
  | (unknown, _) :: _ => .error (.construction c.name (.unexpectedArgument unknown))
  | [] =>
      match strategy with
      | .validating => c.validate (c.objectOf filled)
      | .bypassing => .ok (c.objectOf filled)

end Class

end ObjectMapping
