import ObjectMapping.Class.Basic

/-! # Descriptors

What mappings need to know about a class, in terms that do not depend on its flavor.

* `Class.describe` describes a class in the terms of its own flavor, `Class.describeAs` in the terms
  of a given one. -/

namespace ObjectMapping

/-- What mappings need to know about a field. -/
structure FieldDescriptor where
  name : String
  type : FieldType
  /-- Whether it has to be given to the constructor. -/
  required : Bool
  /-- The name under which it is given to the constructor. -/
  param : String
  /-- Whether the constructor accepts it; otherwise it is assigned afterwards. -/
  accepted : Bool

/-- The field and its type in messages. -/
def FieldDescriptor.text (f : FieldDescriptor) : String :=
  "'" ++ f.name ++ "' of type '" ++ f.type.text ++ "'"

/-- Which assignments a target class wants to be skipped. -/
inductive AssignmentHook where
  | none
  /-- Those from source fields that were not assigned explicitly. -/
  | onlyIfSet
deriving DecidableEq, Repr

/-- The name of a hook in texts. -/
def AssignmentHook.text : AssignmentHook → String
  | .none => "none"
  | .onlyIfSet => "only_if_set"

/-- What mappings need to know about a class. -/
structure Descriptor where
  handle : ClassHandle
  flavor : Flavor
  fields : List (String × FieldDescriptor)
  strategy : Strategy
  hook : AssignmentHook

namespace Descriptor

/-- The name of the described class. -/
def name (d : Descriptor) : String := d.handle.name

/-- The field of a name. -/
def field? (d : Descriptor) (name : String) : Option FieldDescriptor := d.fields.lookup name

end Descriptor

/-- The description of a slot whose field is given under `param`. -/
def Slot.describe (slot : Slot) (param : String) : FieldDescriptor :=
  ⟨slot.name, slot.type, slot.required, param, slot.accepted⟩

namespace Class

/-- The descriptions of the fields, given the name of each in the constructor. -/
def describeFields (c : Class) (param : Slot → String) : List (String × FieldDescriptor) :=
  Keyed.ofList (c.slots.map fun slot => (slot.name, slot.describe (param slot)))

/-- The description of a class whose constructor takes fields under their own names. -/
def describePlain (c : Class) (flavor : Flavor) : Descriptor :=
  ⟨c.handle, flavor, c.describeFields (·.name), .validating, .none⟩

/-- How objects of a model are constructed: without validators there is nothing to run. -/
def modelStrategy (validators : List Validator) : Strategy :=
  if validators.isEmpty then .bypassing else .validating

/-- The description of a model with the given validators. -/
def describeModel (c : Class) (validators : List Validator) : Descriptor :=
  let strategy := modelStrategy validators
  let param := fun (slot : Slot) => (c.params strategy slot).headD slot.name
  ⟨c.handle, .model, c.describeFields param, strategy, .onlyIfSet⟩

/-- The description of a class. -/
def describe (c : Class) : Descriptor :=
  match c.body with
  | .dataclass => c.describePlain .dataclass
  | .model _ validators => c.describeModel validators
  | .orm => c.describePlain .orm

/-- The description of a class in the terms of a flavor; only models can be described as models. -/
def describeAs (c : Class) (flavor : Flavor) : Except Error Descriptor :=
  match flavor, c.body with
  | .model, .model _ validators => .ok (c.describeModel validators)
  | .model, _ => .error (.notAClass c.name "not a model")
  | plain, _ => .ok (c.describePlain plain)

end Class

end ObjectMapping
