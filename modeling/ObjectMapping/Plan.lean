import ObjectMapping.Class.Descriptor
import ObjectMapping.Direction

/-! # Plans

A plan says where the value of each target field comes from: from an explicit override, from the
source field of the same name, or, when a new object is made, from its own default. A field that has
to be given can be ignored when an object is changed, since the object has a value for it already.

* `Plan.build` makes the plan for two classes in a direction, or tells what is missing. -/

namespace ObjectMapping

/-- A function that provides values. -/
inductive Factory where
  /-- The same value every time. -/
  | constant (value : Value)
  /-- A value made from the source object. -/
  | ofSource (make : Value → Value)

/-- The ways to ask for a field to be left out. -/
inductive Omission where
  | ignore
  | initWithDefault
deriving DecidableEq, Repr

/-- How an omission is written in an override. -/
def Omission.text : Omission → String
  | .ignore => "ignore()"
  | .initWithDefault => "init_with_default()"

/-- What is asked for a target field. -/
inductive Override where
  /-- Take the value from this source field. -/
  | source (field : String)
  | factory (f : Factory)
  /-- Take the value from the caller's values, under a key. -/
  | fromExtra (key : String)
  | ignore (omission : Omission)
  /-- Treat the source field, of this name if one is given, as never absent. -/
  | assumeNotNone (field? : Option String)
  /-- Assign only if the source field, of this name if one is given, is not absent. -/
  | updateOnlyIfSet (field? : Option String)

/-- What is asked for target fields, by field name. -/
abbrev Overrides := List (String × Override)

/-- Where the value of a target field comes from. -/
inductive Resolution where
  /-- From a source field, read as a value of `type`, and perhaps only if it is not absent. -/
  | field (source : FieldDescriptor) (type : FieldType) (onlyIfSet : Bool)
  | factory (f : Factory)
  | fromExtra (key : String)
  /-- From nowhere: a new object has its default, a changed one keeps its value. -/
  | default

/-- Where the values of all target fields come from. -/
structure Plan where
  source : Descriptor
  target : Descriptor
  direction : Direction
  entries : List (String × Resolution)

namespace Plan

variable (source target : Descriptor) (direction : Direction)

/-- The source field of a name. -/
def sourceField (name : String) : Except Error FieldDescriptor :=
  match source.field? name with
  | some field => .ok field
  | none => .error (.unknownSourceField source.name target.name name)

/-- Takes the value from a source field. In a change an absent value is not to overwrite a field
with a default, so it is skipped. -/
def fromField (field goal : FieldDescriptor) : Resolution :=
  if direction == .update && !goal.required && field.type.isOptional then
    .field field field.type.stripOptional true
  else .field field field.type false

/-- The resolution that an override asks for. -/
def explicit (goal : FieldDescriptor) : Override → Except Error Resolution
  | .source name => do return fromField direction (← sourceField source target name) goal
  | .factory f => .ok (.factory f)
  | .fromExtra key => .ok (.fromExtra key)
  | .ignore omission =>
      if direction == .create && goal.required then
        .error (.invalidOverride goal.name target.name omission.text)
      else .ok .default
  | .assumeNotNone name? => do
      let field ← sourceField source target (name?.getD goal.name)
      return .field field field.type.stripOptional false
  | .updateOnlyIfSet name? => do
      let field ← sourceField source target (name?.getD goal.name)
      return .field field field.type.stripOptional true

/-- The resolution without an override, if there is one. -/
def implicit? (goal : FieldDescriptor) : Option Resolution :=
  match source.field? goal.name with
  | some field => some (fromField direction field goal)
  | none => if direction == .create && !goal.required then some .default else none

/-- The resolution of the target field under a name, if there is one. -/
def resolve (overrides : Overrides) (name : String) (goal : FieldDescriptor) :
    Except Error (Option Resolution) :=
  match overrides.lookup name with
  | some override => do return some (← explicit source target direction goal override)
  | none => .ok (implicit? source direction goal)

/-- The plan for two classes in a direction. -/
def build (overrides : Overrides) : Except Error Plan := do
  let unknown := (overrides.map (·.1)).filter fun key => (target.field? key).isNone
  if !unknown.isEmpty then .error (.unknownOverrideKey source.name target.name unknown)
  else
    let resolved ← target.fields.mapM fun (name, goal) => do
      return (name, ← resolve source target direction overrides name goal)
    let missing := (resolved.filter fun entry => entry.2.isNone).map (·.1)
    if !missing.isEmpty then .error (.incompleteMapping source.name target.name missing)
    else
      return ⟨source, target, direction,
        resolved.filterMap fun (name, found) => found.map fun r => (name, r)⟩

end Plan

end ObjectMapping
