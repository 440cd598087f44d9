import ObjectMapping.Enumeration
import ObjectMapping.Method

/-! # The registry of mappings

All registered mappings, by source class, target class and direction. A registration makes the
methods for all its directions first and enters them together, so one that fails leaves the registry
as it was.

* `Registry.register` and `Registry.registerEnum` enter mappings.
* `Registry.methodsFor` makes the methods of a registration without entering them. -/

namespace ObjectMapping

/-- The classes, by number, and the direction of a mapping. -/
structure MappingKey where
  source : Nat
  target : Nat
  direction : Direction
deriving DecidableEq, Repr

/-- The key for two classes in a direction. -/
def MappingKey.of (source target : ClassHandle) (direction : Direction) : MappingKey :=
  ⟨source.id, target.id, direction⟩

/-- A registered mapping. -/
inductive Registered where
  | method (m : MappingMethod)
  | enum (m : EnumMapping)

/-- The registered mappings, in the order of their registration. -/
structure Registry where
  mappings : List (MappingKey × Registered)

namespace Registry

/-- The registry without mappings. -/
def empty : Registry := ⟨[]⟩

/-- The mapping under a key. -/
def lookup? (r : Registry) (key : MappingKey) : Option Registered := r.mappings.lookup key

/-- Whether a mapping is registered under a key. -/
def contains (r : Registry) (key : MappingKey) : Bool := (r.lookup? key).isSome

/-- The number of registered mappings. -/
def size (r : Registry) : Nat := r.mappings.length

/-- The registered mappings as a table of methods. -/
def methodTable (r : Registry) : MethodTable := fun source target direction =>
  r.contains (.of source target direction)

/-- The error for a mapping that is registered already. -/
def duplicate {α : Type} (source target : ClassHandle) (direction : Direction) : Except Error α :=
  .error (.duplicateMapping source.name target.name direction)

/-- The method for two classes in a direction. -/
def methodFor (r : Registry) (source target : Class) (overrides : Overrides)
    (direction : Direction) : Except Error MappingMethod := do
  let plan ← Plan.build source.describe target.describe direction overrides
  MappingMethod.assemble plan target r.methodTable

/-- The methods for two classes in all directions of a mode. -/
def methodsFor (r : Registry) (source target : Class) (overrides : Overrides) (mode : Mode) :
    Except Error (List MappingMethod) :=
  match mode.directions.find? fun d => r.contains (.of source.handle target.handle d) with
  | some direction => duplicate source.handle target.handle direction
  | none => mode.directions.mapM (r.methodFor source target overrides)

/-- The registry with further mappings, which must all be new. -/
def insertAll (r : Registry) (source target : ClassHandle)
    (entries : List (MappingKey × Registered)) : Except Error Registry :=
  match entries.find? fun entry => r.contains entry.1 with
  | some (key, _) => duplicate source target key.direction
  | none => .ok ⟨r.mappings ++ entries⟩

/-- The registry with the mapping between two classes in all directions of a mode. -/
def register (r : Registry) (source target : Class) (overrides : Overrides) (mode : Mode) :
    Except Error Registry := do
  let methods ← r.methodsFor source target overrides mode
  r.insertAll source.handle target.handle
    (methods.map fun m => (.of m.source m.target.handle m.direction, .method m))

/-- The registry with the mapping between two enum classes. -/
def registerEnum (r : Registry) (source target : Enumeration) (overrides : EnumOverrides) :
    Except Error Registry := do
  let mapping ← EnumMapping.build source target overrides
  r.insertAll source.handle target.handle [(.of source.handle target.handle .create, .enum mapping)]

/-- The codes of the create and the update method for two classes, without registering them. -/
def codes (r : Registry) (source target : Class) (overrides : Overrides) :
    Except Error (String × String) := do
  let methods ← r.methodsFor source target overrides .createAndUpdate
  let textOf := fun (direction : Direction) =>
    ((methods.find? fun m => m.direction == direction).map MappingMethod.text).getD ""
  return (textOf .create, textOf .update)

end Registry

end ObjectMapping
