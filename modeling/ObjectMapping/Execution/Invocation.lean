import ObjectMapping.Execution.Statements
import ObjectMapping.Registry

/-! # Invoking mappings

A mapping is selected by the class of the source, by the class of the target and by the direction,
at the moment of the call. A method may therefore call another one that was registered after it.

Methods are only ever invoked on proper parts of the source of the calling method, so the height of
a source bounds how deeply invocations nest.

* `Registry.convert` makes a new object, `Registry.update` changes an existing one. -/

namespace ObjectMapping

/-- The values that the caller hands to a mapping, by name. -/
abbrev Extra := List (String × Value)

/-- The caller's values as one dictionary. -/
def Extra.value (extra : Extra) : Value := .dict (extra.map fun (name, v) => (.str name, v))

namespace Registry

/-- The error for a source that cannot be mapped to a target. -/
def notRegistered (source : Value) (target : String) : Error :=
  .noMappingRegistered source.typeName target

/-- Makes a new object of a class, with methods that invoke others by `inner`. -/
def createWith (r : Registry) (extra : Value) (inner : Invoker) (source : Value)
    (target : ClassHandle) : Except Error Value :=
  let found := source.handle?.bind fun handle => r.lookup? (.of handle target .create)
  match found with
  | some (.method m) => m.create inner source extra
  | some (.enum m) => m.apply source
  | none => .error (notRegistered source target.name)

/-- Changes an object, with methods that invoke others by `inner`. -/
def updateWith (r : Registry) (extra : Value) (inner : Invoker) (source target : Value) :
    Except Error Unit × Value :=
  let found := source.handle?.bind fun s => target.handle?.bind fun t =>
    r.lookup? (.of s t .update)
  match found with
  | some (.method m) => m.update inner source target extra
  | _ => (.error (notRegistered source target.typeName), target)

/-- The invoker for sources of at most the given height. -/
def invoker (r : Registry) (extra : Value) : Nat → Invoker
  | 0 =>
      ⟨fun _ _ => .error (.runtime .tooDeep), fun _ target => (.error (.runtime .tooDeep), target)⟩
  | height + 1 =>
      let inner := r.invoker extra height
      ⟨r.createWith extra inner, r.updateWith extra inner⟩

/-- The new object of a class made from a source. -/
def convert (r : Registry) (source : Value) (target : ClassHandle) (extra : Extra) :
    Except Error Value :=
  (r.invoker extra.value source.height).create source target

/-- Brings a target up to date with a source: the outcome, and the target as it is left. -/
def update (r : Registry) (source target : Value) (extra : Extra) : Except Error Unit × Value :=
  (r.invoker extra.value source.height).update source target

end Registry

end ObjectMapping
