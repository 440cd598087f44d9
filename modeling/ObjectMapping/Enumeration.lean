import ObjectMapping.Value.Basic

/-! # Enums and mappings between them

The members of an enum class are mapped to members of another one, by name unless an override names
the target member. Every member of the source has to end up with a target.

* `Enumeration.member` is a member as a value.
* `EnumMapping.build` makes a mapping, `EnumMapping.apply` maps one value. -/

namespace ObjectMapping

/-- An enum class. -/
structure Enumeration where
  handle : ClassHandle
  members : List String

namespace Enumeration

/-- The name of an enum. -/
def name (e : Enumeration) : String := e.handle.name

/-- The member of a name. -/
def member (e : Enumeration) (name : String) : Except Error Value :=
  if e.members.contains name then .ok (.member e.handle name)
  else .error (.runtime (.noMember name e.name))

end Enumeration

/-- Names of source members with the names of the target members that override the default. -/
abbrev EnumOverrides := List (String × String)

/-- A mapping between enum classes. -/
structure EnumMapping where
  source : ClassHandle
  target : Enumeration
  /-- The target of each member. -/
  table : List (String × String)

namespace EnumMapping

/-- Checks that overrides lead from members of the source to members of the target. -/
def checkOverrides (source target : Enumeration) : EnumOverrides → Except EnumFault Unit
  | [] => .ok ()
  | (key, value) :: rest =>
      if !source.members.contains key then .error (.unknownKey key source.name)
      else if !target.members.contains value then .error (.unknownValue value target.name)
      else checkOverrides source target rest

/-- The name of the member to which a member is mapped. -/
def targetOf? (target : Enumeration) (overrides : EnumOverrides) (member : String) :
    Option String :=
  match overrides.lookup member with
  | some other => some other
  | none => if target.members.contains member then some member else none

/-- The mapping between two enum classes with overrides. -/
def build (source target : Enumeration) (overrides : EnumOverrides) : Except Error EnumMapping :=
  match checkOverrides source target overrides with
  | .error fault => .error (.invalidEnumMapping fault)
  | .ok () =>
      let unmapped := source.members.filter fun m => (targetOf? target overrides m).isNone
      if unmapped.isEmpty then
        let pairs := source.members.filterMap fun m =>
          (targetOf? target overrides m).map fun other => (m, other)
        .ok ⟨source.handle, target, Keyed.ofList pairs⟩
      else .error (.invalidEnumMapping (.unmapped unmapped source.name target.name))

/-- The member to which a value is mapped. -/
def apply (m : EnumMapping) (value : Value) : Except Error Value :=
  match value with
  | .member owner name =>
      if owner.same m.source then
        match m.table.lookup name with
        | some other => m.target.member other
        | none => .error (.runtime (.noMember name m.source.name))
      else .error (.noMappingRegistered owner.name m.target.name)
  | _ => .error (.runtime (.notAMember value.typeName))

/-- The mapping, one line for each member. -/
def text (m : EnumMapping) : String :=
  "\n".intercalate (m.table.map fun (a, b) =>
    m.source.name ++ "." ++ a ++ " -> " ++ m.target.name ++ "." ++ b)

end EnumMapping

end ObjectMapping
