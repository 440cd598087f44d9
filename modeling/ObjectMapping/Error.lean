import ObjectMapping.Direction
import ObjectMapping.Text

/-! # Errors

One type for everything that can go wrong, from reading a type to running a mapping, with
the cause in the constructor and the wording in one place.

* `Error.message` is the text of an error.
* `Error.isDefinition` tells the errors found while a mapping is being defined from those of its
  invocation. -/

namespace ObjectMapping

/-- Why two enums cannot be mapped. -/
inductive EnumFault where
  /-- An override for something that is no member of the source enum. -/
  | unknownKey (key source : String)
  /-- An override with something that is no member of the target enum. -/
  | unknownValue (value target : String)
  /-- Members of the source enum without a counterpart. -/
  | unmapped (members : List String) (source target : String)
deriving DecidableEq, Repr

/-- The text of a fault. -/
def EnumFault.message : EnumFault → String
  | .unknownKey key source =>
      s!"The mapping key '{key}' must be a member of the source enum '{source}'"
  | .unknownValue value target =>
      s!"The mapping value '{value}' must be a member of the target enum '{target}'"
  | .unmapped members source target =>
      s!"The members {Text.quoteAll members} of the source enum '{source}' " ++
        s!"don't have a mapping to '{target}'"

/-- Why an object cannot be constructed. -/
inductive ConstructionFault where
  | missingArgument (field : String)
  | unexpectedArgument (param : String)
deriving DecidableEq, Repr

/-- The text of a fault. -/
def ConstructionFault.message : ConstructionFault → String
  | .missingArgument field => s!"missing required argument '{field}'"
  | .unexpectedArgument param => s!"unexpected keyword argument '{param}'"

/-- An operation on a value of the wrong shape, or code that no method contains. -/
inductive RuntimeFault where
  | notAnObject (type : String)
  | noAttribute (type name : String)
  | invalidKey (key type : String)
  | noContainer (type : String)
  | notIterable (type : String)
  | noItems (type : String)
  | noMember (name enum : String)
  | notAMember (type : String)
  | undefinedName (name : String)
  | noTarget
  | noTargetToChange
  | notConstructed
  | notAssignable (place : String)
  | cannotAssign (place : String)
  | argumentName
  | updateArguments
  | updateValue
  | noFactory (slot : Nat)
  | factoryArgument
  | otherClass (constructed target : String)
  | noReturn (function : String)
  | tooDeep
deriving DecidableEq, Repr

/-- The text of a fault. -/
def RuntimeFault.message : RuntimeFault → String
  | .notAnObject type => s!"expected an object, found a value of type '{type}'"
  | .noAttribute type name => s!"'{type}' object has no attribute '{name}'"
  | .invalidKey key type => s!"{key} is not a valid key for a '{type}'"
  | .noContainer type => s!"argument of type '{type}' is not iterable"
  | .notIterable type => s!"'{type}' object is not iterable"
  | .noItems type => s!"'{type}' object has no attribute 'items'"
  | .noMember name enum => s!"'{name}' is not a member of '{enum}'"
  | .notAMember type => s!"expected an enum member, found '{type}'"
  | .undefinedName name => s!"name '{name}' is not defined"
  | .noTarget => "no target object"
  | .noTargetToChange => "no target object in a create method"
  | .notConstructed => "object used before construction"
  | .notAssignable place => s!"'{place}' is not assignable"
  | .cannotAssign place => s!"cannot assign to '{place}'"
  | .argumentName => "constructor arguments are keyed by name"
  | .updateArguments => "update call takes a target and extra"
  | .updateValue => "update methods return nothing"
  | .noFactory slot => s!"no factory in slot {slot}"
  | .factoryArgument => "factory takes the source"
  | .otherClass constructed target => s!"method constructs '{constructed}' but targets '{target}'"
  | .noReturn function => s!"generated method '{function}' returned nothing"
  | .tooDeep => "mappings are nested deeper than the source"

/-- What is wrong with a schema, or with a document read by one. -/
inductive SchemaFault where
  /-- A document at a path does not have the type that is expected there. -/
  | mismatch (path : List String) (expected found : String)
  | undefinedClass (name : String)
  | unknownClass (name : String)
  | unknownEnum (name : String)
  | declaredTwice (name : String)
  | aliasedField (field : String)
  | excludedField (field : String)
  | twoDefaults (field : String)
  | unreadable (path reason : String)
deriving DecidableEq, Repr

/-- The text of a fault. -/
def SchemaFault.message : SchemaFault → String
  | .mismatch path expected found =>
      let place := if path.isEmpty then "." else ".".intercalate path
      s!"at {place}: expected '{expected}', found {found}"
  | .undefinedClass name => s!"no definition for class '{name}'"
  | .unknownClass name => s!"unknown class '{name}'"
  | .unknownEnum name => s!"unknown enum '{name}'"
  | .declaredTwice name => s!"'{name}' is declared more than once"
  | .aliasedField field => s!"dataclass field '{field}' cannot have an alias"
  | .excludedField field => s!"model field '{field}' is always accepted by the constructor"
  | .twoDefaults field => s!"field '{field}' has both a default and a default factory"
  | .unreadable path reason => s!"failed to read '{path}': {reason}"

/-- Everything that can go wrong. -/
inductive Error where
  /-- A written type that is not supported. -/
  | unsupportedType (text reason : String)
  /-- Two fields without a conversion between them. -/
  | fieldType (field source targetField target : String) (direction : Direction)
  /-- Target fields that nothing provides. -/
  | incompleteMapping (source target : String) (fields : List String)
  /-- Overrides for fields that the target does not have. -/
  | unknownOverrideKey (source target : String) (keys : List String)
  | unknownSourceField (source target field : String)
  /-- Leaving out a field that has no default. -/
  | invalidOverride (field target spelling : String)
  | duplicateMapping (source target : String) (direction : Direction)
  | noMappingRegistered (source target : String)
  | notAClass (name reason : String)
  | invalidEnumMapping (fault : EnumFault)
  /-- Raised by the statement of a method. -/
  | raised (message : String)
  | construction (name : String) (fault : ConstructionFault)
  | validation (name text : String)
  | runtime (fault : RuntimeFault)
  | schema (fault : SchemaFault)
  /-- A schema document of the wrong form, at a path. -/
  | json (path reason : String)
deriving DecidableEq, Repr

namespace Error

/-- The text of an error. -/
def message : Error → String
  | .unsupportedType text reason =>
      s!"Field type '{text}' is not supported: {reason}"
  | .fieldType field source targetField target direction =>
      s!"{field} of '{source}' cannot be converted to {targetField} of '{target}' " ++
        s!"({direction.text} mode)" ++
        match direction with
        | .create => ""
        | .update => ". The mapping is missing, or only exists for update mode"
  | .incompleteMapping source target fields =>
      s!"'{target}' has fields without a mapping from '{source}': {Text.quoteAll fields}"
  | .unknownOverrideKey source target keys =>
      s!"The override keys {Text.quoteAll keys} are not fields of '{target}' " ++
        s!"(mapping from '{source}')"
  | .unknownSourceField source target field =>
      s!"'{field}' of mapping in '{target}' doesn't exist in '{source}'"
  | .invalidOverride field target spelling =>
      s!"'{field}' of '{target}' cannot be set to {spelling}, as it has no default"
  | .duplicateMapping source target direction =>
      s!"There already exists a {direction.text} mapping between '{source}' and '{target}'"
  | .noMappingRegistered source target =>
      s!"Object of type '{source}' cannot be mapped to '{target}'"
  | .notAClass name reason =>
      s!"'{name}' cannot be described as a mappable class: {reason}"
  | .invalidEnumMapping fault => fault.message
  | .raised text => text
  | .construction name fault => s!"Cannot construct '{name}': {fault.message}"
  | .validation name text => s!"Validation of '{name}' failed: {text}"
  | .runtime fault => "Runtime error: " ++ fault.message
  | .schema fault => "Schema error: " ++ fault.message
  | .json path reason => s!"JSON error: at JSON path {path} → {reason}"

/-- Whether the error was found while a mapping was being defined. -/
def isDefinition : Error → Bool
  | .unsupportedType .. | .fieldType .. | .incompleteMapping .. | .unknownOverrideKey ..
  | .unknownSourceField .. | .invalidOverride .. | .duplicateMapping .. | .notAClass ..
  | .invalidEnumMapping .. => true
  | .noMappingRegistered .. | .raised .. | .construction .. | .validation .. | .runtime ..
  | .schema .. | .json .. => false

end Error

end ObjectMapping
