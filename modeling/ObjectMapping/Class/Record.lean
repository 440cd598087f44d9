import ObjectMapping.Class.Basic
import ObjectMapping.FieldType.Classification

/-! # Dataclasses and models

The two flavors whose fields are declared with a written type.

* `Class.dataclass` defines a plain record, some of whose fields may be out of reach of the
  constructor.
* `Class.model` defines a validated record, whose fields may have aliases. -/

namespace ObjectMapping

/-- The declaration of a field with a written type. -/
structure FieldDeclaration where
  name : String
  typeText : String
  default? : Option Value
  alias? : Option String
  accepted : Bool

/-- The slot that a declaration describes. -/
def FieldDeclaration.slot (ns : Namespace) (d : FieldDeclaration) : Except Error Slot := do
  let type ← FieldType.parse ns d.typeText
  return ⟨d.name, type, d.default?, d.alias?, d.accepted, d.default?.isNone⟩

namespace Class

/-- The dataclass with the declared fields. -/
def dataclass (ns : Namespace) (handle : ClassHandle) (fields : List FieldDeclaration) :
    Except Error Class := do
  return ⟨handle, ← fields.mapM (·.slot ns), .dataclass⟩

/-- The model with the declared fields. -/
def model (ns : Namespace) (handle : ClassHandle) (fields : List FieldDeclaration)
    (populateByName : Bool) (validators : List Validator) : Except Error Class := do
  return ⟨handle, ← fields.mapM (·.slot ns), .model populateByName validators⟩

end Class

end ObjectMapping
