import ObjectMapping.Class.Row
import ObjectMapping.Direction
import ObjectMapping.Enumeration
import ObjectMapping.Json.Basic

/-! # Schemas

A schema declares enum classes, classes of every flavor, and the mappings between them. Types stand
in it as they are written and defaults as documents, since a name may be used before it is declared.

* `Schema.merge` puts two schemas together. -/

namespace ObjectMapping

/-- The declaration of an enum class. -/
structure EnumEntry where
  name : String
  members : List String

/-- What a default factory makes: an empty collection. -/
inductive EmptyCollection where
  | list
  | set
  | dict
deriving DecidableEq, Repr

/-- The empty collection as a value. -/
def EmptyCollection.value : EmptyCollection → Value
  | .list => .list []
  | .set => .set []
  | .dict => .dict []

/-- The declaration of a field of a dataclass or a model. -/
structure FieldEntry where
  name : String
  typeText : String
  default? : Option Json
  factory? : Option EmptyCollection
  alias? : Option String
  /-- Whether the constructor accepts the field. -/
  accepted : Bool

/-- The declaration of a column. -/
structure ColumnEntry where
  name : String
  type : ColumnType
  nullable : Bool
  default? : Option Json
  serverDefault : Bool
  primaryKey : Bool
  autoincrement? : Option Bool
  foreignKey? : Option String

/-- The declaration of a dataclass or a model. -/
structure RecordEntry where
  name : String
  fields : List FieldEntry
  /-- Whether a model accepts fields with an alias under their own names too. -/
  populateByName : Bool

/-- The declaration of a class of table rows. -/
structure RowEntry where
  name : String
  columns : List ColumnEntry
  relationships : List Relationship

/-- The declaration of a class. -/
inductive ClassEntry where
  | dataclass (entry : RecordEntry)
  | model (entry : RecordEntry)
  | orm (entry : RowEntry)

/-- The name of a declared class. -/
def ClassEntry.name : ClassEntry → String
  | .dataclass entry => entry.name
  | .model entry => entry.name
  | .orm entry => entry.name

/-- What a mapping asks for a target field. -/
inductive OverrideEntry where
  | ignore
  | initWithDefault
  | source (field : String)
  | fromExtra (key : String)
  | constant (value : Json)
  | assumeNotNone (field? : Option String)
  | updateOnlyIfSet (field? : Option String)

/-- The declaration of a mapping between classes. -/
structure MappingEntry where
  source : String
  target : String
  mode : Mode
  overrides : List (String × OverrideEntry)

/-- The declaration of a mapping between enum classes. -/
structure EnumMappingEntry where
  source : String
  target : String
  overrides : EnumOverrides

/-- A schema. -/
structure Schema where
  enums : List EnumEntry
  classes : List ClassEntry
  mappings : List MappingEntry
  enumMappings : List EnumMappingEntry

namespace Schema

/-- The schema that declares nothing. -/
def empty : Schema := ⟨[], [], [], []⟩

/-- The declarations of one schema followed by those of another one. -/
def merge (a b : Schema) : Schema :=
  ⟨a.enums ++ b.enums, a.classes ++ b.classes, a.mappings ++ b.mappings,
    a.enumMappings ++ b.enumMappings⟩

end Schema

end ObjectMapping
