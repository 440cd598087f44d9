import ObjectMapping.Class.Basic
import ObjectMapping.FieldType.Namespace

/-! # Rows of database tables

The flavor whose fields are columns and relationships. A column need not be given to the constructor
when the database can fill it in: it has a default of its own or of the server, counts up as a
primary key, or refers to another table. Relationships are never required.

* `Class.orm` defines such a class. -/

namespace ObjectMapping

/-- The type of a column. -/
inductive ColumnType where
  | integer
  | bigInteger
  | smallInteger
  | boolean
  | float
  | numeric
  | string
  | text
  | date
  | datetime
  | largeBinary
  | uuid
  /-- The members of a named enum class. -/
  | enum (name : String)
  | array (item : ColumnType)
  /-- Documents, which have no field type. -/
  | json

namespace ColumnType

/-- Whether a column holds whole numbers. -/
def isInteger : ColumnType → Bool
  | integer | bigInteger | smallInteger => true
  | _ => false

/-- The type of the field for a column. -/
def fieldType (ns : Namespace) : ColumnType → Except Error FieldType
  | integer | bigInteger | smallInteger => .ok (.builtin .int)
  | boolean => .ok (.builtin .bool)
  | float | numeric => .ok (.builtin .float)
  | string | text => .ok (.builtin .str)
  | date => .ok (.builtin .date)
  | datetime => .ok (.builtin .datetime)
  | largeBinary => .ok (.builtin .bytes)
  | uuid => .ok (.builtin .uuid)
  | enum name =>
      match ns.resolve? name with
      | some handle => .ok (.named handle)
      | none => .error (.unsupportedType s!"Enum({name})" s!"unknown enum class '{name}'")
  | array item => do return .list (← fieldType ns item)
  | json => .error (.unsupportedType "JSON" "JSON columns have no element type")

end ColumnType

/-- A column of a table. -/
structure Column where
  name : String
  type : ColumnType
  nullable : Bool
  default? : Option Value
  serverDefault : Bool
  primaryKey : Bool
  /-- Whether a primary key counts up; integer ones do unless it is turned off. -/
  autoincrement? : Option Bool
  foreignKey? : Option String

namespace Column

/-- Whether the database numbers the rows by this column. -/
def isGenerated (c : Column) : Bool :=
  c.primaryKey && c.autoincrement?.getD c.type.isInteger

/-- Whether nothing but the constructor can fill the column in. -/
def isRequired (c : Column) : Bool :=
  !(c.default?.isSome || c.serverDefault || c.isGenerated || c.foreignKey?.isSome)

/-- The value of a column that is not given; one that the database fills in starts out empty. -/
def initial? (c : Column) : Option Value :=
  match c.default? with
  | some value => some value
  | none => if !c.isRequired || c.nullable then some .none else none

/-- The slot of a column. -/
def slot (ns : Namespace) (c : Column) : Except Error Slot := do
  let type ← c.type.fieldType ns
  return ⟨c.name, if c.nullable then type.orNone else type, c.initial?, none, true, c.isRequired⟩

end Column

/-- How many rows a relationship leads to. -/
inductive Multiplicity where
  | single
  | list
  | set
deriving DecidableEq, Repr

/-- A relationship to the rows of another table. -/
structure Relationship where
  name : String
  target : String
  multiplicity : Multiplicity
  /-- Whether the relationship may lead nowhere; a single one may unless it is turned off. -/
  nullable? : Option Bool

namespace Relationship

/-- The type of the field for a relationship to rows of a class. -/
def fieldType (r : Relationship) (target : FieldType) : FieldType :=
  match r.multiplicity with
  | .single => target
  | .list => .list target
  | .set => .set target

/-- The value of a relationship that is not given. -/
def initial (r : Relationship) : Value :=
  match r.multiplicity with
  | .single => .none
  | .list => .list []
  | .set => .set []

/-- The slot of a relationship. -/
def slot (ns : Namespace) (r : Relationship) : Except Error Slot :=
  match ns.resolve? r.target with
  | none => .error (.unsupportedType r.target s!"unknown relationship target '{r.target}'")
  | some handle =>
      let type := r.fieldType (.named handle)
      let nullable := r.nullable?.getD (r.multiplicity == .single)
      .ok ⟨r.name, if nullable then type.orNone else type, some r.initial, none, true, false⟩

end Relationship

/-- The class of the rows of a table. -/
def Class.orm (ns : Namespace) (handle : ClassHandle) (columns : List Column)
    (relationships : List Relationship) : Except Error Class := do
  let columnSlots ← columns.mapM (·.slot ns)
  return ⟨handle, columnSlots ++ (← relationships.mapM (·.slot ns)), .orm⟩

end ObjectMapping
