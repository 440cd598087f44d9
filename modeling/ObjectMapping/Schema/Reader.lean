import ObjectMapping.Schema.Basic
import ObjectMapping.Schema.Choice

/-! # Reading schemas

Readers for the entries of a schema. Everything in the declaration of a class, and everything in an
override, is kept in memory first, because its form is known only from a part of it; of what is
wrong with it then, no place is known but that of the whole.

* `Schema.ofText` and `Schema.ofJson` read a schema.
* `ColumnType.ofOutline` reads the type of a column. -/

namespace ObjectMapping

/-! ## Fields and columns -/

/-- The types of columns that need nothing but a name. -/
def ColumnType.plain : List (String × ColumnType) :=
  [("integer", .integer), ("big_integer", .bigInteger), ("small_integer", .smallInteger),
    ("boolean", .boolean), ("float", .float), ("numeric", .numeric), ("string", .string),
    ("text", .text), ("date", .date), ("date_time", .datetime), ("large_binary", .largeBinary),
    ("uuid", .uuid), ("json", .json)]

/-- The names of all types of columns. -/
def ColumnType.names : List String := plain.map (·.1) ++ ["enum", "array"]

/-- Reads the type of a column from memory. -/
def ColumnType.ofOutline : Outline → Reading ColumnType
  | .object _ (.member "array" _ _ item _ (.close _)) => do return .array (← ofOutline item)
  | other => do
      let (name, content?) ← other.readTagged
      match name with
      | "enum" => do return .enum (← Outline.readContent Outline.readString content?)
      | "array" => Outline.readContent (fun _ => Outline.notSingle) none
      | plainName =>
          match plain.lookup plainName with
          | none => .error (.here (.unknownVariant plainName names) .unknown)
          | some type => do
              Outline.readUnit content?
              return type

/-- Reads a default, for which null is a document like any other. -/
def readDefault (o : Outline) : Reading (Option Json) := o.readAny.map some

/-- What the declaration of a field looks like. -/
def FieldEntry.shape : Shape FieldEntry where
  label := "struct FieldDoc"
  start := ⟨"", "", none, none, none, true⟩
  fields :=
    [.required "name" fun o e => do return { e with name := ← o.readString },
      .required "type" fun o e => do return { e with typeText := ← o.readString },
      .defaulted "default" fun o e => do return { e with default? := ← readDefault o },
      .optional "default_factory" fun o e => do
        return { e with factory? := ← o.readOptional (Outline.readChoice collections) },
      .optional "alias" fun o e => do
        return { e with alias? := ← o.readOptional Outline.readString },
      .defaulted "init" fun o e => do return { e with accepted := ← o.readBool }]
where
  /-- The collections by name. -/
  collections : List (String × EmptyCollection) :=
    [("list", .list), ("set", .set), ("dict", .dict)]

/-- What the declaration of a column looks like. -/
def ColumnEntry.shape : Shape ColumnEntry where
  label := "struct ColumnDoc"
  start := ⟨"", .integer, false, none, false, false, none, none⟩
  fields :=
    [.required "name" fun o e => do return { e with name := ← o.readString },
      .required "type" fun o e => do return { e with type := ← ColumnType.ofOutline o },
      .defaulted "nullable" fun o e => do return { e with nullable := ← o.readBool },
      .defaulted "default" fun o e => do return { e with default? := ← readDefault o },
      .defaulted "server_default" fun o e => do return { e with serverDefault := ← o.readBool },
      .defaulted "primary_key" fun o e => do return { e with primaryKey := ← o.readBool },
      .optional "autoincrement" fun o e => do
        return { e with autoincrement? := ← o.readOptional Outline.readBool },
      .optional "foreign_key" fun o e => do
        return { e with foreignKey? := ← o.readOptional Outline.readString }]

/-- What the declaration of a relationship looks like. -/
def Relationship.shape : Shape Relationship where
  label := "struct RelationshipDoc"
  start := ⟨"", "", .single, none⟩
  fields :=
    [.required "name" fun o e => do return { e with name := ← o.readString },
      .required "target" fun o e => do return { e with target := ← o.readString },
      .defaulted "collection" fun o e => do
        return { e with multiplicity := ← o.readChoice multiplicities },
      .optional "nullable" fun o e => do
        return { e with nullable? := ← o.readOptional Outline.readBool }]
where
  /-- The multiplicities by name. -/
  multiplicities : List (String × Multiplicity) :=
    [("single", .single), ("list", .list), ("set", .set)]

/-! ## Classes -/

/-- Reads a list of records from memory. -/
def readRecords {α : Type} (s : Shape α) : Outline → Reading (List α) :=
  Outline.readList (s.read .memory)

/-- The name of a declared class. -/
def RecordEntry.nameField : Field RecordEntry :=
  .required "name" fun o e => do return { e with name := ← o.readString }

/-- The fields of a declared class. -/
def RecordEntry.fieldsField : Field RecordEntry :=
  .required "fields" fun o e => do return { e with fields := ← readRecords FieldEntry.shape o }

/-- What the declaration of a dataclass looks like. -/
def RecordEntry.dataclassShape : Shape RecordEntry where
  label := "struct variant ClassDoc::Dataclass"
  start := ⟨"", [], false⟩
  fields := [nameField, fieldsField]

/-- What the declaration of a model looks like. -/
def RecordEntry.modelShape : Shape RecordEntry where
  label := "struct variant ClassDoc::Model"
  start := ⟨"", [], false⟩
  fields :=
    [nameField, fieldsField,
      .defaulted "populate_by_name" fun o e => do
        return { e with populateByName := ← o.readBool }]

/-- What the declaration of a row class looks like. -/
def RowEntry.shape : Shape RowEntry where
  label := "struct variant ClassDoc::Orm"
  start := ⟨"", [], []⟩
  fields :=
    [.required "name" fun o e => do return { e with name := ← o.readString },
      .defaulted "columns" fun o e => do
        return { e with columns := ← readRecords ColumnEntry.shape o },
      .defaulted "relationships" fun o e => do
        return { e with relationships := ← readRecords Relationship.shape o }]

namespace ClassEntry

/-- The flavors by name. -/
def kinds : List (String × Flavor) :=
  [("dataclass", .dataclass), ("model", .model), ("orm", .orm)]

/-- Reads the declaration of a class of a known flavor from memory. -/
def ofFlavor (flavor : Flavor) (o : Outline) : Reading ClassEntry :=
  match flavor with
  | .dataclass => do return .dataclass (← RecordEntry.dataclassShape.read .memory o)
  | .model => do return .model (← RecordEntry.modelShape.read .memory o)
  | .orm => do return .orm (← RowEntry.shape.read .memory o)

/-- The flavor among the members of a declaration, and the other members. -/
def splitKind (kind? : Option Flavor) : Members → Reading (Flavor × Members)
  | .close stop =>
      match kind? with
      | some kind => .ok (kind, .close stop)
      | none => .error (.here (.missingField "kind") stop)
  | .broken _ fault => .error ((Misfit.ofFault fault).under .unreadable)
  | .unpaired name _ nameStop fault =>
      if name == "kind" && kind?.isSome then .error (.here (.duplicateField name) nameStop)
      else .error (.ofFault fault)
  | .member name nameEnd nameStop value closing rest =>
      if name == "kind" then
        if kind?.isSome then .error (.here (.duplicateField name) nameStop)
        else do
          let kind ← Reading.part (.name name) closing (value.readName kinds)
          splitKind (some kind) rest
      else
        match value.fault? with
        | some m => .error (m.under (.name name))
        | none => do
            let (kind, others) ← splitKind kind? rest
            return (kind, .member name nameEnd nameStop value closing others)

/-- Reads the declaration of a class: the flavor from the source, everything else from memory. -/
def ofOutline : Outline → Reading ClassEntry
  | .object start members => do
      let (kind, others) ← splitKind none members
      Reading.unplaced (ofFlavor kind (.object start others))
  | .array start items =>
      match items with
      | .close stop => .error (.here (.missingField "kind") stop)
      | .broken fault => .error (.ofFault fault)
      | .item value closing _ rest => do
          let kind ← Reading.part (.position 0) closing (value.readName kinds)
          match Outline.itemsFault? 1 rest with
          | some m => .error m
          | none => Reading.unplaced (ofFlavor kind (.array start rest))
  | other => other.wrongType "internally tagged enum ClassDoc"

end ClassEntry

/-! ## Mappings -/

namespace OverrideEntry

/-- The overrides that need nothing but a name; the last two are older spellings. -/
def plain : List (String × OverrideEntry) :=
  [("ignore", .ignore), ("init_with_default", .initWithDefault), ("USE_DEFAULT", .ignore),
    ("IGNORE_MISSING_MAPPING", .ignore)]

/-- Reads the name of a source field, or null where it has the name of the target field. -/
def readFieldName : Outline → Reading (Option String) := Outline.readOptional Outline.readString

/-- The override of a name, with what stands beside the name. -/
def ofContent (name : String) (content? : Option Outline) : Reading OverrideEntry :=
  match name with
  | "source" => do return .source (← Outline.readContent Outline.readString content?)
  | "from_extra" => do return .fromExtra (← Outline.readContent Outline.readString content?)
  | "constant" => do return .constant (← Outline.readContent Outline.readAny content?)
  | "assume_not_none" => do
      return .assumeNotNone (← Outline.readContent readFieldName content?)
  | "update_only_if_set" => do
      return .updateOnlyIfSet (← Outline.readContent readFieldName content?)
  | plainName => do
      let override ← Outline.chosen plain plainName .unknown
      match content? with
      | none => return override
      | some content => do
          content.readNull
          return override

/-- Reads an override: one of the kinds or, if it is none of them, the name of a source field. -/
def ofOutline (o : Outline) : Reading OverrideEntry :=
  match o.fault? with
  | some m => .error m
  | none =>
      match o.readTagged >>= fun (name, content?) => ofContent name content?, o with
      | .ok override, _ => .ok override
      | .error _, .scalar (.string name) _ _ => .ok (.source name)
      | .error _, _ => .error (.here (.noVariant "untagged enum OverrideDoc") .unknown)

end OverrideEntry

/-- The modes by name. -/
def Mode.names : List (String × Mode) :=
  [("create", .create), ("update", .update), ("create_and_update", .createAndUpdate)]

/-- What a mapping looks like. -/
def MappingEntry.shape : Shape MappingEntry where
  label := "struct MappingDoc"
  start := ⟨"", "", .createAndUpdate, []⟩
  fields :=
    [.required "source" fun o e => do return { e with source := ← o.readString },
      .required "target" fun o e => do return { e with target := ← o.readString },
      .defaulted "mode" fun o e => do
        return { e with mode := ← o.readChoiceFromSource Mode.names },
      .defaulted "overrides" fun o e => do
        return { e with overrides := ← o.readMap OverrideEntry.ofOutline }]

/-- What a mapping of enums looks like. -/
def EnumMappingEntry.shape : Shape EnumMappingEntry where
  label := "struct EnumMappingDoc"
  start := ⟨"", "", []⟩
  fields :=
    [.required "source" fun o e => do return { e with source := ← o.readString },
      .required "target" fun o e => do return { e with target := ← o.readString },
      .defaulted "overrides" fun o e => do
        return { e with overrides := ← o.readMap Outline.readString }]

/-! ## Schemas -/

/-- What the declaration of an enum looks like. -/
def EnumEntry.shape : Shape EnumEntry where
  label := "struct EnumDoc"
  start := ⟨"", []⟩
  fields :=
    [.required "name" fun o e => do return { e with name := ← o.readString },
      .required "members" fun o e => do
        return { e with members := ← o.readList Outline.readString }]

namespace Schema

/-- What a schema looks like. -/
def shape : Shape Schema where
  label := "struct SchemaDoc"
  start := empty
  fields :=
    [.defaulted "enums" fun o s => do
        return { s with enums := ← o.readList (EnumEntry.shape.read .source) },
      .defaulted "classes" fun o s => do
        return { s with classes := ← o.readList ClassEntry.ofOutline },
      .defaulted "mappings" fun o s => do
        return { s with mappings := ← o.readList (MappingEntry.shape.read .source) },
      .defaulted "enum_mappings" fun o s => do
        return { s with enumMappings := ← o.readList (EnumMappingEntry.shape.read .source) }]

/-- Reads a schema. -/
def ofOutline (o : Outline) : Except Error Schema :=
  match shape.read .source o with
  | .ok schema => .ok schema
  | .error m => .error m.toError

/-- The schema that a text starts with; what follows it is not looked at. -/
def ofText (text : String) : Except Error Schema := ofOutline (Outline.ofText text).1

/-- The schema that a document describes. -/
def ofJson (document : Json) : Except Error Schema := ofOutline (.ofJson document)

end Schema

end ObjectMapping
