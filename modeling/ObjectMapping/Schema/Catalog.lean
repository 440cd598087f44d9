import ObjectMapping.Class.Record
import ObjectMapping.Class.Table
import ObjectMapping.Registry
import ObjectMapping.Schema.Basic
import ObjectMapping.Value.Decoding

/-! # Catalogs

A catalog holds the classes and enum classes of a schema and the registry with its mappings. It is
loaded in three steps: every name is declared, so that types may refer to classes further down, then
the classes are defined, and finally the mappings are registered. A mapping that lacks a conversion
is tried again after the others, so it may stand in front of the mappings of the objects inside.

* `Catalog.load` loads a schema.
* `Catalog.classNamed` and `Catalog.enumNamed` look definitions up, `Catalog.decode` reads an object
  and `Catalog.render` writes the methods between two classes. -/

namespace ObjectMapping

/-- The definitions of a schema. -/
structure Catalog where
  names : Namespace
  /-- The number of the next class. -/
  nextId : Nat
  table : ClassTable
  classes : List (String × Class)
  enums : List (String × Enumeration)
  registry : Registry
  /-- The names of the classes of each mapping, in the order of registration. -/
  mappings : List (String × String)

namespace Catalog

/-- The catalog without definitions. -/
def empty (registry : Registry) (firstId : Nat) : Catalog :=
  ⟨.initial, firstId, .empty, [], [], registry, []⟩

/-- The class of a name. -/
def classNamed (c : Catalog) (name : String) : Except Error Class :=
  match c.classes.lookup name with
  | some found => .ok found
  | none => .error (.schema (.unknownClass name))

/-- The enum class of a name. -/
def enumNamed (c : Catalog) (name : String) : Except Error Enumeration :=
  match c.enums.lookup name with
  | some found => .ok found
  | none => .error (.schema (.unknownEnum name))

/-! ## Definitions -/

/-- Declares a class; `known` are the names declared before. -/
def declare (c : Catalog) (known : List String) (name : String) :
    Except Error (ClassHandle × Catalog) :=
  if known.contains name then .error (.schema (.declaredTwice name))
  else
    let (handle, names) := c.names.declare c.nextId name
    .ok (handle, { c with names, nextId := c.nextId + 1 })

/-- Defines enum classes. -/
def defineEnums (c : Catalog) (known : List String) : List EnumEntry → Except Error Catalog
  | [] => .ok c
  | entry :: rest => do
      let (handle, c) ← c.declare known entry.name
      let e : Enumeration := ⟨handle, entry.members⟩
      defineEnums { c with table := c.table.insertEnum e, enums := c.enums ++ [(entry.name, e)] }
        (entry.name :: known) rest

/-- Declares classes, and returns them with their handles. -/
def declareClasses (c : Catalog) (known : List String) :
    List ClassEntry → Except Error (List (ClassEntry × ClassHandle) × Catalog)
  | [] => .ok ([], c)
  | entry :: rest => do
      let (handle, c) ← c.declare known entry.name
      let (others, c) ← c.declareClasses (entry.name :: known) rest
      return ((entry, handle) :: others, c)

/-- The default of a field. -/
def fieldDefault (c : Catalog) (entry : FieldEntry) : Except Error (Option Value) :=
  match entry.default?, entry.factory? with
  | some _, some _ => .error (.schema (.twoDefaults entry.name))
  | some document, none => do
      let type ← FieldType.parse c.names entry.typeText
      return some (← Value.decode c.table type document)
  | none, some collection => .ok (some collection.value)
  | none, none => .ok none

/-- The declaration of a field, its default included. -/
def fieldDeclaration (c : Catalog) (entry : FieldEntry) : Except Error FieldDeclaration := do
  return ⟨entry.name, entry.typeText, ← c.fieldDefault entry, entry.alias?, entry.accepted⟩

/-- The declaration of a field of a dataclass, which has no alias. -/
def dataclassField (c : Catalog) (entry : FieldEntry) : Except Error FieldDeclaration :=
  if entry.alias?.isSome then .error (.schema (.aliasedField entry.name))
  else c.fieldDeclaration entry

/-- The declaration of a field of a model, which the constructor always accepts. -/
def modelField (c : Catalog) (entry : FieldEntry) : Except Error FieldDeclaration :=
  if !entry.accepted then .error (.schema (.excludedField entry.name))
  else c.fieldDeclaration entry

/-- The default of a column. -/
def columnDefault (c : Catalog) (entry : ColumnEntry) : Except Error (Option Value) :=
  match entry.default? with
  | some document => do
      let type ← entry.type.fieldType c.names
      return some (← Value.decode c.table type document)
  | none => .ok none

/-- A column. -/
def column (c : Catalog) (entry : ColumnEntry) : Except Error Column := do
  return ⟨entry.name, entry.type, entry.nullable, ← c.columnDefault entry, entry.serverDefault,
    entry.primaryKey, entry.autoincrement?, entry.foreignKey?⟩

/-- The definition of a declared class. -/
def classOf (c : Catalog) (handle : ClassHandle) : ClassEntry → Except Error Class
  | .dataclass entry => do
      Class.dataclass c.names handle (← entry.fields.mapM c.dataclassField)
  | .model entry => do
      Class.model c.names handle (← entry.fields.mapM c.modelField) entry.populateByName []
  | .orm entry => do
      Class.orm c.names handle (← entry.columns.mapM c.column) entry.relationships

/-- Defines declared classes. -/
def defineClasses (c : Catalog) : List (ClassEntry × ClassHandle) → Except Error Catalog
  | [] => .ok c
  | (entry, handle) :: rest => do
      let found ← c.classOf handle entry
      defineClasses { c with
        table := c.table.insertClass found, classes := c.classes ++ [(entry.name, found)] } rest

/-! ## Mappings -/

/-- Registers mappings between enum classes. -/
def registerEnums (c : Catalog) : List EnumMappingEntry → Except Error Catalog
  | [] => .ok c
  | entry :: rest => do
      let source ← c.enumNamed entry.source
      let target ← c.enumNamed entry.target
      let registry ← c.registry.registerEnum source target entry.overrides
      registerEnums { c with registry } rest

/-- The type that a constant for a field of a class is read as. -/
def constantType (target : Class) (field : String) : FieldType :=
  match target.slots.find? fun slot => slot.name == field with
  | some slot => slot.type
  | none => .any

/-- What a mapping asks for a field of its target. -/
def override (c : Catalog) (target : Class) (field : String) :
    OverrideEntry → Except Error Override
  | .ignore => .ok (.ignore .ignore)
  | .initWithDefault => .ok (.ignore .initWithDefault)
  | .source name => .ok (.source name)
  | .fromExtra key => .ok (.fromExtra key)
  | .constant document => do
      return .factory (.constant (← Value.decode c.table (constantType target field) document))
  | .assumeNotNone name? => .ok (.assumeNotNone name?)
  | .updateOnlyIfSet name? => .ok (.updateOnlyIfSet name?)

/-- Registers a mapping. -/
def register (c : Catalog) (entry : MappingEntry) : Except Error Catalog := do
  let source ← c.classNamed entry.source
  let target ← c.classNamed entry.target
  let overrides ← entry.overrides.mapM fun (field, wanted) => do
    return (field, ← c.override target field wanted)
  let registry ← c.registry.register source target overrides entry.mode
  return { c with registry, mappings := c.mappings ++ [(entry.source, entry.target)] }

/-- Registers mappings one after another, and returns those that lack a conversion with their
errors. -/
def registerRound (c : Catalog) :
    List MappingEntry → Except Error (Catalog × List (MappingEntry × Error))
  | [] => .ok (c, [])
  | entry :: rest =>
      match c.register entry with
      | .ok c => c.registerRound rest
      | .error (.fieldType field source targetField target direction) => do
          let (c, deferred) ← c.registerRound rest
          return (c, (entry, .fieldType field source targetField target direction) :: deferred)
      | .error e => .error e

/-- Registers mappings in rounds, as long as each round registers one. -/
def registerAll (c : Catalog) (pending : List MappingEntry) : Except Error Catalog := do
  let (c, deferred) ← c.registerRound pending
  match deferred.getLast? with
  | none => return c
  | some (_, e) =>
      if deferred.length < pending.length then c.registerAll (deferred.map (·.1))
      else .error e
termination_by pending.length
decreasing_by simpa using by assumption

/-- The catalog of a schema, whose mappings join those of a registry. -/
def load (schema : Schema) (registry : Registry) (firstId : Nat) : Except Error Catalog := do
  let c ← (empty registry firstId).defineEnums [] schema.enums
  let (declared, c) ← c.declareClasses (c.enums.map (·.1)) schema.classes
  let c ← c.defineClasses declared
  let c ← c.registerEnums schema.enumMappings
  c.registerAll schema.mappings

/-! ## Uses -/

/-- The object of a class that a document writes. -/
def decode (c : Catalog) (name : String) (document : Json) : Except Error Value := do
  Value.decodeObject c.table (← c.classNamed name) document

/-- The registered methods between two classes, in the order of their directions. -/
def methods (c : Catalog) (source target : Class) : List MappingMethod :=
  [Direction.create, Direction.update].filterMap fun direction =>
    match c.registry.lookup? (.of source.handle target.handle direction) with
    | some (.method m) => some m
    | _ => none

/-- The code of the registered methods between two classes. -/
def render (c : Catalog) (sourceName targetName : String) : Except Error String := do
  let source ← c.classNamed sourceName
  let target ← c.classNamed targetName
  let found := c.methods source target
  if found.isEmpty then .error (.noMappingRegistered source.name target.name)
  else return Function.moduleText (found.map (·.function))

end Catalog

end ObjectMapping
