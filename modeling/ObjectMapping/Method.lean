import ObjectMapping.Code.Printer
import ObjectMapping.Conversion
import ObjectMapping.Plan

/-! # Mapping methods

A plan becomes a method: the code that carries it out and the factories that the code calls. A
create method collects the arguments of the constructor first, constructs the object, and assigns
the fields that the constructor does not accept. An update method assigns field by field, and
changes nested objects in place where it can.

* `MappingMethod.assemble` makes the method for a plan, or tells which field cannot be converted. -/

namespace ObjectMapping

/-- The code of a mapping between two classes. -/
structure MappingMethod where
  source : ClassHandle
  target : Class
  direction : Direction
  function : Function
  factories : List Factory

/-- The text of a method. -/
def MappingMethod.text (m : MappingMethod) : String := m.function.text

namespace Plan

variable (p : Plan) (methods : MethodTable)

/-- The factories of the plan, in the order of their fields. -/
def factories : List Factory :=
  p.entries.filterMap fun entry =>
    match entry.2 with
    | .factory f => some f
    | _ => none

/-- The error for a field without a conversion. -/
def fieldError (field goal : FieldDescriptor) : Error :=
  .fieldType field.text p.source.name goal.text p.target.name p.direction

/-- Whether the target class wants the assignment skipped unless the source field was assigned
explicitly. -/
def hookApplies (field goal : FieldDescriptor) : Bool :=
  p.target.hook == .onlyIfSet && p.source.flavor == .model && field.type.isOptional &&
    goal.type.isOptional && !goal.required

/-- An assignment under the condition that the target class asks for. -/
def hooked (field goal : FieldDescriptor) (s : Stmt) : Stmt :=
  if p.hookApplies field goal then .when (.isSet .self field.name) [s] else s

/-- An assignment that is skipped if its value is absent. -/
def guarded (onlyIfSet : Bool) (value : Expr) (s : Stmt) : Stmt :=
  if onlyIfSet then .when value.isNotNone [s] else s

/-- The call of the factory in a slot. -/
def factoryCall (slot : Nat) : Factory → Expr
  | .constant _ => .factory slot []
  | .ofSource _ => .factory slot [.self]

/-- The message for a key that the caller's values lack. -/
def missingExtra (key : String) : String :=
  s!"When mapping an object of '{p.source.name}' to '{p.target.name}' " ++
    s!"the item '{key}' needs to be provided in the `extra` dictionary"

/-- The assignment of one of the caller's values. -/
def extraStmts (key : String) (place : Expr) : List Stmt :=
  [.when (.compare (.str key) .notIn .extra) [.raise (p.missingExtra key)],
    .assign place (.index .extra (.str key))]

/-- The place of a target field in a create method: an argument, or a field of the new object. -/
def createPlace (goal : FieldDescriptor) : Expr :=
  if goal.accepted then .index .arguments (.str goal.param) else .attr .created goal.name

/-- The place of a target field in an update method. -/
def updatePlace (goal : FieldDescriptor) : Expr := .attr .target goal.name

/-- The assignment of a source field to a target field of a new object. -/
def createField (goal field : FieldDescriptor) (type : FieldType) : Except Error Stmt :=
  match Conversion.express methods type (.attr .self field.name) 0 goal.type with
  | .ok value => .ok (.assign (createPlace goal) value)
  | .error _ => .error (p.fieldError field goal)

/-- The change of a target field by a source field, in place if that is possible. -/
def updateField (goal field : FieldDescriptor) (type : FieldType) : Except Error Stmt :=
  let value := Expr.attr .self field.name
  let place := updatePlace goal
  match Conversion.amend methods value place 0 type goal.type with
  | .ok change => .ok change
  | .error _ =>
      match Conversion.express methods type value 0 goal.type with
      | .ok created => .ok (.assign place created)
      | .error _ => .error (p.fieldError field goal)

/-- The statements for one target field, with the next free slot for a factory. -/
def fieldStmts (goal : FieldDescriptor) (slot : Nat) :
    Resolution → Except Error (List Stmt)
  | .default => .ok []
  | .field field type onlyIfSet => do
      let s ← match p.direction with
        | .create => p.createField methods goal field type
        | .update => p.updateField methods goal field type
      return [guarded onlyIfSet (.attr .self field.name) (p.hooked field goal s)]
  | .factory f => .ok [.assign (place goal) (factoryCall slot f)]
  | .fromExtra key => .ok (p.extraStmts key (place goal))
where
  /-- The place of a target field. -/
  place (goal : FieldDescriptor) : Expr :=
    match p.direction with
    | .create => createPlace goal
    | .update => updatePlace goal

/-- The statements for target fields, each with its field, from a slot for factories on. -/
def allStmts : Nat → List (String × Resolution) →
    Except Error (List (FieldDescriptor × List Stmt))
  | _, [] => .ok []
  | slot, (name, resolution) :: rest => do
      match p.target.field? name with
      | none => allStmts slot rest
      | some goal =>
          let stmts ← p.fieldStmts methods goal slot resolution
          let next := match resolution with
            | .factory _ => slot + 1
            | _ => slot
          return (goal, stmts) :: (← allStmts next rest)

/-- The body of a create method, from the statements for its fields. -/
def createBody (stmts : List (FieldDescriptor × List Stmt)) : List Stmt :=
  let before := (stmts.filter (·.1.accepted)).flatMap (·.2)
  let after := (stmts.filter (!·.1.accepted)).flatMap (·.2)
  let construct := Expr.construct p.target.handle p.target.strategy
  [.assign .arguments (.const (.dict []))] ++ before ++
    if after.isEmpty then [.result construct]
    else [.assign .created construct] ++ after ++ [.result .created]

/-- The body of an update method, from the statements for its fields. -/
def updateBody (stmts : List (FieldDescriptor × List Stmt)) : List Stmt :=
  let body := stmts.flatMap (·.2)
  if body.isEmpty then [.pass] else body

/-- The function that carries a plan out. -/
def function : Except Error Function := do
  let stmts ← p.allStmts methods 0 p.entries
  match p.direction with
  | .create =>
      return ⟨"convert", [⟨"self", none⟩, ⟨"extra", some "dict"⟩], "'" ++ p.target.name ++ "'",
        p.createBody stmts⟩
  | .update =>
      return ⟨"update", [⟨"self", none⟩, ⟨"target", some p.target.name⟩, ⟨"extra", some "dict"⟩],
        "None", updateBody stmts⟩

end Plan

/-- The method for a plan whose target is described by `p.target`. -/
def MappingMethod.assemble (p : Plan) (target : Class) (methods : MethodTable) :
    Except Error MappingMethod := do
  return ⟨p.source.handle, target, p.direction, ← p.function methods, p.factories⟩

end ObjectMapping
