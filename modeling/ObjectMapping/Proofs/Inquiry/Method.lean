import ObjectMapping.Proofs.Code.Links
import ObjectMapping.Proofs.Inquiry.Conversion
import ObjectMapping.Proofs.Plan.Building

/-! # Methods that are made while mappings are being registered

A method is made field by field, and for each field the registry is asked for the methods that its
conversion calls. What is made is linked to mappings that are registered by the end, whatever was
registered between two questions.

* `Plan.askFieldStmts`, `Plan.askFunction`, `MappingMethod.askAssemble`: the steps of
  `MappingMethod.assemble` as inquiries; with answers from one registry they are these steps
  (**`MappingMethod.answeredBy_askAssemble`**).
* `Plan.Typed`: the source fields of a plan are read as their declared types allow.
* **`MappingMethod.linked_of_leads`** — all calls in a method that was made are linked. -/

namespace ObjectMapping

open Outcome Inquiry Conversion

namespace Plan

variable (p : Plan)

/-- The assignment of a source field to a field of a new object, with questions for methods. -/
def askCreateField (goal field : FieldDescriptor) (type : FieldType) : Inquiry Error Stmt := do
  match ← (askExpress type (.attr .self field.name) 0 goal.type).attempt with
  | .ok value => return .assign (createPlace goal) value
  | .error _ => .failed (p.fieldError field goal)

/-- The change of a target field by a source field, with questions for methods. -/
def askUpdateField (goal field : FieldDescriptor) (type : FieldType) : Inquiry Error Stmt := do
  let value := Expr.attr .self field.name
  let place := updatePlace goal
  match ← (askAmend value place 0 type goal.type).attempt with
  | .ok change => return change
  | .error _ =>
      match ← (askExpress type value 0 goal.type).attempt with
      | .ok created => return .assign place created
      | .error _ => .failed (p.fieldError field goal)

/-- The statements for one target field, with questions for methods. -/
def askFieldStmts (goal : FieldDescriptor) (slot : Nat) : Resolution → Inquiry Error (List Stmt)
  | .default => pure []
  | .field field type onlyIfSet => do
      let s ← match p.direction with
        | .create => p.askCreateField goal field type
        | .update => p.askUpdateField goal field type
      return [guarded onlyIfSet (.attr .self field.name) (p.hooked field goal s)]
  | .factory f => pure [.assign (fieldStmts.place p goal) (factoryCall slot f)]
  | .fromExtra key => pure (p.extraStmts key (fieldStmts.place p goal))

/-- The statements for target fields, with questions for methods. -/
def askAllStmts : Nat → List (String × Resolution) →
    Inquiry Error (List (FieldDescriptor × List Stmt))
  | _, [] => pure []
  | slot, (name, resolution) :: rest => do
      match p.target.field? name with
      | none => askAllStmts slot rest
      | some goal =>
          let stmts ← p.askFieldStmts goal slot resolution
          let next := match resolution with
            | .factory _ => slot + 1
            | _ => slot
          return (goal, stmts) :: (← askAllStmts next rest)

/-- The function that carries a plan out, with questions for methods. -/
def askFunction : Inquiry Error Function := do
  let stmts ← p.askAllStmts 0 p.entries
  match p.direction with
  | .create =>
      return ⟨"convert", [⟨"self", none⟩, ⟨"extra", some "dict"⟩], "'" ++ p.target.name ++ "'",
        p.createBody stmts⟩
  | .update =>
      return ⟨"update", [⟨"self", none⟩, ⟨"target", some p.target.name⟩, ⟨"extra", some "dict"⟩],
        "None", updateBody stmts⟩

end Plan

/-- The method for a plan, with questions for the methods that it calls. -/
def MappingMethod.askAssemble (p : Plan) (target : Class) : Inquiry Error MappingMethod := do
  return ⟨p.source.handle, target, p.direction, ← p.askFunction, p.factories⟩

/-! ## Answers from one registry -/

section Answers

variable {present : MappingKey → Bool} (p : Plan)

namespace Plan

/-- Answered at once, the questions for a field of a new object give its statement. -/
theorem answeredBy_askCreateField (goal field : FieldDescriptor) (type : FieldType) :
    (p.askCreateField goal field type).answeredBy present
      = p.createField (tableOf present) goal field type := by
  rw [askCreateField, createField, answeredBy_bind, answeredBy_attempt, ok_bind,
    answeredBy_askExpress]
  cases express (tableOf present) type (.attr .self field.name) 0 goal.type <;> rfl

/-- Answered at once, the questions for a field that is changed give its statement. -/
theorem answeredBy_askUpdateField (goal field : FieldDescriptor) (type : FieldType) :
    (p.askUpdateField goal field type).answeredBy present
      = p.updateField (tableOf present) goal field type := by
  rw [askUpdateField, updateField, answeredBy_bind, answeredBy_attempt, ok_bind,
    answeredBy_askAmend]
  cases amend (tableOf present) (.attr .self field.name) (updatePlace goal) 0 type goal.type with
  | ok change => rfl
  | error missing =>
    dsimp only
    rw [answeredBy_bind, answeredBy_attempt, ok_bind, answeredBy_askExpress]
    cases express (tableOf present) type (.attr .self field.name) 0 goal.type <;> rfl

/-- Answered at once, the questions for a resolution give its statements. -/
theorem answeredBy_askFieldStmts (goal : FieldDescriptor) (slot : Nat) (resolution : Resolution) :
    (p.askFieldStmts goal slot resolution).answeredBy present
      = p.fieldStmts (tableOf present) goal slot resolution := by
  cases resolution with
  | field field type onlyIfSet =>
    rw [askFieldStmts, fieldStmts]
    cases p.direction with
    | create =>
      dsimp only
      rw [answeredBy_bind, answeredBy_askCreateField]
      rfl
    | update =>
      dsimp only
      rw [answeredBy_bind, answeredBy_askUpdateField]
      rfl
  | _ => rfl

/-- Answered at once, the questions for all fields give the statements for all of them. -/
theorem answeredBy_askAllStmts (slot : Nat) (entries : List (String × Resolution)) :
    (p.askAllStmts slot entries).answeredBy present
      = p.allStmts (tableOf present) slot entries := by
  induction entries generalizing slot with
  | nil => rfl
  | cons entry rest ih =>
    obtain ⟨name, resolution⟩ := entry
    unfold askAllStmts allStmts
    cases p.target.field? name with
    | none => exact ih slot
    | some goal =>
      dsimp only
      rw [answeredBy_bind, answeredBy_askFieldStmts]
      refine congrArg (Bind.bind _) (funext fun stmts => ?_)
      rw [answeredBy_bind, ih]
      rfl

/-- Answered at once, the questions for a function give the function. -/
theorem answeredBy_askFunction :
    p.askFunction.answeredBy present = p.function (tableOf present) := by
  rw [askFunction, function, answeredBy_bind, answeredBy_askAllStmts]
  refine congrArg (Bind.bind _) (funext fun stmts => ?_)
  cases p.direction <;> rfl

end Plan

/-- **With answers from one registry**, the method is the one by its table. -/
theorem MappingMethod.answeredBy_askAssemble (target : Class) :
    (MappingMethod.askAssemble p target).answeredBy present
      = MappingMethod.assemble p target (tableOf present) := by
  rw [MappingMethod.askAssemble, MappingMethod.assemble, answeredBy_bind,
    p.answeredBy_askFunction]
  rfl

end Answers

/-! ## Calls of methods -/

namespace Plan

variable {p : Plan} {d : Descriptor} {known : MappingKey → Bool}

/-- The source fields of a plan have declared types, as which they are read, or as what such a type is
if it is not absent. -/
def Typed (p : Plan) (d : Descriptor) : Prop :=
  ∀ name field type onlyIfSet, (name, .field field type onlyIfSet) ∈ p.entries →
    (Expr.attr .self field.name).HasType d [] type

/-- A field of the source contains no calls. -/
theorem linked_sourceField (name : String) :
    (Expr.attr .self name).Linked d known [] :=
  .attr (.var _ _)

/-- The place of a field in a new object contains no calls. -/
theorem linked_createPlace (goal : FieldDescriptor) : (createPlace goal).Linked d known [] := by
  rw [createPlace]
  split
  · exact .index (.var _ _) (.const _ _)
  · exact .attr (.var _ _)

/-- The place of a field in a target contains no calls. -/
theorem linked_updatePlace (goal : FieldDescriptor) : (updatePlace goal).Linked d known [] :=
  .attr (.var _ _)

/-- The place of a field contains no calls in either direction. -/
theorem linked_place (p : Plan) (goal : FieldDescriptor) :
    (fieldStmts.place p goal).Linked d known [] := by
  rw [fieldStmts.place]
  cases p.direction with
  | create => exact linked_createPlace goal
  | update => exact linked_updatePlace goal

/-- A condition that holds no calls keeps a statement linked. -/
theorem linked_when {condition : Expr} {s : Stmt} (hcondition : condition.Linked d known [])
    (h : s.Linked d known) : (Stmt.when condition [s]).Linked d known := by
  refine .branch hcondition ?_ nofun
  intro s' hs'
  exact List.mem_singleton.mp hs' ▸ h

/-- What guards a statement adds no calls to it. -/
theorem linked_guarded (goal field : FieldDescriptor) (onlyIfSet : Bool) {s : Stmt}
    (h : s.Linked d known) :
    (guarded onlyIfSet (.attr .self field.name) (p.hooked field goal s)).Linked d known := by
  have hhooked : (p.hooked field goal s).Linked d known := by
    rw [hooked]
    split
    · exact linked_when (.isSet (.var _ _)) h
    · exact h
  rw [guarded]
  split
  · exact linked_when (.compare (linked_sourceField _) (.const _ _)) hhooked
  · exact hhooked

/-- The calls in the statement for a field of a new object are linked. -/
theorem linked_of_askCreateField {goal field : FieldDescriptor} {type : FieldType} {s : Stmt}
    (htype : (Expr.attr .self field.name).HasType d [] type)
    (h : (p.askCreateField goal field type).Leads known (.ok s)) : s.Linked d known := by
  obtain ⟨value?, hvalue, hs⟩ := h.of_bind
  cases value? with
  | error e => cases hs
  | ok value =>
    obtain rfl := hs.of_pure
    exact .assign (linked_createPlace goal)
      (linked_of_express (express_of_leads hvalue.of_attempt) htype (linked_sourceField _))

/-- The calls in the statement for a field that is changed are linked. -/
theorem linked_of_askUpdateField {goal field : FieldDescriptor} {type : FieldType} {s : Stmt}
    (htype : (Expr.attr .self field.name).HasType d [] type)
    (h : (p.askUpdateField goal field type).Leads known (.ok s)) : s.Linked d known := by
  obtain ⟨change?, hchange, hs⟩ := h.of_bind
  cases change? with
  | ok change =>
    obtain rfl := hs.of_pure
    exact linked_of_amended (amended_of_leads hchange.of_attempt) htype (linked_sourceField _)
      (linked_updatePlace goal)
  | error e =>
    obtain ⟨created?, hcreated, hs⟩ := hs.of_bind
    cases created? with
    | error e => cases hs
    | ok created =>
      obtain rfl := hs.of_pure
      exact .assign (linked_updatePlace goal)
        (linked_of_express (express_of_leads hcreated.of_attempt) htype (linked_sourceField _))

/-- **The statements for a field are linked**, whatever is registered meanwhile. -/
theorem linked_of_askFieldStmts {goal : FieldDescriptor} {slot : Nat} {resolution : Resolution}
    {stmts : List Stmt}
    (htyped : ∀ field type onlyIfSet, resolution = .field field type onlyIfSet →
      (Expr.attr .self field.name).HasType d [] type)
    (h : (p.askFieldStmts goal slot resolution).Leads known (.ok stmts)) :
    ∀ s ∈ stmts, s.Linked d known := by
  cases resolution with
  | default =>
    obtain rfl := h.of_pure
    exact nofun
  | field field type onlyIfSet =>
    have htype := htyped field type onlyIfSet rfl
    rw [askFieldStmts] at h
    intro s hs
    cases hdirection : p.direction with
    | create =>
      rw [hdirection] at h
      obtain ⟨change, hchange, hstmts⟩ := h.of_bind
      obtain rfl := hstmts.of_pure
      obtain rfl := List.mem_singleton.mp hs
      exact linked_guarded goal field onlyIfSet (linked_of_askCreateField htype hchange)
    | update =>
      rw [hdirection] at h
      obtain ⟨change, hchange, hstmts⟩ := h.of_bind
      obtain rfl := hstmts.of_pure
      obtain rfl := List.mem_singleton.mp hs
      exact linked_guarded goal field onlyIfSet (linked_of_askUpdateField htype hchange)
  | factory f =>
    obtain rfl := h.of_pure
    intro s hs
    obtain rfl := List.mem_singleton.mp hs
    -- a factory is given the source at most
    refine .assign (linked_place p goal) ?_
    cases f with
    | constant value => exact .factory nofun
    | ofSource make =>
      refine .factory fun e he => ?_
      obtain rfl := List.mem_singleton.mp he
      exact .var _ _
  | fromExtra key =>
    obtain rfl := h.of_pure
    intro s hs
    rcases List.mem_pair.mp hs with rfl | rfl
    · exact linked_when (.compare (.const _ _) (.var _ _)) (.raise _)
    · exact .assign (linked_place p goal) (.index (.var _ _) (.const _ _))

/-- The calls in the statements for all fields are linked. -/
theorem linked_of_askAllStmts {slot : Nat} {entries : List (String × Resolution)}
    {groups : List (FieldDescriptor × List Stmt)}
    (htyped : ∀ name field type onlyIfSet, (name, .field field type onlyIfSet) ∈ entries →
      (Expr.attr .self field.name).HasType d [] type)
    (h : (p.askAllStmts slot entries).Leads known (.ok groups)) :
    ∀ group ∈ groups, ∀ s ∈ group.2, s.Linked d known := by
  induction entries generalizing slot groups with
  | nil =>
    obtain rfl := h.of_pure
    exact nofun
  | cons entry rest ih =>
    obtain ⟨name, resolution⟩ := entry
    have hrest := fun other field type onlyIfSet hmem =>
      htyped other field type onlyIfSet (List.mem_cons_of_mem _ hmem)
    unfold askAllStmts at h
    split at h
    · exact ih hrest h
    · obtain ⟨stmts, hstmts, hothers⟩ := h.of_bind
      obtain ⟨others, hgroups, hcons⟩ := hothers.of_bind
      obtain rfl := hcons.of_pure
      intro group hgroup
      rcases List.mem_cons.mp hgroup with rfl | hmem
      · refine linked_of_askFieldStmts ?_ hstmts
        rintro field type onlyIfSet rfl
        exact htyped name field type onlyIfSet List.mem_cons_self
      · exact ih hrest hgroups group hmem

/-- A create method adds no calls to the statements for its fields. -/
theorem linked_createBody {groups : List (FieldDescriptor × List Stmt)}
    (h : ∀ group ∈ groups, ∀ s ∈ group.2, s.Linked d known) :
    ∀ s ∈ p.createBody groups, s.Linked d known := by
  have hfilter : ∀ q : FieldDescriptor × List Stmt → Bool,
      ∀ s ∈ (groups.filter q).flatMap (·.2), s.Linked d known := by
    intro q s hs
    obtain ⟨group, hgroup, hmem⟩ := List.mem_flatMap.mp hs
    exact h group (List.mem_filter.mp hgroup).1 s hmem
  intro s hs
  rw [createBody] at hs
  rcases List.mem_append.mp hs with hbefore | hafter
  · rcases List.mem_append.mp hbefore with hclear | hgiven
    · obtain rfl := List.mem_singleton.mp hclear
      exact .assign (.var _ _) (.const _ _)
    · exact hfilter _ s hgiven
  · split at hafter
    · obtain rfl := List.mem_singleton.mp hafter
      exact .result (.construct _ _ _)
    · rcases List.mem_append.mp hafter with hrest | hresult
      · rcases List.mem_append.mp hrest with hconstruct | hassigned
        · obtain rfl := List.mem_singleton.mp hconstruct
          exact .assign (.var _ _) (.construct _ _ _)
        · exact hfilter _ s hassigned
      · obtain rfl := List.mem_singleton.mp hresult
        exact .result (.var _ _)

/-- An update method adds no calls to the statements for its fields. -/
theorem linked_updateBody {groups : List (FieldDescriptor × List Stmt)}
    (h : ∀ group ∈ groups, ∀ s ∈ group.2, s.Linked d known) :
    ∀ s ∈ updateBody groups, s.Linked d known := by
  intro s hs
  rw [updateBody] at hs
  split at hs
  · obtain rfl := List.mem_singleton.mp hs
    exact .pass
  · obtain ⟨group, hgroup, hmem⟩ := List.mem_flatMap.mp hs
    exact h group hgroup s hmem

/-- A finished plan reads the fields of its source as their declared types allow. -/
theorem typed_of_build {source target : Class} {direction : Direction} {overrides : Overrides}
    (h : build source.describe target.describe direction overrides = .ok p) :
    p.Typed source.describe := by
  obtain ⟨hsource, -, -, hresolved⟩ := build_eq_ok h
  intro name field type onlyIfSet hmem
  obtain ⟨goal, -, -, hresolve⟩ := exists_of_forall₂ hresolved.flip hmem
  rw [hsource] at hresolve
  obtain ⟨found, hfield, hreads⟩ := resolve_eq_field hresolve
  have htype : (Expr.attr .self field.name).HasType source.describe [] field.type := by
    rw [Class.field_name_of_field? hfield]
    exact .field hfield
  rcases hreads with rfl | ⟨rfl, -⟩
  · exact htype
  · -- the type inside an optional one, for a field that is not absent
    generalize field.type = declared at htype
    cases declared with
    | optional inner => exact htype.present
    | _ => exact htype

end Plan

/-- **All calls in a method are linked**, whatever is registered while it is made. -/
theorem MappingMethod.linked_of_leads {p : Plan} {d : Descriptor} {known : MappingKey → Bool}
    {target : Class} {m : MappingMethod} (htyped : p.Typed d)
    (h : (MappingMethod.askAssemble p target).Leads known (.ok m)) :
    ∀ s ∈ m.function.body, s.Linked d known := by
  obtain ⟨function, hfunction, hm⟩ := h.of_bind
  obtain rfl := hm.of_pure
  obtain ⟨groups, hgroups, hbody⟩ := hfunction.of_bind
  have hlinked := Plan.linked_of_askAllStmts htyped hgroups
  cases hdirection : p.direction with
  | create =>
    rw [hdirection] at hbody
    obtain rfl := hbody.of_pure
    exact Plan.linked_createBody hlinked
  | update =>
    rw [hdirection] at hbody
    obtain rfl := hbody.of_pure
    exact Plan.linked_updateBody hlinked

end ObjectMapping
