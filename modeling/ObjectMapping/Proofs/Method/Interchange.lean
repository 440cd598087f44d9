import ObjectMapping.Method
import ObjectMapping.Proofs.Conversion.Interchange
import ObjectMapping.Proofs.Conversion.Preorder
import ObjectMapping.Proofs.Plan.Interchange

/-! # Methods for fields whose types are written in another way

The code of a method is put together from conversions, places and conditions. None of them depends
on the way in which a type is written, so the same plan for classes whose fields have interchangeable
types becomes the same function, or there is none in both cases.

* **`Plan.Retyped.function`** — such plans are carried out by the same function.
* **`interchangeable_types_synthesize_alike`** — conversions, changes in place and whole mappings are
  the same ones for interchangeable types. -/

namespace ObjectMapping

open Outcome

variable {names : Nat → String} {methods : MethodTable}

namespace Plan

variable {p p' : Plan} {goal goal' field field' : FieldDescriptor} {type type' : FieldType}

/-! ## One field -/

/-- The place of a field in a create method depends on its names only. -/
theorem createPlace_retyped (hgoal : goal.Retyped names goal') :
    createPlace goal' = createPlace goal := by
  rw [createPlace, createPlace, hgoal.accepted_eq, hgoal.param_eq, hgoal.name_eq]

/-- So does its place in an update method. -/
theorem updatePlace_retyped (hgoal : goal.Retyped names goal') :
    updatePlace goal' = updatePlace goal := by
  rw [updatePlace, updatePlace, hgoal.name_eq]

/-- A field of a new object is assigned the same converted value. -/
theorem createField_retyped (hfield : field.Retyped names field')
    (hgoal : goal.Retyped names goal') (htype : type.Interchangeable names type') :
    Parallel (· = ·) (p.createField methods goal field type)
      (p'.createField methods goal' field' type') := by
  rw [createField, createField, hfield.name_eq, createPlace_retyped hgoal]
  have hvalue := Conversion.express_interchangeable methods htype hgoal.type
    (.attr .self field.name) 0
  rcases hvalue.eq_ok_or_error with ⟨value, hleft, hright⟩ | ⟨_, _, hleft, hright⟩
  · rw [hleft, hright]
    rfl
  · rw [hleft, hright]
    trivial

/-- A field of an existing object is changed in place alike, or assigned the same value. -/
theorem updateField_retyped (hfield : field.Retyped names field')
    (hgoal : goal.Retyped names goal') (htype : type.Interchangeable names type') :
    Parallel (· = ·) (p.updateField methods goal field type)
      (p'.updateField methods goal' field' type') := by
  rw [updateField, updateField, hfield.name_eq, updatePlace_retyped hgoal]
  have hchange := Conversion.amend_interchangeable methods htype hgoal.type
    (.attr .self field.name) (updatePlace goal) 0
  have hvalue := Conversion.express_interchangeable methods htype hgoal.type
    (.attr .self field.name) 0
  rcases hchange.eq_ok_or_error with ⟨change, hleft, hright⟩ | ⟨_, _, hleft, hright⟩
  · rw [hleft, hright]
    rfl
  rw [hleft, hright]
  rcases hvalue.eq_ok_or_error with ⟨value, hleft, hright⟩ | ⟨_, _, hleft, hright⟩
  · rw [hleft, hright]
    rfl
  · rw [hleft, hright]
    trivial

namespace Retyped

variable (h : p.Retyped names p')

include h

/-- The target class asks for the same condition. -/
theorem hooked_eq (hfield : field.Retyped names field') (hgoal : goal.Retyped names goal')
    (s : Stmt) : p'.hooked field' goal' s = p.hooked field goal s := by
  have happlies : p'.hookApplies field' goal' = p.hookApplies field goal := by
    rw [hookApplies, hookApplies, h.target.hook_eq, h.source.flavor_eq, hfield.type.isOptional_eq,
      hgoal.type.isOptional_eq, hgoal.required_eq]
  rw [hooked, hooked, happlies, hfield.name_eq]

/-- The same message tells of a value that the caller does not provide. -/
theorem missingExtra_eq (key : String) : p'.missingExtra key = p.missingExtra key := by
  unfold missingExtra
  rw [h.source.name_eq, h.target.name_eq]

/-- A field gets the same statements. -/
theorem fieldStmts (hgoal : goal.Retyped names goal') (slot : Nat)
    {resolution resolution' : Resolution} (hresolution : resolution.Retyped names resolution') :
    Parallel (· = ·) (p.fieldStmts methods goal slot resolution)
      (p'.fieldStmts methods goal' slot resolution') := by
  have hplace : fieldStmts.place p' goal' = fieldStmts.place p goal := by
    rw [fieldStmts.place, fieldStmts.place, h.direction]
    cases p.direction with
    | create => exact createPlace_retyped hgoal
    | update => exact updatePlace_retyped hgoal
  cases hresolution with
  | default => rfl
  | factory f => exact congrArg (fun place => [Stmt.assign place (factoryCall slot f)]) hplace.symm
  | fromExtra key =>
    rw [Plan.fieldStmts, Plan.fieldStmts, hplace, extraStmts, extraStmts, h.missingExtra_eq]
    rfl
  | @field field field' type type' hfield htype onlyIfSet =>
    rw [Plan.fieldStmts, Plan.fieldStmts, h.direction, hfield.name_eq]
    -- whatever statement the field gets, the same conditions are put around it
    have hconditions : ∀ s s' : Stmt, s = s' → Parallel (ε := Error) (· = ·)
        (.ok [guarded onlyIfSet (.attr .self field.name) (p.hooked field goal s)])
        (.ok [guarded onlyIfSet (.attr .self field.name) (p'.hooked field' goal' s')]) := by
      rintro s _ rfl
      rw [h.hooked_eq hfield hgoal]
      rfl
    cases p.direction with
    | create => exact (createField_retyped hfield hgoal htype).bind hconditions
    | update => exact (updateField_retyped hfield hgoal htype).bind hconditions

/-! ## All fields -/

/-- The factories are the same ones. -/
theorem factories_eq : p'.factories = p.factories := by
  have hentries := h.entries
  unfold factories
  generalize p.entries = entries at hentries ⊢
  generalize p'.entries = entries' at hentries ⊢
  induction hentries with
  | nil => rfl
  | @cons entry entry' _ _ hentry _ ih =>
    obtain ⟨name, resolution⟩ := entry
    obtain ⟨name', resolution'⟩ := entry'
    cases hentry.2 with
    | factory f => exact congrArg (f :: ·) ih
    | _ => exact ih

/-- All fields get the same statements, one after the other. -/
theorem allStmts {entries entries' : List (String × Resolution)}
    (hentries : List.Forall₂ (fun entry entry' : String × Resolution =>
      entry'.1 = entry.1 ∧ entry.2.Retyped names entry'.2) entries entries') (slot : Nat) :
    Parallel (List.Forall₂ fun group group' : FieldDescriptor × List Stmt =>
        group.1.Retyped names group'.1 ∧ group'.2 = group.2)
      (p.allStmts methods slot entries) (p'.allStmts methods slot entries') := by
  induction hentries generalizing slot with
  | nil => exact .nil
  | @cons entry entry' _ _ hentry _ ih =>
    obtain ⟨name, resolution⟩ := entry
    obtain ⟨name', resolution'⟩ := entry'
    obtain ⟨rfl, hresolution⟩ := hentry
    have hfield := h.target.field? name'
    unfold Plan.allStmts
    dsimp only
    generalize p.target.field? name' = found at hfield ⊢
    generalize p'.target.field? name' = found' at hfield ⊢
    cases hfield with
    | none => exact ih slot
    | @some goal goal' hgoal =>
      refine (h.fieldStmts hgoal slot hresolution).bind ?_
      rintro stmts _ rfl
      -- both resolutions leave the same slot for the next factory
      cases hresolution with
      | factory f => exact (ih (slot + 1)).bind fun groups groups' hgroups => .cons ⟨hgoal, rfl⟩ hgroups
      | _ => exact (ih slot).bind fun groups groups' hgroups => .cons ⟨hgoal, rfl⟩ hgroups

/-- The body of a create method is the same. -/
theorem createBody_eq {groups groups' : List (FieldDescriptor × List Stmt)}
    (hgroups : List.Forall₂ (fun group group' : FieldDescriptor × List Stmt =>
      group.1.Retyped names group'.1 ∧ group'.2 = group.2) groups groups') :
    p'.createBody groups' = p.createBody groups := by
  -- the groups for arguments of the constructor are the same, and so are the others
  have hchosen : ∀ chosen : Bool → Bool,
      (groups'.filter fun group => chosen group.1.accepted).flatMap (·.2)
        = (groups.filter fun group => chosen group.1.accepted).flatMap (·.2) := by
    intro chosen
    induction hgroups with
    | nil => rfl
    | cons hgroup _ ih =>
      rw [List.filter_cons, List.filter_cons, hgroup.1.accepted_eq]
      split
      · rw [List.flatMap_cons, List.flatMap_cons, hgroup.2, ih]
      · exact ih
  unfold createBody
  have hbefore := hchosen id
  have hafter := hchosen not
  simp only [id] at hbefore
  rw [hbefore, hafter, h.target.handle_eq, h.target.strategy_eq]

/-- **The same function carries the plan out**, or there is none in both cases. -/
theorem function : Parallel (· = ·) (p.function methods) (p'.function methods) := by
  rw [Plan.function, Plan.function, h.direction, h.target.name_eq]
  refine (h.allStmts h.entries 0).bind fun groups groups' hgroups => ?_
  cases p.direction with
  | create =>
    rw [h.createBody_eq hgroups]
    rfl
  | update =>
    have hbody : groups'.flatMap (·.2) = groups.flatMap (·.2) := by
      induction hgroups with
      | nil => rfl
      | cons hgroup _ ih => rw [List.flatMap_cons, List.flatMap_cons, hgroup.2, ih]
    rw [updateBody, updateBody, hbody]
    rfl

end Retyped

end Plan

/-- A plan becomes the same method, but for the target class that it was asked for. -/
theorem MappingMethod.assemble_retyped {p p' : Plan} (h : p.Retyped names p') (target target' : Class) :
    Parallel (fun m m' : MappingMethod => m' = { m with target := target' })
      (assemble p target methods) (assemble p' target' methods) := by
  rw [assemble, assemble, h.source.handle_eq, h.direction, h.factories_eq]
  refine h.function.bind ?_
  rintro function _ rfl
  rfl

/-! ## The theorem -/

/-- **Conversions, changes in place and whole mappings are the same ones for interchangeable types.**
They are found in the same cases, at every depth and in every place; and where the types of fields
are written in another way, classes have the same plan and the same method, or there is none in both
cases. -/
theorem interchangeable_types_synthesize_alike (names : Nat → String) (methods : MethodTable) :
    (∀ {source source' target target' : FieldType}, source.Interchangeable names source' →
      target.Interchangeable names target' → ∀ (value place : Expr) (depth : Nat),
        Parallel (· = ·) (Conversion.express methods source value depth target)
            (Conversion.express methods source' value depth target') ∧
          Parallel (· = ·) (Conversion.amend methods value place depth source target)
            (Conversion.amend methods value place depth source' target')) ∧
      ∀ {source source' target target' : Descriptor}, source.Retyped names source' →
        target.Retyped names target' → ∀ (direction : Direction) (overrides : Overrides)
          (declared declared' : Class),
          Parallel (fun m m' : MappingMethod => m' = { m with target := declared' })
            (Plan.build source target direction overrides >>= fun p =>
              MappingMethod.assemble p declared methods)
            (Plan.build source' target' direction overrides >>= fun p =>
              MappingMethod.assemble p declared' methods) := by
  constructor
  · intro source source' target target' hsource htarget value place depth
    exact ⟨Conversion.express_interchangeable methods hsource htarget value depth,
      Conversion.amend_interchangeable methods hsource htarget value place depth⟩
  · intro source source' target target' hsource htarget direction overrides declared declared'
    have hplan := Plan.build_retyped hsource htarget direction overrides
    exact hplan.parallel.bind fun p p' hp => MappingMethod.assemble_retyped hp declared declared'

namespace Sample

/-- A table of measures: for each name a number and a mark of one of two classes. -/
def measures (first second : Builtin) : FieldType :=
  .dict (.builtin .str) (.tuple [.builtin .float, .union [.builtin first, .builtin second]])

/-- The names under which builtin classes are given out. -/
def builtinName (id : Nat) : String :=
  ((Builtin.all.find? fun b => b.id == id).map (·.name)).getD ""

/-- A builtin class is a proper type under its own name. -/
theorem proper_builtin (b : Builtin) : (FieldType.builtin b).Proper builtinName :=
  ⟨.named _, .named (by cases b <;> rfl)⟩

/-- A union of two different builtin classes is a proper type. -/
theorem proper_mark {first second : Builtin} (h : second.handle.same first.handle = false) :
    (FieldType.union [.builtin first, .builtin second]).Proper builtinName := by
  have hmember : ∀ member ∈ [FieldType.builtin first, .builtin second],
      member.isSingle = true ∧ member.Proper builtinName := by
    simp only [List.forall_mem_cons, List.not_mem_nil, false_implies, implies_true, and_true]
    exact ⟨⟨rfl, proper_builtin first⟩, rfl, proper_builtin second⟩
  have hdistinct : [FieldType.builtin first, .builtin second].Pairwise fun a later =>
      later.same a = false := by
    simpa [FieldType.builtin, FieldType.same_named] using h
  exact ⟨.union (Nat.le_refl 2) hdistinct (fun member hmem => (hmember member hmem).1)
      fun member hmem => (hmember member hmem).2.normal,
    .union fun member hmem => (hmember member hmem).2.named⟩

/-- The types of the sample fields are proper. -/
theorem proper_measures {first second : Builtin} (h : second.handle.same first.handle = false) :
    (measures first second).Proper builtinName := by
  have hitem : ∀ item ∈ [FieldType.builtin .float, .union [.builtin first, .builtin second]],
      item.Proper builtinName := by
    simp only [List.forall_mem_cons, List.not_mem_nil, false_implies, implies_true, and_true]
    exact ⟨proper_builtin .float, proper_mark h⟩
  exact ⟨.dict (proper_builtin .str).normal (.tuple fun item hmem => (hitem item hmem).normal),
    .dict (proper_builtin .str).named (.tuple fun item hmem => (hitem item hmem).named)⟩

/-- A class with such a table. -/
def survey (first second : Builtin) : Descriptor :=
  ⟨⟨9, "Survey"⟩, .dataclass,
    [("measures", ⟨"measures", measures first second, true, "measures", true⟩)], .validating, .none⟩

/-- The sample classes are the same but for the order of union members. -/
theorem survey_retyped {first second : Builtin} (h : second.handle.same first.handle = false)
    (h' : first.handle.same second.handle = false)
    (hsame : (measures first second).same (measures second first) = true) :
    (survey first second).Retyped builtinName (survey second first) :=
  ⟨.cons ⟨rfl, ⟨proper_measures h, proper_measures h', hsame⟩, rfl⟩ .nil, rfl⟩

/-- The class of such objects. -/
def surveys (first second : Builtin) : Class :=
  ⟨⟨9, "Survey"⟩, [⟨"measures", measures first second, none, none, true, true⟩], .dataclass⟩

end Sample

open Sample in
/-- Marks that are numbers or texts may be written in both orders. -/
theorem interchangeable_types_synthesize_alike_measures :
    (∃ code, Conversion.express .none (measures .int .str) .self 2 (measures .str .int) = .ok code ∧
      Conversion.express .none (measures .str .int) .self 2 (measures .int .str) = .ok code) ∧
    ∃ m, (Plan.build (survey .int .str) (survey .str .int) .create [] >>= fun p =>
        MappingMethod.assemble p (surveys .str .int) .none) = .ok m ∧
      (Plan.build (survey .str .int) (survey .int .str) .create [] >>= fun p =>
        MappingMethod.assemble p (surveys .int .str) .none)
          = .ok { m with target := surveys .int .str } := by
  obtain ⟨hvalues, hmethods⟩ := interchangeable_types_synthesize_alike builtinName .none
  have hmeasures : (measures .int .str).Interchangeable builtinName (measures .str .int) :=
    ⟨proper_measures rfl, proper_measures rfl, rfl⟩
  have hsurvey : (survey .int .str).Retyped builtinName (survey .str .int) :=
    survey_retyped rfl rfl rfl
  have hsurvey' : (survey .str .int).Retyped builtinName (survey .int .str) :=
    survey_retyped rfl rfl rfl
  constructor
  · obtain ⟨code, hcode⟩ : ∃ code, Conversion.express .none (measures .int .str) .self 2
        (measures .str .int) = .ok code := ⟨_, rfl⟩
    obtain ⟨code', hcode', rfl⟩ :=
      (hvalues hmeasures hmeasures.symm .self .self 2).1.exists_eq_ok hcode
    exact ⟨code, hcode, hcode'⟩
  · obtain ⟨m, hm⟩ : ∃ m, (Plan.build (survey .int .str) (survey .str .int) .create [] >>= fun p =>
        MappingMethod.assemble p (surveys .str .int) .none) = .ok m := ⟨_, rfl⟩
    obtain ⟨m', hm', rfl⟩ := (hmethods hsurvey hsurvey' .create [] (surveys .str .int)
      (surveys .int .str)).exists_eq_ok hm
    exact ⟨m, hm, hm'⟩

end ObjectMapping
