import ObjectMapping.Proofs.Method.Create
import ObjectMapping.Proofs.Method.Update
import ObjectMapping.Proofs.Registry.History

/-! # Registered methods carry out their plans

A method in a registry was assembled from a finished plan for two described classes, so everything
that is known of plans applies to it.

* `Makes.create_eq` and `Makes.update_eq`: what a registered method does is what its plan describes.
* `Makes.supported`: the conversions that a plan asks for exist. -/

namespace ObjectMapping

open Outcome

namespace Plan

variable {p : Plan} {methods : MethodTable}

/-- There is a conversion, or with an update a change in place, from a source field to a target
field. -/
def Supports (p : Plan) (methods : MethodTable) (goal field : FieldDescriptor) (type : FieldType) :
    Prop :=
  if p.direction = .update ∧ changesInPlace methods goal field type = true then
    ∃ change, Conversion.Amended methods (.attr .self field.name) (updatePlace goal) type goal.type
      change
  else
    ∃ code, Conversion.express methods type (.attr .self field.name) 0 goal.type = .ok code

/-- Every source field of a plan is supported. -/
def Supported (p : Plan) (methods : MethodTable) : Prop :=
  ∀ ⦃goal field : FieldDescriptor⦄ ⦃type : FieldType⦄ ⦃onlyIfSet : Bool⦄,
    (goal, .field field type onlyIfSet) ∈ p.goals → p.Supports methods goal field type

/-- Statements for a field that comes from the source were made of a conversion. -/
theorem Compiles.supports {goal field : FieldDescriptor} {type : FieldType} {onlyIfSet : Bool}
    {group : FieldDescriptor × List Stmt}
    (h : p.Compiles methods (goal, .field field type onlyIfSet) group) :
    p.Supports methods goal field type := by
  obtain ⟨-, slot, -, hstmts⟩ := h
  rw [Supports]
  cases hdirection : p.direction with
  | create =>
    obtain ⟨s, hs, -⟩ := (fieldStmts_create_eq_ok hdirection).mp hstmts
    obtain ⟨code, hcode, -⟩ := createField_eq_ok.mp hs
    rw [if_neg (by simp)]
    exact ⟨code, hcode⟩
  | update =>
    obtain ⟨s, hs, -⟩ := (fieldStmts_update_eq_ok hdirection).mp hstmts
    -- a change in place is preferred, and a conversion is made only where there is none
    rcases updateField_eq_ok.mp hs with hchange | ⟨hnone, code, hcode, -⟩
    · rw [if_pos ⟨rfl, changesInPlace_iff.mpr ⟨s, hchange⟩⟩]
      exact ⟨s, Conversion.amended_of_amend hchange⟩
    · rw [if_neg fun h => (changesInPlace_iff.mp h.2).elim hnone]
      exact ⟨code, hcode⟩

/-- A method can only be assembled if its plan is supported. -/
theorem supported_of_assemble {target : Class} {overrides : Overrides} {m : MappingMethod}
    (hnodup : (p.target.fields.map (·.1)).Nodup) (hresolved : p.Resolved overrides)
    (hm : MappingMethod.assemble p target methods = .ok m) : p.Supported methods := by
  intro goal field type onlyIfSet hmem
  obtain ⟨function, hfunction, -⟩ := bind_eq_ok.mp hm
  obtain ⟨groups, hgroups, -⟩ := bind_eq_ok.mp hfunction
  obtain ⟨group, -, hgroup⟩ := exists_of_forall₂ (forall₂_allStmts hnodup hresolved hgroups) hmem
  exact hgroup.supports

end Plan

namespace Registry.Makes

variable {r : Registry} {source target : Class} {overrides : Overrides} {direction : Direction}
  {p : Plan} {methods : MethodTable} {m : MappingMethod}

/-- The plan of a registered method has its direction. -/
theorem direction_eq (h : r.Makes source target overrides direction p methods m) :
    p.direction = direction :=
  (Plan.build_eq_ok h.build).2.2.1

/-- The plan of a registered method is for the described source class. -/
theorem source_eq (h : r.Makes source target overrides direction p methods m) :
    p.source = source.describe :=
  (Plan.build_eq_ok h.build).1

/-- The plan of a registered method is for the described target class. -/
theorem target_eq (h : r.Makes source target overrides direction p methods m) :
    p.target = target.describe :=
  (Plan.build_eq_ok h.build).2.1

/-- The plan of a registered method is resolved. -/
theorem resolved (h : r.Makes source target overrides direction p methods m) :
    p.Resolved overrides :=
  (Plan.build_eq_ok h.build).2.2.2

/-- The target fields of a registered method have different names. -/
theorem nodup_fields (h : r.Makes source target overrides direction p methods m) :
    (p.target.fields.map (·.1)).Nodup := by
  rw [h.target_eq]
  exact target.nodup_describe_fields

/-- **A registered create method gives what its plan gives.** -/
theorem create_eq (h : r.Makes source target overrides .create p methods m) (invoker : Invoker)
    (this : Value) (extra : Extra) :
    m.create invoker this extra.value = p.evaluate invoker.create this extra target := by
  refine create_eq_evaluate_of_resolved h.direction_eq h.nodup_fields h.resolved ?_ h.assemble
  rw [h.target_eq, target.describe_handle, ClassHandle.same_self]

/-- **A registered update method does to its target what its plan does.** -/
theorem update_eq (h : r.Makes source target overrides .update p methods m) (invoker : Invoker)
    (this object : Value) (extra : Extra) :
    m.update invoker this object extra.value = p.change methods invoker this extra object :=
  update_eq_change_of_resolved object h.direction_eq h.nodup_fields h.resolved h.assemble

/-- The conversions that a registered method asks for exist. -/
theorem supported (h : r.Makes source target overrides direction p methods m) :
    p.Supported methods :=
  Plan.supported_of_assemble h.nodup_fields h.resolved h.assemble

/-- The target fields of a registered method are those of its target, in order. -/
theorem map_goals_eq_fields (h : r.Makes source target overrides direction p methods m) :
    p.goals.map (·.1) = p.target.fields.map (·.2) := by
  have hfields : List.Forall₂ (· = ·) (p.target.fields.map (·.2)) (p.goals.map (·.1)) := by
    rw [List.forall₂_map_left_iff, List.forall₂_map_right_iff]
    exact (Plan.forall₂_goals h.nodup_fields h.resolved).imp fun _ _ hentry => hentry.1.symm
  rw [List.forall₂_eq_eq_eq] at hfields
  exact hfields.symm

/-- The target fields of a registered method have different names. -/
theorem nodup_goal_names (h : r.Makes source target overrides direction p methods m) :
    (p.goals.map (·.1.name)).Nodup := by
  have hnames : p.goals.map (·.1.name) = p.target.fields.map (·.1) := by
    rw [← Function.comp_def, ← List.map_map, h.map_goals_eq_fields, List.map_map, h.target_eq]
    refine List.map_congr_left fun field hmem => ?_
    exact Class.field_name_of_field? (Keyed.lookup_of_mem target.nodup_describe_fields hmem)
  rw [hnames]
  exact h.nodup_fields

/-- The target fields of a registered method are the slots of its target class, in order. -/
theorem map_goals (h : r.Makes source target overrides direction p methods m)
    (hnames : (target.slots.map (·.name)).Nodup) :
    p.goals.map (·.1) = target.slots.map fun slot => slot.describe (target.paramOf slot) := by
  rw [h.map_goals_eq_fields, h.target_eq, Class.describe_fields hnames, List.map_map]
  rfl

/-- A target field of a registered method is a slot of the target class, with its resolution. -/
theorem goal_inv (h : r.Makes source target overrides direction p methods m)
    (hnames : (target.slots.map (·.name)).Nodup) {goal : FieldDescriptor} {resolution : Resolution}
    (hmem : (goal, resolution) ∈ p.goals) :
    ∃ slot ∈ target.slots, goal = slot.describe (target.paramOf slot) ∧
      Plan.resolve source.describe target.describe direction overrides goal.name goal
        = .ok (some resolution) := by
  have hgoals := Plan.forall₂_goals h.nodup_fields h.resolved
  obtain ⟨field, hfield, rfl, hresolve⟩ := exists_of_forall₂ hgoals.flip hmem
  rw [h.source_eq, h.target_eq, h.direction_eq] at hresolve
  rw [h.target_eq, Class.describe_fields hnames] at hfield
  obtain ⟨slot, hslot, heq⟩ := List.mem_map.mp hfield
  -- a field stands under the name of its slot
  obtain rfl := heq
  exact ⟨slot, hslot, rfl, hresolve⟩

end Registry.Makes

end ObjectMapping
