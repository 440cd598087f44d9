import ObjectMapping.Proofs.Method.Fields
import ObjectMapping.Proofs.Plan.Change

/-! # Update methods carry out their plans

The body of an update method has one group of statements for each target field, and each of them
works on the target alone.

* **`ends_updateGroup`** — the group for one field has the effect of its change.
* **`update_eq_change_of_resolved`** — an update method does to its target what its plan does, also
  where it fails.
* `MappingMethod.only`: a method with some of its statements only, and **`only_update_eq`** — what
  these do to the target. -/

namespace ObjectMapping

open Outcome Stmt

variable {invoker : Invoker} {p : Plan} {source : Value} {extra : Extra} {methods : MethodTable}
  {overrides : Overrides}

/-- The change of a field by a source field is carried out by the statement for it. -/
theorem ends_updateField (invoker : Invoker) {f : Frame} {owner : Value} {goal field : FieldDescriptor}
    {type : FieldType} {s : Stmt} (hsource : f.source = source) (htarget : f.target? = some owner)
    (hs : p.updateField methods goal field type = .ok s) :
    Ends invoker [s] f
      ((Plan.revision methods invoker source goal field type owner).within
        fun owner => { f with target? := some owner }) := by
  subst hsource
  rw [Plan.revision]
  rcases Plan.updateField_eq_ok.mp hs with hamend | ⟨hnone, created, hcreated, rfl⟩
  · have hends := Conversion.ends_amended invoker htarget
      (Conversion.amended_of_amend hamend)
    rw [eval_sourceField] at hends
    rw [if_pos (Plan.changesInPlace_iff.mpr ⟨s, hamend⟩)]
    exact hends
  · have hplace : Plan.updatePlace goal ≠ .var "d" := by simp [Plan.updatePlace]
    have hassign := ends_assign invoker created hplace f
    rw [Conversion.eval_express invoker f hcreated, eval_sourceField] at hassign
    simp only [Plan.updatePlace, assigned_targetField htarget] at hassign
    have hsame : { f with target? := some owner } = f := by rw [← htarget]
    have hreplaced : ¬ Plan.changesInPlace methods goal field type = true := fun h => by
      obtain ⟨change, hchange⟩ := Plan.changesInPlace_iff.mp h
      exact hnone change hchange
    rw [if_neg hreplaced, Effect.within_ofExcept, hsame]
    generalize Conversion.direct invoker.create type (f.source.field field.name) goal.type = x
      at hassign ⊢
    cases x <;> exact hassign

/-- Giving a contribution to the place of a field is assigning it to the target. -/
theorem within_contribute {f : Frame} {owner : Value} {create : Value → ClassHandle → Except Error Value}
    (htarget : f.target? = some owner) (entry : FieldDescriptor × Resolution) :
    Effect.within (fun owner => { f with target? := some owner })
        (.ofExcept owner (p.contribute create source extra Plan.asField owner entry))
      = .ofExcept f (p.contribution create source extra entry.1 entry.2 >>=
          f.settle (Plan.updatePlace entry.1)) := by
  have hsame : { f with target? := some owner } = f := by rw [← htarget]
  rw [Effect.within_ofExcept, hsame, Plan.contribute]
  rcases p.contribution create source extra entry.1 entry.2 with e | given
  · rfl
  · cases given with
    | none =>
      simp only [ok_bind, Frame.settle, pure_eq_ok, Except.map, hsame]
    | some value =>
      simp only [ok_bind, Frame.settle, Plan.updatePlace, assigned_targetField htarget]
      rfl

/-- The group of statements for a field changes the field. -/
theorem ends_updateGroup {f : Frame} {owner : Value} {entry : FieldDescriptor × Resolution}
    {group : FieldDescriptor × List Stmt} (hdirection : p.direction = .update)
    (hserves : f.Serves p source extra) (htarget : f.target? = some owner)
    (hcompiles : p.Compiles methods entry group) :
    Ends invoker group.2 f
      ((p.changeField methods invoker source extra owner entry).within
        fun owner => { f with target? := some owner }) := by
  obtain ⟨goal, resolution⟩ := entry
  obtain ⟨_, stmts⟩ := group
  obtain ⟨-, slot, hslot, hstmts⟩ := hcompiles
  obtain ⟨rfl, hextra, hfactories⟩ := hserves
  dsimp only at hslot hstmts ⊢
  have hplace : Plan.fieldStmts.place p goal = Plan.updatePlace goal := by
    rw [Plan.fieldStmts.place, hdirection]
  have hsame : { f with target? := some owner } = f := by rw [← htarget]
  -- each kind of resolution has its statements, and each is the change by that kind
  cases resolution with
  | default =>
    obtain rfl := Except.ok.inj hstmts
    rw [Plan.changeField, within_contribute htarget]
    exact Ends.nil f
  | field field type onlyIfSet =>
    rw [Plan.fieldStmts, hdirection] at hstmts
    obtain ⟨s, hs, hguarded⟩ := bind_eq_ok.mp hstmts
    obtain rfl := Except.ok.inj hguarded
    have hguard := ends_guarded p goal field onlyIfSet (ends_updateField invoker rfl htarget hs)
    rw [Plan.changeField, Effect.within_branch, hsame, Effect.within, Effect.within, hsame]
    exact hguard
  | factory factory =>
    obtain rfl := Except.ok.inj hstmts
    have hat : f.method.factories[slot]? = some factory := by
      rw [hfactories]
      exact hslot factory rfl
    rw [Plan.changeField, within_contribute htarget, hplace]
    exact ends_factory hat (by simp [Plan.updatePlace])
  | fromExtra key =>
    obtain rfl := Except.ok.inj hstmts
    rw [Plan.changeField, within_contribute htarget, hplace]
    exact ends_extraStmts hextra (by simp [Plan.updatePlace])

/-- What is left of a method with nothing to do. -/
theorem ends_pass (f : Frame) : Ends invoker [.pass] f (.ok (), f) :=
  ends_singleton (by rw [Stmt.run]; rfl)

/-- What the body of an update method does to the target is what the method does. -/
theorem MappingMethod.update_eq {m : MappingMethod} {object : Value} {extra : Value}
    {x : Effect Value}
    (h : Ends invoker m.function.body (m.frame source extra (some object))
      (x.within fun owner => { m.frame source extra (some object) with target? := some owner })) :
    m.update invoker source object extra = x := by
  rw [Ends] at h
  rw [MappingMethod.update, h]
  obtain ⟨outcome, owner⟩ := x
  cases outcome <;> rfl

/-- **Groups of statements change the fields that they are for**, one after the other. -/
theorem ends_updateGroups {m : MappingMethod} {goals : List (FieldDescriptor × Resolution)}
    {groups : List (FieldDescriptor × List Stmt)} (hdirection : p.direction = .update)
    (hfactories : m.factories = p.factories)
    (hcompiles : List.Forall₂ (p.Compiles methods) goals groups) (object : Value) :
    Ends invoker (groups.flatMap (·.2)) (m.frame source extra.value (some object))
      ((effects (p.changeField methods invoker source extra) goals object).within
        fun owner => { m.frame source extra.value (some object) with target? := some owner }) :=
  ends_flatMap (p.changeField methods invoker source extra)
    (fun owner => { m.frame source extra.value (some object) with target? := some owner })
    (hcompiles.imp fun _ _ hgroup _ =>
      ends_updateGroup hdirection ⟨rfl, rfl, hfactories⟩ rfl hgroup) object

/-- A method is assembled from the groups of statements for all fields of its plan. -/
theorem Plan.exists_groups {target : Class} {m : MappingMethod} (hdirection : p.direction = .update)
    (hm : MappingMethod.assemble p target methods = .ok m) :
    ∃ groups, p.allStmts methods 0 p.entries = .ok groups ∧
      m.function.body = Plan.updateBody groups ∧ m.factories = p.factories := by
  obtain ⟨function, hfunction, hassembled⟩ := bind_eq_ok.mp hm
  obtain rfl := Except.ok.inj hassembled
  obtain ⟨groups, hgroups, hbody⟩ := bind_eq_ok.mp hfunction
  rw [hdirection] at hbody
  obtain rfl := Except.ok.inj hbody
  exact ⟨groups, hgroups, rfl, rfl⟩

/-- **An update method does to its target what its plan does**, for a plan in which every target
field is resolved. -/
theorem update_eq_change_of_resolved {target : Class} {m : MappingMethod} (object : Value)
    (hdirection : p.direction = .update) (hnodup : (p.target.fields.map (·.1)).Nodup)
    (hresolved : p.Resolved overrides) (hm : MappingMethod.assemble p target methods = .ok m) :
    m.update invoker source object extra.value
      = p.change methods invoker source extra object := by
  obtain ⟨groups, hgroups, hbody, hfactories⟩ := Plan.exists_groups hdirection hm
  have hends : Ends invoker (groups.flatMap (·.2)) (m.frame source extra.value (some object))
      ((p.change methods invoker source extra object).within
        fun owner => { m.frame source extra.value (some object) with target? := some owner }) :=
    ends_updateGroups hdirection hfactories (Plan.forall₂_allStmts hnodup hresolved hgroups) object
  refine MappingMethod.update_eq ?_
  rw [hbody, Plan.updateBody]
  split
  · next hempty =>
    rw [List.isEmpty_iff.mp hempty] at hends
    rw [hends.eq_of_nil]
    exact ends_pass _
  · exact hends

/-! ## Parts of a method -/

/-- The method with some groups of statements only. -/
def MappingMethod.only (m : MappingMethod) (groups : List (FieldDescriptor × List Stmt)) :
    MappingMethod :=
  { m with function := { m.function with body := groups.flatMap (·.2) } }

/-- **A part of an update method changes the fields that its groups are for.** -/
theorem only_update_eq {m : MappingMethod} {goals : List (FieldDescriptor × Resolution)}
    {groups : List (FieldDescriptor × List Stmt)} (object : Value) (hdirection : p.direction = .update)
    (hfactories : m.factories = p.factories)
    (hcompiles : List.Forall₂ (p.Compiles methods) goals groups) :
    (m.only groups).update invoker source object extra.value
      = effects (p.changeField methods invoker source extra) goals object :=
  MappingMethod.update_eq (ends_updateGroups (m := m.only groups) hdirection hfactories hcompiles object)

end ObjectMapping
