import ObjectMapping.Proofs.Class.Bypass
import ObjectMapping.Proofs.Registry.Methods

/-! # Mappings to models with and without validators

Registering a mapping looks at the description of the target class, and so does the code of the
mapping, which gives arguments to the constructor. For interchangeable classes the descriptions
differ in the names of arguments only, so that registrations and conversions do not.

* `Interchangeable.build_eq`, `Interchangeable.methodFor_agree`: the plans differ in the description
  of the target only, and methods can be assembled from both or from none.
* **`Interchangeable.create_eq`** — the methods make the same objects.
* **`register_withValidators_agree`** — a mapping into a model without validators can be registered
  exactly if it can be registered into the same model under validators that accept everything, and
  then all conversions and changes are the same. -/

namespace ObjectMapping

open Outcome Registry

namespace Plan

/-- The plan with another description of its target. -/
def withTarget (p : Plan) (target : Descriptor) : Plan := { p with target }

/-- Another description of the target leaves the source alone. -/
@[simp] theorem withTarget_source (p : Plan) (d : Descriptor) : (p.withTarget d).source = p.source :=
  rfl

/-- Another description of the target is the target. -/
@[simp] theorem withTarget_target (p : Plan) (d : Descriptor) : (p.withTarget d).target = d := rfl

/-- Another description of the target leaves the direction alone. -/
@[simp] theorem withTarget_direction (p : Plan) (d : Descriptor) :
    (p.withTarget d).direction = p.direction := rfl

variable {source target target' : Descriptor} {direction : Direction} {overrides : Overrides}
  {goal goal' : FieldDescriptor}

/-- The resolution of a field depends on the name of the target class, on the name of the field and
on whether it is required. -/
theorem resolve_congr (htarget : target'.name = target.name) (name : String)
    (hname : goal'.name = goal.name) (hrequired : goal'.required = goal.required) :
    resolve source target' direction overrides name goal'
      = resolve source target direction overrides name goal := by
  rw [resolve, resolve]
  cases overrides.lookup name with
  | none => simp only [implicit?, fromField, hname, hrequired]
  | some override =>
    cases override <;>
      simp only [explicit, sourceField, fromField, htarget, hname, hrequired]

/-- The message for a missing value of the caller names the two classes and the key. -/
theorem missingExtra_congr {p p' : Plan} (hsource : p'.source.name = p.source.name)
    (htarget : p'.target.name = p.target.name) (key : String) :
    p'.missingExtra key = p.missingExtra key := by
  unfold missingExtra
  rw [hsource, htarget]

end Plan

/-- The field of a slot under its first name, with its resolution. -/
def Class.describeEntry (c : Class) (entry : Slot × Resolution) : FieldDescriptor × Resolution :=
  (entry.1.describe (c.paramOf entry.1), entry.2)

namespace Class.Interchangeable

variable {c c' source : Class} {overrides : Overrides} {p : Plan} {methods : MethodTable}
  {r : Registry}

/-- Interchangeable classes have the same name. -/
theorem name_eq (h : c.Interchangeable c') : c'.describe.name = c.describe.name := by
  rw [Descriptor.name, Descriptor.name, c'.describe_handle, c.describe_handle, h.handle_eq]

/-- Interchangeable classes have the same fields, up to the names of the arguments for them. -/
theorem field?_eq (h : c.Interchangeable c') (name : String) :
    c'.describe.field? name
      = (c.slots.find? (name == ·.name)).map fun slot => slot.describe (c'.paramOf slot) := by
  rw [describe_field? h.distinct'.names, h.slots_eq]

/-! ## Plans -/

/-- The fields of interchangeable classes are resolved alike. -/
theorem resolved_eq (h : c.Interchangeable c') (source : Descriptor) (direction : Direction)
    (overrides : Overrides) :
    (c'.describe.fields.mapM fun (name, goal) => do
        return (name, ← Plan.resolve source c'.describe direction overrides name goal))
      = (c.describe.fields.mapM fun (name, goal) => do
          return (name, ← Plan.resolve source c.describe direction overrides name goal) :
            Except Error (List (String × Option Resolution))) := by
  rw [describe_fields h.distinct'.names, describe_fields h.distinct.names, h.slots_eq,
    List.mapM_map, List.mapM_map]
  refine mapM_congr fun slot _ => ?_
  have hresolve : Plan.resolve source c'.describe direction overrides slot.name
        (slot.describe (c'.paramOf slot))
      = Plan.resolve source c.describe direction overrides slot.name
          (slot.describe (c.paramOf slot)) :=
    Plan.resolve_congr h.name_eq slot.name rfl rfl
  simp only [Function.comp_apply, hresolve]

/-- **Plans for interchangeable classes** are made or refused alike, and differ in the description of
the target only. -/
theorem build_eq (h : c.Interchangeable c') (source : Descriptor) (direction : Direction)
    (overrides : Overrides) :
    Plan.build source c'.describe direction overrides
      = (Plan.build source c.describe direction overrides).map
          (·.withTarget c'.describe) := by
  have hunknown : ∀ key, (c'.describe.field? key).isNone = (c.describe.field? key).isNone := by
    intro key
    rw [h.field?_eq, describe_field? h.distinct.names, Option.isNone_map, Option.isNone_map]
  rw [Plan.build, Plan.build]
  simp only [hunknown, h.name_eq, h.resolved_eq]
  split
  · rfl
  · generalize (c.describe.fields.mapM _ : Except Error (List (String × Option Resolution))) = x
    cases x with
    | error e => rfl
    | ok resolved =>
      simp only [ok_bind]
      split <;> rfl

/-- The fields of a plan, slot by slot. -/
theorem goals_eq_map (hdistinct : c.DistinctNames) (htarget : p.target = c.describe)
    (hresolved : p.Resolved overrides) :
    p.goals = (c.slots.zip (p.entries.map (·.2))).map c.describeEntry ∧
      (c.slots.zip (p.entries.map (·.2))).map (·.1) = c.slots := by
  have hnodup : (p.target.fields.map (·.1)).Nodup := htarget ▸ c.nodup_describe_fields
  have hlength := hresolved.length_eq
  rw [htarget, describe_fields hdistinct.names, List.length_map] at hlength
  constructor
  · rw [Plan.goals_eq_zipWith hnodup hresolved, htarget, describe_fields hdistinct.names,
      List.zipWith_map_left, List.map_zip_eq_zipWith, List.zipWith_map_right]
    rfl
  · exact List.map_fst_zip (by rw [List.length_map]; exact Nat.le_of_eq hlength)

/-! ## Code -/

/-- The assignment of a source field can be made for both plans or for none. -/
theorem createField_agree (h : c.Interchangeable c') (htarget : p.target = c.describe) (slot : Slot)
    (field : FieldDescriptor) (type : FieldType) :
    Agree (fun _ _ => True) (p.createField methods (slot.describe (c.paramOf slot)) field type)
      ((p.withTarget c'.describe).createField methods (slot.describe (c'.paramOf slot)) field
        type) := by
  rw [Plan.createField, Plan.createField]
  have htype : (slot.describe (c'.paramOf slot)).type = (slot.describe (c.paramOf slot)).type := rfl
  rw [htype]
  cases Conversion.express methods type (.attr .self field.name) 0
    (slot.describe (c.paramOf slot)).type with
  | ok value => exact trivial
  | error e =>
    show p.fieldError field _ = Plan.fieldError _ field _
    rw [Plan.fieldError, Plan.fieldError, Plan.withTarget_target, htarget, h.name_eq]
    rfl

/-- The statements for the fields can be made for both plans or for none. -/
theorem allStmts_agree (h : c.Interchangeable c') (htarget : p.target = c.describe)
    (hdirection : p.direction = .create) (slot : Nat) (entries : List (String × Resolution)) :
    Agree (fun _ _ => True) (p.allStmts methods slot entries)
      ((p.withTarget c'.describe).allStmts methods slot entries) := by
  induction entries generalizing slot with
  | nil => exact trivial
  | cons entry rest ih =>
    obtain ⟨name, resolution⟩ := entry
    unfold Plan.allStmts
    simp only [Plan.withTarget_target, htarget, h.field?_eq, describe_field? h.distinct.names]
    cases c.slots.find? (name == ·.name) with
    | none => exact ih slot
    | some found =>
      dsimp only [Option.map_some]
      have hfield : Agree (fun _ _ => True)
          (p.fieldStmts methods (found.describe (c.paramOf found)) slot resolution)
          ((p.withTarget c'.describe).fieldStmts methods
            (found.describe (c'.paramOf found)) slot resolution) := by
        cases resolution with
        | field field type onlyIfSet =>
          rw [Plan.fieldStmts, Plan.fieldStmts]
          simp only [Plan.withTarget_direction, hdirection]
          refine (h.createField_agree htarget found field type).bind ?_
          intro _ _ _
          exact trivial
        | _ => exact trivial
      refine hfield.bind fun _ _ _ => (ih _).bind ?_
      intro _ _ _
      exact trivial

/-- Methods can be assembled into both classes or into none. -/
theorem methodFor_agree (h : c.Interchangeable c') (r : Registry) (source : Class)
    (overrides : Overrides) :
    Agree (fun _ _ => True) (r.methodFor source c overrides .create)
      (r.methodFor source c' overrides .create) := by
  rw [methodFor, methodFor, h.build_eq]
  cases hbuild : Plan.build source.describe c.describe .create overrides with
  | error e => exact rfl
  | ok p =>
    obtain ⟨-, htarget, hdirection, -⟩ := Plan.build_eq_ok hbuild
    simp only [Except.map, ok_bind, MappingMethod.assemble, Plan.function,
      Plan.withTarget_direction, hdirection]
    refine Related.bind (R := fun _ _ => True) ?_ fun _ _ _ => trivial
    refine (h.allStmts_agree htarget hdirection 0 p.entries).bind ?_
    intro _ _ _
    exact trivial

/-! ## New objects -/

section Evaluation

variable {create : Value → ClassHandle → Except Error Value} {this : Value} {extra : Extra}

/-- A field contributes the same to objects of both classes. -/
theorem contribution_eq (h : c.Interchangeable c') (htarget : p.target = c.describe) (slot : Slot)
    (resolution : Resolution) :
    (p.withTarget c'.describe).contribution create this extra (slot.describe (c'.paramOf slot))
        resolution
      = p.contribution create this extra (slot.describe (c.paramOf slot)) resolution := by
  cases resolution with
  | field field type onlyIfSet =>
    have happlies : (p.withTarget c'.describe).hookApplies field
          (slot.describe (c'.paramOf slot))
        = p.hookApplies field (slot.describe (c.paramOf slot)) := by
      rw [Plan.hookApplies, Plan.hookApplies, Plan.withTarget_target, htarget, h.hook_eq]
      rfl
    have hperforms : (p.withTarget c'.describe).performs this (slot.describe (c'.paramOf slot)) field
          onlyIfSet
        = p.performs this (slot.describe (c.paramOf slot)) field onlyIfSet := by
      rw [Plan.performs, Plan.performs, Plan.intended, Plan.intended, happlies]
    rw [Plan.contribution, Plan.contribution, hperforms]
    rfl
  | fromExtra key =>
    have hname : (p.withTarget c'.describe).target.name = p.target.name := by
      rw [Plan.withTarget_target, htarget, h.name_eq]
    have hsource : (p.withTarget c'.describe).source.name = p.source.name := by
      rw [Plan.withTarget_source]
    rw [Plan.contribution, Plan.contribution, Plan.missingExtra_congr hsource hname]
  | factory f => rw [Plan.contribution, Plan.contribution]
  | default => rw [Plan.contribution, Plan.contribution]

/-- **The constructors of both classes are given the same values for the same fields**, each under
the first name of its field. -/
theorem collect_agree (h : c.Interchangeable c') (htarget : p.target = c.describe)
    (create : Value → ClassHandle → Except Error Value) (this : Value) (extra : Extra)
    (assigned : List (Slot × Resolution)) (done : List (Slot × Option Value))
    (hnodup : ((done.map (·.1) ++ assigned.map (·.1)).map c.paramOf).Nodup)
    (hnodup' : ((done.map (·.1) ++ assigned.map (·.1)).map c'.paramOf).Nodup) :
    Agree (fun args args' => ∃ entries : List (Slot × Option Value),
        entries.map (·.1) = done.map (·.1) ++ assigned.map (·.1) ∧
          args = c.argumentsFor entries ∧ args' = c'.argumentsFor entries)
      ((assigned.map c.describeEntry).foldlM (p.contribute create this extra Plan.asArgument)
        (c.argumentsFor done))
      ((assigned.map c'.describeEntry).foldlM
        ((p.withTarget c'.describe).contribute create this extra Plan.asArgument)
        (c'.argumentsFor done)) := by
  induction assigned generalizing done with
  | nil => exact ⟨done, by simp, rfl, rfl⟩
  | cons entry rest ih =>
    -- an argument that is new comes last, in the order of the fields
    have happend : ∀ {d : Class},
        ((done.map (·.1) ++ (entry :: rest).map (·.1)).map d.paramOf).Nodup → ∀ value,
          Keyed.insert (d.argumentsFor done) (d.paramOf entry.1) value
            = d.argumentsFor (done ++ [(entry.1, some value)]) := by
      intro d hd value
      rw [argumentsFor_append]
      refine Keyed.insert_of_notMem (fun hmem => ?_) value
      obtain ⟨slot, hslot, hparam⟩ := mem_keys_argumentsFor hmem
      rw [List.map_append, List.nodup_append] at hd
      exact hd.2.2 _ (List.mem_map_of_mem hslot) _ (by simp) hparam.symm
    have hnext : ∀ given? : Option Value, (done ++ [(entry.1, given?)]).map (·.1) ++ rest.map (·.1)
        = done.map (·.1) ++ (entry :: rest).map (·.1) := by simp
    simp only [List.map_cons, List.foldlM_cons, describeEntry, Plan.contribute,
      h.contribution_eq htarget]
    cases p.contribution create this extra (entry.1.describe (c.paramOf entry.1)) entry.2 with
    | error e => exact rfl
    | ok given? =>
      have hrest := ih (done ++ [(entry.1, given?)]) (by rw [hnext]; exact hnodup)
        (by rw [hnext]; exact hnodup')
      rw [hnext] at hrest
      cases given? with
      | none =>
        simp only [argumentsFor_append, argumentsFor_none, argumentsFor_nil, List.append_nil]
          at hrest
        exact hrest
      | some value =>
        rw [← happend hnodup, ← happend hnodup'] at hrest
        exact hrest

/-- What is assigned to the new objects afterwards is the same. -/
theorem complete_eq (h : c.Interchangeable c') (htarget : p.target = c.describe)
    (assigned : List (Slot × Resolution)) (object : Value) :
    (assigned.map c'.describeEntry).foldlM
        ((p.withTarget c'.describe).contribute create this extra Plan.asField) object
      = (assigned.map c.describeEntry).foldlM (p.contribute create this extra Plan.asField)
        object := by
  rw [List.foldlM_map, List.foldlM_map]
  refine foldlM_congr (fun entry _ state => ?_) object
  simp only [Plan.contribute, describeEntry, h.contribution_eq htarget]
  rfl

/-- **Plans for interchangeable classes describe the same objects.** -/
theorem evaluate_eq (h : c.Interchangeable c') (htarget : p.target = c.describe)
    (hresolved : p.Resolved overrides) (hresolved' : (p.withTarget c'.describe).Resolved overrides) :
    (p.withTarget c'.describe).evaluate create this extra c' = p.evaluate create this extra c := by
  obtain ⟨hgoals, hslots⟩ := goals_eq_map h.distinct htarget hresolved
  obtain ⟨hgoals', -⟩ := goals_eq_map h.distinct' rfl hresolved'
  rw [h.slots_eq, show (p.withTarget c'.describe).entries = p.entries from rfl] at hgoals'
  generalize c.slots.zip (p.entries.map (·.2)) = assigned at hgoals hgoals' hslots
  have haccepted : (assigned.filter (·.1.accepted)).map (·.1) = c.slots.filter (·.accepted) := by
    rw [← hslots, List.filter_map]
    rfl
  have hfilter : ∀ d : Class, (assigned.map d.describeEntry).filter (·.1.accepted)
      = (assigned.filter (·.1.accepted)).map d.describeEntry := fun d => List.filter_map
  have hfilterNot : ∀ d : Class, (assigned.map d.describeEntry).filter (!·.1.accepted)
      = (assigned.filter (!·.1.accepted)).map d.describeEntry := fun d => List.filter_map
  have hcollect := h.collect_agree htarget create this extra
    (assigned.filter (·.1.accepted)) []
    (by rw [List.map_nil, List.nil_append, haccepted]; exact h.distinct.nodup_paramOf)
    (by
      rw [List.map_nil, List.nil_append, haccepted, ← h.slots_eq]
      exact h.distinct'.nodup_paramOf)
  rw [Plan.evaluate, Plan.evaluate, hgoals, hgoals', hfilter, hfilter, hfilterNot, hfilterNot]
  refine (hcollect.bind_eq ?_).symm
  rintro args args' ⟨entries, hentries, rfl, rfl⟩
  rw [List.map_nil, List.nil_append, haccepted] at hentries
  rw [htarget, Plan.withTarget_target, h.construct_eq hentries]
  simp only [h.complete_eq htarget]

end Evaluation

/-- **The methods for interchangeable classes make the same objects.** -/
theorem create_eq {r r' : Registry} {p' : Plan} {methods' : MethodTable} {m m' : MappingMethod}
    (h : c.Interchangeable c') (hmade : r.Makes source c overrides .create p methods m)
    (hmade' : r'.Makes source c' overrides .create p' methods' m') (inner : Invoker) (this : Value)
    (extra : Extra) : m'.create inner this extra.value = m.create inner this extra.value := by
  have hbuild := hmade'.build
  rw [h.build_eq, hmade.build] at hbuild
  obtain rfl := Except.ok.inj hbuild
  rw [hmade'.create_eq, hmade.create_eq]
  exact h.evaluate_eq hmade.target_eq hmade.resolved hmade'.resolved

end Class.Interchangeable

/-! ## Registries -/

namespace Registry

variable {r : Registry} {source target c c' : Class} {overrides : Overrides} {key : MappingKey}

/-- A registration of a mapping that makes new objects only. -/
theorem register_create_eq (r : Registry) (source target : Class) (overrides : Overrides) :
    r.register source target overrides .create
      = if r.contains (.of source.handle target.handle .create) then
          duplicate source.handle target.handle .create
        else (r.methodFor source target overrides .create).map fun m =>
          ⟨r.mappings ++ [(.of source.handle target.handle .create, .method m)]⟩ := by
  rw [register, methodsFor]
  cases hcontains : r.contains (.of source.handle target.handle .create) with
  | true => simp [Mode.directions, hcontains, duplicate]
  | false =>
    simp only [Mode.directions, List.find?_cons, hcontains, List.find?_nil, List.mapM_cons,
      List.mapM_nil]
    cases hmethod : r.methodFor source target overrides .create with
    | error e => rfl
    | ok m =>
      obtain ⟨-, hkey⟩ := methodFor_eq_ok hmethod
      simp [insertAll, hkey, hcontains, Except.map]

/-- Two registries that differ in one method, which makes the same objects in both, are the same to
callers. -/
theorem invoker_append_eq {m m' : MappingMethod} {extra : Extra} (hkey : key.direction = .create)
    (hcreate : ∀ inner this, m'.create inner this extra.value = m.create inner this extra.value)
    (n : Nat) :
    (Registry.mk (r.mappings ++ [(key, .method m')])).invoker extra.value n
      = (Registry.mk (r.mappings ++ [(key, .method m)])).invoker extra.value n := by
  have hlookup : ∀ (found : MappingMethod) (other : MappingKey),
      (Registry.mk (r.mappings ++ [(key, .method found)])).lookup? other
        = (r.lookup? other).or (if other == key then some (.method found) else none) := by
    intro found other
    rw [lookup?, List.lookup_append, List.lookup_cons]
    cases other == key <;> rfl
  induction n with
  | zero => rfl
  | succ n ih =>
    rw [invoker, invoker, ih]
    refine congrArg₂ Invoker.mk ?_ ?_
    · funext this t
      rw [createWith, createWith]
      cases this.handle? with
      | none => rfl
      | some s =>
        rw [Option.bind_some, Option.bind_some, hlookup, hlookup]
        -- what was there before comes first, and is the same in both
        cases r.lookup? (.of s t .create) with
        | some registered => rfl
        | none =>
          cases MappingKey.of s t .create == key with
          | true => exact hcreate _ this
          | false => rfl
    · -- an update is looked up under another key
      funext this object
      have hother : ∀ s t, (MappingKey.of s t .update == key) = false := by
        intro s t
        refine beq_eq_false_iff_ne.mpr fun heq => ?_
        rw [← heq] at hkey
        cases hkey
      rw [updateWith, updateWith]
      simp only [hlookup, hother, Bool.false_eq_true, if_false]

/-- **A registration into interchangeable classes** succeeds or fails alike, and what it leads to is
the same to callers. -/
theorem register_agree (h : c.Interchangeable c') (r : Registry) (source : Class)
    (overrides : Overrides) :
    Agree (fun r₁ r₂ => ∀ (extra : Extra) (n : Nat),
        r₂.invoker extra.value n = r₁.invoker extra.value n)
      (r.register source c overrides .create) (r.register source c' overrides .create) := by
  rw [register_create_eq, register_create_eq, h.handle_eq]
  split
  · exact rfl
  · have hmethods : Agree (fun m m' => ∀ inner this (extra : Extra),
          m'.create inner this extra.value = m.create inner this extra.value)
        (r.methodFor source c overrides .create) (r.methodFor source c' overrides .create) := by
      refine (h.methodFor_agree r source overrides).mono fun m m' hmethod hmethod' _ => ?_
      obtain ⟨⟨p, hmade⟩, -⟩ := methodFor_eq_ok hmethod
      obtain ⟨⟨p', hmade'⟩, -⟩ := methodFor_eq_ok hmethod'
      exact h.create_eq hmade hmade'
    exact hmethods.map fun m m' hcreate extra n =>
      invoker_append_eq rfl (fun inner this => hcreate inner this extra) n

/-- **Validators that accept everything make no difference.** Let the accepted names of the fields of
a model without validators have nothing in common, however it is constructed. Then a mapping into it
can be registered exactly if it can be registered into the model with such validators, else with the
same error; and all conversions and changes have the same outcome afterwards, down to the names that
count as assigned. The models are described differently: one is constructed from arguments under the
names of its fields, the other one under their aliases. -/
theorem register_withValidators_agree {populateByName : Bool} {validators : List Validator}
    (hbody : c.body = .model populateByName [])
    (haccepts : ∀ validator ∈ validators, ∀ object, validator object = none)
    (hdisjoint : c.ParamsDisjoint) (r : Registry) (source : Class) (overrides : Overrides) :
    Agree (fun r₁ r₂ => ∀ (this : Value) (extra : Extra),
        (∀ t : ClassHandle, r₂.convert this t extra = r₁.convert this t extra) ∧
          ∀ object : Value, r₂.update this object extra = r₁.update this object extra)
      (r.register source c overrides .create)
      (r.register source (c.withValidators validators) overrides .create) := by
  refine (register_agree (Class.interchangeable_withValidators hbody haccepts hdisjoint) r source
    overrides).mono ?_
  intro r₁ r₂ _ _ hsame this extra
  constructor
  · intro t
    rw [convert, convert, hsame]
  · intro object
    rw [update, update, hsame]

end Registry

/-- A model with aliases, one of which is for a field with a default. -/
def Sample.titledClass : Class :=
  ⟨⟨13, "Titled"⟩,
    [⟨"name", .builtin .str, none, some "title", true, true⟩,
      ⟨"count", .builtin .int, some (.int 0), some "n", true, false⟩], .model true []⟩

/-- Items are made titled alike with and without a validator, although their name is given under its
alias to the constructor that runs one. -/
theorem Registry.register_withValidators_agree_titled :
    Sample.titledClass.describe.strategy = .bypassing ∧
      (Sample.titledClass.withValidators [fun _ => none]).describe.strategy = .validating ∧
      (Sample.registry.register Sample.itemClass Sample.titledClass [] .create).isOk = true ∧
      Agree (fun r₁ r₂ => ∀ (this : Value) (extra : Extra),
          (∀ t : ClassHandle, r₂.convert this t extra = r₁.convert this t extra) ∧
            ∀ object : Value, r₂.update this object extra = r₁.update this object extra)
        (Sample.registry.register Sample.itemClass Sample.titledClass [] .create)
        (Sample.registry.register Sample.itemClass
          (Sample.titledClass.withValidators [fun _ => none]) [] .create) := by
  refine ⟨rfl, rfl, by decide +kernel, Registry.register_withValidators_agree rfl ?_ ?_ _ _ _⟩
  · intro validator hmem object
    obtain rfl := List.mem_singleton.mp hmem
    rfl
  · intro strategy
    cases strategy <;> simp [Sample.titledClass, Class.params]

end ObjectMapping
