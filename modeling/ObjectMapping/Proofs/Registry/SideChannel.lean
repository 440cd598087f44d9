import ObjectMapping.Proofs.Registry.Nesting

/-! # The caller's values are observed under their keys only

A caller hands values along with a source. They are handed on to everything that is invoked on the
way, and are looked at by the fields that take one of them, each under its key. So two callers whose
values agree under these keys get the same, whatever else they hand along and in whatever order.

* `Registry.extraKeys`: the keys under which the registered methods take values of the caller;
  **`Makes.mem_extraKeys_iff`** — they are the keys of the fields that are resolved to such values.
* **`Reached.invoker_eq_of_agreeOn`** — the invariant of all invocations, by induction on the height
  of the source.
* **`convert_and_update_eq_of_agreeOn`** — callers that agree under the keys get the same results and
  leave the same targets. -/

namespace ObjectMapping

open Outcome Conversion Registry

/-! ## The keys of the caller's values -/

/-- The key under which a statement takes one of the caller's values. -/
def Stmt.extraKey? : Stmt → Option String
  | .assign _ (.index (.var "extra") (.const (.str key))) => some key
  | _ => none

/-- The keys under which a method takes values of the caller. -/
def MappingMethod.extraKeys (m : MappingMethod) : List String :=
  m.function.body.filterMap Stmt.extraKey?

/-- The keys under which a mapping takes values of the caller; those between enums take none. -/
def Registered.extraKeys : Registered → List String
  | .method m => m.extraKeys
  | .enum _ => []

/-- The keys under which the mappings of a registry take values of the caller. -/
def Registry.extraKeys (r : Registry) : List String := r.mappings.flatMap (·.2.extraKeys)

/-- Two collections of values agree on keys: each key is absent from both, or has the same value in
both. -/
def Extra.AgreeOn (keys : List String) (extra extra' : Extra) : Prop :=
  ∀ key ∈ keys, extra.lookup key = extra'.lookup key

/-- A mapping that is found takes values under keys of the registry only. -/
theorem Registry.extraKeys_subset_of_lookup {r : Registry} {key : MappingKey}
    {registered : Registered} (h : r.lookup? key = some registered) :
    registered.extraKeys ⊆ r.extraKeys := fun _ hmem =>
  List.mem_flatMap.mpr ⟨(key, registered), Keyed.mem_of_lookup h, hmem⟩

namespace Plan

variable {p : Plan} {methods : MethodTable} {overrides : Overrides}

/-- The conversion of a source field does not take a value of the caller. -/
theorem extraKey?_assign_express {source target : FieldType} {object place code : Expr}
    {name : String} {depth : Nat}
    (h : express methods source (.attr object name) depth target = .ok code) :
    Stmt.extraKey? (.assign place code) = none := by
  induction target generalizing source depth with
  | any =>
    obtain rfl := express_any_iff.mp h
    rfl
  | named t =>
    obtain ⟨s, -, ⟨-, rfl⟩ | ⟨-, -, rfl⟩⟩ := express_named_iff.mp h <;> rfl
  | union members =>
    obtain ⟨rfl, -⟩ := express_union_iff.mp h
    rfl
  | list t =>
    obtain ⟨s, element, -, -, rfl⟩ := express_list_iff.mp h
    rfl
  | set t =>
    obtain ⟨s, element, -, -, rfl⟩ := express_set_iff.mp h
    rfl
  | dict tk tv =>
    obtain ⟨sk, sv, key, element, -, -, -, rfl⟩ := express_dict_iff.mp h
    rfl
  | tuple ts =>
    obtain ⟨ss, items, -, -, -, rfl⟩ := express_tuple_iff.mp h
    rfl
  | optional t ih =>
    obtain ⟨s, inner, -, -, rfl⟩ | ⟨-, hinner⟩ := express_optional_iff.mp h
    · rfl
    · exact ih hinner

/-- A condition around a statement hides the value that it takes, if it takes one at all. -/
theorem extraKey?_guarded {goal field : FieldDescriptor} {onlyIfSet : Bool} {value : Expr} {s : Stmt}
    (h : s.extraKey? = none) :
    (guarded onlyIfSet value (p.hooked field goal s)).extraKey? = none := by
  rw [guarded]
  split
  · rfl
  · rw [hooked]
    split
    · rfl
    · exact h

/-- A change in place takes no value of the caller. -/
theorem extraKey?_of_amended {value place : Expr} {source target : FieldType} {change : Stmt}
    (h : Amended methods value place source target change) : change.extraKey? = none := by
  cases h <;> rfl

/-- The statement for a field of a new object asks the caller for no value. -/
theorem extraKey?_createField {goal field : FieldDescriptor} {type : FieldType} {s : Stmt}
    (h : p.createField methods goal field type = .ok s) : s.extraKey? = none := by
  obtain ⟨code, hcode, rfl⟩ := createField_eq_ok.mp h
  exact extraKey?_assign_express hcode

/-- The statement for a field that is changed asks the caller for no value. -/
theorem extraKey?_updateField {goal field : FieldDescriptor} {type : FieldType} {s : Stmt}
    (h : p.updateField methods goal field type = .ok s) : s.extraKey? = none := by
  rcases updateField_eq_ok.mp h with hchange | ⟨-, code, hcode, rfl⟩
  · exact extraKey?_of_amended (amended_of_amend hchange)
  · exact extraKey?_assign_express hcode

/-- The statements for a field take a value of the caller exactly if the field is resolved to it. -/
theorem Compiles.mem_extraKeys_iff {entry : FieldDescriptor × Resolution}
    {group : FieldDescriptor × List Stmt} (h : p.Compiles methods entry group) (key : String) :
    key ∈ group.2.filterMap Stmt.extraKey? ↔ entry.2 = .fromExtra key := by
  obtain ⟨goal, resolution⟩ := entry
  obtain ⟨_, stmts⟩ := group
  obtain ⟨-, slot, -, hstmts⟩ := h
  dsimp only at hstmts ⊢
  cases resolution with
  | default =>
    obtain rfl := Except.ok.inj hstmts
    simp
  | factory f =>
    obtain rfl := Except.ok.inj hstmts
    cases f <;> simp [factoryCall, Stmt.extraKey?]
  | fromExtra other =>
    obtain rfl := Except.ok.inj hstmts
    simp [extraStmts, Stmt.when, Stmt.extraKey?, Expr.extra, Expr.str, eq_comm]
  | field field type onlyIfSet =>
    cases hdirection : p.direction with
    | create =>
      obtain ⟨s, hs, rfl⟩ := (fieldStmts_create_eq_ok hdirection).mp hstmts
      simp [extraKey?_guarded (extraKey?_createField hs)]
    | update =>
      obtain ⟨s, hs, rfl⟩ := (fieldStmts_update_eq_ok hdirection).mp hstmts
      simp [extraKey?_guarded (extraKey?_updateField hs)]

/-- In a create method the statements around those for the fields take no value of the caller. -/
theorem mem_extraKeys_createBody {groups : List (FieldDescriptor × List Stmt)} {key : String} :
    key ∈ (p.createBody groups).filterMap Stmt.extraKey? ↔
      ∃ group ∈ groups, key ∈ group.2.filterMap Stmt.extraKey? := by
  have hbody : (p.createBody groups).filterMap Stmt.extraKey?
      = ((groups.filter (·.1.accepted)).flatMap (·.2)).filterMap Stmt.extraKey? ++
        ((groups.filter (!·.1.accepted)).flatMap (·.2)).filterMap Stmt.extraKey? := by
    rw [createBody]
    split
    · next hempty =>
      simp [List.isEmpty_iff.mp hempty, List.filterMap_cons, Stmt.extraKey?, Expr.arguments]
    · simp [List.filterMap_cons, Stmt.extraKey?, Expr.arguments, Expr.created]
  rw [hbody]
  simp only [List.mem_append, List.mem_filterMap, List.mem_flatMap, List.mem_filter]
  constructor
  · rintro (⟨s, ⟨group, ⟨hgroup, -⟩, hs⟩, hkey⟩ | ⟨s, ⟨group, ⟨hgroup, -⟩, hs⟩, hkey⟩)
    · exact ⟨group, hgroup, s, hs, hkey⟩
    · exact ⟨group, hgroup, s, hs, hkey⟩
  · rintro ⟨group, hgroup, s, hs, hkey⟩
    cases haccepted : group.1.accepted with
    | true => exact .inl ⟨s, ⟨group, ⟨hgroup, haccepted⟩, hs⟩, hkey⟩
    | false => exact .inr ⟨s, ⟨group, ⟨hgroup, by rw [haccepted]; rfl⟩, hs⟩, hkey⟩

/-- An update method consists of the statements for its fields. -/
theorem mem_extraKeys_updateBody {groups : List (FieldDescriptor × List Stmt)} {key : String} :
    key ∈ (updateBody groups).filterMap Stmt.extraKey? ↔
      ∃ group ∈ groups, key ∈ group.2.filterMap Stmt.extraKey? := by
  have hbody : (updateBody groups).filterMap Stmt.extraKey?
      = (groups.flatMap (·.2)).filterMap Stmt.extraKey? := by
    rw [updateBody]
    split
    · next hempty => simp [List.isEmpty_iff.mp hempty, Stmt.extraKey?]
    · rfl
  rw [hbody, List.filterMap_flatMap, List.mem_flatMap]

/-- A method takes the values of the caller that its fields are resolved to. -/
theorem mem_extraKeys_of_assemble {target : Class} {m : MappingMethod}
    (hnodup : (p.target.fields.map (·.1)).Nodup) (hresolved : p.Resolved overrides)
    (hm : MappingMethod.assemble p target methods = .ok m) (key : String) :
    key ∈ m.extraKeys ↔ ∃ goal, (goal, .fromExtra key) ∈ p.goals := by
  obtain ⟨function, hfunction, hassembled⟩ := bind_eq_ok.mp hm
  obtain rfl := Except.ok.inj hassembled
  obtain ⟨groups, hgroups, hbody⟩ := bind_eq_ok.mp hfunction
  have hcompiles := forall₂_allStmts hnodup hresolved hgroups
  -- the statements of either direction are those of the groups and some that read no key
  have hkeys : key ∈ function.body.filterMap Stmt.extraKey? ↔
      ∃ group ∈ groups, key ∈ group.2.filterMap Stmt.extraKey? := by
    cases hdirection : p.direction with
    | create =>
      rw [hdirection] at hbody
      obtain rfl := Except.ok.inj hbody
      exact mem_extraKeys_createBody
    | update =>
      rw [hdirection] at hbody
      obtain rfl := Except.ok.inj hbody
      exact mem_extraKeys_updateBody
  rw [MappingMethod.extraKeys, hkeys]
  constructor
  · rintro ⟨group, hgroup, hkey⟩
    obtain ⟨entry, hentry, hcompiled⟩ := exists_of_forall₂ hcompiles.flip hgroup
    have hresolution := (Compiles.mem_extraKeys_iff hcompiled key).mp hkey
    exact ⟨entry.1, hresolution ▸ hentry⟩
  · rintro ⟨goal, hentry⟩
    obtain ⟨group, hgroup, hcompiled⟩ := exists_of_forall₂ hcompiles hentry
    exact ⟨group, hgroup, (hcompiled.mem_extraKeys_iff key).mpr rfl⟩

/-! ## Plans under values that agree -/

section Agreement

variable {create : Value → ClassHandle → Except Error Value} {source : Value} {extra extra' : Extra}

/-- A field contributes the same if the caller's values agree under its key. -/
theorem contribution_eq_of_agreeOn {keys : List String} {goal : FieldDescriptor}
    {resolution : Resolution} (hkeys : ∀ key, resolution = .fromExtra key → key ∈ keys)
    (hagree : extra.AgreeOn keys extra') :
    p.contribution create source extra goal resolution
      = p.contribution create source extra' goal resolution := by
  cases resolution with
  | fromExtra key =>
    rw [contribution, contribution, hagree key (hkeys key rfl)]
  | _ => rfl

end Agreement

end Plan

namespace Registry

variable {r : Registry} {source target : Class} {overrides : Overrides} {direction : Direction}
  {p : Plan} {methods : MethodTable} {m : MappingMethod} {extra extra' : Extra}

/-- **The keys of a method are those of the fields that are resolved to values of the caller.** -/
theorem Makes.mem_extraKeys_iff (h : r.Makes source target overrides direction p methods m)
    (key : String) : key ∈ m.extraKeys ↔ ∃ goal, (goal, .fromExtra key) ∈ p.goals :=
  Plan.mem_extraKeys_of_assemble h.nodup_fields h.resolved h.assemble key

/-- A field of a method contributes the same if the caller's values agree under the keys of the
method. -/
theorem Makes.contribution_eq_of_agreeOn (h : r.Makes source target overrides direction p methods m)
    (hagree : extra.AgreeOn m.extraKeys extra') (create : Value → ClassHandle → Except Error Value)
    (this : Value) : ∀ entry ∈ p.goals,
      p.contribution create this extra entry.1 entry.2
        = p.contribution create this extra' entry.1 entry.2 := by
  intro entry hentry
  refine Plan.contribution_eq_of_agreeOn ?_ hagree
  rintro key hkey
  exact (h.mem_extraKeys_iff key).mpr ⟨entry.1, hkey ▸ hentry⟩

/-- Values of the caller that agree on the keys of a method create equal objects. -/
theorem Makes.create_eq_of_agreeOn (h : r.Makes source target overrides .create p methods m)
    (hagree : extra.AgreeOn m.extraKeys extra') (inner : Invoker) (this : Value) :
    m.create inner this extra.value = m.create inner this extra'.value := by
  rw [h.create_eq, h.create_eq]
  exact Plan.evaluate_eq_of_contributions (h.contribution_eq_of_agreeOn hagree inner.create this)

/-- Values of the caller that agree on the keys of a method change objects alike. -/
theorem Makes.update_eq_of_agreeOn (h : r.Makes source target overrides .update p methods m)
    (hagree : extra.AgreeOn m.extraKeys extra') (inner : Invoker) (this object : Value) :
    m.update inner this object extra.value = m.update inner this object extra'.value := by
  rw [h.update_eq, h.update_eq]
  refine effects_congr ?_ object
  intro entry hentry owner
  have hgiven := h.contribution_eq_of_agreeOn hagree inner.create this entry hentry
  rw [Plan.changeField, Plan.changeField, Plan.contribute, Plan.contribute, hgiven]

/-! ## All invocations -/

namespace Reached

variable {log : List Registration} {inner : Invoker}

/-- One level of conversions does not tell callers apart that agree under the keys of the registry. -/
theorem createWith_eq_of_agreeOn (h : Reached log r) (hagree : extra.AgreeOn r.extraKeys extra')
    (this : Value) (t : ClassHandle) :
    r.createWith extra.value inner this t = r.createWith extra'.value inner this t := by
  rw [createWith, createWith]
  cases hfound : this.handle?.bind fun handle => r.lookup? (.of handle t .create) with
  | none => rfl
  | some registered =>
    cases registered with
    | enum m => rfl
    | method m =>
      obtain ⟨handle, -, hlookup⟩ := Option.bind_eq_some_iff.mp hfound
      obtain ⟨_, _, _, _, p, methods, -, -, -, -, hmade⟩ := h.lookup_method hlookup
      exact hmade.create_eq_of_agreeOn
        (fun key hkey => hagree key (extraKeys_subset_of_lookup hlookup hkey)) inner this

/-- One level of changes does not either. -/
theorem updateWith_eq_of_agreeOn (h : Reached log r) (hagree : extra.AgreeOn r.extraKeys extra')
    (this object : Value) :
    r.updateWith extra.value inner this object = r.updateWith extra'.value inner this object := by
  rw [updateWith, updateWith]
  cases hfound : this.handle?.bind fun s => object.handle?.bind fun t =>
      r.lookup? (.of s t .update) with
  | none => rfl
  | some registered =>
    cases registered with
    | enum m => rfl
    | method m =>
      obtain ⟨s, -, hobject⟩ := Option.bind_eq_some_iff.mp hfound
      obtain ⟨t, -, hlookup⟩ := Option.bind_eq_some_iff.mp hobject
      obtain ⟨_, _, _, _, p, methods, -, -, -, -, hmade⟩ := h.lookup_method hlookup
      exact hmade.update_eq_of_agreeOn
        (fun key hkey => hagree key (extraKeys_subset_of_lookup hlookup hkey)) inner this object

/-- **Whatever is invoked does not tell callers apart that agree under the keys of the registry.** -/
theorem invoker_eq_of_agreeOn (h : Reached log r) (hagree : extra.AgreeOn r.extraKeys extra')
    (n : Nat) : r.invoker extra.value n = r.invoker extra'.value n := by
  induction n with
  | zero => rfl
  | succ n ih =>
    -- the values are handed on as they are, so the level below is the same for both callers
    rw [invoker, invoker, ih]
    refine congrArg₂ Invoker.mk ?_ ?_
    · funext this t
      exact h.createWith_eq_of_agreeOn hagree this t
    · funext this object
      exact h.updateWith_eq_of_agreeOn hagree this object

end Reached

/-- **The caller's values are observed under the keys of the registry only.** Let two collections of
values agree under the keys under which registered methods take them. Then every conversion has the
same outcome under both, and every change has the same outcome and leaves the same target, however
deep the conversions and changes nest, whatever else the collections hold and in whatever order. -/
theorem convert_and_update_eq_of_agreeOn {log : List Registration} (hreached : Reached log r)
    (hagree : extra.AgreeOn r.extraKeys extra') (this : Value) :
    (∀ t : ClassHandle, r.convert this t extra = r.convert this t extra') ∧
      ∀ object : Value, r.update this object extra = r.update this object extra' := by
  constructor
  · intro t
    rw [convert, convert, hreached.invoker_eq_of_agreeOn hagree]
  · intro object
    rw [update, update, hreached.invoker_eq_of_agreeOn hagree]

/-- An order is viewed by its owner in the same way if the caller hands more along, before or after
the owner. -/
theorem convert_and_update_eq_of_agreeOn_order :
    Sample.registry.extraKeys = ["owner", "owner"] ∧
      (∀ t, Sample.registry.convert (Sample.orderOf "pen") t [("owner", .str "me")]
        = Sample.registry.convert (Sample.orderOf "pen") t
            [("item", .str "ink"), ("owner", .str "me"), ("reader", .none)]) ∧
      ∀ object, Sample.registry.update (Sample.orderOf "pen") object [("owner", .str "me")]
        = Sample.registry.update (Sample.orderOf "pen") object
            [("item", .str "ink"), ("owner", .str "me"), ("reader", .none)] := by
  have hkeys : Sample.registry.extraKeys = ["owner", "owner"] := by decide +kernel
  refine ⟨hkeys, convert_and_update_eq_of_agreeOn Sample.reached ?_ (Sample.orderOf "pen")⟩
  rw [hkeys]
  intro key hkey
  obtain rfl : key = "owner" := by simpa using hkey
  rfl

end Registry

end ObjectMapping
