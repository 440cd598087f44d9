import ObjectMapping.Proofs.Conversion.Pairing
import ObjectMapping.Proofs.Plan.Directions
import ObjectMapping.Proofs.Registry.Methods
import ObjectMapping.Proofs.Registry.Order

/-! # Update methods that come with create methods

An update method is made with the methods that are registered by then: a nested object is changed in
place if there is an update method for it, and replaced by a new one otherwise. So it matters, in
general, whether the mapping of the nested object is registered before. It does not if no update
method is registered apart from the create method for the same classes: the create method of the
outer mapping needs the create method of the nested one, which has its update method with it.

* `Registration.Paired`: a registration that has no update method without a create method.
* **`MappingMethod.assemble_paired`** — an update method stays what it is when there are more methods.
* **`Registry.lookup_of_perm`** — all methods are the same in whatever order they are registered.
* **`Registry.assembled_of_enterAll`** — all methods are made with all the others at hand. -/

namespace ObjectMapping

open Outcome

/-! ## Methods -/

namespace Plan

variable {source target : Descriptor} {overrides : Overrides} {p p' : Plan} {c : Class}
  {methods methods' : MethodTable}

/-- A field is changed in the same way when there are more methods, if it can be converted. -/
theorem updateField_paired (hwithin : methods.Within methods') (hpaired : methods.Paired methods')
    {goal field : FieldDescriptor} {type : FieldType} {s : Stmt}
    (hconvertible : Conversion.Convertible methods type goal.type)
    (h : p.updateField methods goal field type = .ok s) :
    p.updateField methods' goal field type = .ok s := by
  rcases updateField_eq_ok.mp h with hchange | ⟨hnone, created, hcreated, hassign⟩
  · exact updateField_eq_ok.mpr (.inl (Conversion.amend_mono hwithin hchange))
  · -- a change in place would have been possible before
    refine updateField_eq_ok.mpr (.inr ⟨fun change hchange => ?_, created, ?_, hassign⟩)
    · obtain ⟨before, hbefore⟩ := Conversion.amend_paired hpaired hconvertible hchange
      exact hnone before hbefore
    · exact Conversion.express_mono hwithin hcreated

/-- The statements for a field of an update method stay the same when there are more methods, if the
field can be converted for a new object. -/
theorem fieldStmts_paired (hwithin : methods.Within methods') (hpaired : methods.Paired methods')
    (hupdate : p.direction = .update) {goal : FieldDescriptor} {resolution resolution' : Resolution}
    (hcounterpart : resolution.Counterpart resolution')
    (hconvertible : ∀ field type onlyIfSet, resolution = .field field type onlyIfSet →
      Conversion.Convertible methods type goal.type)
    {slot : Nat} {stmts : List Stmt} (h : p.fieldStmts methods goal slot resolution' = .ok stmts) :
    p.fieldStmts methods' goal slot resolution' = .ok stmts := by
  cases resolution' with
  | field field type onlyIfSet =>
    have hread : Conversion.Convertible methods type goal.type := by
      cases hcounterpart with
      | same => exact hconvertible field type onlyIfSet rfl
      | skipping => exact (hconvertible field (.optional type) false rfl).of_optional_source
    obtain ⟨s, hs, hstmts⟩ := (fieldStmts_update_eq_ok hupdate).mp h
    exact (fieldStmts_update_eq_ok hupdate).mpr
      ⟨s, updateField_paired hwithin hpaired hread hs, hstmts⟩
  | _ => exact h

/-- Statements stay the same if those for each field do. -/
theorem allStmts_congr {entries : List (String × Resolution)}
    (hfields : ∀ entry ∈ entries, ∀ goal, p.target.field? entry.1 = some goal →
      ∀ slot stmts, p.fieldStmts methods goal slot entry.2 = .ok stmts →
        p.fieldStmts methods' goal slot entry.2 = .ok stmts)
    {slot : Nat} {groups : List (FieldDescriptor × List Stmt)}
    (h : p.allStmts methods slot entries = .ok groups) :
    p.allStmts methods' slot entries = .ok groups := by
  induction entries generalizing slot groups with
  | nil => exact h
  | cons entry rest ih =>
    obtain ⟨name, resolution⟩ := entry
    have hrest := fun {slot groups} =>
      @ih (fun other hmem => hfields other (List.mem_cons_of_mem _ hmem)) slot groups
    unfold allStmts at h ⊢
    cases hgoal : p.target.field? name with
    | none =>
      rw [hgoal] at h
      exact hrest h
    | some goal =>
      rw [hgoal] at h
      obtain ⟨stmts, hstmts, hothers⟩ := bind_eq_ok.mp h
      obtain ⟨others, hgroups, hcons⟩ := bind_eq_ok.mp hothers
      refine bind_eq_ok.mpr ⟨stmts, ?_, bind_eq_ok.mpr ⟨others, hrest hgroups, hcons⟩⟩
      exact hfields _ List.mem_cons_self goal hgoal slot stmts hstmts

/-- A field of the plan for changes is one of the plan for new objects. -/
theorem exists_counterpart (hnodup : (target.fields.map (·.1)).Nodup)
    (hbuild : build source target .create overrides = .ok p)
    (hbuild' : build source target .update overrides = .ok p') {entry : String × Resolution}
    (hmem : entry ∈ p'.entries) {goal : FieldDescriptor} (hgoal : target.field? entry.1 = some goal) :
    ∃ resolution, (goal, resolution) ∈ p.goals ∧ resolution.Counterpart entry.2 := by
  obtain ⟨hsource, htarget, hdirection, hresolved⟩ := build_eq_ok hbuild
  obtain ⟨hsource', htarget', hdirection', hresolved'⟩ := build_eq_ok hbuild'
  obtain ⟨⟨name, field⟩, hfield, hname, hupdate⟩ := exists_of_forall₂ hresolved'.flip hmem
  rw [htarget'] at hfield
  obtain rfl : field = goal := by
    have hfound := Keyed.lookup_of_mem hnodup hfield
    rw [show entry.1 = name from hname] at hgoal
    exact Option.some.inj (hfound.symm.trans hgoal)
  have hgoals := forall₂_goals (htarget.symm ▸ hnodup) hresolved
  rw [htarget] at hgoals
  obtain ⟨⟨_, resolution⟩, hfound, rfl, hcreate⟩ := exists_of_forall₂ hgoals hfield
  rw [hsource, hdirection] at hcreate
  rw [hsource', htarget', hdirection'] at hupdate
  exact ⟨resolution, hfound, counterpart_of_resolve hcreate hupdate⟩

end Plan

/-- **An update method stays what it is when there are more methods**, if the create method for the
same classes could be made. -/
theorem MappingMethod.assemble_paired {source target : Descriptor} {overrides : Overrides}
    {p p' : Plan} {c : Class} {methods methods' : MethodTable} {m m' : MappingMethod}
    (hwithin : methods.Within methods') (hpaired : methods.Paired methods')
    (hnodup : (target.fields.map (·.1)).Nodup)
    (hbuild : Plan.build source target .create overrides = .ok p)
    (hassemble : assemble p c methods = .ok m)
    (hbuild' : Plan.build source target .update overrides = .ok p')
    (hassemble' : assemble p' c methods = .ok m') : assemble p' c methods' = .ok m' := by
  obtain ⟨-, htarget, hdirection, hresolved⟩ := Plan.build_eq_ok hbuild
  obtain ⟨-, htarget', hdirection', -⟩ := Plan.build_eq_ok hbuild'
  have hsupported := Plan.supported_of_assemble (htarget.symm ▸ hnodup) hresolved hassemble
  obtain ⟨function, hfunction, hm⟩ := bind_eq_ok.mp hassemble'
  obtain ⟨groups, hgroups, hbody⟩ := bind_eq_ok.mp hfunction
  refine bind_eq_ok.mpr ⟨function, bind_eq_ok.mpr ⟨groups, ?_, hbody⟩, hm⟩
  refine Plan.allStmts_congr (fun entry hmem goal hgoal slot stmts hstmts => ?_) hgroups
  rw [htarget'] at hgoal
  obtain ⟨resolution, hfound, hcounterpart⟩ :=
    Plan.exists_counterpart hnodup hbuild hbuild' hmem hgoal
  refine Plan.fieldStmts_paired hwithin hpaired hdirection' hcounterpart ?_ hstmts
  rintro field type onlyIfSet rfl
  have hsupports := hsupported hfound
  rw [Plan.Supports, hdirection, if_neg (by simp)] at hsupports
  obtain ⟨code, hcode⟩ := hsupports
  exact Conversion.convertible_of_express hcode

/-! ## Registrations -/

namespace Registration

/-- Whether a registration has an update method together with a create method only, and between
different classes. -/
def Paired : Registration → Prop
  | .classes source target _ mode => mode ≠ .update ∧ source.handle.id ≠ target.handle.id
  | .enums .. => True

/-- A registration that has an update method has a create method for the same classes, which differ. -/
theorem Paired.create_mem_keys {registration : Registration} (h : registration.Paired)
    {s t : ClassHandle} (hkey : .of s t .update ∈ registration.keys) :
    .of s t .create ∈ registration.keys ∧ s.same t = false := by
  cases registration with
  | classes source target overrides mode =>
    obtain ⟨direction, hdirection, hk⟩ := List.mem_map.mp hkey
    obtain ⟨hs, ht, rfl⟩ := MappingKey.mk.inj hk
    have hcreate : MappingKey.of s t .create = .of source.handle target.handle .create := by
      rw [MappingKey.of, MappingKey.of, hs, ht]
    refine ⟨?_, beq_eq_false_iff_ne.mpr (by rw [← hs, ← ht]; exact h.2)⟩
    cases mode with
    | create => simp [Mode.directions] at hdirection
    | update => exact absurd rfl h.1
    | createAndUpdate => exact hcreate ▸ List.mem_cons_self
  | enums source target overrides =>
    cases (MappingKey.mk.inj (List.mem_singleton.mp hkey)).2.2

end Registration

namespace Registry

variable {r r' : Registry} {registrations : List Registration} {source target : Class}
  {overrides : Overrides} {mode : Mode} {direction : Direction}

/-- What is registered later brings no update method for a create method that is there. -/
theorem methodTable_paired (hpaired : ∀ registration ∈ registrations, registration.Paired)
    (h : r.enterAll registrations = .ok r') : r.methodTable.Paired r'.methodTable := by
  intro s t hupdate hconverts
  refine ((contains_of_enterAll h _).mp hupdate).resolve_right ?_
  rintro ⟨registration, hmem, hkey⟩
  obtain ⟨hcreate, hdiffer⟩ := (hpaired registration hmem).create_mem_keys hkey
  have hnew := new_of_enterAll h hmem hcreate
  rcases hconverts with hsame | hmethod
  · rw [hsame] at hdiffer
    cases hdiffer
  · rw [show r.contains _ = true from hmethod] at hnew
    cases hnew

/-- Methods stay when registrations are entered. -/
theorem methodTable_within (h : r.enterAll registrations = .ok r') :
    r.methodTable.Within r'.methodTable := by
  intro s t d hmethod
  exact (contains_of_enterAll h _).mpr (.inl hmethod)

/-- A registration enters the methods that are made with those of the registry. -/
theorem lookup_of_register (h : r.enter (.classes source target overrides mode) = .ok r')
    (hdirection : direction ∈ mode.directions) :
    ∃ m, r.methodFor source target overrides direction = .ok m ∧
      r'.lookup? (.of source.handle target.handle direction) = some (.method m) := by
  obtain ⟨methods, hmethods, hinsert⟩ := bind_eq_ok.mp h
  obtain ⟨rfl, hnew⟩ := insertAll_eq_ok hinsert
  rw [methodsFor] at hmethods
  split at hmethods
  · cases hmethods
  · obtain ⟨m, hmem, hmethod⟩ := exists_of_forall₂ (mapM_eq_ok.mp hmethods) hdirection
    have hentry := List.mem_map_of_mem (f := fun m : MappingMethod =>
      (MappingKey.of m.source m.target.handle m.direction, Registered.method m)) hmem
    rw [(methodFor_eq_ok hmethod).2] at hentry
    refine ⟨m, hmethod, lookup_append_of_new (hnew _ hentry) ?_ hentry⟩
    rw [keys_mapM_methodFor hmethods]
    exact nodup_keys (.classes source target overrides mode)

/-- **All methods are made with all the others at hand**, however late these were registered, if the
registrations are paired. -/
theorem assembled_of_enterAll (hpaired : ∀ registration ∈ registrations, registration.Paired)
    (h : r.enterAll registrations = .ok r')
    (hmem : .classes source target overrides mode ∈ registrations)
    (hdirection : direction ∈ mode.directions) :
    ∃ m, r'.methodFor source target overrides direction = .ok m ∧
      r'.lookup? (.of source.handle target.handle direction) = some (.method m) := by
  obtain ⟨before, after, rfl⟩ := List.append_of_mem hmem
  rw [enterAll_append] at h
  obtain ⟨earlier, -, hrest⟩ := bind_eq_ok.mp h
  have hlater : ∀ registration ∈ .classes source target overrides mode :: after,
      registration.Paired :=
    fun registration hin => hpaired registration (List.mem_append_right _ hin)
  have hwithin := methodTable_within hrest
  have htable := methodTable_paired hlater hrest
  obtain ⟨now, hentered, hafter⟩ := bind_eq_ok.mp hrest
  obtain ⟨m, hmethod, hlookup⟩ := lookup_of_register hentered hdirection
  refine ⟨m, ?_, (extends_of_enterAll hafter).lookup hlookup⟩
  obtain ⟨p, hbuild, hassemble⟩ := bind_eq_ok.mp hmethod
  refine bind_eq_ok.mpr ⟨p, hbuild, ?_⟩
  cases direction with
  | create =>
    obtain ⟨m', hassemble', hsame⟩ := MappingMethod.assemble_grows hwithin p target m hassemble
    rw [hassemble', hsame (Plan.build_eq_ok hbuild).2.2.1]
  | update =>
    -- the create method for the same classes was made at the same time
    have hcreate : .create ∈ mode.directions := by
      cases mode with
      | create => simp [Mode.directions] at hdirection
      | update => exact absurd rfl (hpaired _ hmem).1
      | createAndUpdate => exact List.mem_cons_self
    obtain ⟨_, hmade, -⟩ := lookup_of_register hentered hcreate
    obtain ⟨p', hbuild', hassemble'⟩ := bind_eq_ok.mp hmade
    exact MappingMethod.assemble_paired hwithin htable target.nodup_describe_fields hbuild' hassemble'
      hbuild hassemble

/-- **All methods are the same in whatever order they are registered**, if the registrations are
paired. -/
theorem lookup_of_perm {other : Registry} {others : List Registration} {key : MappingKey}
    (hpaired : ∀ registration ∈ registrations, registration.Paired)
    (hperm : registrations.Perm others) (h : r.enterAll registrations = .ok r')
    (h' : r.enterAll others = .ok other) : r'.lookup? key = other.lookup? key := by
  cases hdirection : key.direction with
  | create => exact lookup_create_of_perm hperm h h' hdirection
  | update =>
    refine lookup_eq_of_perm hperm h h' fun registration hmem hkey => ?_
    cases registration with
    | enums source target overrides =>
      obtain rfl := List.mem_singleton.mp hkey
      cases hdirection
    | classes source target overrides mode =>
      obtain ⟨direction, hmode, rfl⟩ := List.mem_map.mp hkey
      have hpaired' : ∀ registration ∈ others, registration.Paired :=
        fun registration hin => hpaired registration (hperm.mem_iff.mpr hin)
      obtain ⟨m, hmethod, hlookup⟩ := assembled_of_enterAll hpaired h hmem hmode
      obtain ⟨m', hmethod', hlookup'⟩ :=
        assembled_of_enterAll hpaired' h' (hperm.mem_iff.mp hmem) hmode
      -- both are made with the same methods at hand
      have htable : r'.methodTable = other.methodTable :=
        congrArg tableOf (contains_of_perm hperm h h')
      rw [methodFor, htable] at hmethod
      obtain rfl := Except.ok.inj (hmethod.symm.trans hmethod')
      rw [hlookup, hlookup']

end Registry

end ObjectMapping
