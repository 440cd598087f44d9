import ObjectMapping.Proofs.Class.Construction
import ObjectMapping.Proofs.Conversion.RevisionSafety
import ObjectMapping.Proofs.Plan.Progress

/-! # Registered methods are safe on conforming values

A registered method reads fields that its source has, converts them by conversions that exist, gives
the constructor what it takes and assigns fields that its target has. So it fails with rejections
only, as far as the mappings that it invokes do.

* `assumedFields`: the source fields that a mapping reads as never absent.
* **`Makes.create_safe`**, **`Makes.update_safe`** — create and update methods are safe. -/

namespace ObjectMapping

open Outcome Conversion

/-- The source fields that a mapping reads as never absent, because an override says so. -/
def assumedFields (target : Class) (overrides : Overrides) : List String :=
  target.slots.filterMap fun slot =>
    match overrides.lookup slot.name with
    | some (.assumeNotNone name?) => some (name?.getD slot.name)
    | _ => none

/-- A source that a mapping between two declared classes is meant for. -/
structure Declarations.Fits (D : Declarations) (source target : Class) (overrides : Overrides)
    (this : Value) : Prop where
  source_mem : source ∈ D.classes
  target_mem : target ∈ D.classes
  conforms : D.Conforms (.named source.handle) this
  /-- What is assumed to be there is there. -/
  present : ∀ name ∈ assumedFields target overrides, ∀ part, this.field name = .ok part →
    part.isNone = false

/-- The object has a conforming value for every one of the target fields. -/
def Declarations.Holds (D : Declarations) (owner : Value)
    (goals : List (FieldDescriptor × Resolution)) : Prop :=
  ∀ entry ∈ goals, ∃ old, owner.field entry.1.name = .ok old ∧ D.Conforms entry.1.type old

/-- After a change of one field the others are as they were. -/
theorem Declarations.Holds.of_changedAt {D : Declarations} {owner owner' : Value}
    {entry : FieldDescriptor × Resolution} {rest : List (FieldDescriptor × Resolution)}
    (h : D.Holds owner (entry :: rest)) (hchanged : Value.ChangedAt entry.1.name owner owner')
    (hname : entry.1.name ∉ rest.map (·.1.name)) : D.Holds owner' rest := by
  intro other hother
  obtain ⟨old, hfield, hold⟩ := h other (List.mem_cons_of_mem _ hother)
  refine ⟨old, ?_, hold⟩
  rw [hchanged.field_eq _ fun heq => hname (heq ▸ List.mem_map.mpr ⟨other, hother, rfl⟩), hfield]

namespace Registry.Makes

variable {D : Declarations} {r : Registry} {source target : Class} {overrides : Overrides}
  {direction : Direction} {p : Plan} {methods : MethodTable} {m : MappingMethod} {this : Value}
  {extra : Extra} {invoker : Invoker}

/-- Whether an assignment is wanted can be told from an object. -/
theorem exists_intended (p : Plan) (goal field : FieldDescriptor)
    (hfits : D.Fits source target overrides this) :
    ∃ b, p.intended this goal field = .ok b := by
  obtain ⟨owner, fields, assigned, rfl, -⟩ := hfits.conforms.class_inv hfits.source_mem rfl
  rw [Plan.intended]
  split
  · exact ⟨_, rfl⟩
  · exact ⟨true, rfl⟩

/-- **A source field is there to be read**, and where it is used it is a value of the type that it is
read as. -/
theorem exists_part (h : r.Makes source target overrides direction p methods m)
    (hfits : D.Fits source target overrides this) {goal field : FieldDescriptor} {type : FieldType}
    {onlyIfSet : Bool} (hmem : (goal, .field field type onlyIfSet) ∈ p.goals) :
    ∃ part performed, this.field field.name = .ok part ∧
      p.performs this goal field onlyIfSet = .ok performed ∧
        (performed = true → D.Conforms type part) := by
  obtain ⟨slot, hslot, rfl, hresolve⟩ := h.goal_inv (D.distinct target hfits.target_mem).names hmem
  obtain ⟨name, hfield, hreads⟩ := Plan.resolve_eq_field hresolve
  obtain ⟨slot', hslot', rfl, rfl⟩ :=
    Class.exists_slot_of_field? (D.distinct source hfits.source_mem).names hfield
  obtain ⟨part, hpart, hconforms⟩ := hfits.conforms.field hfits.source_mem rfl hslot'
  obtain ⟨wanted, hwanted⟩ := exists_intended p (slot.describe (target.paramOf slot))
    (slot'.describe (source.paramOf slot')) hfits
  have hpresent : Plan.present this (slot'.describe (source.paramOf slot')) onlyIfSet
      = .ok (!onlyIfSet || !part.isNone) := by
    cases onlyIfSet with
    | false => rfl
    | true =>
      rw [Plan.present, if_pos rfl]
      show (this.field slot'.name).map _ = _
      rw [hpart]
      rfl
  refine ⟨part, (!onlyIfSet || !part.isNone) && wanted, hpart, ?_, ?_⟩
  · rw [Plan.performs, hpresent, ok_bind, hwanted]
    cases !onlyIfSet || !part.isNone <;> rfl
  · intro hperformed
    obtain ⟨hthere, -⟩ := Bool.and_eq_true_iff.mp hperformed
    -- the type is the declared one, or the value is there: it was tested, or it is assumed
    rcases hreads with rfl | ⟨rfl, rfl | ⟨name?, hoverride, hname⟩⟩
    · exact hconforms
    · exact hconforms.strip (by simpa using hthere)
    · refine hconforms.strip (hfits.present slot'.name ?_ part hpart)
      refine List.mem_filterMap.mpr ⟨slot, hslot, ?_⟩
      have hlookup : overrides.lookup slot.name = some (.assumeNotNone name?) := hoverride
      rw [hlookup]
      exact congrArg some hname

/-- What is invoked for parts of the source is safe on them. -/
theorem creates_part {part : Value} {name : String}
    (hcreate : CreatesSafely D methods invoker.create (this.height - 1))
    (hpart : this.field name = .ok part) : CreatesSafely D methods invoker.create part.height := by
  exact hcreate.mono (Value.height_le_of_field hpart)

/-- The contribution of a field is safe. -/
theorem contribution_safe (h : r.Makes source target overrides direction p methods m)
    (hfits : D.Fits source target overrides this) {goal : FieldDescriptor} {resolution : Resolution}
    (hmem : (goal, resolution) ∈ p.goals)
    (hexpress : ∀ field type onlyIfSet, resolution = .field field type onlyIfSet →
      ∃ code, express methods type (.attr .self field.name) 0 goal.type = .ok code)
    (hcreate : CreatesSafely D methods invoker.create (this.height - 1)) :
    Safe (p.contribution invoker.create this extra goal resolution) := by
  cases resolution with
  | default => exact trivial
  | factory f => exact trivial
  | fromExtra key =>
    rw [Plan.contribution]
    split
    · exact trivial
    · exact rfl
  | field field type onlyIfSet =>
    obtain ⟨code, hcode⟩ := hexpress field type onlyIfSet rfl
    obtain ⟨part, performed, hpart, hperforms, hconforms⟩ := h.exists_part hfits hmem
    rw [Plan.contribution, hperforms, ok_bind, hpart]
    cases performed with
    | false => exact trivial
    | true =>
      rw [if_pos rfl]
      exact (direct_safe hcode (hconforms rfl) (creates_part hcreate hpart)).bind
        fun _ _ => trivial

/-- **A registered create method is safe on a conforming source.** -/
theorem create_safe (h : r.Makes source target overrides .create p methods m)
    (hfits : D.Fits source target overrides this)
    (hcreate : CreatesSafely D methods invoker.create (this.height - 1)) :
    Safe (m.create invoker this extra.value) := by
  have hnames := (D.distinct target hfits.target_mem).names
  have hcontribution : ∀ entry ∈ p.goals,
      Safe (p.contribution invoker.create this extra entry.1 entry.2) := by
    rintro ⟨goal, resolution⟩ hmem
    refine h.contribution_safe hfits hmem ?_ hcreate
    rintro field type onlyIfSet rfl
    have hsupports := h.supported hmem
    rw [Plan.Supports, h.direction_eq, if_neg (by simp)] at hsupports
    exact hsupports
  rw [h.create_eq, Plan.evaluate]
  refine Meets.bind (Q := fun _ => True) (meets_foldlM ?_ trivial) ?_
  · intro entry hmem args _
    refine (hcontribution entry (List.mem_filter.mp hmem).1).bind ?_
    intro given _
    cases given <;> exact trivial
  · intro args _
    refine (Class.construct_meets hnames p.target.strategy args).bind ?_
    intro object hobject
    -- the object keeps all its fields, so every assignment finds its own
    refine (meets_foldlM (I := fun object => object.names = target.slots.map (·.name))
      ?_ hobject.1).mono fun _ _ => trivial
    intro entry hmem object hobject
    refine (hcontribution entry (List.mem_filter.mp hmem).1).bind ?_
    intro given _
    cases given with
    | none => exact hobject
    | some value =>
      obtain ⟨slot, hslot, hgoal, -⟩ := h.goal_inv hnames (List.mem_filter.mp hmem).1
      have hname : entry.1.name ∈ object.names := by
        rw [hobject, hgoal]
        exact List.mem_map_of_mem hslot
      obtain ⟨object', hassign, hchanged, -⟩ := Value.exists_assign hname value
      show Meets _ _ (object.assign entry.1.name value)
      rw [hassign]
      exact hchanged.names_eq.trans hobject

/-! ## Update methods -/

/-- The outcome and the state of an assigned contribution. -/
theorem assign_contribution {owner : Value} {goal : FieldDescriptor} {resolution : Resolution}
    {create : Value → ClassHandle → Except Error Value} (hname : goal.name ∈ owner.names)
    (hsafe : Safe (p.contribution create this extra goal resolution)) :
    Safe (Effect.ofExcept owner
      (p.contribute create this extra Plan.asField owner (goal, resolution))).1 := by
  rw [Plan.contribute]
  dsimp only
  generalize p.contribution create this extra goal resolution = given at hsafe ⊢
  rcases given with e | given
  · exact hsafe
  · cases given with
    | none => exact trivial
    | some value =>
      obtain ⟨owner', hassign, -⟩ := Value.exists_assign hname value
      show Safe (Effect.ofExcept owner (owner.assign goal.name value)).1
      rw [hassign]
      exact trivial

/-- The change of a field is safe, if the field holds a value of its type. -/
theorem changeField_safe (h : r.Makes source target overrides .update p methods m)
    (extra : Extra) (hfits : D.Fits source target overrides this) {owner old : Value}
    {entry : FieldDescriptor × Resolution} (hmem : entry ∈ p.goals)
    (hfield : owner.field entry.1.name = .ok old) (hold : D.Conforms entry.1.type old)
    (hcreate : CreatesSafely D methods invoker.create (this.height - 1))
    (hupdate : UpdatesSafely D methods invoker.update (this.height - 1)) :
    Safe (p.changeField methods invoker this extra owner entry).1 := by
  obtain ⟨goal, resolution⟩ := entry
  have hname : goal.name ∈ owner.names := Value.mem_names_iff.mpr ⟨old, hfield⟩
  cases resolution with
  | field field type onlyIfSet =>
    obtain ⟨part, performed, hpart, hperforms, hconforms⟩ := h.exists_part hfits hmem
    have hsupports := h.supported hmem
    rw [Plan.Supports] at hsupports
    rw [Plan.changeField]
    dsimp only
    rw [hperforms, Plan.revision, hpart]
    refine safe_branch ?_ fun _ => trivial
    intro hperformed
    have hcreate' := creates_part hcreate hpart
    have hheight := Value.height_le_of_field hpart
    -- the value is there and of its type, so both kinds of change are safe for it
    by_cases hinPlace : Plan.changesInPlace methods goal field type = true
    · rw [if_pos ⟨h.direction_eq, hinPlace⟩] at hsupports
      obtain ⟨change, hchange⟩ := hsupports
      rw [if_pos hinPlace]
      exact revise_safe hchange (hconforms hperformed) hfield hold hcreate' (hupdate.mono hheight)
    · rw [if_neg fun h => hinPlace h.2] at hsupports
      obtain ⟨code, hcode⟩ := hsupports
      rw [if_neg hinPlace]
      exact safe_assign_effect hname (direct_safe hcode (hconforms hperformed) hcreate')
  | _ =>
    refine assign_contribution hname (h.contribution_safe hfits hmem ?_ hcreate)
    rintro _ _ _ ⟨⟩

/-- The change of a field leaves the other fields alone. -/
theorem changedAt_changeField (h : r.Makes source target overrides .update p methods m)
    (invoker : Invoker) (this : Value) (extra : Extra) (owner : Value)
    {entry : FieldDescriptor × Resolution} (hmem : entry ∈ p.goals) :
    Value.ChangedAt entry.1.name owner
      (p.changeField methods invoker this extra owner entry).2 :=
  (Plan.steps_changeField invoker this extra owner h.supported h.direction_eq
    hmem).touchedWithin.changedAt

/-- An object of the target class has a conforming value for every target field. -/
theorem holds_goals (h : r.Makes source target overrides direction p methods m)
    (htarget : target ∈ D.classes) {object : Value}
    (hobject : D.Conforms (.named target.handle) object) : D.Holds object p.goals := by
  intro entry hmem
  obtain ⟨slot, hslot, hgoal, -⟩ := h.goal_inv (D.distinct target htarget).names hmem
  rw [hgoal]
  exact hobject.field htarget rfl hslot

/-- The target fields are the slots of the target class. -/
theorem map_goal_names (h : r.Makes source target overrides direction p methods m)
    (hnames : (target.slots.map (·.name)).Nodup) :
    p.goals.map (·.1.name) = target.slots.map (·.name) := by
  have hgoals := congrArg (List.map FieldDescriptor.name) (h.map_goals hnames)
  rw [List.map_map, List.map_map] at hgoals
  exact hgoals

/-- The changes of fields with distinct names are safe together: the fields that are still to be
changed are as they were. -/
theorem changeFields_safe (h : r.Makes source target overrides .update p methods m)
    (hfits : D.Fits source target overrides this)
    (hcreate : CreatesSafely D methods invoker.create (this.height - 1))
    (hupdate : UpdatesSafely D methods invoker.update (this.height - 1))
    {goals : List (FieldDescriptor × Resolution)} (hgoals : ∀ entry ∈ goals, entry ∈ p.goals)
    (hnodup : (goals.map (·.1.name)).Nodup) {owner : Value} (howner : D.Holds owner goals) :
    Safe (effects (p.changeField methods invoker this extra) goals owner).1 := by
  -- the induction carries that the fields to come still hold conforming values
  induction goals generalizing owner with
  | nil => exact trivial
  | cons entry rest ih =>
    obtain ⟨old, hfield, hold⟩ := howner entry List.mem_cons_self
    have hmem := hgoals entry List.mem_cons_self
    have hsafe := h.changeField_safe extra hfits hmem hfield hold hcreate hupdate
    have hchanged := h.changedAt_changeField invoker this extra owner hmem
    rw [List.map_cons, List.nodup_cons] at hnodup
    rw [effects_cons]
    generalize p.changeField methods invoker this extra owner entry = x at hsafe hchanged ⊢
    obtain ⟨outcome, next⟩ := x
    cases outcome with
    | error e => exact hsafe
    | ok _ =>
      exact ih (fun other hother => hgoals other (List.mem_cons_of_mem _ hother)) hnodup.2
        (howner.of_changedAt hchanged hnodup.1)

/-- **A registered update method is safe on a conforming source and a conforming target.** -/
theorem update_safe (h : r.Makes source target overrides .update p methods m)
    (hfits : D.Fits source target overrides this) {object : Value}
    (hobject : D.Conforms (.named target.handle) object)
    (hcreate : CreatesSafely D methods invoker.create (this.height - 1))
    (hupdate : UpdatesSafely D methods invoker.update (this.height - 1)) :
    Safe (m.update invoker this object extra.value).1 := by
  have hnames := (D.distinct target hfits.target_mem).names
  rw [h.update_eq, Plan.change]
  exact h.changeFields_safe hfits hcreate hupdate (fun _ hmem => hmem)
    ((h.map_goal_names hnames).symm ▸ hnames) (h.holds_goals hfits.target_mem hobject)

end Registry.Makes

end ObjectMapping
