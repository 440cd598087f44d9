import ObjectMapping.Proofs.Conversion.Agreement
import ObjectMapping.Proofs.Plan.Evaluation

/-! # Plans for the two directions

For the same classes and overrides, the plan for changes resolves a field as the plan for new objects
does, except that it may skip an absent value where the other one would take it. If nothing is left
alone and nothing is skipped, the two plans have the same value for the field.

* **`Resolution.Counterpart`** — how resolutions for the two directions differ, and
  `counterpart_of_resolve`, that they differ in no other way.
* `Plan.assignsAll`: a plan leaves no field alone and skips no assignment.
* **`Plan.contribution_of_counterpart`** — then both plans have the same value for a field. -/

namespace ObjectMapping

open Outcome

/-- How the resolutions of a target field for new objects and for changes differ. -/
inductive Resolution.Counterpart : Resolution → Resolution → Prop
  | same (resolution : Resolution) : Counterpart resolution resolution
  /-- A change skips the absent value that a new object would take. -/
  | skipping {field : FieldDescriptor} {inner : FieldType} :
      Counterpart (.field field (.optional inner) false) (.field field inner true)

namespace Plan

variable {source target : Descriptor} {overrides : Overrides} {key : String}
  {goal : FieldDescriptor} {r r' : Resolution}

/-- A change may skip the absent value of a source field that a new object takes. -/
theorem counterpart_of_fromField (field goal : FieldDescriptor) :
    Resolution.Counterpart (fromField .create field goal) (fromField .update field goal) := by
  have hcreate : fromField .create field goal = .field field field.type false := rfl
  rw [hcreate, fromField]
  split
  · next hskips =>
    have hoptional := (Bool.and_eq_true_iff.mp hskips).2
    cases htype : field.type with
    | optional inner => exact .skipping
    | _ => simp [htype, FieldType.isOptional] at hoptional
  · exact .same _

/-- An override asks for the same in both directions, but for absent values. -/
theorem counterpart_of_explicit {override : Override}
    (hcreate : explicit source target .create goal override = .ok r)
    (hupdate : explicit source target .update goal override = .ok r') : r.Counterpart r' := by
  cases override with
  | source name =>
    obtain ⟨field, hfield, hr⟩ := bind_eq_ok.mp hcreate
    obtain ⟨field', hfield', hr'⟩ := bind_eq_ok.mp hupdate
    obtain rfl := Except.ok.inj (hfield.symm.trans hfield')
    obtain rfl := Except.ok.inj hr
    obtain rfl := Except.ok.inj hr'
    exact counterpart_of_fromField field goal
  | ignore omission =>
    rw [explicit] at hcreate
    split at hcreate
    · cases hcreate
    · obtain rfl := Except.ok.inj hcreate
      obtain rfl := Except.ok.inj hupdate
      exact .same _
  | _ =>
    obtain rfl := Except.ok.inj (hcreate.symm.trans hupdate)
    exact .same _

/-- **The resolutions for the two directions differ in absent values only.** -/
theorem counterpart_of_resolve
    (hcreate : resolve source target .create overrides key goal = .ok (some r))
    (hupdate : resolve source target .update overrides key goal = .ok (some r')) :
    r.Counterpart r' := by
  rw [resolve] at hcreate hupdate
  cases hoverride : overrides.lookup key with
  | some override =>
    rw [hoverride] at hcreate hupdate
    obtain ⟨resolution, hexplicit, hr⟩ := bind_eq_ok.mp hcreate
    obtain ⟨resolution', hexplicit', hr'⟩ := bind_eq_ok.mp hupdate
    obtain rfl := Option.some.inj (Except.ok.inj hr)
    obtain rfl := Option.some.inj (Except.ok.inj hr')
    exact counterpart_of_explicit hexplicit hexplicit'
  | none =>
    rw [hoverride] at hcreate hupdate
    have himplicit := Except.ok.inj hcreate
    have himplicit' := Except.ok.inj hupdate
    rw [implicit?] at himplicit himplicit'
    cases hfield : source.field? goal.name with
    | some field =>
      rw [hfield] at himplicit himplicit'
      obtain rfl := Option.some.inj himplicit
      obtain rfl := Option.some.inj himplicit'
      exact counterpart_of_fromField field goal
    | none =>
      -- without a source field only a new object can do, by a default
      rw [hfield] at himplicit'
      cases himplicit'

/-! ## Values for fields -/

/-- Whether a resolution gives its field a value, rather than leaving it alone or skipping it. -/
def assigns (p : Plan) (this : Value) (goal : FieldDescriptor) : Resolution → Bool
  | .default => false
  | .field field _ onlyIfSet =>
      match p.performs this goal field onlyIfSet with
      | .ok performed => performed
      | .error _ => false
  | .factory _ | .fromExtra _ => true

/-- **No field is left alone and no assignment is skipped** for a source. -/
def assignsAll (p : Plan) (this : Value) : Bool :=
  p.goals.all fun entry => p.assigns this entry.1 entry.2

variable {p p' : Plan} {this : Value} {extra : Extra}
  {create : Value → ClassHandle → Except Error Value}

/-- An assignment that gives its field a value is carried out. -/
theorem performs_of_assigns {field : FieldDescriptor} {type : FieldType} {onlyIfSet : Bool}
    (h : p.assigns this goal (.field field type onlyIfSet) = true) :
    p.performs this goal field onlyIfSet = .ok true := by
  rw [assigns] at h
  split at h
  · next performed hperforms => rw [hperforms, h]
  · cases h

/-- An assignment that is not skipped has a value that is there, and is wanted. -/
theorem performs_onlyIfSet {field : FieldDescriptor}
    (h : p.performs this goal field true = .ok true) :
    (∃ part, this.field field.name = .ok part ∧ part.isNone = false) ∧
      p.performs this goal field false = .ok true := by
  obtain ⟨present, hpresent, hintended⟩ := bind_eq_ok.mp h
  cases present with
  | false => cases hintended
  | true =>
    refine ⟨?_, hintended⟩
    rw [Plan.present, if_pos rfl] at hpresent
    obtain ⟨part, hpart, hthere⟩ := map_eq_ok.mp hpresent
    exact ⟨part, hpart, by simpa using hthere⟩

/-- The value that a field takes from the source. -/
theorem contribution_field {field : FieldDescriptor} {type : FieldType} {onlyIfSet : Bool}
    (h : p.performs this goal field onlyIfSet = .ok true) :
    p.contribution create this extra goal (.field field type onlyIfSet)
      = (Conversion.direct create type (this.field field.name) goal.type).map some := by
  rw [contribution, h, ok_bind, if_pos rfl]
  cases Conversion.direct create type (this.field field.name) goal.type <;> rfl

/-- A field that takes a value from the source takes its conversion. -/
theorem contribution_field_inv {field : FieldDescriptor} {type : FieldType} {onlyIfSet : Bool}
    {u : Value}
    (h : p.contribution create this extra goal (.field field type onlyIfSet) = .ok (some u)) :
    p.performs this goal field onlyIfSet = .ok true ∧
      Conversion.direct create type (this.field field.name) goal.type = .ok u := by
  obtain ⟨performed, hperforms, hvalue⟩ := bind_eq_ok.mp h
  cases performed with
  | false => cases hvalue
  | true =>
    rw [contribution_field hperforms] at h
    obtain ⟨value, hdirect, hsome⟩ := map_eq_ok.mp h
    obtain rfl := Option.some.inj hsome
    exact ⟨hperforms, hdirect⟩

/-- Whether an assignment is carried out depends on the two classes only. -/
theorem performs_congr (hsource : p'.source = p.source) (htarget : p'.target = p.target)
    (field : FieldDescriptor) (onlyIfSet : Bool) :
    p'.performs this goal field onlyIfSet = p.performs this goal field onlyIfSet := by
  rw [performs, performs, intended, intended, hookApplies, hookApplies, hsource, htarget]

/-- **Both plans have the same value for a field**, if the plan for changes does not skip it. -/
theorem contribution_of_counterpart (hsource : p'.source = p.source) (htarget : p'.target = p.target)
    (hcounterpart : r.Counterpart r') (hassigns : p'.assigns this goal r' = true) {given : Option Value}
    (hgiven : p.contribution create this extra goal r = .ok given) :
    ∃ u, given = some u ∧ p'.contribution create this extra goal r' = .ok (some u) := by
  have hperforms : ∀ field onlyIfSet,
      p.performs this goal field onlyIfSet = p'.performs this goal field onlyIfSet :=
    fun field onlyIfSet => (performs_congr hsource htarget field onlyIfSet).symm
  cases hcounterpart with
  | same =>
    cases r with
    | default => cases hassigns
    | factory f =>
      obtain rfl := Except.ok.inj hgiven
      exact ⟨f.value this, rfl, rfl⟩
    | fromExtra key =>
      rw [contribution] at hgiven ⊢
      cases hlookup : extra.lookup key with
      | none =>
        rw [hlookup] at hgiven
        cases hgiven
      | some value =>
        rw [hlookup] at hgiven
        obtain rfl := Except.ok.inj hgiven
        exact ⟨value, rfl, rfl⟩
    | field field type onlyIfSet =>
      have hperformed := performs_of_assigns hassigns
      rw [contribution_field ((hperforms _ _).trans hperformed)] at hgiven
      rw [contribution_field hperformed, hgiven]
      obtain ⟨u, -, rfl⟩ := map_eq_ok.mp hgiven
      exact ⟨u, rfl, rfl⟩
  | @skipping field inner =>
    have hperformed := performs_of_assigns hassigns
    obtain ⟨⟨part, hpart, hpresent⟩, htaken⟩ := performs_onlyIfSet hperformed
    rw [contribution_field ((hperforms _ _).trans htaken), hpart] at hgiven
    obtain ⟨u, hdirect, rfl⟩ := map_eq_ok.mp hgiven
    refine ⟨u, rfl, ?_⟩
    rw [contribution_field hperformed, hpart,
      Conversion.direct_of_direct_optional hpresent hdirect]
    rfl

/-- Where a new object could be made, a change can tell whether it skips a field that is there. -/
theorem exists_performs_of_counterpart (hsource : p'.source = p.source)
    (htarget : p'.target = p.target) {field : FieldDescriptor} {type : FieldType} {onlyIfSet : Bool}
    (hcounterpart : r.Counterpart (.field field type onlyIfSet)) {given : Option Value}
    (hgiven : p.contribution create this extra goal r = .ok given) {part : Value}
    (hpart : this.field field.name = .ok part) :
    ∃ performed, p'.performs this goal field onlyIfSet = .ok performed := by
  cases hcounterpart with
  | same =>
    obtain ⟨performed, hperformed, -⟩ := bind_eq_ok.mp hgiven
    exact ⟨performed, (performs_congr hsource htarget field onlyIfSet).trans hperformed⟩
  | skipping =>
    obtain ⟨performed, hperformed, -⟩ := bind_eq_ok.mp hgiven
    rw [← performs_congr hsource htarget, performs, present, if_neg (by simp), ok_bind, if_pos rfl]
      at hperformed
    rw [performs, present, if_pos rfl, hpart]
    cases hempty : part.isNone with
    | true => exact ⟨false, by simp [Except.map, hempty]⟩
    | false => exact ⟨performed, by simpa [Except.map, hempty] using hperformed⟩

/-- **A change takes the value of a new object, or none**, if the source fields that it reads are
there. -/
theorem exists_contribution_of_counterpart (hsource : p'.source = p.source)
    (htarget : p'.target = p.target) (hcounterpart : r.Counterpart r')
    (hread : ∀ field type onlyIfSet, r' = .field field type onlyIfSet →
      ∃ part, this.field field.name = .ok part)
    {given : Option Value} (hgiven : p.contribution create this extra goal r = .ok given) :
    ∃ given', p'.contribution create this extra goal r' = .ok given' ∧
      ∀ u, given' = some u → given = some u := by
  by_cases hassigns : p'.assigns this goal r' = true
  · obtain ⟨u, rfl, hu⟩ := contribution_of_counterpart hsource htarget hcounterpart hassigns hgiven
    exact ⟨some u, hu, fun _ h => h⟩
  · -- what is not assigned is left alone or skipped, and the test for this does not fail
    refine ⟨none, ?_, nofun⟩
    cases r' with
    | default => rfl
    | factory f => exact absurd rfl hassigns
    | fromExtra key => exact absurd rfl hassigns
    | field field type onlyIfSet =>
      obtain ⟨part, hpart⟩ := hread field type onlyIfSet rfl
      obtain ⟨performed, hperformed⟩ :=
        exists_performs_of_counterpart hsource htarget hcounterpart hgiven hpart
      rw [assigns, hperformed] at hassigns
      obtain rfl : performed = false := (Bool.not_eq_true _).mp hassigns
      rw [contribution, hperformed]
      rfl

end Plan

end ObjectMapping
