import Mathlib.Data.Option.Defs
import ObjectMapping.Plan
import ObjectMapping.Proofs.FieldType.Interchange
import ObjectMapping.Proofs.Outcome

/-! # Plans for fields whose types are written in another way

A plan asks of the type of a field only whether a value may be absent. So the plans for the same two
classes, with types written in another way, come from the same places, and where there is no plan it
is for the same reason.

* **`Descriptor.Retyped`** — the same class, with types of fields that are interchangeable.
* `Plan.Retyped`: the same plan, for such classes.
* **`Plan.build_retyped`** — plans are made alike. -/

namespace ObjectMapping

open Outcome

variable {names : Nat → String}

/-- The same field, with a type that is interchangeable. -/
structure FieldDescriptor.Retyped (names : Nat → String) (f f' : FieldDescriptor) : Prop where
  type : f.type.Interchangeable names f'.type
  rest : f' = { f with type := f'.type }

/-- **The same class, with types of fields that are interchangeable.** -/
structure Descriptor.Retyped (names : Nat → String) (d d' : Descriptor) : Prop where
  fields : List.Forall₂ (fun field field' : String × FieldDescriptor =>
    field'.1 = field.1 ∧ field.2.Retyped names field'.2) d.fields d'.fields
  rest : d' = { d with fields := d'.fields }

namespace FieldDescriptor.Retyped

variable {f f' : FieldDescriptor} (h : f.Retyped names f')

include h

/-- The same field has the same name. -/
theorem name_eq : f'.name = f.name := by rw [h.rest]

/-- The same field is required in both classes or in none. -/
theorem required_eq : f'.required = f.required := by rw [h.rest]

/-- The same field has the same parameter. -/
theorem param_eq : f'.param = f.param := by rw [h.rest]

/-- The same field is accepted by the constructor in both classes or in none. -/
theorem accepted_eq : f'.accepted = f.accepted := by rw [h.rest]

end FieldDescriptor.Retyped

namespace Descriptor.Retyped

variable {d d' : Descriptor} (h : d.Retyped names d')

include h

/-- The same class has the same handle. -/
theorem handle_eq : d'.handle = d.handle := by rw [h.rest]

/-- The same class has the same name. -/
theorem name_eq : d'.name = d.name := congrArg ClassHandle.name h.handle_eq

/-- The same class is of the same flavor. -/
theorem flavor_eq : d'.flavor = d.flavor := by rw [h.rest]

/-- The same class is constructed in the same way. -/
theorem strategy_eq : d'.strategy = d.strategy := by rw [h.rest]

/-- The same class has the same hook. -/
theorem hook_eq : d'.hook = d.hook := by rw [h.rest]

/-- A name stands for fields in both classes, which are the same one but for its type, or in none. -/
theorem field? (name : String) :
    Option.Rel (FieldDescriptor.Retyped names) (d.field? name) (d'.field? name) := by
  have hfields := h.fields
  unfold Descriptor.field?
  generalize d.fields = fields at hfields ⊢
  generalize d'.fields = fields' at hfields ⊢
  induction hfields with
  | nil => exact .none
  | @cons field field' _ _ hfield _ ih =>
    obtain ⟨key, f⟩ := field
    obtain ⟨key', f'⟩ := field'
    obtain rfl : key' = key := hfield.1
    rw [List.lookup_cons, List.lookup_cons]
    split
    · exact .some hfield.2
    · exact ih

end Descriptor.Retyped

/-- The same resolution, of a source field whose type is written in another way. -/
inductive Resolution.Retyped (names : Nat → String) : Resolution → Resolution → Prop
  | field {f f' : FieldDescriptor} {type type' : FieldType} (hfield : f.Retyped names f')
      (htype : type.Interchangeable names type') (onlyIfSet : Bool) :
      Retyped names (.field f type onlyIfSet) (.field f' type' onlyIfSet)
  | factory (f : Factory) : Retyped names (.factory f) (.factory f)
  | fromExtra (key : String) : Retyped names (.fromExtra key) (.fromExtra key)
  | default : Retyped names .default .default

/-- The same plan, for classes whose types are written in another way. -/
structure Plan.Retyped (names : Nat → String) (p p' : Plan) : Prop where
  source : p.source.Retyped names p'.source
  target : p.target.Retyped names p'.target
  direction : p'.direction = p.direction
  entries : List.Forall₂ (fun entry entry' : String × Resolution =>
    entry'.1 = entry.1 ∧ entry.2.Retyped names entry'.2) p.entries p'.entries

namespace Plan

variable {source source' target target' : Descriptor} {direction : Direction}
  {overrides : Overrides} {goal goal' : FieldDescriptor}

/-- A source field is found in both classes or in none. -/
theorem sourceField_retyped (hsource : source.Retyped names source')
    (htarget : target.Retyped names target') (name : String) :
    Agree (FieldDescriptor.Retyped names) (sourceField source target name)
      (sourceField source' target' name) := by
  have hfield := hsource.field? name
  rw [sourceField, sourceField, hsource.name_eq, htarget.name_eq]
  generalize source.field? name = found at hfield ⊢
  generalize source'.field? name = found' at hfield ⊢
  cases hfield with
  | some hfield => exact hfield
  | none => rfl

/-- A source field is taken in the same way, since it may be absent in both classes or in none. -/
theorem fromField_retyped {field field' : FieldDescriptor} (hfield : field.Retyped names field')
    (hgoal : goal.Retyped names goal') (direction : Direction) :
    (fromField direction field goal).Retyped names (fromField direction field' goal') := by
  rw [fromField, fromField, hgoal.required_eq, hfield.type.isOptional_eq]
  split
  · exact .field hfield hfield.type.stripOptional true
  · exact .field hfield hfield.type false

/-- An override asks for the same. -/
theorem explicit_retyped (hsource : source.Retyped names source')
    (htarget : target.Retyped names target') (hgoal : goal.Retyped names goal')
    (override : Override) :
    Agree (Resolution.Retyped names) (explicit source target direction goal override)
      (explicit source' target' direction goal' override) := by
  have hfield := sourceField_retyped hsource htarget
  cases override with
  | source name =>
    exact (hfield name).bind fun field field' hfield => fromField_retyped hfield hgoal direction
  | factory f => exact .factory f
  | fromExtra key => exact .fromExtra key
  | ignore omission =>
    rw [explicit, explicit, hgoal.required_eq, hgoal.name_eq, htarget.name_eq]
    split
    · rfl
    · exact .default
  | assumeNotNone name? =>
    rw [explicit, explicit, hgoal.name_eq]
    exact (hfield _).bind fun field field' hfield => .field hfield hfield.type.stripOptional false
  | updateOnlyIfSet name? =>
    rw [explicit, explicit, hgoal.name_eq]
    exact (hfield _).bind fun field field' hfield => .field hfield hfield.type.stripOptional true

/-- Without an override a field is resolved alike. -/
theorem implicit?_retyped (hsource : source.Retyped names source')
    (hgoal : goal.Retyped names goal') :
    Option.Rel (Resolution.Retyped names) (implicit? source direction goal)
      (implicit? source' direction goal') := by
  have hfield := hsource.field? goal.name
  rw [implicit?, implicit?, hgoal.name_eq, hgoal.required_eq]
  generalize source.field? goal.name = found at hfield ⊢
  generalize source'.field? goal.name = found' at hfield ⊢
  cases hfield with
  | some hfield => exact .some (fromField_retyped hfield hgoal direction)
  | none =>
    dsimp only
    split
    · exact .some .default
    · exact .none

/-- A field is resolved alike. -/
theorem resolve_retyped (hsource : source.Retyped names source')
    (htarget : target.Retyped names target') (name : String) (hgoal : goal.Retyped names goal') :
    Agree (Option.Rel (Resolution.Retyped names))
      (resolve source target direction overrides name goal)
      (resolve source' target' direction overrides name goal') := by
  rw [resolve, resolve]
  cases overrides.lookup name with
  | some override =>
    exact (explicit_retyped hsource htarget hgoal override).bind fun _ _ hresolution =>
      Option.Rel.some hresolution
  | none => exact implicit?_retyped hsource hgoal

/-- What was found for the fields of two classes, side by side. -/
abbrev FoundAlike (names : Nat → String) :
    List (String × Option Resolution) → List (String × Option Resolution) → Prop :=
  List.Forall₂ fun entry entry' =>
    entry'.1 = entry.1 ∧ Option.Rel (Resolution.Retyped names) entry.2 entry'.2

/-- Nothing is found for the same fields. -/
theorem FoundAlike.missing_eq {found found' : List (String × Option Resolution)}
    (h : FoundAlike names found found') :
    (found'.filter fun entry => entry.2.isNone).map (·.1)
      = (found.filter fun entry => entry.2.isNone).map (·.1) := by
  induction h with
  | nil => rfl
  | @cons entry entry' _ _ hentry _ ih =>
    obtain ⟨name, resolution⟩ := entry
    obtain ⟨name', resolution'⟩ := entry'
    obtain ⟨rfl, hresolution⟩ := hentry
    cases hresolution with
    | some _ => exact ih
    | none => exact congrArg (name' :: ·) ih

/-- What is found makes up the same entries. -/
theorem FoundAlike.entries {found found' : List (String × Option Resolution)}
    (h : FoundAlike names found found') :
    List.Forall₂ (fun entry entry' : String × Resolution =>
        entry'.1 = entry.1 ∧ entry.2.Retyped names entry'.2)
      (found.filterMap fun (name, resolution) => resolution.map fun r => (name, r))
      (found'.filterMap fun (name, resolution) => resolution.map fun r => (name, r)) := by
  induction h with
  | nil => exact .nil
  | @cons entry entry' _ _ hentry _ ih =>
    obtain ⟨name, resolution⟩ := entry
    obtain ⟨name', resolution'⟩ := entry'
    obtain ⟨rfl, hresolution⟩ := hentry
    cases hresolution with
    | some hresolution => exact .cons ⟨rfl, hresolution⟩ ih
    | none => exact ih

/-- **Plans are made alike**, and where there is none it is for the same reason. -/
theorem build_retyped (hsource : source.Retyped names source')
    (htarget : target.Retyped names target') (direction : Direction) (overrides : Overrides) :
    Agree (Plan.Retyped names) (build source target direction overrides)
      (build source' target' direction overrides) := by
  have hunknown : ∀ key, (target'.field? key).isNone = (target.field? key).isNone := by
    intro key
    have hfield := htarget.field? key
    generalize target.field? key = found at hfield ⊢
    generalize target'.field? key = found' at hfield ⊢
    cases hfield with
    | some _ => rfl
    | none => rfl
  rw [build, build, hsource.name_eq, htarget.name_eq]
  simp only [hunknown]
  split
  · rfl
  -- the fields stand side by side, and so does what is found for them
  have hresolved := related_mapM (S := fun entry entry' : String × Option Resolution =>
      entry'.1 = entry.1 ∧ Option.Rel (Resolution.Retyped names) entry.2 entry'.2)
    (f := fun field => resolve source target direction overrides field.1 field.2 >>= fun r =>
      .ok (field.1, r))
    (g := fun field => resolve source' target' direction overrides field.1 field.2 >>= fun r =>
      .ok (field.1, r))
    (htarget.fields.imp fun field field' hfield => by
      rw [hfield.1]
      exact (resolve_retyped hsource htarget field.1 hfield.2).bind fun _ _ hresolution =>
        ⟨rfl, hresolution⟩)
  refine hresolved.bind fun found found' hfound => ?_
  rw [FoundAlike.missing_eq hfound]
  split
  · rfl
  · exact ⟨hsource, htarget, rfl, FoundAlike.entries hfound⟩

end Plan

end ObjectMapping
