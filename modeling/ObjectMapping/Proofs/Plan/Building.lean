import ObjectMapping.Plan
import ObjectMapping.Proofs.Keyed
import ObjectMapping.Proofs.Outcome

/-! # What a finished plan is

`Plan.build` gives a plan only if every target field was resolved, and then the plan has one entry
for each field, in the order of the fields.

* **`Plan.Resolved`** — the entries of a plan are the resolutions of its target's fields.
* **`Plan.build_eq_ok`** — a finished plan is between the given classes, and it is resolved.
* **`Plan.goals`** — the target fields of a plan in the order of their declaration, each with the
  resolution that the plan has for it. -/

namespace ObjectMapping.Plan

open Outcome

variable {source target : Descriptor} {direction : Direction} {overrides : Overrides} {p : Plan}

/-- The entries of the plan are the resolutions of the target's fields, field by field. -/
def Resolved (p : Plan) (overrides : Overrides) : Prop :=
  List.Forall₂ (fun (field : String × FieldDescriptor) (entry : String × Resolution) =>
      entry.1 = field.1 ∧
        resolve p.source p.target p.direction overrides field.1 field.2 = .ok (some entry.2))
    p.target.fields p.entries

/-- Where nothing is missing, the resolutions found are the entries of the plan. -/
theorem forall₂_filterMap_resolved {fields : List (String × FieldDescriptor)}
    {found : List (String × Option Resolution)}
    (hfound : List.Forall₂ (fun (field : String × FieldDescriptor) entry => (do
        return (field.1, ← resolve source target direction overrides field.1 field.2)) =
          (.ok entry : Except Error _)) fields found)
    (hcomplete : ∀ entry ∈ found, entry.2.isNone = false) :
    List.Forall₂ (fun (field : String × FieldDescriptor) (entry : String × Resolution) =>
        entry.1 = field.1 ∧
          resolve source target direction overrides field.1 field.2 = .ok (some entry.2))
      fields (found.filterMap fun entry => entry.2.map fun r => (entry.1, r)) := by
  induction hfound with
  | nil => exact List.Forall₂.nil
  | @cons field entry fields found hfield _ ih =>
    obtain ⟨resolution?, hresolve, hentry⟩ := bind_eq_ok.mp hfield
    obtain rfl : (field.1, resolution?) = entry := Except.ok.inj hentry
    cases resolution? with
    | none => exact absurd (hcomplete _ List.mem_cons_self) (by simp)
    | some resolution =>
      refine List.Forall₂.cons ⟨rfl, hresolve⟩ (ih ?_)
      intro other hmem
      exact hcomplete other (List.mem_cons_of_mem _ hmem)

/-- **A finished plan resolves every target field.** -/
theorem build_eq_ok (h : build source target direction overrides = .ok p) :
    p.source = source ∧ p.target = target ∧ p.direction = direction ∧ p.Resolved overrides := by
  rw [build] at h
  split at h
  · exact absurd h (by simp)
  · obtain ⟨found, hfound, hrest⟩ := bind_eq_ok.mp h
    dsimp only at hrest
    split at hrest
    · exact absurd hrest (by simp)
    · next hcomplete =>
      obtain rfl := Except.ok.inj hrest
      refine ⟨rfl, rfl, rfl, ?_⟩
      have hmissing : found.filter (fun entry => entry.2.isNone) = [] := by
        rw [Bool.not_eq_true, Bool.not_eq_false'] at hcomplete
        exact List.map_eq_nil_iff.mp (List.isEmpty_iff.mp hcomplete)
      refine forall₂_filterMap_resolved (mapM_eq_ok.mp hfound) ?_
      intro entry hmem
      exact (Bool.not_eq_true _).mp (List.filter_eq_nil_iff.mp hmissing entry hmem)

/-! ## Where values come from -/

/-- A source field that is not missed is the one of the name. -/
theorem sourceField_eq_ok {name : String} {field : FieldDescriptor}
    (h : sourceField source target name = .ok field) : source.field? name = some field := by
  rw [sourceField] at h
  split at h
  · next found hfound => rw [hfound, Except.ok.inj h]
  · cases h

/-- The source field of a name is read as a value of its own type; or as one that is there, because
an absent value is skipped or is assumed not to occur. The target field stands under `key`. -/
def Reads (overrides : Overrides) (key : String) (goal field : FieldDescriptor) (type : FieldType)
    (onlyIfSet : Bool) (name : String) : Prop :=
  type = field.type ∨
    type = field.type.stripOptional ∧
      (onlyIfSet = true ∨
        ∃ name?, overrides.lookup key = some (.assumeNotNone name?) ∧
          name?.getD goal.name = name)

/-- A field that is taken from the source is read as one of its types. -/
theorem reads_fromField {goal found field : FieldDescriptor} {type : FieldType} {onlyIfSet : Bool}
    (key name : String) (h : fromField direction found goal = .field field type onlyIfSet) :
    found = field ∧ Reads overrides key goal field type onlyIfSet name := by
  rw [fromField] at h
  split at h
  · obtain ⟨rfl, rfl, rfl⟩ := Resolution.field.inj h
    exact ⟨rfl, .inr ⟨rfl, .inl rfl⟩⟩
  · obtain ⟨rfl, rfl, rfl⟩ := Resolution.field.inj h
    exact ⟨rfl, .inl rfl⟩

/-- **Where a field resolution comes from**: from a source field, read as one of its types. -/
theorem resolve_eq_field {key : String} {goal field : FieldDescriptor} {type : FieldType}
    {onlyIfSet : Bool}
    (h : resolve source target direction overrides key goal
      = .ok (some (.field field type onlyIfSet))) :
    ∃ name, source.field? name = some field ∧
      Reads overrides key goal field type onlyIfSet name := by
  rw [resolve] at h
  cases hoverride : overrides.lookup key with
  | none =>
    rw [hoverride] at h
    have himplicit := Except.ok.inj h
    rw [implicit?] at himplicit
    split at himplicit
    · next found hfound =>
      obtain ⟨rfl, hreads⟩ := reads_fromField key goal.name (Option.some.inj himplicit)
      exact ⟨goal.name, hfound, hreads⟩
    · split at himplicit
      · cases Option.some.inj himplicit
      · cases himplicit
  | some override =>
    rw [hoverride] at h
    obtain ⟨resolution, hexplicit, hsome⟩ := bind_eq_ok.mp h
    obtain rfl := Option.some.inj (Except.ok.inj hsome)
    cases override with
    | source name =>
      obtain ⟨found, hfound, hresolution⟩ := bind_eq_ok.mp hexplicit
      obtain ⟨rfl, hreads⟩ := reads_fromField key name (Except.ok.inj hresolution)
      exact ⟨name, sourceField_eq_ok hfound, hreads⟩
    | factory f => cases Except.ok.inj hexplicit
    | fromExtra key => cases Except.ok.inj hexplicit
    | ignore omission =>
      rw [explicit] at hexplicit
      split at hexplicit
      · cases hexplicit
      · cases Except.ok.inj hexplicit
    | assumeNotNone name? =>
      obtain ⟨found, hfound, hresolution⟩ := bind_eq_ok.mp hexplicit
      obtain ⟨rfl, rfl, rfl⟩ := Resolution.field.inj (Except.ok.inj hresolution)
      exact ⟨_, sourceField_eq_ok hfound, .inr ⟨rfl, .inr ⟨name?, hoverride, rfl⟩⟩⟩
    | updateOnlyIfSet name? =>
      obtain ⟨found, hfound, hresolution⟩ := bind_eq_ok.mp hexplicit
      obtain ⟨rfl, rfl, rfl⟩ := Resolution.field.inj (Except.ok.inj hresolution)
      exact ⟨_, sourceField_eq_ok hfound, .inr ⟨rfl, .inl rfl⟩⟩

/-! ## The fields of a plan -/

/-- The target fields in the order of their declaration, each with its resolution. -/
def goals (p : Plan) : List (FieldDescriptor × Resolution) :=
  p.target.fields.filterMap fun (name, goal) => (p.entries.lookup name).map fun r => (goal, r)

/-- In a finished plan the fields stand side by side with the entries. -/
theorem goals_eq_zipWith (hnodup : (p.target.fields.map (·.1)).Nodup) (h : p.Resolved overrides) :
    p.goals = List.zipWith (fun field entry => (field.2, entry.2)) p.target.fields p.entries :=
  Keyed.filterMap_lookup_eq_zipWith hnodup (h.imp fun _ _ hentry => hentry.1)

/-- Every field of a finished plan has a resolution. -/
theorem forall₂_goals (hnodup : (p.target.fields.map (·.1)).Nodup) (h : p.Resolved overrides) :
    List.Forall₂ (fun (field : String × FieldDescriptor) (entry : FieldDescriptor × Resolution) =>
        entry.1 = field.2 ∧
          resolve p.source p.target p.direction overrides field.1 field.2 = .ok (some entry.2))
      p.target.fields p.goals := by
  rw [goals_eq_zipWith hnodup h]
  clear hnodup
  unfold Resolved at h
  generalize p.target.fields = fields at h ⊢
  generalize p.entries = entries at h ⊢
  induction h with
  | nil => exact List.Forall₂.nil
  | cons hentry _ ih => exact List.Forall₂.cons ⟨rfl, hentry.2⟩ ih

end ObjectMapping.Plan
