import ObjectMapping.Proofs.Keyed
import ObjectMapping.Value.Basic

/-! # Objects that are changed in one field

Assigning a field, or putting back what an update method left in it, changes an object in that field
and nowhere else: the class, the fields that there are and the other values stay.

* `Value.owner?`: the class of an object, and `Value.names`: its fields.
* **`Value.ChangedAt`** — two objects that differ in one field at most. -/

namespace ObjectMapping.Value

/-- The class of an object; no other value has one here. -/
def owner? : Value → Option ClassHandle
  | object owner _ _ => some owner
  | _ => Option.none

/-- The names of the fields of an object. -/
def names : Value → List String
  | object _ fields _ => fields.map (·.1)
  | _ => []

/-- The objects differ in the field of a name at most. -/
structure ChangedAt (name : String) (owner owner' : Value) : Prop where
  owner_eq : owner'.owner? = owner.owner?
  names_eq : owner'.names = owner.names
  field_eq : ∀ other, other ≠ name → owner'.field other = owner.field other

variable {owner owner' value : Value} {name : String}

/-- An object that is not changed at all is changed at one field at most. -/
theorem ChangedAt.refl (name : String) (owner : Value) : ChangedAt name owner owner :=
  ⟨rfl, rfl, fun _ _ => rfl⟩

/-- A field is there exactly if its name is among the names. -/
theorem mem_names_iff : name ∈ owner.names ↔ ∃ part, owner.field name = .ok part := by
  cases owner with
  | object handle fields assigned =>
    rw [names, ← Keyed.lookup_isSome_iff_mem_keys, field_object]
    cases fields.lookup name <;> simp [noAttribute]
  | _ => simp [names, field, notAnObject]

/-- Among distinct names, a field is found under its name. -/
theorem field_of_mem {handle : ClassHandle} {fields : List (String × Value)}
    {assigned : List String} (hnodup : (fields.map (·.1)).Nodup) (h : (name, value) ∈ fields) :
    (object handle fields assigned).field name = .ok value := by
  rw [field_object, Keyed.lookup_of_mem hnodup h]

/-- Writing a field that is there changes the object in this field. -/
theorem changedAt_insert {handle : ClassHandle} {fields : List (String × Value)}
    {assigned : List String} (hname : Keyed.contains fields name = true) (assigned' : List String) :
    ChangedAt name (.object handle fields assigned)
      (.object handle (Keyed.insert fields name value) assigned') := by
  refine ⟨rfl, ?_, ?_⟩
  · rw [names, names]
    exact Keyed.keys_insert_of_mem (Keyed.lookup_isSome_iff_mem_keys.mp hname) value
  · intro other hne
    rw [field_object, field_object, Keyed.lookup_insert_of_ne hne]

/-- An assignment to a field that is there succeeds, and the field then has the value. -/
theorem exists_assign (h : name ∈ owner.names) (value : Value) :
    ∃ owner', owner.assign name value = .ok owner' ∧ ChangedAt name owner owner' ∧
      owner'.field name = .ok value := by
  cases owner with
  | object handle fields assigned =>
    have hname : Keyed.contains fields name = true := Keyed.lookup_isSome_iff_mem_keys.mpr h
    refine ⟨_, by rw [assign, if_pos hname], changedAt_insert hname _, ?_⟩
    rw [field_object, Keyed.lookup_insert_self]
  | _ => simp [names] at h

/-- An assignment that succeeds changes the object in its field. -/
theorem changedAt_assign (h : owner.assign name value = .ok owner') :
    ChangedAt name owner owner' := by
  cases owner with
  | object handle fields assigned =>
    rw [assign] at h
    split at h
    · next hname =>
      obtain rfl := Except.ok.inj h
      exact changedAt_insert hname _
    · cases h
  | _ => cases h

/-- An assigned field has the assigned value. -/
theorem field_assign (h : owner.assign name value = .ok owner') : owner'.field name = .ok value := by
  cases owner with
  | object handle fields assigned =>
    rw [assign] at h
    split at h
    · obtain rfl := Except.ok.inj h
      rw [field_object, Keyed.lookup_insert_self]
    · cases h
  | _ => cases h

/-- Putting a value back into a field changes the object in this field. -/
theorem changedAt_withField (name : String) (owner value : Value) :
    ChangedAt name owner (owner.withField name value) := by
  cases owner with
  | object handle fields assigned =>
    rw [withField]
    split
    · next hname => exact changedAt_insert hname _
    · exact ChangedAt.refl name _
  | _ => exact ChangedAt.refl name _

/-- A field that is written to is read back. -/
theorem field_withField (h : name ∈ owner.names) (value : Value) :
    (owner.withField name value).field name = .ok value := by
  cases owner with
  | object handle fields assigned =>
    have hname : Keyed.contains fields name = true := Keyed.lookup_isSome_iff_mem_keys.mpr h
    rw [withField, if_pos hname, field_object, Keyed.lookup_insert_self]
  | _ => simp [names] at h

end ObjectMapping.Value
