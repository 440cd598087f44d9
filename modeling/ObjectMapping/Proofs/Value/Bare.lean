import ObjectMapping.Proofs.Value.Equality

/-! # Objects without the record of assigned fields

An object that was made and an object that was changed may hold the same values and still differ in
which of their fields count as assigned explicitly. `Value.bare` forgets this record, in an object and
in the objects that are its fields, and nothing else.

* **`Value.bare`** — a value without the record.
* **`Value.same_of_bare_eq`** — values that differ in the record only are equal.
* `Value.field_of_bare_eq`: such objects have such values in their fields.
* **`Value.bare_of_changedAt`** — a change of a field that only touches the record of its value only
  touches the record of the object. -/

namespace ObjectMapping.Value

mutual

/-- The value without the record of assigned fields, in nested objects too. -/
def bare : Value → Value
  | object owner fields _ => object owner (bareFields fields) []
  | v => v

/-- The fields with their values without the record. -/
def bareFields : List (String × Value) → List (String × Value)
  | [] => []
  | (name, value) :: rest => (name, bare value) :: bareFields rest

end

variable {v w owner owner' part part' : Value} {name : String}

/-- Fields are stripped one by one. -/
theorem bareFields_eq_map (fields : List (String × Value)) :
    bareFields fields = fields.map fun field => (field.1, field.2.bare) := by
  induction fields with
  | nil => rfl
  | cons field rest ih => rw [bareFields, ih, List.map_cons]

/-- An object without the record of assigned fields has its fields stripped. -/
theorem bare_object (handle : ClassHandle) (fields : List (String × Value)) (assigned : List String) :
    (object handle fields assigned).bare = object handle (bareFields fields) [] := by
  rw [bare]

/-- Anything but an object stays as it is. -/
theorem bare_of_owner?_eq_none (h : v.owner? = Option.none) : v.bare = v := by
  cases v with
  | object handle fields assigned => cases h
  | _ => rw [bare]; simp

/-! ## What stays -/

/-- A value is absent exactly if it is so when stripped. -/
@[simp] theorem isNone_bare (v : Value) : v.bare.isNone = v.isNone := by
  cases v with
  | object handle fields assigned =>
    rw [bare_object]
    rfl
  | _ => rw [bare_of_owner?_eq_none rfl]

/-- A stripped object belongs to the same class. -/
@[simp] theorem owner?_bare (v : Value) : v.bare.owner? = v.owner? := by
  cases v with
  | object handle fields assigned =>
    rw [bare_object]
    rfl
  | _ => rw [bare_of_owner?_eq_none rfl]

/-- A stripped object has fields of the same names. -/
@[simp] theorem names_bare (v : Value) : v.bare.names = v.names := by
  cases v with
  | object handle fields assigned =>
    rw [bare_object, names, names, bareFields_eq_map, List.map_map]
    rfl
  | _ => rw [bare_of_owner?_eq_none rfl]

/-- The field of a stripped object is its stripped field. -/
theorem lookup_bareFields (fields : List (String × Value)) (name : String) :
    (bareFields fields).lookup name = (fields.lookup name).map bare := by
  induction fields with
  | nil => rfl
  | cons field rest ih =>
    obtain ⟨other, value⟩ := field
    rw [bareFields, List.lookup_cons, List.lookup_cons, ih]
    cases name == other <;> rfl

/-- A field that is there is there in stripped form. -/
theorem field_bare_eq_ok (h : v.field name = .ok part) : v.bare.field name = .ok part.bare := by
  cases v with
  | object handle fields assigned =>
    rw [field_object] at h
    rw [bare_object, field_object, lookup_bareFields]
    cases hlookup : fields.lookup name with
    | none =>
      rw [hlookup] at h
      cases h
    | some found =>
      rw [hlookup] at h
      rw [Except.ok.inj h]
      rfl
  | _ => cases h

/-- Objects that differ in the record only have values that differ in the record only. -/
theorem field_of_bare_eq (h : v.bare = w.bare) (hpart : w.field name = .ok part) :
    ∃ part', v.field name = .ok part' ∧ part'.bare = part.bare := by
  have hnames : v.names = w.names := by rw [← names_bare v, h, names_bare]
  obtain ⟨part', hpart'⟩ := mem_names_iff.mp (hnames ▸ mem_names_iff.mpr ⟨part, hpart⟩)
  have hbare := field_bare_eq_ok hpart'
  rw [h, field_bare_eq_ok hpart] at hbare
  exact ⟨part', hpart', (Except.ok.inj hbare).symm⟩

/-! ## What is enough -/

/-- Lists of fields with the same names differ in the record only if their values do. -/
theorem bareFields_congr {fields others : List (String × Value)}
    (hnames : fields.map (·.1) = others.map (·.1)) (hnodup : (others.map (·.1)).Nodup)
    (hvalues : ∀ name value other, fields.lookup name = some value →
      others.lookup name = some other → value.bare = other.bare) :
    bareFields fields = bareFields others := by
  rw [bareFields_eq_map, bareFields_eq_map]
  refine List.ext_getElem (by simpa using congrArg List.length hnames) fun i hi hi' => ?_
  rw [List.length_map] at hi hi'
  have hname : fields[i].1 = others[i].1 := by
    have hget := List.getElem_of_eq hnames (by simpa using hi)
    simpa using hget
  -- at one position both lists have what they have under one name
  have hvalue : fields.lookup fields[i].1 = some fields[i].2 :=
    Keyed.lookup_of_mem (hnames ▸ hnodup) (List.getElem_mem hi)
  have hother : others.lookup fields[i].1 = some others[i].2 :=
    hname ▸ Keyed.lookup_of_mem hnodup (List.getElem_mem hi')
  rw [List.getElem_map, List.getElem_map, hvalues _ _ _ hvalue hother, hname]

/-- **Objects with the same names differ in the record only if their values do.** -/
theorem bare_eq_of_fields (howner : v.owner? = w.owner?) (hthere : v.owner? ≠ Option.none)
    (hnames : v.names = w.names) (hnodup : w.names.Nodup)
    (hfields : ∀ name part part', v.field name = .ok part → w.field name = .ok part' →
      part.bare = part'.bare) : v.bare = w.bare := by
  cases v with
  | object handle fields assigned =>
    cases w with
    | object handle' others assigned' =>
      obtain rfl := Option.some.inj howner
      rw [bare_object, bare_object, bareFields_congr hnames hnodup]
      intro name value other hvalue hother
      refine hfields name value other ?_ ?_
      · rw [field_object, hvalue]
      · rw [field_object, hother]
    | _ => cases howner
  | _ => exact absurd rfl hthere

/-- **A change of a field that only touches the record of its value** only touches the record of the
object. -/
theorem bare_of_changedAt (hchanged : ChangedAt name owner owner') (hnodup : owner.names.Nodup)
    (hpart : owner.field name = .ok part) (hpart' : owner'.field name = .ok part')
    (hbare : part'.bare = part.bare) : owner'.bare = owner.bare := by
  refine bare_eq_of_fields hchanged.owner_eq ?_ hchanged.names_eq hnodup ?_
  · cases owner' with
    | object handle fields assigned => simp [owner?]
    | _ => cases hpart'
  · intro other left right hleft hright
    by_cases hother : other = name
    · subst hother
      obtain rfl := Except.ok.inj (hpart'.symm.trans hleft)
      obtain rfl := Except.ok.inj (hpart.symm.trans hright)
      exact hbare
    · rw [hchanged.field_eq other hother, hright] at hleft
      rw [Except.ok.inj hleft]

/-- An object whose keys are different has different names. -/
theorem nodup_names_of_distinctKeys (h : v.distinctKeys = true) : v.names.Nodup := by
  cases v with
  | object handle fields assigned => exact (distinctKeysFields_iff.mp h).1
  | _ => exact List.nodup_nil

/-- **Values that differ in the record only are equal.** -/
theorem same_of_bare_eq (h : v.bare = w.bare) (hkeys : w.distinctKeys = true) :
    v.same w = true := by
  induction hheight : w.height using Nat.strongRecOn generalizing v w with
  | ind n ih =>
    subst hheight
    cases howner : w.owner? with
    | none =>
      have hv : v.owner? = Option.none := by rw [← owner?_bare v, h, owner?_bare, howner]
      rw [bare_of_owner?_eq_none hv, bare_of_owner?_eq_none howner] at h
      rw [h]
      exact same_self hkeys
    | some handle =>
      have hv : v.owner? = some handle := by rw [← owner?_bare v, h, owner?_bare, howner]
      have hnames : v.names = w.names := by rw [← names_bare v, h, names_bare]
      refine same_object hv howner rfl (hnames ▸ .refl _) (nodup_names_of_distinctKeys hkeys) ?_
      intro name part part' hpart hpart'
      obtain ⟨found, hfound, hbare⟩ := field_of_bare_eq h hpart'
      obtain rfl := Except.ok.inj (hpart.symm.trans hfound)
      exact ih _ (height_lt_of_field hpart') hbare (distinctKeys_of_field hkeys hpart') rfl

end ObjectMapping.Value
