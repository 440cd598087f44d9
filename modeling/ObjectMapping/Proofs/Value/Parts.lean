import ObjectMapping.Proofs.Value.DistinctKeys

/-! # Parts of values

A value holds other values as elements, keys and fields, and these hold further ones.

* `Value.parts`: the values that a value holds itself.
* **`Value.Part`** — the values at every level; `Value.ProperPart` leaves out the value itself.
* **`Value.WellFormed`** — at every level, elements of sets, keys of dictionaries and names of
  fields are pairwise different. -/

namespace ObjectMapping.Value

/-- The elements of a collection, the keys and values of a dictionary, the fields of an object. -/
def parts : Value → List Value
  | list items | set items | tuple items => items
  | dict entries => entries.map (·.1) ++ entries.map (·.2)
  | object _ fields _ => fields.map (·.2)
  | none | bool _ | int _ | float _ | str _ | bytes _ | date _ | datetime _ | member .. => []

/-- A key of a dictionary is a part of it. -/
theorem key_mem_parts {entries : List (Value × Value)} {entry : Value × Value}
    (h : entry ∈ entries) : entry.1 ∈ (dict entries).parts :=
  List.mem_append_left _ (List.mem_map_of_mem h)

/-- A value in a dictionary is a part of it. -/
theorem value_mem_parts {entries : List (Value × Value)} {entry : Value × Value}
    (h : entry ∈ entries) : entry.2 ∈ (dict entries).parts :=
  List.mem_append_right _ (List.mem_map_of_mem h)

/-- The field of an object is a part of it. -/
theorem mem_parts_of_field {v part : Value} {name : String} (h : v.field name = .ok part) :
    part ∈ v.parts := by
  cases v with
  | object owner fields assigned =>
    rw [field_object] at h
    cases hlookup : fields.lookup name with
    | none =>
      rw [hlookup] at h
      cases h
    | some found =>
      rw [hlookup] at h
      obtain rfl := Except.ok.inj h
      exact List.mem_map_of_mem (Keyed.mem_of_lookup hlookup)
  | _ => cases h

/-- The elements of a value are parts of it. -/
theorem mem_parts_of_elements {v item : Value} {items : List Value} (h : v.elements = .ok items)
    (hitem : item ∈ items) : item ∈ v.parts := by
  cases v with
  | list _ | set _ | tuple _ =>
    obtain rfl := Except.ok.inj h
    exact hitem
  | dict entries =>
    obtain rfl := Except.ok.inj h
    exact List.mem_append_left _ hitem
  | _ => cases h

/-- The keys and values of a value are parts of it. -/
theorem mem_parts_of_entries {v : Value} {entries : List (Value × Value)} {entry : Value × Value}
    (h : v.entries = .ok entries) (hentry : entry ∈ entries) :
    entry.1 ∈ v.parts ∧ entry.2 ∈ v.parts := by
  cases v with
  | dict _ =>
    obtain rfl := Except.ok.inj h
    exact ⟨key_mem_parts hentry, value_mem_parts hentry⟩
  | _ => cases h

/-- What is found under a key is a part of the value. -/
theorem mem_parts_of_subscript {v key found : Value} (h : v.subscript key = .ok found) :
    found ∈ v.parts := by
  have hfound : v.subscript? key = some found := by
    unfold subscript at h
    split at h
    · next other hother => rw [hother, Except.ok.inj h]
    · cases h
  unfold subscript? at hfound
  split at hfound
  · obtain ⟨k, hmem⟩ := Keyed.exists_mem_of_lookup hfound
    exact value_mem_parts hmem
  · split at hfound
    · cases hfound
    · exact List.mem_of_getElem? hfound
  · split at hfound
    · cases hfound
    · exact List.mem_of_getElem? hfound
  · cases hfound

/-- **The values at every level of a value**, itself included. -/
inductive Part : Value → Value → Prop
  | self (v : Value) : Part v v
  | deeper {part inner v : Value} (hinner : inner ∈ v.parts) (hpart : Part part inner) : Part part v

/-- What is inside something inside a value is inside the value. -/
theorem Part.trans {part inner v : Value} (hpart : part.Part inner) (hinner : inner.Part v) :
    part.Part v := by
  induction hinner with
  | self => exact hpart
  | deeper hmem _ ih => exact .deeper hmem ih

/-- The parts of a value are lower. -/
theorem height_lt_of_mem_parts {part v : Value} (h : part ∈ v.parts) : part.height < v.height := by
  cases v with
  | list items => exact height_lt_of_mem_elements (elements_list items) h
  | set items => exact height_lt_of_mem_elements (elements_set items) h
  | tuple items => exact height_lt_of_mem_elements (elements_tuple items) h
  | dict entries =>
    rcases List.mem_append.mp h with hkey | hvalue
    · obtain ⟨entry, hentry, rfl⟩ := List.mem_map.mp hkey
      exact (height_lt_of_mem_entries (entries_dict entries) hentry).1
    · obtain ⟨entry, hentry, rfl⟩ := List.mem_map.mp hvalue
      exact (height_lt_of_mem_entries (entries_dict entries) hentry).2
  | object owner fields assigned =>
    obtain ⟨field, hfield, rfl⟩ := List.mem_map.mp h
    exact Nat.lt_succ_of_le (height_le_heightFields hfield)
  | _ => cases h

/-- A value is as high as any of its parts. -/
theorem Part.height_le {part v : Value} (h : part.Part v) : part.height ≤ v.height := by
  induction h with
  | self => exact Nat.le_refl _
  | deeper hmem _ ih => exact Nat.le_of_lt (Nat.lt_of_le_of_lt ih (height_lt_of_mem_parts hmem))

/-- The values at every level of a value but the uppermost. -/
def ProperPart (part v : Value) : Prop := ∃ inner ∈ v.parts, part.Part inner

/-- What is properly inside a value is lower than the value. -/
theorem ProperPart.height_lt {part v : Value} (h : part.ProperPart v) : part.height < v.height := by
  obtain ⟨inner, hinner, hpart⟩ := h
  exact Nat.lt_of_le_of_lt hpart.height_le (height_lt_of_mem_parts hinner)

/-- A part of a value is properly inside it. -/
theorem properPart_of_mem_parts {part v : Value} (h : part ∈ v.parts) : part.ProperPart v :=
  ⟨part, h, .self part⟩

/-- What a proper part holds is a proper part. -/
theorem ProperPart.part {part inner v : Value} (h : inner.ProperPart v) (hpart : part ∈ inner.parts) :
    part.ProperPart v := by
  obtain ⟨outer, houter, hinner⟩ := h
  exact ⟨outer, houter, (Part.deeper hpart (.self part)).trans hinner⟩

/-! ## What holds of all parts -/

/-- Whether something holds of a value at every level. -/
def Everywhere (P : Value → Prop) (v : Value) : Prop := ∀ part, part.Part v → P part

variable {P : Value → Prop} {v : Value}

/-- What holds everywhere in a value holds for the value. -/
theorem Everywhere.here (h : v.Everywhere P) : P v := h v (.self v)

/-- What holds everywhere in a value holds everywhere in its parts. -/
theorem Everywhere.part (h : v.Everywhere P) {inner : Value} (hinner : inner ∈ v.parts) :
    inner.Everywhere P :=
  fun part hpart => h part (.deeper hinner hpart)

/-- What holds everywhere in a value holds everywhere in what is inside it. -/
theorem Everywhere.of_part (h : v.Everywhere P) {inner : Value} (hinner : inner.Part v) :
    inner.Everywhere P :=
  fun part hpart => h part (hpart.trans hinner)

/-- The value in a place of the parts. -/
theorem Everywhere.place (h : v.Everywhere P) {i : Nat} {inner : Value}
    (hinner : v.parts[i]? = some inner) : inner.Everywhere P :=
  h.part (List.mem_of_getElem? hinner)

/-- What holds for a value and everywhere in its parts holds everywhere. -/
theorem Everywhere.of_parts (hself : P v) (hparts : ∀ part ∈ v.parts, part.Everywhere P) :
    v.Everywhere P := by
  intro inner hinner
  cases hinner with
  | self => exact hself
  | deeper hmem hdeeper => exact hparts _ hmem inner hdeeper

/-! ## Well-formed values -/

/-- The elements of a set, the keys of a dictionary and the names of fields are pairwise different. -/
def DistinctParts : Value → Prop
  | set items => items.Pairwise fun item later => later.same item = false
  | dict entries => (entries.map (·.1)).Pairwise fun key later => later.same key = false
  | object _ fields _ => (fields.map (·.1)).Nodup
  | none | bool _ | int _ | float _ | str _ | bytes _ | date _ | datetime _ | list _ | tuple _
  | member .. => True

/-- **Values as they are built**, from elements, keys and names that are pairwise different. -/
abbrev WellFormed (v : Value) : Prop := v.Everywhere DistinctParts

/-- Entries with different keys have different keys at all levels if keys and values have. -/
theorem distinctKeysEntries_of_pairwise {entries : List (Value × Value)}
    (hdistinct : (entries.map (·.1)).Pairwise fun key later => later.same key = false)
    (hkeys : ∀ entry ∈ entries, entry.1.distinctKeys = true)
    (hvalues : ∀ entry ∈ entries, entry.2.distinctKeys = true) :
    distinctKeysEntries entries = true := by
  induction entries with
  | nil => rw [distinctKeysEntries]
  | cons entry rest ih =>
    obtain ⟨key, value⟩ := entry
    rw [List.map_cons, List.pairwise_cons] at hdistinct
    rw [List.forall_mem_cons] at hkeys hvalues
    have hall : (rest.all fun entry => !same entry.1 key) = true := by
      refine List.all_eq_true.mpr fun entry hentry => ?_
      rw [hdistinct.1 entry.1 (List.mem_map_of_mem hentry), Bool.not_false]
    rw [distinctKeysEntries, hall, hkeys.1, hvalues.1, ih hdistinct.2 hkeys.2 hvalues.2]
    rfl

/-- No dictionary and no object in a well-formed value has a key twice. -/
theorem WellFormed.distinctKeys (h : v.WellFormed) : v.distinctKeys = true := by
  induction hheight : v.height using Nat.strongRecOn generalizing v with
  | ind n ih =>
    subst hheight
    have hparts : ∀ part ∈ v.parts, part.distinctKeys = true := fun part hpart =>
      ih _ (height_lt_of_mem_parts hpart) (h.part hpart) rfl
    cases v with
    | list items => exact distinctKeysAll_iff.mpr hparts
    | set items => exact distinctKeysAll_iff.mpr hparts
    | tuple items => exact distinctKeysAll_iff.mpr hparts
    | dict entries =>
      refine distinctKeysEntries_of_pairwise h.here (fun entry hentry => ?_) fun entry hentry => ?_
      · exact hparts _ (key_mem_parts hentry)
      · exact hparts _ (value_mem_parts hentry)
    | object owner fields assigned =>
      exact distinctKeysFields_iff.mpr
        ⟨h.here, fun field hfield => hparts _ (List.mem_map_of_mem hfield)⟩
    | _ => rfl

end ObjectMapping.Value
