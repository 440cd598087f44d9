import ObjectMapping.Proofs.Value.Height

/-! # Values with distinct keys

Dictionaries are written entry by entry and objects field by field, so no key stands in them twice.

* **`Value.distinctKeys`** — no dictionary and no object in a value has a key twice.
* `distinctKeysAll_iff`, `distinctKeys_of_mem_entries`, `distinctKeys_of_field`: the parts of such a
  value are such values. -/

namespace ObjectMapping.Value

mutual

/-- **No dictionary and no object in the value has a key twice.** -/
def distinctKeys : Value → Bool
  | list items | set items | tuple items => distinctKeysAll items
  | dict entries => distinctKeysEntries entries
  | object _ fields _ => distinctKeysFields fields
  | none | bool _ | int _ | float _ | str _ | bytes _ | date _ | datetime _ | member .. => true

/-- The same for all values of a list. -/
def distinctKeysAll : List Value → Bool
  | [] => true
  | item :: rest => distinctKeys item && distinctKeysAll rest

/-- The same for the entries of a dictionary, which have pairwise different keys. -/
def distinctKeysEntries : List (Value × Value) → Bool
  | [] => true
  | (key, value) :: rest =>
      rest.all (fun entry => !same entry.1 key) && distinctKeys key && distinctKeys value &&
        distinctKeysEntries rest

/-- The same for the fields of an object, which have pairwise different names. -/
def distinctKeysFields : List (String × Value) → Bool
  | [] => true
  | (name, value) :: rest =>
      rest.all (fun field => field.1 != name) && distinctKeys value && distinctKeysFields rest

end

/-! ## The parts of a value -/

/-- A list of values has different keys if each of them has. -/
theorem distinctKeysAll_iff {items : List Value} :
    distinctKeysAll items = true ↔ ∀ item ∈ items, item.distinctKeys = true := by
  induction items with
  | nil => simp [distinctKeysAll]
  | cons head tail ih => rw [distinctKeysAll, Bool.and_eq_true, ih, List.forall_mem_cons]

/-- The keys and values of a dictionary with different keys have different keys. -/
theorem distinctKeys_of_mem_entries {entries : List (Value × Value)}
    (h : distinctKeysEntries entries = true) {entry : Value × Value} (hmem : entry ∈ entries) :
    entry.1.distinctKeys = true ∧ entry.2.distinctKeys = true := by
  induction entries with
  | nil => simp at hmem
  | cons head tail ih =>
    rw [distinctKeysEntries, Bool.and_eq_true, Bool.and_eq_true, Bool.and_eq_true] at h
    rcases List.mem_cons.mp hmem with rfl | htail
    · exact ⟨h.1.1.2, h.1.2⟩
    · exact ih h.2 htail

/-- The names of fields with distinct keys are distinct, and so are the keys in their values. -/
theorem distinctKeysFields_iff {fields : List (String × Value)} :
    distinctKeysFields fields = true ↔
      (fields.map (·.1)).Nodup ∧ ∀ field ∈ fields, field.2.distinctKeys = true := by
  induction fields with
  | nil => simp [distinctKeysFields]
  | cons head tail ih =>
    obtain ⟨name, value⟩ := head
    have hname : (tail.all fun field => field.1 != name) = true ↔ name ∉ tail.map (·.1) := by
      simp only [List.all_eq_true, bne_iff_ne, List.mem_map, not_exists, not_and, ne_eq]
    rw [distinctKeysFields, Bool.and_eq_true, Bool.and_eq_true, ih, hname, List.map_cons,
      List.nodup_cons, List.forall_mem_cons]
    exact and_and_and_comm

/-- The field of an object with different keys has different keys. -/
theorem distinctKeys_of_field {v part : Value} {name : String} (h : v.distinctKeys = true)
    (hpart : v.field name = .ok part) : part.distinctKeys = true := by
  cases v with
  | object owner fields assigned =>
    rw [field_object] at hpart
    split at hpart
    · next found hfound =>
      obtain rfl := Except.ok.inj hpart
      exact (distinctKeysFields_iff.mp h).2 _ (Keyed.mem_of_lookup hfound)
    · cases hpart
  | _ => cases hpart

end ObjectMapping.Value
