import ObjectMapping.Proofs.Keyed
import ObjectMapping.Value.Printer

/-! # Parts of values are lower

Every way to look into a value leads to a value of smaller height: its elements, its entries, what
stands under a subscript and what stands in a field. -/

namespace ObjectMapping.Value

/-- Every value has at least one level. -/
theorem height_pos (v : Value) : 0 < v.height := by
  cases v <;> simp [height]

/-- A value in a list is no higher than the list of them. -/
theorem height_le_heightAll {items : List Value} {item : Value} (h : item ∈ items) :
    item.height ≤ heightAll items := by
  induction items with
  | nil => simp at h
  | cons head tail ih =>
    rw [heightAll]
    rcases List.mem_cons.mp h with rfl | htail
    · exact Nat.le_max_left _ _
    · exact Nat.le_trans (ih htail) (Nat.le_max_right _ _)

/-- The key and the value of an entry are no higher than the entries. -/
theorem height_le_heightEntries {entries : List (Value × Value)} {entry : Value × Value}
    (h : entry ∈ entries) :
    entry.1.height ≤ heightEntries entries ∧ entry.2.height ≤ heightEntries entries := by
  induction entries with
  | nil => simp at h
  | cons head tail ih =>
    rw [heightEntries]
    rcases List.mem_cons.mp h with rfl | htail
    · omega
    · have hle := ih htail
      omega

/-- The value of a field is no higher than the fields. -/
theorem height_le_heightFields {fields : List (String × Value)} {name : String} {v : Value}
    (h : (name, v) ∈ fields) : v.height ≤ heightFields fields := by
  induction fields with
  | nil => simp at h
  | cons head tail ih =>
    rw [heightFields]
    rcases List.mem_cons.mp h with rfl | htail
    · exact Nat.le_max_left _ _
    · exact Nat.le_trans (ih htail) (Nat.le_max_right _ _)

/-- The elements of a value are lower than the value. -/
theorem height_lt_of_mem_elements {v item : Value} {items : List Value}
    (h : v.elements = .ok items) (hmem : item ∈ items) : item.height < v.height := by
  cases v with
  | list _ | set _ | tuple _ =>
    obtain rfl := Except.ok.inj h
    exact Nat.lt_succ_of_le (height_le_heightAll hmem)
  | dict entries =>
    obtain rfl := Except.ok.inj h
    obtain ⟨entry, hentry, rfl⟩ := List.mem_map.mp hmem
    exact Nat.lt_succ_of_le (height_le_heightEntries hentry).1
  | _ => simp [elements] at h

/-- The keys and values of a value are lower than the value. -/
theorem height_lt_of_mem_entries {v : Value} {entries : List (Value × Value)}
    {entry : Value × Value} (h : v.entries = .ok entries) (hmem : entry ∈ entries) :
    entry.1.height < v.height ∧ entry.2.height < v.height := by
  cases v with
  | dict _ =>
    obtain rfl := Except.ok.inj h
    have hle := height_le_heightEntries hmem
    exact ⟨Nat.lt_succ_of_le hle.1, Nat.lt_succ_of_le hle.2⟩
  | _ => simp [Value.entries] at h

/-- What is found under a key is lower than the value. -/
theorem height_lt_of_subscript {v key found : Value} (h : v.subscript key = .ok found) :
    found.height < v.height := by
  have hfound : v.subscript? key = some found := by
    unfold subscript at h
    split at h
    · next other hother => rw [hother, Except.ok.inj h]
    · simp at h
  unfold subscript? at hfound
  split at hfound
  · obtain ⟨k, hmem⟩ := Keyed.exists_mem_of_lookup hfound
    exact Nat.lt_succ_of_le (height_le_heightEntries hmem).2
  · split at hfound
    · simp at hfound
    · exact Nat.lt_succ_of_le (height_le_heightAll (List.mem_of_getElem? hfound))
  · split at hfound
    · simp at hfound
    · exact Nat.lt_succ_of_le (height_le_heightAll (List.mem_of_getElem? hfound))
  · simp at hfound

/-- The field of an object is lower than the object. -/
theorem height_lt_of_field {v found : Value} {name : String} (h : v.field name = .ok found) :
    found.height < v.height := by
  cases v with
  | object owner fields assigned =>
    rw [field_object] at h
    split at h
    · next other hother =>
      obtain rfl := Except.ok.inj h
      obtain ⟨k, hmem⟩ := Keyed.exists_mem_of_lookup hother
      exact Nat.lt_succ_of_le (height_le_heightFields hmem)
    · simp [noAttribute] at h
  | _ => simp [field, notAnObject] at h

/-- A field is within the bound that a source leaves to its parts. -/
theorem height_le_of_field {v found : Value} {name : String} (h : v.field name = .ok found) :
    found.height ≤ v.height - 1 := by
  have hlt := height_lt_of_field h
  omega

end ObjectMapping.Value
