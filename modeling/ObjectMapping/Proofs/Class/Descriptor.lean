import ObjectMapping.Class.Descriptor
import ObjectMapping.Proofs.Keyed
import ObjectMapping.Proofs.Outcome

/-! # Descriptions of classes

A description lists the fields of a class under distinct names, in the order of its slots. If the
names of the slots are distinct to begin with, there is one field for each slot.

* `Class.describeAs_flavor`: the description in the terms of the class's own flavor is the usual one.
* **`Class.describe_fields`** — with distinct names, fields and slots correspond one to one. -/

namespace ObjectMapping.Class

variable {c : Class} {d : Descriptor} {flavor : Flavor}

/-- Describing a class in the terms of its own flavor is describing it. -/
theorem describeAs_flavor (c : Class) : c.describeAs c.flavor = .ok c.describe := by
  obtain ⟨handle, slots, body⟩ := c
  cases body <;> rfl

/-- A description is that of the class, with its fields under distinct names. -/
theorem describeAs_eq_ok (h : c.describeAs flavor = .ok d) :
    d.handle = c.handle ∧ (d.fields.map (·.1)).Nodup := by
  have hplain : ∀ flavor, ((c.describePlain flavor).fields.map (·.1)).Nodup :=
    fun _ => Keyed.nodup_keys_ofList _
  have hmodel : ∀ validators, ((c.describeModel validators).fields.map (·.1)).Nodup :=
    fun _ => Keyed.nodup_keys_ofList _
  unfold describeAs at h
  split at h
  · obtain rfl := Except.ok.inj h
    exact ⟨rfl, hmodel _⟩
  · exact absurd h (by simp)
  · obtain rfl := Except.ok.inj h
    exact ⟨rfl, hplain _⟩

/-- A description keeps the handle of its class. -/
theorem describe_handle (c : Class) : c.describe.handle = c.handle :=
  (describeAs_eq_ok (describeAs_flavor c)).1

/-- A plain class wants no assignment to be skipped. -/
theorem describe_hook (h : c.body = .dataclass) : c.describe.hook = .none := by
  rw [describe, h]
  rfl

/-- The fields of a described class have different names. -/
theorem nodup_describe_fields (c : Class) : (c.describe.fields.map (·.1)).Nodup :=
  (describeAs_eq_ok (describeAs_flavor c)).2

/-- The name under which a field is given to the constructor: the first one that is accepted. -/
def paramOf (c : Class) (slot : Slot) : String :=
  (c.params c.describe.strategy slot).headD slot.name

/-- **With distinct names, the fields of a description are the slots of the class.** -/
theorem describe_fields (h : (c.slots.map (·.name)).Nodup) :
    c.describe.fields = c.slots.map fun slot => (slot.name, slot.describe (c.paramOf slot)) := by
  have hfields : ∀ param : Slot → String, c.describeFields param
      = c.slots.map fun slot => (slot.name, slot.describe (param slot)) := by
    intro param
    refine Keyed.ofList_eq_self ?_
    rw [List.map_map]
    exact h
  obtain ⟨handle, slots, body⟩ := c
  cases body <;> exact hfields _

/-- With distinct names, looking a field up is looking its slot up. -/
theorem describe_field? (h : (c.slots.map (·.name)).Nodup) (name : String) :
    c.describe.field? name
      = (c.slots.find? (name == ·.name)).map fun slot => slot.describe (c.paramOf slot) := by
  rw [Descriptor.field?, describe_fields h]
  clear h
  generalize c.slots = slots
  induction slots with
  | nil => rfl
  | cons slot rest ih =>
    rw [List.map_cons, List.lookup_cons, List.find?_cons]
    cases name == slot.name with
    | true => rfl
    | false => exact ih

/-- With distinct names, a slot is described under its name. -/
theorem field?_of_mem_slots (h : (c.slots.map (·.name)).Nodup) {slot : Slot}
    (hslot : slot ∈ c.slots) :
    c.describe.field? slot.name = some (slot.describe (c.paramOf slot)) := by
  have hfields := describe_fields h
  have hnodup := c.nodup_describe_fields
  rw [hfields] at hnodup
  rw [Descriptor.field?, hfields]
  exact Keyed.lookup_of_mem hnodup (List.mem_map_of_mem hslot)

/-- A field of a description describes the slot of its name. -/
theorem exists_slot_of_field? {name : String} {field : FieldDescriptor}
    (h : (c.slots.map (·.name)).Nodup) (hfield : c.describe.field? name = some field) :
    ∃ slot ∈ c.slots, slot.name = name ∧ field = slot.describe (c.paramOf slot) := by
  rw [Descriptor.field?, describe_fields h] at hfield
  obtain ⟨slot, hslot, heq⟩ := List.mem_map.mp (Keyed.mem_of_lookup hfield)
  obtain ⟨hname, hdescribed⟩ := Prod.mk.inj heq
  exact ⟨slot, hslot, hname, hdescribed.symm⟩

/-- A field of a description has the name under which it is found. -/
theorem field_name_of_field? {name : String} {field : FieldDescriptor}
    (hfield : c.describe.field? name = some field) : field.name = name := by
  have hfields : ∀ param : Slot → String, (c.describeFields param).lookup name = some field →
      field.name = name := by
    intro param hlookup
    obtain ⟨slot, -, heq⟩ := List.mem_map.mp (Keyed.mem_of_lookup_ofList hlookup)
    obtain ⟨rfl, rfl⟩ := Prod.mk.inj heq
    rfl
  obtain ⟨handle, slots, body⟩ := c
  cases body <;> exact hfields _ hfield

end ObjectMapping.Class
