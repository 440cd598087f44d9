import ObjectMapping.Proofs.Class.Construction
import ObjectMapping.Value.Decoding

/-! # Objects are constructed again from their fields

A constructor that accepts every field under its own name, and no field under the name of another
one, can be given the fields of an object of its class in any order: it takes each of them for the
field that it is.

* **`Class.Reconstructible`** — the condition on a class.
* `Class.Reconstructible.slotFor?_name`: the field that belongs to the name of a field.
* **`Class.Reconstructible.construct`** — a construction from fields, up to the validators. -/

namespace ObjectMapping.Class

open Outcome

/-- **A class whose constructor takes fields by their names.** All fields are accepted under their
own names, and under the name of a field no other one is. -/
structure Reconstructible (c : Class) : Prop where
  names : (c.slots.map (·.name)).Nodup
  accepted : ∀ slot ∈ c.slots, slot.accepted = true
  own : ∀ slot ∈ c.slots, slot.name ∈ c.params .validating slot
  apart : ∀ slot ∈ c.slots, ∀ other ∈ c.slots, other.name ≠ slot.name →
    slot.name ∉ c.params .validating other

variable {c : Class}

/-- The field that the constructor accepts under the name of a field is this one. -/
theorem Reconstructible.slotFor?_name (h : c.Reconstructible) {slot : Slot}
    (hslot : slot ∈ c.slots) :
    Decoding.slotFor? c slot.name = some slot := by
  have haccepts : (slot.accepted && (c.params .validating slot).contains slot.name) = true := by
    rw [h.accepted slot hslot, Bool.true_and, List.contains_iff_mem]
    exact h.own slot hslot
  have hsome : (Decoding.slotFor? c slot.name).isSome = true :=
    List.find?_isSome.mpr ⟨slot, hslot, haccepts⟩
  obtain ⟨found, hfound⟩ := Option.isSome_iff_exists.mp hsome
  have hmem := List.mem_of_find?_eq_some hfound
  have hfits : (found.accepted && (c.params .validating found).contains slot.name) = true :=
    List.find?_some (p := fun slot' : Slot =>
      slot'.accepted && (c.params .validating slot').contains slot.name) hfound
  have hname := (Bool.and_eq_true_iff.mp hfits).2
  have heq : found.name = slot.name := by
    by_contra hne
    exact h.apart slot hslot found hmem hne (List.contains_iff_mem.mp hname)
  rw [hfound, List.inj_on_of_nodup_map h.names hmem hslot heq]

/-- If only one of several names is given, the argument under it is taken. -/
theorem takeFirst?_eq_take? {args : Arguments} {params : List String} {name : String}
    (hname : name ∈ params) (hgiven : name ∈ args.map (·.1))
    (honly : ∀ param ∈ params, param ∈ args.map (·.1) → param = name) :
    takeFirst? args params = Keyed.take? args name := by
  induction params with
  | nil => cases hname
  | cons param params ih =>
    rw [takeFirst?]
    by_cases heq : param = name
    · subst heq
      obtain ⟨found, hfound⟩ := Option.isSome_iff_exists.mp (Keyed.isSome_take?_iff.mpr hgiven)
      rw [hfound]
    · rw [Keyed.take?_eq_none_iff.mpr fun hmem => heq (honly param List.mem_cons_self hmem)]
      exact ih ((List.mem_cons.mp hname).resolve_left (Ne.symm heq)) fun other hother =>
        honly other (List.mem_cons_of_mem _ hother)

/-- Slots that are given under their names are filled with the arguments, and use them up. -/
theorem Reconstructible.fillSlots (h : c.Reconstructible) {slots : List Slot}
    (hslots : slots.Sublist c.slots) {args : Arguments}
    (hargs : (args.map (·.1)).Perm (slots.map (·.name))) :
    ∃ filled, c.fillSlots .validating slots args = .ok (filled, []) ∧
      (filled.map fun f => (f.name, f.value)).Perm args := by
  induction slots generalizing args with
  | nil =>
    obtain rfl : args = [] := by simpa using hargs
    exact ⟨[], rfl, .refl _⟩
  | cons slot rest ih =>
    have hslot : slot ∈ c.slots := hslots.subset List.mem_cons_self
    have hgiven : slot.name ∈ args.map (·.1) := hargs.mem_iff.mpr List.mem_cons_self
    -- an argument under another name of the slot would be that of another slot
    have honly : ∀ param ∈ c.params .validating slot,
        param ∈ args.map (·.1) → param = slot.name := by
      intro param hparam hmem
      obtain ⟨other, hother, rfl⟩ := List.mem_map.mp (hargs.mem_iff.mp hmem)
      by_contra hne
      exact h.apart other (hslots.subset hother) slot hslot (Ne.symm hne) hparam
    have htake := takeFirst?_eq_take? (h.own slot hslot) hgiven honly
    obtain ⟨⟨value, left⟩, htaken⟩ :=
      Option.isSome_iff_exists.mp (Keyed.isSome_take?_iff.mpr hgiven)
    have hperm := Keyed.perm_of_take? htaken
    have hleft : (left.map (·.1)).Perm (rest.map (·.name)) :=
      ((hperm.map (·.1)).symm.trans hargs).cons_inv
    obtain ⟨others, hothers, hfilled⟩ := ih ((List.sublist_cons_self slot rest).trans hslots) hleft
    refine ⟨⟨slot.name, value, true⟩ :: others, ?_, (hfilled.cons _).trans hperm.symm⟩
    rw [Class.fillSlots, fillSlot, if_pos (h.accepted slot hslot), htake, htaken, ok_bind]
    dsimp only
    rw [hothers]
    rfl

/-- **A construction from the fields of an object** gives an object with these fields, if the
validators accept it. -/
theorem Reconstructible.construct (h : c.Reconstructible) {args : Arguments}
    (hargs : (args.map (·.1)).Perm (c.slots.map (·.name))) :
    ∃ fields assigned, c.construct .validating args = c.validate (.object c.handle fields assigned) ∧
      fields.Perm args := by
  obtain ⟨filled, hfilled, hperm⟩ := h.fillSlots (List.Sublist.refl _) hargs
  have hnodup : ((filled.map fun f => (f.name, f.value)).map (·.1)).Nodup :=
    ((hperm.map _).trans hargs).nodup_iff.mpr h.names
  refine ⟨filled.map fun f => (f.name, f.value),
    Value.sortNames ((filled.filter (·.given)).map (·.name)), ?_, hperm⟩
  rw [Class.construct, hfilled, ok_bind]
  show c.validate (c.objectOf filled) = _
  rw [objectOf, Keyed.ofList_eq_self hnodup]

end ObjectMapping.Class
