import ObjectMapping.Proofs.Value.Conformance

/-! # Families of twin classes

The classes of two families can be the same but for their names and the names of their fields. Then
every class has a twin in the other family, every field a counterpart in the twin, and the types of
the two agree once the classes in them are exchanged for their twins.

* `Twins`: two such classes with the names of their fields; `Family.swap` exchanges the families.
* **`FieldType.Corresponds`** — types that agree up to the exchange of classes.
* **`Family.Alike`** — what makes two families alike; it is so from either side (`Family.Alike.swap`).
* `Family.Alike.unique`, `Family.Alike.apart`: a class has one twin, and is not a twin itself. -/

namespace ObjectMapping

/-- A class and its twin, with the names of each field in the one and in the other. -/
structure Twins where
  first : Class
  second : Class
  names : List (String × String)

/-- Two families of classes, twin by twin. -/
abbrev Family := List Twins

namespace Twins

/-- The twins seen from the second one. -/
def swap (pair : Twins) : Twins := ⟨pair.second, pair.first, pair.names.map Prod.swap⟩

/-- Swapped twins start with the second class. -/
@[simp] theorem swap_first (pair : Twins) : pair.swap.first = pair.second := rfl

/-- Swapped twins end with the first class. -/
@[simp] theorem swap_second (pair : Twins) : pair.swap.second = pair.first := rfl

/-- Names that correspond to each other do so in swapped twins, the other way around. -/
theorem mem_swap_names {pair : Twins} {name other : String} :
    (name, other) ∈ pair.swap.names ↔ (other, name) ∈ pair.names := by
  rw [swap, List.mem_map]
  constructor
  · rintro ⟨⟨a, b⟩, hmem, heq⟩
    obtain ⟨rfl, rfl⟩ := Prod.mk.inj heq
    exact hmem
  · exact fun hmem => ⟨_, hmem, rfl⟩

/-- After twins are swapped the first names are the second ones of before. -/
theorem map_fst_swap_names (pair : Twins) : pair.swap.names.map (·.1) = pair.names.map (·.2) := by
  rw [swap, List.map_map]
  rfl

/-- After twins are swapped the second names are the first ones of before. -/
theorem map_snd_swap_names (pair : Twins) : pair.swap.names.map (·.2) = pair.names.map (·.1) := by
  rw [swap, List.map_map]
  rfl

end Twins

/-- The two families exchanged. -/
def Family.swap (family : Family) : Family := family.map Twins.swap

/-- The swapped family consists of the swapped twins. -/
theorem Family.swap_mem {family : Family} {pair : Twins} (h : pair ∈ family) :
    pair.swap ∈ family.swap :=
  List.mem_map_of_mem h

/-! ## Types -/

namespace FieldType

/-- The first members are classes that are among the others. -/
def ClassesAmong (members others : List FieldType) : Prop :=
  ∀ member ∈ members, ∃ s t : ClassHandle, member = .named s ∧ .named t ∈ others ∧ s.id = t.id

/-- **Types that agree up to the exchange of classes for their twins.** Other classes, unions of
classes and `any` stay as they are. -/
inductive Corresponds (family : Family) : FieldType → FieldType → Prop
  | any : Corresponds family .any .any
  | named {s t : ClassHandle} (h : s.id = t.id) : Corresponds family (.named s) (.named t)
  | twins {pair : Twins} {s t : ClassHandle} (hpair : pair ∈ family)
      (hs : s.id = pair.first.handle.id) (ht : t.id = pair.second.handle.id) :
      Corresponds family (.named s) (.named t)
  | union {members others : List FieldType} (h : ClassesAmong members others)
      (h' : ClassesAmong others members) : Corresponds family (.union members) (.union others)
  | optional {s t : FieldType} (h : Corresponds family s t) :
      Corresponds family (.optional s) (.optional t)
  | list {s t : FieldType} (h : Corresponds family s t) : Corresponds family (.list s) (.list t)
  | set {s t : FieldType} (h : Corresponds family s t) : Corresponds family (.set s) (.set t)
  | dict {key key' value value' : FieldType} (hkey : Corresponds family key key')
      (hvalue : Corresponds family value value') :
      Corresponds family (.dict key value) (.dict key' value')
  | tuple {ss ts : List FieldType} (hlength : ss.length = ts.length)
      (h : ∀ (i : Nat) s t, ss[i]? = some s → ts[i]? = some t → Corresponds family s t) :
      Corresponds family (.tuple ss) (.tuple ts)

/-- Types that correspond still do so in the swapped family, the other way around. -/
theorem Corresponds.swap {family : Family} {s t : FieldType} (h : Corresponds family s t) :
    Corresponds family.swap t s := by
  induction h with
  | any => exact .any
  | named h => exact .named h.symm
  | twins hpair hs ht => exact .twins (Family.swap_mem hpair) ht hs
  | union h h' => exact .union h' h
  | optional _ ih => exact .optional ih
  | list _ ih => exact .list ih
  | set _ ih => exact .set ih
  | dict _ _ ihkey ihvalue => exact .dict ihkey ihvalue
  | tuple hlength _ ih => exact .tuple hlength.symm fun i t s ht hs => ih i s t hs ht

end FieldType

/-! ## Families -/

/-- What makes two plain classes twins: the names cover their fields one to one, and fields with
corresponding names have corresponding types. -/
structure Twins.Alike (family : Family) (pair : Twins) : Prop where
  first_body : pair.first.body = .dataclass
  second_body : pair.second.body = .dataclass
  first_names : (pair.names.map (·.1)).Perm (pair.first.slots.map (·.name))
  second_names : (pair.names.map (·.2)).Perm (pair.second.slots.map (·.name))
  types : ∀ a ∈ pair.first.slots, ∀ b ∈ pair.second.slots, (a.name, b.name) ∈ pair.names →
    a.type.Corresponds family b.type

/-- Names that are paired are those of a field of either class. -/
theorem Twins.Alike.exists_slots {family : Family} {pair : Twins} (h : pair.Alike family)
    {names : String × String} (hnames : names ∈ pair.names) :
    ∃ a ∈ pair.first.slots, ∃ b ∈ pair.second.slots, names = (a.name, b.name) := by
  obtain ⟨a, ha, hfirst⟩ :=
    List.mem_map.mp (h.first_names.mem_iff.mp (List.mem_map_of_mem hnames))
  obtain ⟨b, hb, hsecond⟩ :=
    List.mem_map.mp (h.second_names.mem_iff.mp (List.mem_map_of_mem hnames))
  exact ⟨a, ha, b, hb, Prod.ext hfirst.symm hsecond.symm⟩

/-- Every field of the second class has a counterpart in the first one. -/
theorem Twins.Alike.exists_counterpart {family : Family} {pair : Twins} (h : pair.Alike family)
    {b : Slot} (hb : b ∈ pair.second.slots) :
    ∃ a ∈ pair.first.slots, (a.name, b.name) ∈ pair.names := by
  obtain ⟨names, hnames, hname⟩ :=
    List.mem_map.mp (h.second_names.mem_iff.mpr (List.mem_map_of_mem hb))
  obtain ⟨a, ha, b', -, rfl⟩ := h.exists_slots hnames
  exact ⟨a, ha, (show b'.name = b.name from hname) ▸ hnames⟩

/-- Twins that are alike are so after both are swapped. -/
theorem Twins.Alike.swap {family : Family} {pair : Twins} (h : pair.Alike family) :
    pair.swap.Alike family.swap where
  first_body := h.second_body
  second_body := h.first_body
  first_names := pair.map_fst_swap_names ▸ h.second_names
  second_names := pair.map_snd_swap_names ▸ h.first_names
  types := fun a ha b hb hnames => (h.types b hb a ha (mem_swap_names.mp hnames)).swap

namespace Family

variable {family : Family} {pair pair' : Twins}

/-- **Two families of plain classes are alike**: they have no class in common, and their classes are
twins. -/
structure Alike (family : Family) : Prop where
  nodup_ids : (family.map (·.first.handle.id) ++ family.map (·.second.handle.id)).Nodup
  twins : ∀ pair ∈ family, pair.Alike family

/-- A family of twins that are alike is swapped to such a family. -/
theorem Alike.swap (h : family.Alike) : family.swap.Alike where
  nodup_ids := by
    rw [Family.swap, List.map_map, List.map_map]
    exact List.nodup_append_comm.mp h.nodup_ids
  twins := by
    intro other hother
    obtain ⟨pair, hpair, rfl⟩ := List.mem_map.mp hother
    exact (h.twins pair hpair).swap

/-- A class has one twin. -/
theorem Alike.unique (h : family.Alike) (hpair : pair ∈ family) (hpair' : pair' ∈ family)
    (hid : pair.first.handle.id = pair'.first.handle.id) : pair = pair' :=
  List.inj_on_of_nodup_map (List.nodup_append.mp h.nodup_ids).1 hpair hpair' hid

/-- No class is in both families. -/
theorem Alike.apart (h : family.Alike) (hpair : pair ∈ family) (hpair' : pair' ∈ family) :
    pair.first.handle.id ≠ pair'.second.handle.id :=
  (List.nodup_append.mp h.nodup_ids).2.2 _ (List.mem_map_of_mem hpair) _
    (List.mem_map_of_mem hpair')

end Family

end ObjectMapping
