import Mathlib.Data.List.Perm.Basic
import ObjectMapping.Enumeration
import ObjectMapping.Proofs.Class.Descriptor

/-! # Values that conform to types

Which values a field of a type is meant to hold. The classes in types stand for the classes that are
declared; each is declared once, and none under the number of a builtin class.

* **`Declarations`** — the classes and enum classes of a program.
* **`Declarations.Conforms`** — the values of a type.
* `Conforms.class_inv`, `Conforms.enum_inv`: what a value of a class, or of an enum class, looks like.
* `Conforms.field`: the fields of an object hold values of their types. -/

namespace ObjectMapping

/-- The names of a class are distinct: those of its fields, and across the fields that the constructor
accepts those under which it accepts them. -/
structure Class.DistinctNames (c : Class) : Prop where
  names : (c.slots.map (·.name)).Nodup
  params : (c.slots.filter (·.accepted)).Pairwise fun a b =>
    List.Disjoint (c.params c.describe.strategy a) (c.params c.describe.strategy b)

/-- A plain class has distinct names if its fields do. -/
theorem Class.DistinctNames.of_dataclass {c : Class} (hbody : c.body = .dataclass)
    (hnames : (c.slots.map (·.name)).Nodup) : c.DistinctNames := by
  have hparams : ∀ slot, c.params c.describe.strategy slot = [slot.name] := by
    intro slot
    unfold Class.params
    rw [hbody]
  refine ⟨hnames, ((List.pairwise_map.mp hnames).filter _).imp ?_⟩
  intro a b hne
  rw [hparams, hparams, List.singleton_disjoint, List.mem_singleton]
  exact hne

/-- The classes and the enum classes of a program. -/
structure Declarations where
  classes : List Class
  enums : List Enumeration
  /-- Every class is declared once. -/
  nodup_ids : (classes.map (·.handle.id) ++ enums.map (·.handle.id)).Nodup
  /-- No class is a builtin one. -/
  not_builtin : ∀ id ∈ classes.map (·.handle.id) ++ enums.map (·.handle.id), ∀ b : Builtin, b.id ≠ id
  distinct : ∀ c ∈ classes, c.DistinctNames

/-- Whether a value is of a builtin class. Identifiers are strings. -/
def Builtin.holds : Builtin → Value → Bool
  | .int, .int _ => true
  | .float, .float _ => true
  | .str, .str _ => true
  | .bool, .bool _ => true
  | .bytes, .bytes _ => true
  | .date, .date _ => true
  | .datetime, .datetime _ => true
  | .uuid, .str _ => true
  | _, _ => false

/-- Only the absent value is absent. -/
theorem Value.eq_none_of_isNone {v : Value} (h : v.isNone = true) : v = .none := by
  cases v with
  | none => rfl
  | _ => cases h

namespace Declarations

/-- **The values of a type.** Anything is a value of `any`; an object of a class has exactly the fields
of the class, with values of their types; the positions of a tuple are numbered by machine
integers. -/
inductive Conforms (D : Declarations) : FieldType → Value → Prop
  | any (v : Value) : Conforms D .any v
  | builtin {b : Builtin} {handle : ClassHandle} {v : Value} (hhandle : handle.id = b.id)
      (hvalue : b.holds v = true) : Conforms D (.named handle) v
  | member {e : Enumeration} {handle owner : ClassHandle} {name : String} (henum : e ∈ D.enums)
      (hhandle : handle.id = e.handle.id) (howner : owner.id = e.handle.id)
      (hname : name ∈ e.members) : Conforms D (.named handle) (.member owner name)
  | object {c : Class} {handle owner : ClassHandle} {fields : List (String × Value)}
      {assigned : List String} (hclass : c ∈ D.classes) (hhandle : handle.id = c.handle.id)
      (howner : owner.id = c.handle.id)
      (hnames : (fields.map (·.1)).Perm (c.slots.map (·.name)))
      (hfields : ∀ slot ∈ c.slots, ∀ v, (slot.name, v) ∈ fields → Conforms D slot.type v) :
      Conforms D (.named handle) (.object owner fields assigned)
  | none (inner : FieldType) : Conforms D (.optional inner) .none
  | some {inner : FieldType} {v : Value} (hinner : Conforms D inner v) : Conforms D (.optional inner) v
  | union {members : List FieldType} {member : FieldType} {v : Value} (hmember : member ∈ members)
      (hvalue : Conforms D member v) : Conforms D (.union members) v
  | list {item : FieldType} {items : List Value} (hitems : ∀ v ∈ items, Conforms D item v) :
      Conforms D (.list item) (.list items)
  | set {item : FieldType} {items : List Value} (hitems : ∀ v ∈ items, Conforms D item v) :
      Conforms D (.set item) (.set items)
  | dict {key value : FieldType} {entries : List (Value × Value)}
      (hkeys : ∀ entry ∈ entries, Conforms D key entry.1)
      (hvalues : ∀ entry ∈ entries, Conforms D value entry.2) :
      Conforms D (.dict key value) (.dict entries)
  | tuple {types : List FieldType} {items : List Value} (hlength : types.length = items.length)
      (hbound : items.length < Nat.pow 2 63)
      (hitems : ∀ pair ∈ types.zip items, Conforms D pair.1 pair.2) :
      Conforms D (.tuple types) (.tuple items)

variable {D : Declarations}

/-! ## Declared once -/

/-- The class with a number is the only one with it. -/
theorem class_unique {c c' : Class} (hc : c ∈ D.classes) (hc' : c' ∈ D.classes)
    (hid : c.handle.id = c'.handle.id) : c = c' :=
  List.inj_on_of_nodup_map (List.nodup_append.mp D.nodup_ids).1 hc hc' hid

/-- Enums with the same number are the same. -/
theorem enum_unique {e e' : Enumeration} (he : e ∈ D.enums) (he' : e' ∈ D.enums)
    (hid : e.handle.id = e'.handle.id) : e = e' :=
  List.inj_on_of_nodup_map (List.nodup_append.mp D.nodup_ids).2.1 he he' hid

/-- No class has the number of an enum class. -/
theorem class_ne_enum {c : Class} {e : Enumeration} (hc : c ∈ D.classes) (he : e ∈ D.enums) :
    c.handle.id ≠ e.handle.id :=
  (List.nodup_append.mp D.nodup_ids).2.2 _ (List.mem_map_of_mem hc) _ (List.mem_map_of_mem he)

/-- A declared class is none of the builtin ones. -/
theorem class_ne_builtin {c : Class} (hc : c ∈ D.classes) (b : Builtin) : c.handle.id ≠ b.id :=
  (D.not_builtin _ (List.mem_append_left _ (List.mem_map_of_mem hc)) b).symm

/-- A declared enum is none of the builtin classes. -/
theorem enum_ne_builtin {e : Enumeration} (he : e ∈ D.enums) (b : Builtin) : e.handle.id ≠ b.id :=
  (D.not_builtin _ (List.mem_append_right _ (List.mem_map_of_mem he)) b).symm

/-! ## What conforming values look like -/

/-- A value of a declared class is an object of the class. -/
theorem Conforms.class_inv {c : Class} {handle : ClassHandle} {v : Value} (hc : c ∈ D.classes)
    (hid : handle.id = c.handle.id) (h : D.Conforms (.named handle) v) :
    ∃ owner fields assigned, v = .object owner fields assigned ∧ owner.id = c.handle.id ∧
      (fields.map (·.1)).Perm (c.slots.map (·.name)) ∧
        ∀ slot ∈ c.slots, ∀ v, (slot.name, v) ∈ fields → D.Conforms slot.type v := by
  cases h with
  | builtin hhandle hvalue => exact absurd (hid.symm.trans hhandle) (class_ne_builtin hc _)
  | member henum hhandle howner hname =>
    exact absurd (hid.symm.trans hhandle) (class_ne_enum hc henum)
  | object hclass hhandle howner hnames hfields =>
    obtain rfl := class_unique hc hclass (hid.symm.trans hhandle)
    exact ⟨_, _, _, rfl, howner, hnames, hfields⟩

/-- A value of a declared enum class is one of its members. -/
theorem Conforms.enum_inv {e : Enumeration} {handle : ClassHandle} {v : Value} (he : e ∈ D.enums)
    (hid : handle.id = e.handle.id) (h : D.Conforms (.named handle) v) :
    ∃ owner name, v = .member owner name ∧ owner.id = e.handle.id ∧ name ∈ e.members := by
  cases h with
  | builtin hhandle hvalue => exact absurd (hid.symm.trans hhandle) (enum_ne_builtin he _)
  | member henum hhandle howner hname =>
    obtain rfl := enum_unique he henum (hid.symm.trans hhandle)
    exact ⟨_, _, rfl, howner, hname⟩
  | object hclass hhandle howner hnames hfields =>
    exact absurd (hhandle.symm.trans hid) (class_ne_enum hclass he)

/-- Values of a class are values of any handle for it. -/
theorem Conforms.of_id_eq {s s' : ClassHandle} {v : Value} (hid : s'.id = s.id)
    (h : D.Conforms (.named s) v) : D.Conforms (.named s') v := by
  cases h with
  | builtin hhandle hvalue => exact .builtin (hid.trans hhandle) hvalue
  | member henum hhandle howner hname => exact .member henum (hid.trans hhandle) howner hname
  | object hclass hhandle howner hnames hfields =>
    exact .object hclass (hid.trans hhandle) howner hnames hfields

/-- Every field of an object of a class is there, with a value of its type. -/
theorem Conforms.field {c : Class} {handle : ClassHandle} {v : Value} {slot : Slot}
    (hc : c ∈ D.classes) (hid : handle.id = c.handle.id) (h : D.Conforms (.named handle) v)
    (hslot : slot ∈ c.slots) : ∃ part, v.field slot.name = .ok part ∧ D.Conforms slot.type part := by
  obtain ⟨owner, fields, assigned, rfl, -, hnames, hfields⟩ := h.class_inv hc hid
  have hmem : slot.name ∈ fields.map (·.1) := hnames.mem_iff.mpr (List.mem_map_of_mem hslot)
  obtain ⟨part, hlookup⟩ :=
    Option.isSome_iff_exists.mp (Keyed.lookup_isSome_iff_mem_keys.mpr hmem)
  refine ⟨part, ?_, hfields slot hslot part (Keyed.mem_of_lookup hlookup)⟩
  rw [Value.field_object, hlookup]

/-- A value of an optional type that is there is a value of the type inside. -/
theorem Conforms.strip {type : FieldType} {v : Value} (h : D.Conforms type v)
    (hpresent : v.isNone = false) : D.Conforms type.stripOptional v := by
  cases type with
  | optional inner =>
    cases h with
    | none => simp [Value.isNone] at hpresent
    | some hinner => exact hinner
  | _ => exact h

end Declarations

end ObjectMapping
