import ObjectMapping.Class.Table
import ObjectMapping.Proofs.Class.Reconstruction
import ObjectMapping.Proofs.Value.Conformance
import ObjectMapping.Proofs.Value.Parts

/-! # Values of a type, given a table of definitions

A decoder looks classes up in a table, in which a number may stand for a builtin class, for an enum
class or for a class, in this order. What the table says about classes that are never looked up does
not matter, so everything here is about the types that a type leads to.

* `ClassTable.enumFor?`, `ClassTable.classFor?`: what a handle stands for.
* **`ClassTable.Admits`** — the values of a type, at every level.
* **`ClassTable.Reaches`** — the types that a type leads to, through its parts and through fields.
* **`ClassTable.Place`** — the values that a value holds, each with its type.
* `ClassTable.Determinate`, **`ClassTable.Restorable`** — types that do not leave open what is read,
  without and with a condition on keys. -/

namespace ObjectMapping

/-- The types that a type is made of. -/
def FieldType.parts : FieldType → List FieldType
  | optional inner | list inner | set inner => [inner]
  | dict key value => [key, value]
  | tuple types | union types => types
  | named _ | any => []

namespace ClassTable

/-- The enum class that a handle stands for, unless it is builtin. -/
def enumFor? (t : ClassTable) (handle : ClassHandle) : Option Enumeration :=
  if handle.builtin?.isSome then none else t.enumOf? handle

/-- The class that a handle stands for, unless it is builtin or an enum class. -/
def classFor? (t : ClassTable) (handle : ClassHandle) : Option Class :=
  if handle.builtin?.isSome || (t.enumOf? handle).isSome then none else t.classOf? handle

/-- **The values of a type**, where classes are those of a table. Anything is a value of `any`; an
object of a class has exactly the fields of the class, with values of their types. -/
inductive Admits (t : ClassTable) : FieldType → Value → Prop
  | any (v : Value) : Admits t .any v
  | builtin {b : Builtin} {handle : ClassHandle} {v : Value} (hhandle : handle.builtin? = some b)
      (hvalue : b.holds v = true) : Admits t (.named handle) v
  | member {e : Enumeration} {handle owner : ClassHandle} {name : String}
      (henum : t.enumFor? handle = some e) (howner : owner.id = e.handle.id)
      (hname : name ∈ e.members) : Admits t (.named handle) (.member owner name)
  | object {c : Class} {handle owner : ClassHandle} {fields : List (String × Value)}
      {assigned : List String} (hclass : t.classFor? handle = some c)
      (howner : owner.id = c.handle.id) (hnames : (fields.map (·.1)).Perm (c.slots.map (·.name)))
      (hfields : ∀ slot ∈ c.slots, ∀ v, (slot.name, v) ∈ fields → Admits t slot.type v) :
      Admits t (.named handle) (.object owner fields assigned)
  | none (inner : FieldType) : Admits t (.optional inner) .none
  | some {inner : FieldType} {v : Value} (hinner : Admits t inner v) : Admits t (.optional inner) v
  | union {members : List FieldType} {member : FieldType} {v : Value} (hmember : member ∈ members)
      (hvalue : Admits t member v) : Admits t (.union members) v
  | list {item : FieldType} {items : List Value} (hitems : ∀ v ∈ items, Admits t item v) :
      Admits t (.list item) (.list items)
  | set {item : FieldType} {items : List Value} (hitems : ∀ v ∈ items, Admits t item v) :
      Admits t (.set item) (.set items)
  | dict {key value : FieldType} {entries : List (Value × Value)}
      (hkeys : ∀ entry ∈ entries, Admits t key entry.1)
      (hvalues : ∀ entry ∈ entries, Admits t value entry.2) :
      Admits t (.dict key value) (.dict entries)
  | tuple {types : List FieldType} {items : List Value} (hlength : types.length = items.length)
      (hitems : ∀ pair ∈ types.zip items, Admits t pair.1 pair.2) :
      Admits t (.tuple types) (.tuple items)

/-- **The types that a type leads to**: the types that it is made of and the types of the fields of
its class, at every level. -/
inductive Reaches (t : ClassTable) : FieldType → FieldType → Prop
  | self (type : FieldType) : Reaches t type type
  | part {type inner other : FieldType} (hinner : inner ∈ type.parts) (h : Reaches t inner other) :
      Reaches t type other
  | field {handle : ClassHandle} {c : Class} {slot : Slot} {other : FieldType}
      (hclass : t.classFor? handle = some c) (hslot : slot ∈ c.slots)
      (h : Reaches t slot.type other) : Reaches t (.named handle) other

/-- **The places in a value of a type**: the values at every level, each with the type that it has
there. Which member of a union a value belongs to is left open, so there are no places in it. -/
inductive Place (t : ClassTable) : FieldType → Value → FieldType → Value → Prop
  | self (type : FieldType) (v : Value) : Place t type v type v
  | some {inner other : FieldType} {v part : Value} (h : Place t inner v other part) :
      Place t (.optional inner) v other part
  | item {item other : FieldType} {items : List Value} {v part : Value} (hv : v ∈ items)
      (h : Place t item v other part) : Place t (.list item) (.list items) other part
  | element {item other : FieldType} {items : List Value} {v part : Value} (hv : v ∈ items)
      (h : Place t item v other part) : Place t (.set item) (.set items) other part
  | position {types : List FieldType} {items : List Value} {pair : FieldType × Value}
      {other : FieldType} {part : Value} (hpair : pair ∈ types.zip items)
      (h : Place t pair.1 pair.2 other part) : Place t (.tuple types) (.tuple items) other part
  | key {key value other : FieldType} {entries : List (Value × Value)} {entry : Value × Value}
      {part : Value} (hentry : entry ∈ entries) (h : Place t key entry.1 other part) :
      Place t (.dict key value) (.dict entries) other part
  | value {key value other : FieldType} {entries : List (Value × Value)} {entry : Value × Value}
      {part : Value} (hentry : entry ∈ entries) (h : Place t value entry.2 other part) :
      Place t (.dict key value) (.dict entries) other part
  | field {c : Class} {handle owner : ClassHandle} {slot : Slot} {fields : List (String × Value)}
      {assigned : List String} {v part : Value} {other : FieldType}
      (hclass : t.classFor? handle = some c) (hslot : slot ∈ c.slots)
      (hv : (slot.name, v) ∈ fields) (h : Place t slot.type v other part) :
      Place t (.named handle) (.object owner fields assigned) other part

/-- The types whose values are told apart by member names: most builtin classes, and enum classes. -/
def IsKey (t : ClassTable) : FieldType → Prop
  | .named handle =>
      handle.builtin? ∈ [Builtin.str, .int, .bool, .date, .datetime, .uuid].map some ∨
        (t.enumFor? handle).isSome = true
  | _ => False

/-- Types that do not leave open what is read, apart from the types that they lead to and from the
keys of dictionaries: neither `any` nor a union, and classes whose constructors take fields by their
names. -/
def Determinate (t : ClassTable) : FieldType → Prop
  | .any | .union _ => False
  | .named handle => ∀ c, t.classFor? handle = some c → c.Reconstructible
  | .optional _ | .list _ | .set _ | .tuple _ | .dict .. => True

/-- **Types that do not leave open what is read**, apart from the types that they lead to: neither
`any` nor a union, dictionaries with keys that can be told apart by name, and classes whose
constructors take fields by their names. -/
def Restorable (t : ClassTable) : FieldType → Prop
  | .any | .union _ => False
  | .dict key _ => t.IsKey key
  | .named handle => ∀ c, t.classFor? handle = some c → c.Reconstructible
  | .optional _ | .list _ | .set _ | .tuple _ => True

/-- **The validators of the classes that a type leads to accept** the objects in a value, and every
object that is equal to one of them. -/
def Accepts (t : ClassTable) (type : FieldType) (v : Value) : Prop :=
  ∀ handle c, t.Reaches type (.named handle) → t.classFor? handle = some c →
    ∀ part, part.Part v → ∀ object : Value, object.owner? = some c.handle →
      object.same part = true → c.validate object = .ok object

variable {t : ClassTable} {handle : ClassHandle}

/-- A type that can be restored leaves nothing open. -/
theorem Restorable.determinate {type : FieldType} (h : t.Restorable type) : t.Determinate type := by
  cases type with
  | any => exact h
  | union => exact h
  | named => exact h
  | _ => trivial

/-- An enum is found for a handle that is no builtin class. -/
theorem enumFor?_eq_some {e : Enumeration} (h : t.enumFor? handle = some e) :
    handle.builtin? = none ∧ t.enumOf? handle = some e := by
  rw [enumFor?] at h
  split at h
  · cases h
  · next hbuiltin => exact ⟨by simpa using hbuiltin, h⟩

/-- A class is found for a handle that is neither a builtin class nor an enum. -/
theorem classFor?_eq_some {c : Class} (h : t.classFor? handle = some c) :
    handle.builtin? = none ∧ t.enumOf? handle = none ∧ t.classOf? handle = some c := by
  rw [classFor?] at h
  split at h
  · cases h
  · next hother =>
    rw [Bool.not_eq_true, Bool.or_eq_false_iff] at hother
    exact ⟨by simpa using hother.1, by simpa using hother.2, h⟩

/-- A table with one class has no other one. -/
theorem eq_of_classFor?_singleton {n : Nat} {c d : Class} {enums : List (Nat × Enumeration)}
    (h : (ClassTable.mk [(n, c)] enums).classFor? handle = some d) : d = c := by
  obtain ⟨-, -, hfound⟩ := classFor?_eq_some h
  rw [ClassTable.classOf?, List.lookup_cons] at hfound
  split at hfound
  · exact (Option.some.inj hfound).symm
  · cases hfound

/-! ## Going on to parts -/

/-- What is handed on to parts and to the types of fields holds of all types that a type leads to. -/
theorem Reaches.of_closed {P : FieldType → Prop} {type other : FieldType} (h : t.Reaches type other)
    (hself : P type) (hpart : ∀ type, P type → ∀ inner ∈ type.parts, P inner)
    (hfield : ∀ handle c, P (.named handle) → t.classFor? handle = some c →
      ∀ slot ∈ c.slots, P slot.type) : P other := by
  induction h with
  | self => exact hself
  | part hinner _ ih => exact ih (hpart _ hself _ hinner)
  | field hclass hslot _ ih => exact ih (hfield _ _ hself hclass _ hslot)

/-- The type of a place is one that the whole type leads to. -/
theorem Place.reaches {type other : FieldType} {v part : Value} (h : t.Place type v other part) :
    t.Reaches type other := by
  induction h with
  | self => exact .self _
  | position hpair _ ih => exact .part (List.of_mem_zip hpair).1 ih
  | value _ _ ih => exact .part (List.mem_cons_of_mem _ (List.mem_singleton_self _)) ih
  | field hclass hslot _ _ ih => exact .field hclass hslot ih
  | some _ ih | item _ _ ih | element _ _ ih | key _ _ ih => exact .part List.mem_cons_self ih

/-- The value in a place is a part of the whole value. -/
theorem Place.part {type other : FieldType} {v part : Value} (h : t.Place type v other part) :
    part.Part v := by
  induction h with
  | self => exact .self _
  | some _ ih => exact ih
  | item hv _ ih | element hv _ ih => exact .deeper hv ih
  | position hpair _ ih => exact .deeper (List.of_mem_zip hpair).2 ih
  | key hentry _ ih => exact .deeper (Value.key_mem_parts hentry) ih
  | value hentry _ ih => exact .deeper (Value.value_mem_parts hentry) ih
  | field _ _ hv _ ih => exact .deeper (List.mem_map_of_mem hv) ih

/-- A type leads to what the types that it leads to lead to. -/
theorem Reaches.trans {type inner other : FieldType} (h : t.Reaches type inner)
    (hother : t.Reaches inner other) : t.Reaches type other := by
  induction h with
  | self => exact hother
  | part hinner _ ih => exact .part hinner (ih hother)
  | field hclass hslot _ ih => exact .field hclass hslot (ih hother)

/-- What is accepted in a value is accepted in its parts, for the types inside. -/
theorem Accepts.part {type inner : FieldType} {v part : Value} (h : t.Accepts type v)
    (hinner : inner ∈ type.parts) (hpart : part ∈ v.parts) : t.Accepts inner part :=
  fun handle c hreaches hclass object hobject =>
    h handle c (.part hinner hreaches) hclass object (.deeper hpart hobject)

/-- What is accepted for a type is accepted for the types inside. -/
theorem Accepts.inner {type inner : FieldType} {v : Value} (h : t.Accepts type v)
    (hinner : inner ∈ type.parts) : t.Accepts inner v :=
  fun handle c hreaches hclass => h handle c (.part hinner hreaches) hclass

/-- What is accepted in an object is accepted in its parts, for the types of its slots. -/
theorem Accepts.field {c : Class} {slot : Slot} {v part : Value} (h : t.Accepts (.named handle) v)
    (hclass : t.classFor? handle = some c) (hslot : slot ∈ c.slots) (hpart : part ∈ v.parts) :
    t.Accepts slot.type part :=
  fun other d hreaches hother object hobject =>
    h other d (.field hclass hslot hreaches) hother object (.deeper hpart hobject)

end ClassTable

end ObjectMapping
