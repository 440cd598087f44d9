import ObjectMapping.Proofs.FieldType.Normal

/-! # Interchangeable types

Two ways to write down the same type: equal types in normal form, which may differ in the order in
which the members of a union stand, at any level. Equality goes by the numbers of classes. A number
is given out once, together with a name, so the handles in two such types are the same handles.

* **`FieldType.Interchangeable`** — the two types are the same one.
* `Interchangeable.symm`, and inversions such as `Interchangeable.list_inv`: what a type looks like
  that is interchangeable with one of a given shape.
* `any_same_named_of_counterparts`, `included_of_counterparts`: what is found among the members of a
  union is found in every way to write it. -/

namespace ObjectMapping.FieldType

open Value (Matches)

/-- Every handle in the type bears the name that belongs to its number. -/
inductive NamedBy (names : Nat → String) : FieldType → Prop
  | named {handle : ClassHandle} (hname : handle.name = names handle.id) :
      NamedBy names (.named handle)
  | optional {inner : FieldType} (hinner : NamedBy names inner) : NamedBy names (.optional inner)
  | union {members : List FieldType} (hmembers : ∀ member ∈ members, NamedBy names member) :
      NamedBy names (.union members)
  | list {item : FieldType} (hitem : NamedBy names item) : NamedBy names (.list item)
  | set {item : FieldType} (hitem : NamedBy names item) : NamedBy names (.set item)
  | dict {key value : FieldType} (hkey : NamedBy names key) (hvalue : NamedBy names value) :
      NamedBy names (.dict key value)
  | tuple {items : List FieldType} (hitems : ∀ item ∈ items, NamedBy names item) :
      NamedBy names (.tuple items)
  | any : NamedBy names .any

/-- A type as programs have it: in normal form, with handles that were given out under `names`. -/
structure Proper (names : Nat → String) (type : FieldType) : Prop where
  normal : type.Normal
  named : type.NamedBy names

/-- **Two types that are the same one**, but for the order of union members. -/
structure Interchangeable (names : Nat → String) (a b : FieldType) : Prop where
  left : a.Proper names
  right : b.Proper names
  same : a.same b = true

variable {names : Nat → String} {a b c d : FieldType}

/-! ## Parts of proper types -/

/-- The type inside an optional one is proper. -/
theorem Proper.optional_inner (h : (optional a).Proper names) : a.Proper names := by
  cases h.normal with | optional hnormal _ =>
  cases h.named with | optional hnamed =>
  exact ⟨hnormal, hnamed⟩

/-- The members of a union are proper. -/
theorem Proper.member {members : List FieldType} (h : (union members).Proper names)
    (ha : a ∈ members) : a.Proper names := by
  cases h.normal with | union _ _ _ hnormal =>
  cases h.named with | union hnamed =>
  exact ⟨hnormal a ha, hnamed a ha⟩

/-- The type of the items of a list is proper. -/
theorem Proper.list_item (h : (list a).Proper names) : a.Proper names := by
  cases h.normal with | list hnormal =>
  cases h.named with | list hnamed =>
  exact ⟨hnormal, hnamed⟩

/-- The type of the items of a set is proper. -/
theorem Proper.set_item (h : (set a).Proper names) : a.Proper names := by
  cases h.normal with | set hnormal =>
  cases h.named with | set hnamed =>
  exact ⟨hnormal, hnamed⟩

/-- The types of the keys and values of a dictionary are proper. -/
theorem Proper.dict_parts (h : (dict a b).Proper names) : a.Proper names ∧ b.Proper names := by
  cases h.normal with | dict hkey hvalue =>
  cases h.named with | dict hkeyNamed hvalueNamed =>
  exact ⟨⟨hkey, hkeyNamed⟩, hvalue, hvalueNamed⟩

/-- The types of the items of a tuple are proper. -/
theorem Proper.tuple_item {items : List FieldType} (h : (tuple items).Proper names)
    (ha : a ∈ items) : a.Proper names := by
  cases h.normal with | tuple hnormal =>
  cases h.named with | tuple hnamed =>
  exact ⟨hnormal a ha, hnamed a ha⟩

/-! ## Interchangeable types -/

/-- Types are interchangeable both ways. -/
theorem Interchangeable.symm (h : a.Interchangeable names b) : b.Interchangeable names a :=
  ⟨h.right, h.left, h.left.normal.same_symm h.right.normal h.same⟩

/-- A number belongs to one handle. -/
theorem Interchangeable.named_inv {handle : ClassHandle}
    (h : (FieldType.named handle).Interchangeable names b) : b = named handle := by
  obtain ⟨other, rfl, hsame⟩ := exists_of_same_named h.same
  have hid : handle.id = other.id := beq_iff_eq.mp hsame
  cases h.left.named with | named hname =>
  cases h.right.named with | named hname' =>
  obtain ⟨id, name⟩ := handle
  obtain ⟨id', name'⟩ := other
  simp_all

/-- Any type is interchangeable with itself only. -/
theorem Interchangeable.any_inv (h : FieldType.any.Interchangeable names b) : b = any :=
  eq_of_same_any h.same

/-- Optional types are interchangeable with optional types, where the types inside are. -/
theorem Interchangeable.optional_inv (h : (FieldType.optional a).Interchangeable names b) :
    ∃ b', b = optional b' ∧ a.Interchangeable names b' := by
  obtain ⟨b', rfl, hsame⟩ := exists_of_same_optional h.same
  exact ⟨b', rfl, h.left.optional_inner, h.right.optional_inner, hsame⟩

/-- List types are interchangeable with list types, where the types of their items are. -/
theorem Interchangeable.list_inv (h : (FieldType.list a).Interchangeable names b) :
    ∃ b', b = list b' ∧ a.Interchangeable names b' := by
  obtain ⟨b', rfl, hsame⟩ := exists_of_same_list h.same
  exact ⟨b', rfl, h.left.list_item, h.right.list_item, hsame⟩

/-- Set types are interchangeable with set types, where the types of their items are. -/
theorem Interchangeable.set_inv (h : (FieldType.set a).Interchangeable names b) :
    ∃ b', b = set b' ∧ a.Interchangeable names b' := by
  obtain ⟨b', rfl, hsame⟩ := exists_of_same_set h.same
  exact ⟨b', rfl, h.left.set_item, h.right.set_item, hsame⟩

/-- Dictionary types are interchangeable with dictionary types, where the types of keys and of
values are. -/
theorem Interchangeable.dict_inv (h : (FieldType.dict a b).Interchangeable names c) :
    ∃ a' b', c = dict a' b' ∧ a.Interchangeable names a' ∧ b.Interchangeable names b' := by
  obtain ⟨a', b', rfl, hkey, hvalue⟩ := exists_of_same_dict h.same
  have hleft := h.left.dict_parts
  have hright := h.right.dict_parts
  exact ⟨a', b', rfl, ⟨hleft.1, hright.1, hkey⟩, hleft.2, hright.2, hvalue⟩

/-- Tuple types are interchangeable with tuple types, position by position. -/
theorem Interchangeable.tuple_inv {items : List FieldType}
    (h : (FieldType.tuple items).Interchangeable names b) :
    ∃ others, b = tuple others ∧ List.Forall₂ (Interchangeable names) items others := by
  obtain ⟨others, rfl, hsame⟩ := exists_of_same_tuple h.same
  obtain ⟨hlength, heach⟩ := List.forall₂_iff_zip.mp hsame
  refine ⟨others, rfl, List.forall₂_iff_zip.mpr ⟨hlength, fun {item other} hmem => ?_⟩⟩
  obtain ⟨hitem, hother⟩ := List.of_mem_zip hmem
  exact ⟨h.left.tuple_item hitem, h.right.tuple_item hother, heach hmem⟩

/-- Every member of a union has a counterpart in the other one. -/
theorem Interchangeable.union_inv {members : List FieldType}
    (h : (FieldType.union members).Interchangeable names b) :
    ∃ others, b = union others ∧
      ∀ member ∈ members, ∃ other ∈ others, member.Interchangeable names other := by
  obtain ⟨others, rfl, -, hmatches⟩ := exists_of_same_union h.same
  refine ⟨others, rfl, fun member hmember => ?_⟩
  obtain ⟨other, hother, hsame⟩ := hmatches member hmember
  have hleft := h.left.member hmember
  have hright := h.right.member hother
  exact ⟨other, hother, hleft, hright, hright.normal.same_symm hleft.normal hsame⟩

/-- A type that may be absent is interchangeable with such types only. -/
theorem Interchangeable.isOptional_eq (h : a.Interchangeable names b) :
    b.isOptional = a.isOptional := by
  cases a with
  | optional inner =>
    obtain ⟨other, rfl, -⟩ := h.optional_inv
    rfl
  | _ =>
    cases b with
    | optional other =>
      obtain ⟨_, hshape, -⟩ := h.symm.optional_inv
      cases hshape
    | _ => rfl

/-- Without the absent value the types are still interchangeable. -/
theorem Interchangeable.stripOptional (h : a.Interchangeable names b) :
    a.stripOptional.Interchangeable names b.stripOptional := by
  cases a with
  | optional inner =>
    obtain ⟨other, rfl, hinner⟩ := h.optional_inv
    exact hinner
  | _ =>
    have hpresent := h.isOptional_eq
    cases b with
    | optional other => cases hpresent
    | _ => exact h

/-! ## Members of unions -/

/-- A class is a member of both unions or of none. -/
theorem any_same_named_of_counterparts {members others : List FieldType} {handle : ClassHandle}
    (hmembers : ∀ member ∈ members, ∃ other ∈ others, member.Interchangeable names other)
    (h : members.any (·.same (.named handle)) = true) :
    others.any (·.same (.named handle)) = true := by
  obtain ⟨member, hmember, hsame⟩ := List.any_eq_true.mp h
  obtain ⟨other, hother, hcounterpart⟩ := hmembers member hmember
  exact List.any_eq_true.mpr ⟨other, hother, same_trans hcounterpart.symm.same hsame⟩

/-- What is included in one union is included in the other one, however it is written. -/
theorem included_of_counterparts {arms arms' members members' : List FieldType}
    (harms : ∀ arm ∈ arms', ∃ arm' ∈ arms, arm.Interchangeable names arm')
    (hmembers : ∀ member ∈ members, ∃ member' ∈ members', member.Interchangeable names member')
    (h : included arms members = true) : included arms' members' = true := by
  rw [included_iff] at h ⊢
  intro arm' harm'
  obtain ⟨arm, harm, hsame⟩ := harms arm' harm'
  obtain ⟨member, hmember, harmMember⟩ := h arm harm
  obtain ⟨member', hmember', hcounterpart⟩ := hmembers member hmember
  exact ⟨member', hmember',
    same_trans (same_trans hcounterpart.symm.same harmMember) hsame.symm.same⟩

end ObjectMapping.FieldType
