import ObjectMapping.Proofs.Value.Change

/-! # Objects and the names that were assigned explicitly

An assignment adds its name to those that were assigned explicitly. A value that is put back into a
field leaves them as they are. So an object can be compared with what became of it field by field,
each with its mark.

* `Value.isAssigned_assign`, `Value.isAssigned_withField`: what counts as assigned afterwards.
* **`Value.SameAt`** — two objects have the same in a field, and the same mark for it.
* **`Value.TouchedWithin`** — two objects differ in the fields of some names at most. -/

namespace ObjectMapping.Value

variable {owner owner' owner'' value : Value} {name other : String} {names names' : List String}

/-- A name that is put in is among the names, and so are the others. -/
theorem mem_insertName {given : List String} :
    other ∈ insertName given name ↔ other = name ∨ other ∈ given := by
  induction given with
  | nil => simp [insertName]
  | cons first rest ih =>
    rw [insertName]
    split
    · next heq =>
      obtain rfl := beq_iff_eq.mp heq
      simp
    · split
      · exact List.mem_cons
      · rw [List.mem_cons, ih, List.mem_cons]
        exact or_left_comm

/-- An assignment adds its name to those that were assigned explicitly. -/
theorem isAssigned_assign (h : owner.assign name value = .ok owner') (other : String) :
    owner'.isAssigned other = .ok true ↔ owner.isAssigned other = .ok true ∨ other = name := by
  cases owner with
  | object handle fields assigned =>
    rw [assign] at h
    split at h
    · obtain rfl := Except.ok.inj h
      simp only [isAssigned, Except.ok.injEq, List.contains_iff_mem, mem_insertName]
      exact or_comm
    · cases h
  | _ => cases h

/-- Marks of other names are as before an assignment. -/
theorem isAssigned_assign_of_ne (h : owner.assign name value = .ok owner') (hne : other ≠ name) :
    owner'.isAssigned other = owner.isAssigned other := by
  cases owner with
  | object handle fields assigned =>
    rw [assign] at h
    split at h
    · obtain rfl := Except.ok.inj h
      refine congrArg Except.ok (Bool.eq_iff_iff.mpr ?_)
      rw [List.contains_iff_mem, List.contains_iff_mem, mem_insertName]
      exact or_iff_right hne
    · cases h
  | _ => cases h

/-- A value that is put back leaves all marks as they are. -/
theorem isAssigned_withField (owner : Value) (name : String) (value : Value) (other : String) :
    (owner.withField name value).isAssigned other = owner.isAssigned other := by
  cases owner with
  | object handle fields assigned =>
    rw [withField]
    split <;> rfl
  | _ => rfl

/-- The objects have the same in the field of a name, and the same mark for it. -/
structure SameAt (name : String) (owner owner' : Value) : Prop where
  field_eq : owner'.field name = owner.field name
  mark_eq : owner'.isAssigned name = owner.isAssigned name

/-- An object is the same as itself at a field. -/
theorem SameAt.refl (name : String) (owner : Value) : SameAt name owner owner := ⟨rfl, rfl⟩

/-- Objects are the same at a field across one in between. -/
theorem SameAt.trans (h : SameAt name owner owner') (h' : SameAt name owner' owner'') :
    SameAt name owner owner'' :=
  ⟨h'.field_eq.trans h.field_eq, h'.mark_eq.trans h.mark_eq⟩

/-- The objects differ in the fields of the names and their marks at most. -/
structure TouchedWithin (names : List String) (owner owner' : Value) : Prop where
  owner_eq : owner'.owner? = owner.owner?
  names_eq : owner'.names = owner.names
  same : ∀ other, other ∉ names → SameAt other owner owner'

namespace TouchedWithin

/-- An object that is not touched is touched within any names. -/
theorem refl (names : List String) (owner : Value) : TouchedWithin names owner owner :=
  ⟨rfl, rfl, fun other _ => .refl other owner⟩

/-- What is touched within some names is touched within more of them. -/
theorem mono (h : TouchedWithin names owner owner') (hsub : names ⊆ names') :
    TouchedWithin names' owner owner' :=
  ⟨h.owner_eq, h.names_eq, fun other hother => h.same other fun hmem => hother (hsub hmem)⟩

/-- One change after another touches what either of them touches. -/
theorem trans (h : TouchedWithin names owner owner') (h' : TouchedWithin names' owner' owner'') :
    TouchedWithin (names ++ names') owner owner'' := by
  refine ⟨h'.owner_eq.trans h.owner_eq, h'.names_eq.trans h.names_eq, fun other hother => ?_⟩
  rw [List.mem_append, not_or] at hother
  exact (h.same other hother.1).trans (h'.same other hother.2)

/-- An object that is touched in one field is changed in this field. -/
theorem changedAt (h : TouchedWithin [name] owner owner') : ChangedAt name owner owner' :=
  ⟨h.owner_eq, h.names_eq, fun other hne => (h.same other (by simpa using hne)).field_eq⟩

end TouchedWithin

/-- An assignment touches the field that it assigns. -/
theorem touchedWithin_assign (h : owner.assign name value = .ok owner') :
    TouchedWithin [name] owner owner' := by
  have hchanged := changedAt_assign h
  refine ⟨hchanged.owner_eq, hchanged.names_eq, fun other hother => ?_⟩
  rw [List.mem_singleton] at hother
  exact ⟨hchanged.field_eq other hother, isAssigned_assign_of_ne h hother⟩

/-- Writing to a field touches this field. -/
theorem touchedWithin_withField (name : String) (owner value : Value) :
    TouchedWithin [name] owner (owner.withField name value) := by
  have hchanged := changedAt_withField name owner value
  refine ⟨hchanged.owner_eq, hchanged.names_eq, fun other hother => ?_⟩
  rw [List.mem_singleton] at hother
  exact ⟨hchanged.field_eq other hother, isAssigned_withField owner name value other⟩

end ObjectMapping.Value
