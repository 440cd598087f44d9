import ObjectMapping.Proofs.Conversion.Growth
import ObjectMapping.Proofs.Method.Statements

/-! # Methods in growing tables of methods

With more methods at hand, a plan that could be carried out still can. A create method even has the
same code as before, since the conversions in it do. An update method may differ: a field that had to
be replaced is changed in place as soon as there is a method for that.

* **`Plan.Grows`** — a success remains one, and in a create method it remains the same.
* **`MappingMethod.assemble_grows`** — this is what happens to methods when there are more of them.
* **`MappingMethod.assemble_create_unique`** — a create method is the same in whatever tables it can
  be made.
* **`Plan.assemble_fails`** — all that can go wrong is that a field has no conversion. -/

namespace ObjectMapping

open Outcome

namespace Plan

variable {α β : Type} {p : Plan} {methods methods' : MethodTable}

/-- If the first outcome is a success then so is the second one, and in a create method with the same
value. -/
def Grows (p : Plan) (x y : Except Error α) : Prop :=
  ∀ a, x = .ok a → ∃ b, y = .ok b ∧ (p.direction = .create → b = a)

/-- What is made stays as it is. -/
theorem Grows.refl (x : Except Error α) : p.Grows x x := fun a ha => ⟨a, ha, fun _ => rfl⟩

/-- What is made for both tables grows, if it is the same for a new object. -/
theorem Grows.of_ok {a b : α} (h : p.direction = .create → b = a) : p.Grows (.ok a) (.ok b) := by
  intro a' ha
  obtain rfl := Except.ok.inj ha
  exact ⟨b, rfl, h⟩

/-- A sequence grows if what follows does, in a create method on the same value. -/
theorem Grows.bind {x y : Except Error α} {f g : α → Except Error β} (hxy : p.Grows x y)
    (hfg : ∀ a b, (p.direction = .create → b = a) → p.Grows (f a) (g b)) :
    p.Grows (x >>= f) (y >>= g) := by
  intro c hc
  obtain ⟨a, ha, hfa⟩ := bind_eq_ok.mp hc
  obtain ⟨b, hb, hba⟩ := hxy a ha
  rw [hb, ok_bind]
  exact hfg a b hba c hfa

variable (hmethods : methods.Within methods')

include hmethods

/-- A conversion for a new object stays the same. -/
theorem createField_mono {goal field : FieldDescriptor} {type : FieldType} {s : Stmt}
    (h : p.createField methods goal field type = .ok s) :
    p.createField methods' goal field type = .ok s := by
  obtain ⟨created, hcreated, hassign⟩ := createField_eq_ok.mp h
  exact createField_eq_ok.mpr ⟨created, Conversion.express_mono hmethods hcreated, hassign⟩

/-- A field can still be changed, in place or as a whole. -/
theorem updateField_isOk {goal field : FieldDescriptor} {type : FieldType} {s : Stmt}
    (h : p.updateField methods goal field type = .ok s) :
    ∃ s', p.updateField methods' goal field type = .ok s' := by
  cases hamend : Conversion.amend methods' (.attr .self field.name) (updatePlace goal) 0 type
      goal.type with
  | ok change => exact ⟨change, updateField_eq_ok.mpr (.inl hamend)⟩
  | error missing =>
    -- without a change in place now there was none before, so the field was replaced
    rcases updateField_eq_ok.mp h with hchange | ⟨-, created, hcreated, -⟩
    · rw [Conversion.amend_mono hmethods hchange] at hamend
      cases hamend
    · refine ⟨_, updateField_eq_ok.mpr (.inr ⟨fun change hchange => ?_, created, ?_, rfl⟩)⟩
      · cases hamend.symm.trans hchange
      · exact Conversion.express_mono hmethods hcreated

/-- The statements for a resolution grow with the table. -/
theorem fieldStmts_grows (goal : FieldDescriptor) (slot : Nat) (resolution : Resolution) :
    p.Grows (p.fieldStmts methods goal slot resolution)
      (p.fieldStmts methods' goal slot resolution) := by
  cases resolution with
  | default => exact .refl _
  | factory f => exact .refl _
  | fromExtra key => exact .refl _
  | field field type onlyIfSet =>
    rw [fieldStmts, fieldStmts]
    cases hdirection : p.direction with
    | create =>
      refine Grows.bind (fun s hs => ⟨s, createField_mono hmethods hs, fun _ => rfl⟩) ?_
      exact fun s s' hs => .of_ok fun hcreate => by rw [hs hcreate]
    | update =>
      refine Grows.bind (fun s hs => ?_) fun s s' hs => .of_ok fun hcreate => by rw [hs hcreate]
      obtain ⟨s', hs'⟩ := updateField_isOk hmethods hs
      exact ⟨s', hs', fun hcreate => by cases hdirection.symm.trans hcreate⟩

/-- The statements for all fields grow with the table. -/
theorem allStmts_grows (slot : Nat) (entries : List (String × Resolution)) :
    p.Grows (p.allStmts methods slot entries) (p.allStmts methods' slot entries) := by
  induction entries generalizing slot with
  | nil => exact .refl _
  | cons entry rest ih =>
    obtain ⟨name, resolution⟩ := entry
    unfold allStmts
    split
    · exact ih slot
    · next goal _ =>
      refine (fieldStmts_grows hmethods goal slot resolution).bind fun stmts stmts' hstmts => ?_
      refine (ih _).bind fun others others' hothers => .of_ok fun hcreate => ?_
      rw [hstmts hcreate, hothers hcreate]

/-- The function grows with the table. -/
theorem function_grows : p.Grows (p.function methods) (p.function methods') := by
  rw [function, function]
  refine (allStmts_grows hmethods 0 p.entries).bind fun stmts stmts' hstmts => ?_
  cases hdirection : p.direction with
  | create =>
    rw [hstmts hdirection]
    exact .refl _
  | update => exact .of_ok fun hcreate => by cases hdirection.symm.trans hcreate

end Plan

namespace MappingMethod

variable {p : Plan} {target : Class} {methods methods' : MethodTable}

/-- **A method can still be made when there are more methods**, and a create method is the same. -/
theorem assemble_grows (hmethods : methods.Within methods') (p : Plan) (target : Class) :
    p.Grows (assemble p target methods) (assemble p target methods') := by
  rw [assemble, assemble]
  refine (Plan.function_grows hmethods).bind fun function function' hfunction => ?_
  exact .of_ok fun hcreate => by rw [hfunction hcreate]

/-- **A create method does not depend on the table that it was made with.** -/
theorem assemble_create_unique {m m' : MappingMethod} (hcreate : p.direction = .create)
    (h : assemble p target methods = .ok m) (h' : assemble p target methods' = .ok m') : m = m' := by
  -- both are the method that is made with the methods of the two tables together
  have hleft : methods.Within fun s t d => methods s t d || methods' s t d :=
    fun s t d hmethod => Bool.or_eq_true_iff.mpr (.inl hmethod)
  have hright : methods'.Within fun s t d => methods s t d || methods' s t d :=
    fun s t d hmethod => Bool.or_eq_true_iff.mpr (.inr hmethod)
  obtain ⟨both, hboth, hm⟩ := assemble_grows hleft p target m h
  obtain ⟨both', hboth', hm'⟩ := assemble_grows hright p target m' h'
  obtain rfl := Except.ok.inj (hboth.symm.trans hboth')
  exact (hm hcreate).symm.trans (hm' hcreate)

end MappingMethod

/-! ## What can go wrong -/

/-- Whether an error says that a field has no conversion. -/
def Error.isFieldType : Error → Bool
  | .fieldType .. => true
  | _ => false

/-- The only failure of an outcome is that a field has no conversion. -/
def FailsByField {α : Type} (x : Except Error α) : Prop :=
  Meets (fun e => e.isFieldType = true) (fun _ => True) x

/-- A sequence fails by a field only if its parts do. -/
theorem FailsByField.bind {α β : Type} {x : Except Error α} {f : α → Except Error β}
    (hx : FailsByField x) (hf : ∀ a, FailsByField (f a)) : FailsByField (x >>= f) :=
  Meets.bind hx fun a _ => hf a

namespace Plan

variable (p : Plan) (methods : MethodTable)

/-- The statement for a field of a new object can only fail by this field. -/
theorem createField_fails (goal field : FieldDescriptor) (type : FieldType) :
    FailsByField (p.createField methods goal field type) := by
  rw [createField]
  split <;> trivial

/-- The statement for a field that is changed can only fail by this field. -/
theorem updateField_fails (goal field : FieldDescriptor) (type : FieldType) :
    FailsByField (p.updateField methods goal field type) := by
  rw [updateField]
  split
  · trivial
  · split <;> trivial

/-- The statements for a resolution can only fail by its field. -/
theorem fieldStmts_fails (goal : FieldDescriptor) (slot : Nat) (resolution : Resolution) :
    FailsByField (p.fieldStmts methods goal slot resolution) := by
  cases resolution with
  | field field type onlyIfSet =>
    rw [fieldStmts]
    cases p.direction with
    | create => exact (p.createField_fails methods goal field type).bind fun s => trivial
    | update => exact (p.updateField_fails methods goal field type).bind fun s => trivial
  | _ => trivial

/-- The statements for all fields can only fail by one of them. -/
theorem allStmts_fails (slot : Nat) (entries : List (String × Resolution)) :
    FailsByField (p.allStmts methods slot entries) := by
  induction entries generalizing slot with
  | nil => trivial
  | cons entry rest ih =>
    obtain ⟨name, resolution⟩ := entry
    unfold allStmts
    split
    · exact ih slot
    · exact (p.fieldStmts_fails methods _ slot resolution).bind fun stmts =>
        (ih _).bind fun others => trivial

/-- **A method fails to be made by a field only.** -/
theorem assemble_fails (target : Class) : FailsByField (MappingMethod.assemble p target methods) := by
  refine FailsByField.bind ?_ fun function => trivial
  refine (p.allStmts_fails methods 0 p.entries).bind fun stmts => ?_
  cases p.direction <;> trivial

end Plan

end ObjectMapping
