import ObjectMapping.Method
import ObjectMapping.Proofs.Outcome

/-! # What is made for one field

The statements for a target field are made of a conversion, or in an update method of a change in
place. Each lemma says all that can be made, and under which condition it is made, so that proofs
about the code of methods follow the cases and not the definitions.

* **`createField_eq_ok`** — a field of a new object is assigned the conversion of its source field.
* **`updateField_eq_ok`** — a field of a target is changed in place, and it is replaced by the
  conversion if that is not possible.
* `fieldStmts_create_eq_ok` and `fieldStmts_update_eq_ok`: a field that comes from the source has one
  statement, under the conditions of the field. -/

namespace ObjectMapping.Plan

open Outcome

variable {p : Plan} {methods : MethodTable} {goal field : FieldDescriptor} {type : FieldType}
  {s : Stmt} {slot : Nat} {onlyIfSet : Bool} {stmts : List Stmt}

/-- **A field of a new object is assigned the conversion of its source field.** -/
theorem createField_eq_ok :
    p.createField methods goal field type = .ok s ↔
      ∃ created, Conversion.express methods type (.attr .self field.name) 0 goal.type = .ok created ∧
        .assign (createPlace goal) created = s := by
  rw [createField]
  cases Conversion.express methods type (.attr .self field.name) 0 goal.type <;> simp

/-- **A field is changed in place, or it is replaced because that is not possible.** -/
theorem updateField_eq_ok :
    p.updateField methods goal field type = .ok s ↔
      Conversion.amend methods (.attr .self field.name) (updatePlace goal) 0 type goal.type = .ok s ∨
        (∀ change, Conversion.amend methods (.attr .self field.name) (updatePlace goal) 0 type
          goal.type ≠ .ok change) ∧
        ∃ created, Conversion.express methods type (.attr .self field.name) 0 goal.type = .ok created ∧
          .assign (updatePlace goal) created = s := by
  rw [updateField]
  cases Conversion.amend methods (.attr .self field.name) (updatePlace goal) 0 type goal.type with
  | ok change => simp
  | error missing =>
    cases Conversion.express methods type (.attr .self field.name) 0 goal.type <;> simp

/-- In a create method, a field that comes from the source has one statement, for a new object. -/
theorem fieldStmts_create_eq_ok (hcreate : p.direction = .create) :
    p.fieldStmts methods goal slot (.field field type onlyIfSet) = .ok stmts ↔
      ∃ s, p.createField methods goal field type = .ok s ∧
        [guarded onlyIfSet (.attr .self field.name) (p.hooked field goal s)] = stmts := by
  rw [fieldStmts, hcreate]
  exact bind_eq_ok.trans (by simp [pure_eq_ok])

/-- In an update method, a field that comes from the source has one statement, for the target. -/
theorem fieldStmts_update_eq_ok (hupdate : p.direction = .update) :
    p.fieldStmts methods goal slot (.field field type onlyIfSet) = .ok stmts ↔
      ∃ s, p.updateField methods goal field type = .ok s ∧
        [guarded onlyIfSet (.attr .self field.name) (p.hooked field goal s)] = stmts := by
  rw [fieldStmts, hupdate]
  exact bind_eq_ok.trans (by simp [pure_eq_ok])

end ObjectMapping.Plan
