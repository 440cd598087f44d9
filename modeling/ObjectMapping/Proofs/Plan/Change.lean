import ObjectMapping.Proofs.Conversion.Revision
import ObjectMapping.Proofs.Plan.Evaluation

/-! # Plans as changes of a target

With an update a plan changes a target that is there already, field by field. A field that comes
from the source is changed in place if its types allow that, and assigned otherwise; what comes from
a factory or from the caller is assigned.

* **`Plan.change`** — the change of a target that a plan describes. -/

namespace ObjectMapping.Plan

variable (p : Plan) (methods : MethodTable) (invoker : Invoker) (source : Value) (extra : Extra)

/-- Whether a target field is changed in place by a source field. -/
def changesInPlace (goal field : FieldDescriptor) (type : FieldType) : Bool :=
  (Conversion.amend methods (.attr .self field.name) (updatePlace goal) 0 type goal.type).isOk

/-- A field is changed in place where there is a statement for that. -/
theorem changesInPlace_iff {methods : MethodTable} {goal field : FieldDescriptor}
    {type : FieldType} :
    changesInPlace methods goal field type = true ↔
      ∃ change, Conversion.amend methods (.attr .self field.name) (updatePlace goal) 0 type goal.type
        = .ok change :=
  Outcome.isOk_iff_exists

/-- Brings a target field up to date with a source field. -/
def revision (goal field : FieldDescriptor) (type : FieldType) (owner : Value) : Effect Value :=
  if changesInPlace methods goal field type then
    Conversion.revise invoker owner goal.name (source.field field.name) type goal.type
  else
    .ofExcept owner
      (Conversion.direct invoker.create type (source.field field.name) goal.type >>=
        asField owner goal)

/-- Changes one field of a target. -/
def changeField (owner : Value) (entry : FieldDescriptor × Resolution) : Effect Value :=
  match entry.2 with
  | .field field type onlyIfSet =>
      .branch owner (p.performs source entry.1 field onlyIfSet)
        (revision methods invoker source entry.1 field type owner) (.ok (), owner)
  | _ => .ofExcept owner (p.contribute invoker.create source extra asField owner entry)

/-- **The change of a target that a plan describes**: field by field, up to the first failure. -/
def change (target : Value) : Effect Value :=
  effects (p.changeField methods invoker source extra) p.goals target

end ObjectMapping.Plan
