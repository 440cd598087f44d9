import ObjectMapping.Execution.Invocation
import ObjectMapping.Proofs.Conversion.Direct
import ObjectMapping.Proofs.Plan.Building

/-! # Plans evaluated without code

A plan says where the value of each target field comes from. Here that is read as a computation on
values: each field has a contribution, and a new object is made of the contributions. Neither code
nor frames nor slots of factories appear.

* **`Plan.contribution`** — the value that a resolution has for its field, if it has one.
* **`Plan.evaluate`** — the new object that a plan describes: the arguments of the constructor first,
  the fields that it does not accept afterwards. It depends on the contributions of the fields only
  (`Plan.evaluate_eq_of_contributions`). -/

namespace ObjectMapping

/-- The value that a factory provides for a source. -/
def Factory.value : Factory → Value → Value
  | .constant value, _ => value
  | .ofSource make, source => make source

namespace Plan

variable (p : Plan) (create : Value → ClassHandle → Except Error Value) (source : Value)
  (extra : Extra)

/-- Whether a source field is there to be read, where its absence would matter. -/
def present (field : FieldDescriptor) (onlyIfSet : Bool) : Except Error Bool :=
  if onlyIfSet then (source.field field.name).map (!·.isNone) else .ok true

/-- Whether an assignment is wanted by the target class: with its hook, only from a source field
that was assigned explicitly. -/
def intended (goal field : FieldDescriptor) : Except Error Bool :=
  if p.hookApplies field goal then source.isAssigned field.name else .ok true

/-- Whether the assignment of a source field is carried out. -/
def performs (goal field : FieldDescriptor) (onlyIfSet : Bool) : Except Error Bool := do
  if ← present source field onlyIfSet then p.intended source goal field else return false

/-- The value that a resolution has for a target field of a new object, if it has one. -/
def contribution (goal : FieldDescriptor) : Resolution → Except Error (Option Value)
  | .default => .ok none
  | .field field type onlyIfSet => do
      if ← p.performs source goal field onlyIfSet then
        return some (← Conversion.direct create type (source.field field.name) goal.type)
      else return none
  | .factory f => .ok (some (f.value source))
  | .fromExtra key =>
      match extra.lookup key with
      | some value => .ok (some value)
      | none => .error (.raised (p.missingExtra key))

/-- Lets a target field contribute to a state. -/
def contribute {σ : Type} (put : σ → FieldDescriptor → Value → Except Error σ) (state : σ)
    (entry : FieldDescriptor × Resolution) : Except Error σ := do
  match ← p.contribution create source extra entry.1 entry.2 with
  | some value => put state entry.1 value
  | none => return state

/-- Takes a contribution as an argument of the constructor. -/
def asArgument (args : Arguments) (goal : FieldDescriptor) (value : Value) :
    Except Error Arguments :=
  .ok (Keyed.insert args goal.param value)

/-- Assigns a contribution to a field of an object. -/
def asField (object : Value) (goal : FieldDescriptor) (value : Value) : Except Error Value :=
  object.assign goal.name value

/-- **The new object that a plan describes.** The fields that the constructor accepts contribute its
arguments, in the order of the fields; the others are assigned to the object afterwards. -/
def evaluate (target : Class) : Except Error Value := do
  let arguments ← (p.goals.filter (·.1.accepted)).foldlM
    (p.contribute create source extra asArgument) []
  let object ← target.construct p.target.strategy arguments
  (p.goals.filter (!·.1.accepted)).foldlM (p.contribute create source extra asField) object

/-- A plan gives the same object wherever its fields contribute the same. -/
theorem evaluate_eq_of_contributions {p : Plan}
    {create create' : Value → ClassHandle → Except Error Value} {source source' : Value}
    {extra extra' : Extra} {target : Class}
    (h : ∀ entry ∈ p.goals, p.contribution create source extra entry.1 entry.2
      = p.contribution create' source' extra' entry.1 entry.2) :
    p.evaluate create source extra target = p.evaluate create' source' extra' target := by
  have hcontribute : ∀ {σ : Type} (put : σ → FieldDescriptor → Value → Except Error σ),
      ∀ entry ∈ p.goals, ∀ state, p.contribute create source extra put state entry
        = p.contribute create' source' extra' put state entry := by
    intro σ put entry hmem state
    rw [contribute, contribute, h entry hmem]
  rw [evaluate, evaluate, Outcome.foldlM_congr fun entry hmem =>
    hcontribute asArgument entry (List.mem_filter.mp hmem).1]
  simp only [Outcome.foldlM_congr fun entry hmem =>
    hcontribute asField entry (List.mem_filter.mp hmem).1]

end Plan

end ObjectMapping
