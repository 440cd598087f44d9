import ObjectMapping.Proofs.Conversion.Amendment
import ObjectMapping.Proofs.Conversion.Direct
import ObjectMapping.Proofs.Execution.Effect
import ObjectMapping.Proofs.Execution.Expressions

/-! # Changes in place without code

`Conversion.amend` writes a statement that brings a place up to date. `Conversion.revise` is the
change itself, on the object that owns the place.

* **`ends_amended`** — running the statement has the effect of the change, also when it fails. -/

namespace ObjectMapping.Conversion

open Outcome Stmt

/-- Lets an update method change the object in a field. Whatever the outcome, the field holds the
object as the method left it. -/
def reviseObject (invoker : Invoker) (owner : Value) (name : String) (value : Except Error Value) :
    Effect Value :=
  match value, owner.field name with
  | .error e, _ => (.error e, owner)
  | .ok _, .error e => (.error e, owner)
  | .ok v, .ok old => ((invoker.update v old).1, owner.withField name (invoker.update v old).2)

/-- Brings a field of an object up to date with a value, in place if the object in the field has an
update method. An absent value clears the field, and an empty field gets a new object. Other types
leave nothing to be changed. -/
def revise (invoker : Invoker) (owner : Value) (name : String) (value : Except Error Value) :
    FieldType → FieldType → Effect Value
  | .named _, .named _ => reviseObject invoker owner name value
  | .optional s, .optional t =>
      .branch owner (value.map Value.isNone) (.ofExcept owner (owner.assign name .none))
        (revise invoker owner name value s (.optional t))
  | source, .optional t =>
      .branch owner ((owner.field name).map Value.isNone)
        (.ofExcept owner (direct invoker.create source value t >>= owner.assign name))
        (revise invoker owner name value source t)
  | _, _ => (.ok (), owner)
termination_by source target => sizeOf source + sizeOf target

variable {invoker : Invoker} {owner : Value} {name : String} {value : Except Error Value}

/-- Behind an optional type an absent value clears the field. -/
theorem revise_optional_of_optional {s t : FieldType} :
    revise invoker owner name value (.optional s) (.optional t)
      = .branch owner (value.map Value.isNone) (.ofExcept owner (owner.assign name .none))
          (revise invoker owner name value s (.optional t)) := by
  rw [revise]

/-- With a value that is never absent an empty field gets a new object. -/
theorem revise_optional_of_present {s t : FieldType} (h : s.isOptional = false) :
    revise invoker owner name value s (.optional t)
      = .branch owner ((owner.field name).map Value.isNone)
          (.ofExcept owner (direct invoker.create s value t >>= owner.assign name))
          (revise invoker owner name value s t) := by
  cases s with
  | optional _ => simp [FieldType.isOptional] at h
  | _ => rw [revise]; simp

/-- **The statement for a change in place has the effect of the change.** -/
theorem ends_amended (invoker : Invoker) {methods : MethodTable} {code : Expr}
    {source target : FieldType} {change : Stmt} {f : Frame} (htarget : f.target? = some owner)
    (h : Amended methods code (.attr .target name) source target change) :
    Ends invoker [change] f
      ((revise invoker owner name (f.eval invoker [] code) source target).within
        fun owner => { f with target? := some owner }) := by
  have hsame : { f with target? := some owner } = f := by rw [← htarget]
  have hplace : Expr.attr .target name ≠ .var "d" := by simp
  induction h with
  | @update s t hmethod =>
    have hends := ends_updateCall invoker code (.attr .target name) t f
    rw [read_targetField htarget] at hends
    rw [revise]
    -- the value is found first, then the object that it changes; either may fail
    unfold reviseObject
    cases hvalue : f.eval invoker [] code with
    | error e =>
      rw [hvalue] at hends
      simpa only [Effect.within, hsame] using hends
    | ok v =>
      cases hold : owner.field name with
      | error e =>
        rw [hvalue, hold] at hends
        simpa only [Effect.within, hsame] using hends
      | ok old =>
        rw [hvalue, hold] at hends
        simp only [write_targetField htarget] at hends
        exact hends
  | @clear s t change hchange ih =>
    rw [revise_optional_of_optional]
    -- where the value is absent the field is emptied, elsewhere what is inside is changed
    have hclear := ends_assign invoker .none hplace f
    rw [eval_none, ok_bind, assigned_targetField htarget] at hclear
    rw [Effect.within_branch, Effect.within_ofExcept, hsame]
    exact ends_branch (eval_isNone invoker f code) hclear ih
  | @renew s t change created depth hpresent hchange hcreated ih =>
    rw [revise_optional_of_present hpresent]
    -- where the field is empty it gets a new object, elsewhere the old one is changed
    have hcreate := ends_assign invoker created hplace f
    rw [eval_express invoker f hcreated] at hcreate
    simp only [assigned_targetField htarget] at hcreate
    have hempty := eval_isNone invoker f (.attr .target name)
    rw [eval_targetField htarget] at hempty
    rw [Effect.within_branch, Effect.within_ofExcept, hsame]
    refine ends_branch hempty ?_ ih
    generalize direct invoker.create s (f.eval invoker [] code) t = x at hcreate ⊢
    cases x <;> exact hcreate

end ObjectMapping.Conversion
