import ObjectMapping.Proofs.Conversion.Revision
import ObjectMapping.Proofs.Conversion.Safety
import ObjectMapping.Proofs.Value.Change

/-! # Changes in place are safe

On a conforming value and a conforming field a change in place fails with rejections only, as far as
the methods it calls do.

* `Conversion.UpdatesSafely`: what is asked of the methods.
* **`Conversion.revise_safe`** — the change is safe. -/

namespace ObjectMapping.Conversion

open Outcome

variable {D : Declarations} {methods : MethodTable} {invoker : Invoker} {owner : Value}
  {name : String} {value : Except Error Value} {source target : FieldType} {code place : Expr}
  {change : Stmt}

/-- Conforming objects are changed safely by conforming values up to a height, where the methods say
that they can be changed. -/
def UpdatesSafely (D : Declarations) (methods : MethodTable)
    (update : Value → Value → Except Error Unit × Value) (height : Nat) : Prop :=
  ∀ s t v old, methods s t .update = true → D.Conforms (.named s) v → D.Conforms (.named t) old →
    v.height ≤ height → Safe (update v old).1

/-- Updates that are safe for high values are so for lower ones. -/
theorem UpdatesSafely.mono {update : Value → Value → Except Error Unit × Value} {low high : Nat}
    (h : UpdatesSafely D methods update high) (hle : low ≤ high) :
    UpdatesSafely D methods update low :=
  fun s t v old hmethod hv hold hheight => h s t v old hmethod hv hold (Nat.le_trans hheight hle)

/-- A branch is safe if both ways are, each of them under its condition. -/
theorem safe_branch {test : Bool} {x y : Effect Value} (hx : test = true → Safe x.1)
    (hy : test = false → Safe y.1) : Safe (Effect.branch owner (.ok test) x y).1 := by
  cases test with
  | true => exact hx rfl
  | false => exact hy rfl

/-- Assigning a field that is there is as safe as its value. -/
theorem safe_assign_effect {x : Except Error Value} (hname : name ∈ owner.names) (hx : Safe x) :
    Safe (Effect.ofExcept owner (x >>= owner.assign name)).1 := by
  cases x with
  | error e => exact hx
  | ok v =>
    obtain ⟨owner', hassign, -⟩ := Value.exists_assign hname v
    rw [ok_bind, hassign]
    exact trivial

/-- **A change in place is safe** on a conforming value and a conforming field. -/
theorem revise_safe {v old : Value} (h : Amended methods code place source target change)
    (hv : D.Conforms source v) (hfield : owner.field name = .ok old) (hold : D.Conforms target old)
    (hcreate : CreatesSafely D methods invoker.create v.height)
    (hupdate : UpdatesSafely D methods invoker.update v.height) :
    Safe (revise invoker owner name (.ok v) source target).1 := by
  have hname : name ∈ owner.names := Value.mem_names_iff.mpr ⟨old, hfield⟩
  -- each rule strips the value or the field of an absence that it has ruled out
  induction h with
  | @update s t hmethod =>
    rw [revise]
    unfold reviseObject
    rw [hfield]
    exact hupdate s t v old hmethod hv hold (Nat.le_refl _)
  | clear hchange ih =>
    rw [revise_optional_of_optional]
    refine safe_branch (fun _ => safe_assign_effect (x := .ok .none) hname trivial) ?_
    intro hpresent
    exact ih (hv.strip hpresent) hold
  | renew hpresent hchange hcreated ih =>
    rw [revise_optional_of_present hpresent, hfield]
    refine safe_branch (fun _ => safe_assign_effect hname (direct_safe hcreated hv hcreate)) ?_
    intro hpresent
    exact ih hv (hold.strip hpresent)

end ObjectMapping.Conversion
