import ObjectMapping.Conversion
import ObjectMapping.Proofs.Outcome

/-! # The rules of changes in place

`Conversion.amend` strips optional types off the source and off the target until it meets two
classes with an update method. `Conversion.Amended` is what it does as a derivation, with one rule
for each step, so that proofs can follow the steps.

* **`Conversion.amended_of_amend`** — every statement that `amend` gives is derived by the rules. -/

namespace ObjectMapping.Conversion

open Outcome

/-- The statements that bring a place of the second type up to date with a value of the first. -/
inductive Amended (methods : MethodTable) (value place : Expr) : FieldType → FieldType → Stmt → Prop
  /-- Two classes with an update method. -/
  | update {s t : ClassHandle} (hmethod : methods s t .update = true) :
      Amended methods value place (.named s) (.named t) (.perform (updateCall value t place))
  /-- An absent value clears the place. -/
  | clear {s t : FieldType} {change : Stmt}
      (hchange : Amended methods value place s (.optional t) change) :
      Amended methods value place (.optional s) (.optional t)
        (.branch value.isNone [.assign place .none] [change])
  /-- An empty place gets a new object. -/
  | renew {s t : FieldType} {change : Stmt} {created : Expr} {depth : Nat}
      (hpresent : s.isOptional = false) (hchange : Amended methods value place s t change)
      (hcreated : express methods s value depth t = .ok created) :
      Amended methods value place s (.optional t)
        (.branch place.isNone [.assign place created] [change])

/-- A type that is optional in no way is not optional. -/
theorem isOptional_eq_false {s : FieldType} (h : ∀ inner, s = .optional inner → False) :
    s.isOptional = false := by
  cases s with
  | optional inner => exact absurd rfl (h inner)
  | _ => rfl

/-- **Changes in place follow the rules.** -/
theorem amended_of_amend {methods : MethodTable} {value place : Expr} {depth : Nat}
    {source target : FieldType} {change : Stmt}
    (h : amend methods value place depth source target = .ok change) :
    Amended methods value place source target change := by
  induction depth, source, target using amend.induct methods generalizing change with
  | case1 depth s t hmethod =>
    rw [amend, if_pos hmethod] at h
    obtain rfl := Except.ok.inj h
    exact .update hmethod
  | case2 depth s t hmethod =>
    rw [amend, if_neg hmethod] at h
    cases h
  | case3 depth s t ih =>
    rw [amend] at h
    obtain ⟨inner, hinner, hchange⟩ := bind_eq_ok.mp h
    obtain rfl := Except.ok.inj hchange
    exact .clear (ih hinner)
  | case4 depth s t hs ih =>
    rw [amend.eq_3 _ _ _ _ _ _ hs] at h
    obtain ⟨inner, hinner, hchange⟩ := bind_eq_ok.mp h
    split at hchange
    · next created hcreated =>
      obtain rfl := Except.ok.inj hchange
      exact .renew (isOptional_eq_false hs) (ih hinner) hcreated
    · cases hchange
  | case5 depth source target hnamed hoptional htarget =>
    rw [amend.eq_4 _ _ _ _ _ _ htarget hnamed hoptional] at h
    cases h

end ObjectMapping.Conversion
