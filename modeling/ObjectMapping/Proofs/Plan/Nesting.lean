import ObjectMapping.Proofs.Registry.Methods

/-! # Plans ask for conversions of parts of the source only

What a plan makes of a source depends on other mappings only as far as they apply to parts of the
source, which are lower than the source. Two invokers that agree on everything lower therefore make
the same of it.

* `Plan.evaluate_congr`: for the new object that a plan describes.
* `Plan.change_congr`: for the change of a target, in place or not. -/

namespace ObjectMapping

open Outcome Conversion

/-- Whether two invokers agree on all sources up to a height. -/
structure Invoker.AgreeUpTo (height : Nat) (invoker invoker' : Invoker) : Prop where
  create : Conversion.AgreeUpTo height invoker.create invoker'.create
  update : ∀ v : Value, v.height ≤ height → ∀ old, invoker.update v old = invoker'.update v old

/-- Invokers that agree up to a height agree up to any lower height. -/
theorem Invoker.AgreeUpTo.mono {low high : Nat} {invoker invoker' : Invoker}
    (h : invoker.AgreeUpTo high invoker') (hle : low ≤ high) : invoker.AgreeUpTo low invoker' :=
  ⟨h.create.mono hle, fun v hv => h.update v (Nat.le_trans hv hle)⟩

/-- No value has height zero. -/
theorem Invoker.AgreeUpTo.of_lt_one {height : Nat} {invoker invoker' : Invoker} (h : height < 1) :
    invoker.AgreeUpTo height invoker' := by
  have hnone : ∀ v : Value, ¬ v.height ≤ height := fun v => by
    have hpos := v.height_pos
    omega
  exact ⟨fun v hv => absurd hv (hnone v), fun v hv => absurd hv (hnone v)⟩

/-- A change in place asks for changes and new objects for the value only. -/
theorem Conversion.revise_congr {invoker invoker' : Invoker} {methods : MethodTable}
    {code place : Expr} {source target : FieldType} {change : Stmt} {owner : Value} {name : String}
    {value : Except Error Value} (h : Amended methods code place source target change)
    (hagree : ∀ v, value = .ok v → invoker.AgreeUpTo v.height invoker') :
    revise invoker owner name value source target
      = revise invoker' owner name value source target := by
  induction h with
  | update hmethod =>
    rw [revise, revise]
    unfold reviseObject
    cases value with
    | error e => rfl
    | ok v =>
      cases owner.field name with
      | error e => rfl
      | ok old => simp only [(hagree v rfl).update v (Nat.le_refl _)]
  | clear hchange ih => rw [revise_optional_of_optional, revise_optional_of_optional, ih]
  | renew hpresent hchange hcreated ih =>
    rw [revise_optional_of_present hpresent, revise_optional_of_present hpresent, ih,
      direct_congr hcreated fun v hv => (hagree v hv).create]

namespace Plan

variable {p : Plan} {methods : MethodTable} {source : Value} {extra : Extra}
  {invoker invoker' : Invoker}

/-- The value for a field of a new object depends on the create methods for what is inside the
source. -/
theorem contribution_congr {goal : FieldDescriptor} {resolution : Resolution}
    (hsupported : p.Supported methods) (hdirection : p.direction = .create)
    (hmem : (goal, resolution) ∈ p.goals)
    (hagree : Conversion.AgreeUpTo (source.height - 1) invoker.create invoker'.create) :
    p.contribution invoker.create source extra goal resolution
      = p.contribution invoker'.create source extra goal resolution := by
  cases resolution with
  | field field type onlyIfSet =>
    have hsupports := hsupported hmem
    rw [Supports, hdirection, if_neg (by simp)] at hsupports
    obtain ⟨code, hcode⟩ := hsupports
    rw [contribution, contribution,
      direct_congr hcode fun v hv => hagree.mono (Value.height_le_of_field hv)]
  | _ => rfl

/-- **A new object is made of conversions of parts of the source.** -/
theorem evaluate_congr {target : Class} (hsupported : p.Supported methods)
    (hdirection : p.direction = .create)
    (hagree : Conversion.AgreeUpTo (source.height - 1) invoker.create invoker'.create) :
    p.evaluate invoker.create source extra target
      = p.evaluate invoker'.create source extra target := by
  exact evaluate_eq_of_contributions fun entry hmem =>
    contribution_congr hsupported hdirection hmem hagree

/-- **A target is changed by conversions of parts of the source.** -/
theorem change_congr {object : Value} (hsupported : p.Supported methods)
    (hdirection : p.direction = .update) (hagree : invoker.AgreeUpTo (source.height - 1) invoker') :
    p.change methods invoker source extra object
      = p.change methods invoker' source extra object := by
  refine effects_congr ?_ object
  intro entry hmem owner
  obtain ⟨goal, resolution⟩ := entry
  cases resolution with
  | field field type onlyIfSet =>
    have hsupports := hsupported hmem
    rw [Supports] at hsupports
    rw [changeField, changeField]
    dsimp only
    rw [revision, revision]
    by_cases hinPlace : changesInPlace methods goal field type = true
    · rw [if_pos ⟨hdirection, hinPlace⟩] at hsupports
      obtain ⟨change, hchange⟩ := hsupports
      rw [if_pos hinPlace, if_pos hinPlace,
        revise_congr hchange fun v hv => hagree.mono (Value.height_le_of_field hv)]
    · rw [if_neg fun h => hinPlace h.2] at hsupports
      obtain ⟨code, hcode⟩ := hsupports
      rw [if_neg hinPlace, if_neg hinPlace,
        direct_congr hcode fun v hv => hagree.create.mono (Value.height_le_of_field hv)]
  | _ => rfl

end Plan

end ObjectMapping
