import ObjectMapping.Proofs.Conversion.RevisionSafety
import ObjectMapping.Proofs.Value.Equality

/-! # Changes in place agree with new values

A change in place and a conversion go through different rules. Where the conversion gives a value,
the change leaves an equal one in the field: as it is given, if the field was empty or is cleared, or
because the object in the field is changed until it equals the one that would have been made.

* `direct_of_direct_optional`: a value that is there may be read as one that is never absent.
* **`Conversion.UpdatesAsCreates`** — objects that are changed come to equal the new ones.
* **`Conversion.revise_agrees`** — a change in place leaves what the conversion gives. -/

namespace ObjectMapping.Conversion

open Outcome

/-- A value that is there has the same conversion if it is read as one that is never absent. -/
theorem direct_of_direct_optional {create : Value → ClassHandle → Except Error Value} {v u : Value}
    {s target : FieldType} (hpresent : v.isNone = false)
    (h : direct create (.optional s) (.ok v) target = .ok u) :
    direct create s (.ok v) target = .ok u := by
  induction target generalizing s with
  | optional t ih =>
    rw [direct_optional_of_optional, ok_bind, if_neg (by simp [hpresent])] at h
    -- the type inside may be optional again, and then one more layer comes off the target
    by_cases hs : s.isOptional = true
    · cases s with
      | optional inner =>
        rw [direct_optional_of_optional, ok_bind, if_neg (by simp [hpresent])]
        exact ih h
      | _ => cases hs
    · rw [direct_optional_of_present (by simpa using hs)]
      exact h
  | any =>
    rw [direct_any] at h ⊢
    exact h
  | _ =>
    -- no other type takes a value that may be absent
    rw [direct] at h
    all_goals cases h

variable {D : Declarations} {methods : MethodTable} {invoker : Invoker} {refusal : Error}
  {owner : Value} {name : String} {value : Except Error Value} {source target : FieldType}
  {code place : Expr} {change : Stmt} {u : Value}

/-- **Objects that are changed come to equal the new ones.** Where a new object can be made of a value
up to a height, a conforming object that is there can be changed instead, unless something is
refused, and is equal to the new one afterwards. -/
def UpdatesAsCreates (D : Declarations) (methods : MethodTable) (refusal : Error)
    (invoker : Invoker) (height : Nat) : Prop :=
  ∀ s t v old u, methods s t .update = true → D.Conforms (.named t) old → v.height ≤ height →
    invoker.create v t = .ok u → u.distinctKeys = true →
      Meets (· = refusal) (fun left => left.same u = true)
        (Effect.result (invoker.update v old))

/-- An agreement on high values is one on lower values. -/
theorem UpdatesAsCreates.mono {low high : Nat}
    (h : UpdatesAsCreates D methods refusal invoker high) (hle : low ≤ high) :
    UpdatesAsCreates D methods refusal invoker low :=
  fun s t v old u hmethod hold hheight =>
    h s t v old u hmethod hold (Nat.le_trans hheight hle)

/-- The field holds a value that is equal to the given one. -/
def HoldsSame (name : String) (u owner : Value) : Prop :=
  ∃ part, owner.field name = .ok part ∧ part.same u = true

/-- A branch meets what both ways meet, each of them under its condition. -/
theorem meets_branch {P : Error → Prop} {Q : Value → Prop} {test : Bool} {x y : Effect Value}
    (hx : test = true → Meets P Q x.result) (hy : test = false → Meets P Q y.result) :
    Meets P Q (Effect.branch owner (.ok test) x y).result := by
  cases test with
  | true => exact hx rfl
  | false => exact hy rfl

/-- An assigned field holds what was assigned. -/
theorem holdsSame_assign (hname : name ∈ owner.names) (hkeys : u.distinctKeys = true) :
    Meets (· = refusal) (HoldsSame name u)
      (Effect.ofExcept owner (owner.assign name u)).result := by
  obtain ⟨owner', hassign, -, hfield⟩ := Value.exists_assign hname u
  rw [hassign]
  exact ⟨u, hfield, Value.same_self hkeys⟩

/-- **A change in place leaves in the field what the conversion gives**, up to equality. -/
theorem revise_agrees {old : Value} (h : Amended methods code place source target change)
    (hdiffer : ∀ s t, methods s t .update = true → s.same t = false)
    (hfield : owner.field name = .ok old) (hold : D.Conforms target old)
    (hupdate : ∀ v, value = .ok v → UpdatesAsCreates D methods refusal invoker v.height)
    (hdirect : direct invoker.create source value target = .ok u) (hkeys : u.distinctKeys = true) :
    Meets (· = refusal) (HoldsSame name u)
      (revise invoker owner name value source target).result := by
  have hname : name ∈ owner.names := Value.mem_names_iff.mpr ⟨old, hfield⟩
  induction h with
  | @update s t hmethod =>
    -- the classes differ, so the conversion makes a new object where the change keeps the old one
    rw [direct_named_of_ne (hdiffer s t hmethod)] at hdirect
    obtain ⟨v, rfl, hcreate⟩ := bind_eq_ok.mp hdirect
    have hleft := hupdate v rfl s t v old u hmethod hold (Nat.le_refl _) hcreate hkeys
    rw [revise]
    unfold reviseObject
    rw [hfield]
    dsimp only
    generalize invoker.update v old = x at hleft ⊢
    obtain ⟨outcome, left⟩ := x
    cases outcome with
    | error e => exact hleft
    | ok _ => exact ⟨left, Value.field_withField hname left, hleft⟩
  | @clear s t change hchange ih =>
    rw [revise_optional_of_optional]
    have hoptional := hdirect
    rw [direct_optional_of_optional] at hoptional
    obtain ⟨v, rfl, hv⟩ := bind_eq_ok.mp hoptional
    refine meets_branch ?_ ?_
    · intro hnone
      rw [hnone, if_pos rfl] at hv
      obtain rfl := Except.ok.inj hv
      exact holdsSame_assign hname hkeys
    · intro hpresent
      exact ih hold (direct_of_direct_optional hpresent hdirect)
  | @renew s t change created depth hpresent hchange hcreated ih =>
    rw [direct_optional_of_present hpresent] at hdirect
    rw [revise_optional_of_present hpresent, hfield, hdirect, ok_bind]
    refine meets_branch (fun _ => holdsSame_assign hname hkeys) ?_
    intro hthere
    exact ih (hold.strip hthere) hdirect

end ObjectMapping.Conversion
