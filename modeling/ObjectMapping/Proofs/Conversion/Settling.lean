import ObjectMapping.Proofs.Conversion.Agreement
import ObjectMapping.Proofs.Value.Bare

/-! # Fields that a change in place leaves alone

A change in place that is repeated may take another way than the first time: a field that was empty
gets a new object first, and this object is changed in place afterwards. Still the second change
leaves the field as it is, up to the record of assigned fields, if this holds of the objects that are
changed and of those that are made.

* **`Invoker.Settled`** — a change by a value leaves an object as it is.
* **`Conversion.Settles`** — objects are settled once they have been changed, or made.
* **`Conversion.Stays`** — a change in place leaves what a field holds as it is.
* **`Conversion.stays_of_direct`**, **`Conversion.stays_of_revise`** — what a conversion gives stays,
  and so does what a change leaves. -/

namespace ObjectMapping

open Outcome

/-- **A change by a value leaves an object as it is**, up to the record of assigned fields, which does
not matter to it either. -/
def Invoker.Settled (invoker : Invoker) (v w : Value) : Prop :=
  ∀ w' : Value, w'.bare = w.bare →
    ∃ left, invoker.update v w' = (.ok (), left) ∧ left.bare = w.bare

/-- The value is of the type, unless it is absent. -/
def Declarations.ConformsIfPresent (D : Declarations) (type : FieldType) (v : Value) : Prop :=
  v.isNone = false → D.Conforms type v

/-- Behind an optional type a value is of the type inside, unless it is absent. -/
theorem Declarations.ConformsIfPresent.strip {D : Declarations} {type : FieldType} {v : Value}
    (h : D.ConformsIfPresent type v) : D.ConformsIfPresent type.stripOptional v :=
  fun hpresent => (h hpresent).strip hpresent

namespace Conversion

variable {D : Declarations} {methods : MethodTable} {invoker : Invoker} {owner owner' old u : Value}
  {name : String} {value : Except Error Value} {source target : FieldType} {code place : Expr}
  {change : Stmt}

/-- **Objects are settled once they have been changed, or made**, where objects of their class can be
changed. -/
structure Settles (D : Declarations) (methods : MethodTable) (invoker : Invoker) : Prop where
  update : ∀ s t v old left, methods s t .update = true → D.ConformsIfPresent (.named s) v →
    D.Conforms (.named t) old → invoker.update v old = (.ok (), left) →
      left.isNone = false ∧ invoker.Settled v left
  create : ∀ s t v u, methods s t .update = true → D.ConformsIfPresent (.named s) v →
    invoker.create v t = .ok u → invoker.Settled v u

/-- **A change in place leaves what a field holds as it is**, up to the record of assigned fields. -/
def Stays (invoker : Invoker) (name : String) (value : Except Error Value)
    (source target : FieldType) (part : Value) : Prop :=
  ∀ owner part' : Value, owner.field name = .ok part' → part'.bare = part.bare →
    ∃ owner' left, revise invoker owner name value source target = (.ok (), owner') ∧
      owner'.field name = .ok left ∧ left.bare = part.bare

/-- What is assigned to a field is there afterwards. -/
theorem exists_assign_effect (hfield : owner.field name = .ok old) (u : Value) :
    ∃ owner', Effect.ofExcept owner (owner.assign name u) = (.ok (), owner') ∧
      owner'.field name = .ok u := by
  obtain ⟨owner', hassign, -, hu⟩ := Value.exists_assign (Value.mem_names_iff.mpr ⟨old, hfield⟩) u
  exact ⟨owner', Effect.ofExcept_eq_ok.mpr hassign, hu⟩

/-- An object that is settled stays in its field. -/
theorem stays_of_settled {s t : ClassHandle} {v part : Value} (h : invoker.Settled v part) :
    Stays invoker name (.ok v) (.named s) (.named t) part := by
  intro owner part' hpart hbare
  obtain ⟨left, hupdate, hleft⟩ := h part' hbare
  have hname : name ∈ owner.names := Value.mem_names_iff.mpr ⟨part', hpart⟩
  refine ⟨owner.withField name left, left, ?_, Value.field_withField hname left, hleft⟩
  rw [revise]
  unfold reviseObject
  rw [hpart]
  dsimp only
  rw [hupdate]

/-- With a value that is there, what stays without optional types stays behind them. -/
theorem Stays.clear {s t : FieldType} {v part : Value} (hpresent : v.isNone = false)
    (h : Stays invoker name (.ok v) s (.optional t) part) :
    Stays invoker name (.ok v) (.optional s) (.optional t) part := by
  intro owner part' hpart hbare
  obtain ⟨owner', left, hrevise, hleft⟩ := h owner part' hpart hbare
  refine ⟨owner', left, ?_, hleft⟩
  rw [revise_optional_of_optional]
  exact Effect.branch_eq_ok.mpr (.inr ⟨congrArg Except.ok hpresent, hrevise⟩)

/-- What stays, and is there, is not renewed either. -/
theorem Stays.renew {s t : FieldType} {part : Value} (hpresent : s.isOptional = false)
    (hthere : part.isNone = false) (h : Stays invoker name value s t part) :
    Stays invoker name value s (.optional t) part := by
  intro owner part' hpart hbare
  obtain ⟨owner', left, hrevise, hleft⟩ := h owner part' hpart hbare
  have hthere' : part'.isNone = false := by
    rw [← Value.isNone_bare, hbare, Value.isNone_bare, hthere]
  refine ⟨owner', left, ?_, hleft⟩
  rw [revise_optional_of_present hpresent, hpart]
  exact Effect.branch_eq_ok.mpr (.inr ⟨congrArg Except.ok hthere', hrevise⟩)

/-- With an absent value a field stays cleared. -/
theorem stays_none {s t : FieldType} :
    Stays invoker name (.ok .none) (.optional s) (.optional t) .none := by
  intro owner part' hpart hbare
  obtain ⟨owner', hassign, hfield⟩ := exists_assign_effect hpart .none
  refine ⟨owner', .none, ?_, hfield, rfl⟩
  rw [revise_optional_of_optional]
  exact Effect.branch_eq_ok.mpr (.inl ⟨rfl, hassign⟩)

/-- **What a conversion gives stays**: also an object that was made is only changed into itself. -/
theorem stays_of_direct (h : Amended methods code place source target change)
    (hdiffer : ∀ s t, methods s t .update = true → s.same t = false)
    (hsettles : Settles D methods invoker)
    (hvalue : ∀ v, value = .ok v → D.ConformsIfPresent source v)
    (hdirect : direct invoker.create source value target = .ok u) :
    Stays invoker name value source target u := by
  induction h with
  | @update s t hmethod =>
    rw [direct_named_of_ne (hdiffer s t hmethod)] at hdirect
    obtain ⟨v, rfl, hcreate⟩ := bind_eq_ok.mp hdirect
    exact stays_of_settled (hsettles.create s t v u hmethod (hvalue v rfl) hcreate)
  | @clear s t change hchange ih =>
    have hoptional := hdirect
    rw [direct_optional_of_optional] at hoptional
    obtain ⟨v, rfl, hv⟩ := bind_eq_ok.mp hoptional
    cases hpresent : v.isNone with
    | true =>
      rw [if_pos hpresent] at hv
      obtain rfl := Except.ok.inj hv
      obtain rfl := Value.eq_none_of_isNone hpresent
      exact stays_none
    | false =>
      refine (ih ?_ (direct_of_direct_optional hpresent hdirect)).clear hpresent
      rintro _ ⟨⟩
      exact (hvalue v rfl).strip
  | @renew s t change created depth hpresent hchange hcreated ih =>
    rw [direct_optional_of_present hpresent] at hdirect
    intro owner part' hpart hbare
    rw [revise_optional_of_present hpresent, hpart, hdirect, ok_bind]
    -- the field may be empty, but then the conversion gave nothing, and gives nothing again
    cases hempty : part'.isNone with
    | true =>
      obtain ⟨owner', hassign, hu⟩ := exists_assign_effect hpart u
      exact ⟨owner', u, Effect.branch_eq_ok.mpr (.inl ⟨congrArg Except.ok hempty, hassign⟩), hu, rfl⟩
    | false =>
      obtain ⟨owner', left, hrevise, hleft⟩ := ih hvalue hdirect owner part' hpart hbare
      exact ⟨owner', left,
        Effect.branch_eq_ok.mpr (.inr ⟨congrArg Except.ok hempty, hrevise⟩), hleft⟩

/-- **What a change in place leaves stays**, and a field is not emptied by a value that is never
absent. -/
theorem stays_of_revise (h : Amended methods code place source target change)
    (hdiffer : ∀ s t, methods s t .update = true → s.same t = false)
    (hsettles : Settles D methods invoker)
    (hvalue : ∀ v, value = .ok v → D.ConformsIfPresent source v)
    (hfield : owner.field name = .ok old) (hold : D.Conforms target old)
    (hrevise : revise invoker owner name value source target = (.ok (), owner')) :
    ∃ part, owner'.field name = .ok part ∧ Stays invoker name value source target part ∧
      (source.isOptional = false → old.isNone = false → part.isNone = false) := by
  have hname : name ∈ owner.names := Value.mem_names_iff.mpr ⟨old, hfield⟩
  induction h with
  | @update s t hmethod =>
    rw [revise] at hrevise
    unfold reviseObject at hrevise
    rw [hfield] at hrevise
    cases value with
    | error e => cases hrevise
    | ok v =>
      dsimp only at hrevise
      -- the update method settles the object, which is written back in its place
      cases hupdate : invoker.update v old with
      | mk outcome left =>
        rw [hupdate] at hrevise
        obtain ⟨rfl, rfl⟩ := Prod.mk.inj hrevise
        obtain ⟨hthere, hsettled⟩ :=
          hsettles.update s t v old left hmethod (hvalue v rfl) hold hupdate
        exact ⟨left, Value.field_withField hname left, stays_of_settled hsettled,
          fun _ _ => hthere⟩
  | @clear s t change hchange ih =>
    have hoptional : ¬ (FieldType.optional s).isOptional = false := by simp [FieldType.isOptional]
    rw [revise_optional_of_optional] at hrevise
    rcases Effect.branch_eq_ok.mp hrevise with ⟨hnone, hassign⟩ | ⟨hthere, hinner⟩
    · -- an absent value empties the field, and then leaves it empty
      obtain ⟨v, rfl, hempty⟩ := map_eq_ok.mp hnone
      obtain rfl := Value.eq_none_of_isNone hempty
      exact ⟨.none, Value.field_assign (Effect.ofExcept_eq_ok.mp hassign), stays_none,
        fun h => absurd h hoptional⟩
    · obtain ⟨v, rfl, hpresent⟩ := map_eq_ok.mp hthere
      obtain ⟨part, hpart, hstays, -⟩ := ih (by rintro _ ⟨⟩; exact (hvalue v rfl).strip) hold hinner
      exact ⟨part, hpart, hstays.clear hpresent, fun h => absurd h hoptional⟩
  | @renew s t change created depth hpresent hchange hcreated ih =>
    rw [revise_optional_of_present hpresent, hfield] at hrevise
    rcases Effect.branch_eq_ok.mp hrevise with ⟨hempty, hassign⟩ | ⟨hthere, hinner⟩
    · obtain ⟨u, hdirect, hassigned⟩ := bind_eq_ok.mp (Effect.ofExcept_eq_ok.mp hassign)
      refine ⟨u, Value.field_assign hassigned, ?_, ?_⟩
      · -- the new object is changed in place from now on
        refine stays_of_direct (.renew hpresent hchange hcreated) hdiffer hsettles hvalue ?_
        rw [direct_optional_of_present hpresent]
        exact hdirect
      · intro _ hfull
        cases hfull.symm.trans (Except.ok.inj hempty)
    · have hfull : old.isNone = false := Except.ok.inj hthere
      obtain ⟨part, hpart, hstays, hkept⟩ := ih hvalue (hold.strip hfull) hinner
      exact ⟨part, hpart, hstays.renew hpresent (hkept hpresent hfull), fun _ => hkept hpresent⟩

end Conversion

end ObjectMapping
