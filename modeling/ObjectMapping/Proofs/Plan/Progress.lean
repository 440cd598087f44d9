import ObjectMapping.Proofs.Registry.Methods
import ObjectMapping.Proofs.Value.Conformance
import ObjectMapping.Proofs.Value.Marks

/-! # How a change of a target proceeds

A plan changes its target one field at a time. Each field is left alone, or assigned, or changed in
place, or else it is where the change fails; and a failure leaves everything but this field as the
fields before it have left it.

* `Plan.Skips`, `Plan.Assigns`, `Plan.Updates`: what becomes of a field.
* **`Plan.steps_changeField`** — the change of one field takes one of four kinds of steps.
* **`Plan.exists_step_of_mem`** — in a change that succeeds, each field has had its own step.
* **`Plan.exists_step_of_error`** — a change that fails does so in the step for one field. -/

namespace ObjectMapping

open Outcome Conversion

/-! ## Changes in place -/

namespace Conversion

/-- A change in place comes down to an assignment: an absent value clears the field, and a field
that is empty gets a new object. -/
def Replaces (source target : FieldType) (value held : Except Error Value) : Prop :=
  source.isOptional = true ∧ value = .ok .none ∨ target.isOptional = true ∧ held = .ok .none

/-- What a change in place does to the object that owns the field. -/
inductive Revises (invoker : Invoker) (owner : Value) (name : String) (value : Except Error Value)
    (source target : FieldType) : Effect Value → Prop
  /-- It fails before anything is changed. -/
  | failed {e : Error}
      (h : ∀ v old, value = .ok v → owner.field name = .ok old →
        Replaces source target value (owner.field name)) :
      Revises invoker owner name value source target (.error e, owner)
  /-- The field is assigned. -/
  | replaced {given owner' : Value} (h : Replaces source target value (owner.field name))
      (hassign : owner.assign name given = .ok owner') :
      Revises invoker owner name value source target (.ok (), owner')
  /-- The object in the field is changed by an update method. -/
  | updated {v old : Value} (h : ¬ Replaces source target value (owner.field name))
      (hvalue : value = .ok v) (hold : owner.field name = .ok old) :
      Revises invoker owner name value source target
        ((invoker.update v old).1, owner.withField name (invoker.update v old).2)

variable {invoker : Invoker} {owner : Value} {name : String} {value : Except Error Value}
  {source target s t : FieldType} {x : Effect Value}

/-- A change in place for stripped types is one for the types themselves, where the types differ in
absences that have been ruled out. -/
theorem Revises.of_strip (h : Revises invoker owner name value s t x)
    (hreplaces : Replaces s t value (owner.field name) ↔
      Replaces source target value (owner.field name)) :
    Revises invoker owner name value source target x := by
  cases h with
  | failed h => exact .failed fun v old hv hold => hreplaces.mp (h v old hv hold)
  | replaced h hassign => exact .replaced (hreplaces.mp h) hassign
  | updated h hvalue hold => exact .updated (mt hreplaces.mpr h) hvalue hold

/-- An assignment in place of a change in place. -/
theorem revises_assign (given : Except Error Value)
    (h : Replaces source target value (owner.field name)) :
    Revises invoker owner name value source target
      (.ofExcept owner (given >>= owner.assign name)) := by
  cases given with
  | error e => exact .failed fun _ _ _ _ => h
  | ok v =>
    rw [ok_bind]
    cases hassign : owner.assign name v with
    | error e => exact .failed fun _ _ _ _ => h
    | ok owner' => exact .replaced h hassign

/-- **A change in place assigns the field or has the object in it updated**, if it does not fail
before. -/
theorem revises_revise {code place : Expr} {change : Stmt} {methods : MethodTable}
    (h : Amended methods code place source target change) :
    Revises invoker owner name value source target
      (revise invoker owner name value source target) := by
  -- each rule strips an absence that it has ruled out before, so this absence replaces nothing
  induction h with
  | @update s t hmethod =>
    rw [revise]
    unfold reviseObject
    have hnot : ¬ Replaces (.named s) (.named t) value (owner.field name) := by
      rintro (⟨h, -⟩ | ⟨h, -⟩) <;> cases h
    split
    · next e _ => exact .failed fun _ _ hvalue => by cases hvalue
    · next v e hheld => exact .failed fun _ _ _ hold => by rw [hheld] at hold; cases hold
    · next v old hold => exact .updated hnot rfl hold
  | @clear s t change hchange ih =>
    rw [revise_optional_of_optional]
    cases value with
    | error e => exact .failed fun _ _ hvalue => by cases hvalue
    | ok v =>
      cases hnone : v.isNone with
      | true =>
        have hclear : Replaces (.optional s) (.optional t) (.ok v) (owner.field name) :=
          .inl ⟨rfl, congrArg _ (Value.eq_none_of_isNone hnone)⟩
        simp only [Except.map, hnone]
        exact revises_assign (.ok .none) hclear
      | false =>
        have hpresent : (.ok v : Except Error Value) ≠ .ok .none := by
          rintro ⟨⟩
          cases hnone
        simp only [Except.map, hnone, Effect.branch]
        exact ih.of_strip (or_congr (by simp [hpresent]) .rfl)
  | @renew s t change created depth hpresent hchange hcreated ih =>
    rw [revise_optional_of_present hpresent]
    cases hheld : owner.field name with
    | error e => exact .failed fun _ _ _ hold => by rw [hheld] at hold; cases hold
    | ok old =>
      cases hnone : old.isNone with
      | true =>
        have hempty : Replaces s (.optional t) value (owner.field name) :=
          .inr ⟨rfl, hheld.trans (congrArg _ (Value.eq_none_of_isNone hnone))⟩
        simp only [Except.map, hnone]
        exact revises_assign _ hempty
      | false =>
        have hthere : owner.field name ≠ .ok .none := by
          rw [hheld]
          rintro ⟨⟩
          cases hnone
        simp only [Except.map, hnone, Effect.branch]
        exact ih.of_strip (or_congr .rfl (by simp [hthere]))

end Conversion

/-! ## One field -/

namespace Plan

variable (p : Plan) (methods : MethodTable) (source object : Value)

/-- A field is left alone: nothing is planned for it, or a condition around its assignment does not
hold. -/
def Skips : FieldDescriptor × Resolution → Prop
  | (_, .default) => True
  | (goal, .field field _ onlyIfSet) => p.performs source goal field onlyIfSet = .ok false
  | _ => False

/-- What is done for a field is an assignment. A source field is assigned unless the target field is
changed in place, and then too where that comes down to an assignment. -/
def Assigns : FieldDescriptor × Resolution → Prop
  | (_, .default) => False
  | (goal, .field field type onlyIfSet) =>
      p.performs source goal field onlyIfSet = .ok true ∧
        (changesInPlace methods goal field type = true →
          Replaces type goal.type (source.field field.name) (object.field goal.name))
  | _ => True

/-- What is done for a field is an update of the object in it by a source. -/
def Updates (value old : Value) : FieldDescriptor × Resolution → Prop
  | (goal, .field field type onlyIfSet) =>
      p.performs source goal field onlyIfSet = .ok true ∧
        changesInPlace methods goal field type = true ∧
        ¬ Replaces type goal.type (source.field field.name) (object.field goal.name) ∧
        source.field field.name = .ok value ∧ object.field goal.name = .ok old
  | _ => False

variable {p methods source object} {invoker : Invoker} {extra : Extra}
  {entry : FieldDescriptor × Resolution} {owner owner' : Value}

/-- A field that is left alone is not assigned. -/
theorem Skips.not_assigns (h : p.Skips source entry) : ¬ p.Assigns methods source object entry := by
  obtain ⟨goal, resolution⟩ := entry
  cases resolution with
  | default => exact id
  | field field type onlyIfSet =>
    rintro ⟨hperforms, -⟩
    cases (show p.performs source goal field onlyIfSet = .ok false from h).symm.trans hperforms
  | factory f => exact h.elim
  | fromExtra key => exact h.elim

/-- A field that is left alone is not updated. -/
theorem Skips.not_updates (h : p.Skips source entry) (value old : Value) :
    ¬ p.Updates methods source object value old entry := by
  obtain ⟨goal, resolution⟩ := entry
  cases resolution with
  | field field type onlyIfSet =>
    rintro ⟨hperforms, -⟩
    cases (show p.performs source goal field onlyIfSet = .ok false from h).symm.trans hperforms
  | _ => exact id

/-- A field that is updated is not assigned. -/
theorem Updates.not_assigns {value old : Value}
    (h : p.Updates methods source object value old entry) :
    ¬ p.Assigns methods source object entry := by
  obtain ⟨goal, resolution⟩ := entry
  cases resolution with
  | field field type onlyIfSet => exact fun hassigns => h.2.2.1 (hassigns.2 h.2.1)
  | _ => exact h.elim

/-- A field is updated by one source, and one object is updated. -/
theorem Updates.unique {value old value' old' : Value}
    (h : p.Updates methods source object value old entry)
    (h' : p.Updates methods source object value' old' entry) : value = value' ∧ old = old' := by
  obtain ⟨goal, resolution⟩ := entry
  cases resolution with
  | field field type onlyIfSet =>
    exact ⟨Except.ok.inj (h.2.2.2.1.symm.trans h'.2.2.2.1),
      Except.ok.inj (h.2.2.2.2.symm.trans h'.2.2.2.2)⟩
  | _ => exact h.elim

/-- A field is updated by a field of the source. -/
theorem Updates.exists_field {value old : Value}
    (h : p.Updates methods source object value old entry) :
    object.field entry.1.name = .ok old ∧ ∃ name, source.field name = .ok value := by
  obtain ⟨goal, resolution⟩ := entry
  cases resolution with
  | field field type onlyIfSet => exact ⟨h.2.2.2.2, field.name, h.2.2.2.1⟩
  | _ => exact h.elim

/-- Whether a field is assigned depends on what it holds. -/
theorem assigns_congr (h : owner'.field entry.1.name = owner.field entry.1.name) :
    p.Assigns methods source owner' entry ↔ p.Assigns methods source owner entry := by
  obtain ⟨goal, resolution⟩ := entry
  cases resolution with
  | field field type onlyIfSet =>
    simp only [Assigns]
    rw [h]
  | _ => exact .rfl

/-- How a field is updated depends on the value that its owner has there. -/
theorem updates_congr {value old : Value}
    (h : owner'.field entry.1.name = owner.field entry.1.name) :
    p.Updates methods source owner' value old entry ↔
      p.Updates methods source owner value old entry := by
  obtain ⟨goal, resolution⟩ := entry
  cases resolution with
  | field field type onlyIfSet =>
    simp only [Updates]
    rw [h]
  | _ => exact .rfl

/-- The kinds of steps by which a field of an object is changed. -/
inductive Steps (p : Plan) (methods : MethodTable) (invoker : Invoker) (source owner : Value)
    (entry : FieldDescriptor × Resolution) : Effect Value → Prop
  /-- The change fails, and everything is as it was. -/
  | failed {e : Error} (h : ∀ value old, ¬ p.Updates methods source owner value old entry) :
      Steps p methods invoker source owner entry (.error e, owner)
  /-- The field is left alone. -/
  | skipped (h : p.Skips source entry) :
      Steps p methods invoker source owner entry (.ok (), owner)
  /-- The field is assigned. -/
  | assigned {given owner' : Value} (h : p.Assigns methods source owner entry)
      (hassign : owner.assign entry.1.name given = .ok owner') :
      Steps p methods invoker source owner entry (.ok (), owner')
  /-- The object in the field is updated. Whatever the outcome, the field holds what is left. -/
  | updated {value old : Value} (h : p.Updates methods source owner value old entry) :
      Steps p methods invoker source owner entry
        ((invoker.update value old).1, owner.withField entry.1.name (invoker.update value old).2)

/-- An assignment that a plan asks for. -/
theorem steps_assign (entry : FieldDescriptor × Resolution) (given : Except Error Value)
    (h : p.Assigns methods source owner entry) :
    p.Steps methods invoker source owner entry
      (.ofExcept owner (given >>= owner.assign entry.1.name)) := by
  have hupdates : ∀ value old, ¬ p.Updates methods source owner value old entry :=
    fun _ _ hupdates => hupdates.not_assigns h
  cases given with
  | error e => exact .failed hupdates
  | ok v =>
    rw [ok_bind]
    cases hassign : owner.assign entry.1.name v with
    | error e => exact .failed hupdates
    | ok owner' => exact .assigned h hassign

/-- **The change of a field is one step**, of one of four kinds. -/
theorem steps_changeField (invoker : Invoker) (source : Value) (extra : Extra) (owner : Value)
    (hsupported : p.Supported methods) (hdirection : p.direction = .update)
    (hmem : entry ∈ p.goals) :
    p.Steps methods invoker source owner entry
      (p.changeField methods invoker source extra owner entry) := by
  obtain ⟨goal, resolution⟩ := entry
  cases resolution with
  | default => exact .skipped trivial
  | factory f => exact steps_assign (goal, .factory f) (.ok (f.value source)) trivial
  | fromExtra key =>
    rw [changeField, contribute, contribution]
    cases extra.lookup key with
    | none => exact .failed fun _ _ => id
    | some value => exact steps_assign (goal, .fromExtra key) (.ok value) trivial
  | field field type onlyIfSet =>
    have hsupports := hsupported hmem
    rw [Supports] at hsupports
    rw [changeField]
    dsimp only
    cases hperforms : p.performs source goal field onlyIfSet with
    | error e =>
      refine .failed fun value old h => ?_
      cases hperforms.symm.trans h.1
    | ok performed =>
      cases performed with
      | false => exact .skipped hperforms
      | true =>
        rw [Effect.branch, revision]
        -- a field is changed in place or assigned as a whole, which the classes decide on
        by_cases hinPlace : changesInPlace methods goal field type = true
        · rw [if_pos ⟨hdirection, hinPlace⟩] at hsupports
          obtain ⟨change, hchange⟩ := hsupports
          rw [if_pos hinPlace]
          generalize hx : revise invoker owner goal.name (source.field field.name) type goal.type = x
          have hrevises : Revises invoker owner goal.name (source.field field.name) type goal.type x :=
            hx ▸ revises_revise hchange
          cases hrevises with
          | failed h => exact .failed fun value old hupdates =>
              hupdates.2.2.1 (h value old hupdates.2.2.2.1 hupdates.2.2.2.2)
          | replaced h hassign => exact .assigned ⟨hperforms, fun _ => h⟩ hassign
          | updated h hvalue hold => exact .updated ⟨hperforms, hinPlace, h, hvalue, hold⟩
        · rw [if_neg hinPlace]
          exact steps_assign (goal, .field field type onlyIfSet) _
            ⟨hperforms, fun h => absurd h hinPlace⟩

/-- **A step stays in its field**, also where it fails. -/
theorem Steps.touchedWithin {x : Effect Value} (h : p.Steps methods invoker source owner entry x) :
    Value.TouchedWithin [entry.1.name] owner x.2 := by
  cases h with
  | failed h => exact .refl _ owner
  | skipped h => exact .refl _ owner
  | assigned h hassign => exact Value.touchedWithin_assign hassign
  | updated h => exact Value.touchedWithin_withField _ owner _

/-- A step that succeeds leaves the field alone, assigns it or updates the object in it. -/
theorem Steps.of_ok (h : p.Steps methods invoker source owner entry (.ok (), owner')) :
    p.Skips source entry ∨ p.Assigns methods source owner entry ∨
      ∃ value old, p.Updates methods source owner value old entry := by
  generalize hx : ((.ok (), owner') : Effect Value) = x at h
  cases h with
  | failed h => cases hx
  | skipped h => exact .inl h
  | assigned h hassign => exact .inr (.inl h)
  | updated h => exact .inr (.inr ⟨_, _, h⟩)

/-- A field that is left alone is as it was. -/
theorem Steps.eq_of_skips (h : p.Steps methods invoker source owner entry (.ok (), owner'))
    (hskips : p.Skips source entry) : owner' = owner := by
  generalize hx : ((.ok (), owner') : Effect Value) = x at h
  cases h with
  | failed h => cases hx
  | skipped h => exact (Prod.mk.inj hx).2
  | assigned h hassign => exact absurd h hskips.not_assigns
  | updated h => exact absurd h (hskips.not_updates _ _)

/-- **A field becomes assigned exactly by an assignment.** -/
theorem Steps.isAssigned_iff (h : p.Steps methods invoker source owner entry (.ok (), owner')) :
    owner'.isAssigned entry.1.name = .ok true ↔
      owner.isAssigned entry.1.name = .ok true ∨ p.Assigns methods source owner entry := by
  generalize hx : ((.ok (), owner') : Effect Value) = x at h
  cases h with
  | failed h => cases hx
  | skipped h =>
    rw [(Prod.mk.inj hx).2]
    exact (or_iff_left h.not_assigns).symm
  | assigned h hassign =>
    rw [(Prod.mk.inj hx).2, Value.isAssigned_assign hassign]
    simp [h]
  | updated h =>
    rw [(Prod.mk.inj hx).2, Value.isAssigned_withField]
    exact (or_iff_left h.not_assigns).symm

/-- What an update leaves is put back into its field, and the mark of the field is as it was. -/
theorem Updates.field_withField {value old : Value}
    (h : p.Updates methods source owner value old entry) (inner : Value) :
    (owner.withField entry.1.name inner).field entry.1.name = .ok inner ∧
      (owner.withField entry.1.name inner).isAssigned entry.1.name
        = owner.isAssigned entry.1.name :=
  ⟨Value.field_withField (Value.mem_names_iff.mpr ⟨old, h.exists_field.1⟩) inner,
    Value.isAssigned_withField owner _ inner _⟩

/-- **A step of an update is the update of the object in the field**, also where it fails. -/
theorem Steps.of_updates {x : Effect Value} {value old : Value}
    (h : p.Steps methods invoker source owner entry x)
    (hupdates : p.Updates methods source owner value old entry) :
    x = ((invoker.update value old).1,
      owner.withField entry.1.name (invoker.update value old).2) := by
  cases h with
  | failed h => exact absurd hupdates (h value old)
  | skipped h => exact absurd hupdates (h.not_updates value old)
  | assigned h hassign => exact absurd h hupdates.not_assigns
  | updated h =>
    obtain ⟨rfl, rfl⟩ := hupdates.unique h
    rfl

/-- A step that fails changes at most what an update changes. -/
theorem Steps.of_error {e : Error}
    (h : p.Steps methods invoker source owner entry (.error e, owner')) :
    (∀ value old, ¬ p.Updates methods source owner value old entry) ∧ owner' = owner ∨
      ∃ value old inner, p.Updates methods source owner value old entry ∧
        invoker.update value old = (.error e, inner) ∧
          owner' = owner.withField entry.1.name inner := by
  generalize hx : ((.error e, owner') : Effect Value) = x at h
  cases h with
  | failed h => exact .inl ⟨h, (Prod.mk.inj hx).2⟩
  | skipped h => cases hx
  | assigned h hassign => cases hx
  | updated h =>
    obtain ⟨houtcome, howner⟩ := Prod.mk.inj hx
    exact .inr ⟨_, _, _, h, Prod.ext houtcome.symm rfl, howner⟩

/-! ## All fields -/

variable {goals : List (FieldDescriptor × Resolution)} {left : Value}

/-- **The changes of fields stay in these fields**, also where they fail. -/
theorem touchedWithin_effects (invoker : Invoker) (source : Value) (extra : Extra) (owner : Value)
    (hsupported : p.Supported methods) (hdirection : p.direction = .update)
    (hgoals : goals ⊆ p.goals) :
    Value.TouchedWithin (goals.map (·.1.name)) owner
      (effects (p.changeField methods invoker source extra) goals owner).2 := by
  induction goals generalizing owner with
  | nil => exact .refl _ owner
  | cons entry rest ih =>
    obtain ⟨hmem, hrest⟩ := List.cons_subset.mp hgoals
    have hstep := (steps_changeField invoker source extra owner hsupported hdirection
      hmem).touchedWithin
    rw [effects_cons]
    generalize p.changeField methods invoker source extra owner entry = x at hstep ⊢
    obtain ⟨outcome, next⟩ := x
    cases outcome with
    | error e => exact hstep.mono (by simp)
    | ok _ => exact hstep.trans (ih next hrest)

/-- **In a change that succeeds, each field has had its own step**: it came to it as it was, and it
is as the step has left it. -/
theorem exists_step_of_mem (hsupported : p.Supported methods) (hdirection : p.direction = .update)
    (hnodup : (p.goals.map (·.1.name)).Nodup)
    (hchange : p.change methods invoker source extra owner = (.ok (), left)) :
    ∀ entry ∈ p.goals, ∃ mid next, Value.SameAt entry.1.name owner mid ∧
      p.Steps methods invoker source mid entry (.ok (), next) ∧
        Value.SameAt entry.1.name next left := by
  intro entry hmem
  obtain ⟨before, after, hgoals⟩ := List.append_of_mem hmem
  have hsub : before ++ entry :: after ⊆ p.goals := hgoals ▸ List.Subset.refl _
  obtain ⟨hbeforeSub, hafterSub⟩ := List.append_subset.mp hsub
  rw [hgoals, List.map_append, List.map_cons] at hnodup
  -- no other field has the name, so neither those before nor those after touch the field
  obtain ⟨-, hafterNodup, hdisjoint⟩ := List.nodup_append.mp hnodup
  rw [change, hgoals, effects_append_eq_ok] at hchange
  obtain ⟨mid, hbefore, hrest⟩ := hchange
  rw [effects_cons, Effect.andThen_eq_ok] at hrest
  obtain ⟨next, hstep, hafter⟩ := hrest
  have htouched := touchedWithin_effects invoker source extra owner hsupported hdirection hbeforeSub
  have htouched' := touchedWithin_effects invoker source extra next hsupported hdirection
    (List.cons_subset.mp hafterSub).2
  rw [hbefore] at htouched
  rw [hafter] at htouched'
  refine ⟨mid, next, htouched.same _ ?_, ?_, htouched'.same _ (List.nodup_cons.mp hafterNodup).1⟩
  · exact fun hin => hdisjoint _ hin _ List.mem_cons_self rfl
  · rw [← hstep]
    exact steps_changeField invoker source extra mid hsupported hdirection hmem

/-- **A change that fails does so in the step for one field**, after those for the fields before it
and with the fields after it as they were. -/
theorem exists_step_of_error {e : Error} (hsupported : p.Supported methods)
    (hdirection : p.direction = .update) (hnodup : (p.goals.map (·.1.name)).Nodup)
    (hchange : p.change methods invoker source extra owner = (.error e, left)) :
    ∃ before entry after mid, p.goals = before ++ entry :: after ∧
      effects (p.changeField methods invoker source extra) before owner = (.ok (), mid) ∧
      effects (p.changeField methods invoker source extra) (before ++ [entry]) owner
        = (.error e, left) ∧
      p.Steps methods invoker source mid entry (.error e, left) ∧
      (∀ other ∈ before, Value.SameAt other.1.name mid left) ∧
      Value.SameAt entry.1.name owner mid ∧
      ∀ other ∈ after, Value.SameAt other.1.name owner left := by
  obtain ⟨before, entry, after, mid, hgoals, hbefore, hstep⟩ := exists_of_effects_eq_error hchange
  have hsub : before ++ entry :: after ⊆ p.goals := hgoals ▸ List.Subset.refl _
  obtain ⟨hbeforeSub, hafterSub⟩ := List.append_subset.mp hsub
  rw [hgoals, List.map_append, List.map_cons] at hnodup
  -- fields have different names, so a step for one of them leaves the others alone
  obtain ⟨-, hafterNodup, hdisjoint⟩ := List.nodup_append.mp hnodup
  have hsteps := steps_changeField invoker source extra mid hsupported hdirection
    (List.cons_subset.mp hafterSub).1
  rw [hstep] at hsteps
  have hmid := touchedWithin_effects invoker source extra owner hsupported hdirection hbeforeSub
  rw [hbefore] at hmid
  have hleft := hsteps.touchedWithin
  refine ⟨before, entry, after, mid, hgoals, hbefore, ?_, hsteps, ?_, ?_, ?_⟩
  · rw [effects_append, hbefore, Effect.ok_andThen, effects_cons, hstep]
    rfl
  · intro other hother
    refine hleft.same _ ?_
    rw [List.mem_singleton]
    exact hdisjoint _ (List.mem_map_of_mem hother) _ List.mem_cons_self
  · exact hmid.same _ fun hin => hdisjoint _ hin _ List.mem_cons_self rfl
  · intro other hother
    have hname := List.mem_map_of_mem (f := fun entry => entry.1.name) hother
    refine (hmid.trans hleft).same _ ?_
    rw [List.mem_append, List.mem_singleton, not_or]
    refine ⟨fun hin => hdisjoint _ hin _ (List.mem_cons_of_mem _ hname) rfl, fun heq => ?_⟩
    exact (List.nodup_cons.mp hafterNodup).1 (heq ▸ hname)

end Plan

end ObjectMapping
