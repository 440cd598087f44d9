import ObjectMapping.Proofs.Plan.Progress
import ObjectMapping.Proofs.Registry.Nesting

/-! # What updates touch, and what they leave where they fail

An update is not atomic: it changes its target field by field, and a failure leaves the fields that
were changed before. What it leaves can still be told exactly. An update that succeeds touches the
fields that its plan assigns or updates, and marks those that it assigns. An update that fails does
so at one field of the plan. Up to there it has done what the statements for the earlier fields do;
from there on nothing has changed, unless the failure is that of an update of the object in the
field, and then this object is what the nested update has left.

* `Registry.Finds`: the method that an update finds, with its plan and its statements by field.
* **`Registry.Completes`** — what an update that succeeded has made of its target.
* **`Registry.Stops`** — what an update that failed has left of its target.
* **`update_completes_or_stops`** — every update by a registry does one or the other. -/

namespace ObjectMapping

open Outcome

namespace Registry

/-- What is registered for updates of a target by a source. -/
def updater? (r : Registry) (v t : Value) : Option Registered :=
  v.handle?.bind fun source => t.handle?.bind fun target => r.lookup? (.of source target .update)

/-- The method that an update finds: it carries out a plan, with one group of statements for each
field of the plan. -/
structure Finds (r : Registry) (v t : Value) (p : Plan) (methods : MethodTable) (m : MappingMethod)
    (groups : List (FieldDescriptor × List Stmt)) : Prop where
  updater_eq : r.updater? v t = some (.method m)
  made : ∃ source target overrides, r.Makes source target overrides .update p methods m
  groups_eq : p.allStmts methods 0 p.entries = .ok groups
  body_eq : m.function.body = Plan.updateBody groups
  /-- Each group is for the field at its position. -/
  compiles : List.Forall₂ (p.Compiles methods) p.goals groups

/-- What an update that succeeded has made of its target. The target has kept its class and its
fields in their order; names outside of the plan have kept their values and marks. -/
structure Completes (r : Registry) (extra : Extra) (v t left : Value) (p : Plan)
    (methods : MethodTable) : Prop where
  touched : t.TouchedWithin (p.goals.map (·.1.name)) left
  /-- A field that is left alone is as it was. -/
  skipped : ∀ entry ∈ p.goals, p.Skips v entry → Value.SameAt entry.1.name t left
  /-- A field that is updated in place holds what the update leaves, and is not marked for it. -/
  updated : ∀ entry ∈ p.goals, ∀ value old, p.Updates methods v t value old entry →
    ∃ inner, r.update value old extra = (.ok (), inner) ∧ left.field entry.1.name = .ok inner ∧
      left.isAssigned entry.1.name = t.isAssigned entry.1.name
  /-- Marked are the names that were marked before and those that were assigned. -/
  marked : ∀ name, left.isAssigned name = .ok true ↔
    t.isAssigned name = .ok true ∨
      ∃ entry ∈ p.goals, entry.1.name = name ∧ p.Assigns methods v t entry
  /-- There is no other way for a field to fare. -/
  fared : ∀ entry ∈ p.goals, p.Skips v entry ∨ p.Assigns methods v t entry ∨
    ∃ value old, p.Updates methods v t value old entry

/-- Where an update failed: in the statements for the field at a position of the plan. -/
structure Halts (r : Registry) (extra : Extra) (v t : Value) (e : Error) (left : Value) (p : Plan)
    (methods : MethodTable) (position : Nat) (entry : FieldDescriptor × Resolution) : Prop where
  entry_eq : p.goals[position]? = some entry
  touched : t.TouchedWithin (p.goals.map (·.1.name)) left
  /-- The statements up to the position succeed without those at the position and fail with them.
  The fields before the position are as the statements for them alone leave them. -/
  before : ∃ m groups mid, r.Finds v t p methods m groups ∧
    (m.only (groups.take position)).update (r.unbounded extra) v t extra.value = (.ok (), mid) ∧
    (m.only (groups.take (position + 1))).update (r.unbounded extra) v t extra.value
      = (.error e, left) ∧
    ∀ other ∈ p.goals.take position, Value.SameAt other.1.name mid left
  /-- The fields after the position are as they were. -/
  after : ∀ other ∈ p.goals.drop (position + 1), Value.SameAt other.1.name t left

/-- **What an update that failed has left of its target.** -/
inductive Stops (r : Registry) (extra : Extra) : Value → Value → Error → Value → Prop
  /-- There is no method, and nothing has changed. -/
  | unregistered {v t : Value} (h : ∀ m, r.updater? v t ≠ some (.method m)) :
      Stops r extra v t (notRegistered v t.typeName) t
  /-- What failed is not an update of the object in the field, and the field is as it was. -/
  | unchanged {v t left : Value} {e : Error} {p : Plan} {methods : MethodTable} {position : Nat}
      {entry : FieldDescriptor × Resolution}
      (hhalts : r.Halts extra v t e left p methods position entry)
      (hupdates : ∀ value old, ¬ p.Updates methods v t value old entry)
      (hsame : Value.SameAt entry.1.name t left) : Stops r extra v t e left
  /-- What failed is the update of the object in the field, and the field holds what it has left. -/
  | nested {v t left value old inner : Value} {e : Error} {p : Plan} {methods : MethodTable}
      {position : Nat} {entry : FieldDescriptor × Resolution}
      (hhalts : r.Halts extra v t e left p methods position entry)
      (hupdates : p.Updates methods v t value old entry)
      (hinner : r.update value old extra = (.error e, inner))
      (hfield : left.field entry.1.name = .ok inner)
      (hmark : left.isAssigned entry.1.name = t.isAssigned entry.1.name)
      (hstops : Stops r extra value old e inner) : Stops r extra v t e left

variable {log : List Registration} {r : Registry} {extra : Extra} {v t left : Value} {e : Error}
  {p : Plan} {methods : MethodTable} {m : MappingMethod}
  {groups : List (FieldDescriptor × List Stmt)}

/-- An update is carried out by the update method for the classes of the two objects, if there is
one. -/
theorem updateWith_eq (r : Registry) (extra : Value) (inner : Invoker) (v t : Value) :
    r.updateWith extra inner v t = match r.updater? v t with
      | some (.method m) => m.update inner v t extra
      | _ => (.error (notRegistered v t.typeName), t) := rfl

/-- Without a method an update fails and changes nothing. -/
theorem Reached.update_of_unregistered (h : Reached log r) (extra : Extra)
    (hnone : ∀ m, r.updater? v t ≠ some (.method m)) :
    r.update v t extra = (.error (notRegistered v t.typeName), t) := by
  rw [h.update_eq_updateWith, updateWith_eq]
  split
  · next m hm => exact absurd hm (hnone m)
  · rfl

/-- What an update finds was made by a registration. -/
theorem Reached.exists_finds (h : Reached log r) (hfound : r.updater? v t = some (.method m)) :
    ∃ p methods groups, r.Finds v t p methods m groups := by
  obtain ⟨source, -, htarget⟩ := Option.bind_eq_some_iff.mp hfound
  obtain ⟨target, -, hlookup⟩ := Option.bind_eq_some_iff.mp htarget
  obtain ⟨_, _, _, _, p, methods, -, -, -, -, hmade⟩ := h.lookup_method hlookup
  obtain ⟨groups, hgroups, hbody, -⟩ := Plan.exists_groups hmade.direction_eq hmade.assemble
  exact ⟨p, methods, groups, hfound, ⟨_, _, _, hmade⟩, hgroups, hbody,
    Plan.forall₂_allStmts hmade.nodup_fields hmade.resolved hgroups⟩

namespace Finds

/-- An update is the change of the target that the plan describes. -/
theorem update_eq (h : r.Finds v t p methods m groups) (hreached : Reached log r) (extra : Extra) :
    r.update v t extra = p.change methods (r.unbounded extra) v extra t := by
  obtain ⟨_, _, _, hmade⟩ := h.made
  rw [hreached.update_eq_updateWith, updateWith_eq, h.updater_eq]
  exact hmade.update_eq (r.unbounded extra) v t extra

/-- The first groups of statements change the first fields. -/
theorem only_take_update_eq (h : r.Finds v t p methods m groups) (extra : Extra) (n : Nat) :
    (m.only (groups.take n)).update (r.unbounded extra) v t extra.value
      = effects (p.changeField methods (r.unbounded extra) v extra) (p.goals.take n) t := by
  obtain ⟨_, _, _, hmade⟩ := h.made
  obtain ⟨_, -, -, hfactories⟩ := Plan.exists_groups hmade.direction_eq hmade.assemble
  exact only_update_eq t hmade.direction_eq hfactories (List.forall₂_take n h.compiles)

/-- An update touches the fields of its plan only, also where it fails. -/
theorem touchedWithin (h : r.Finds v t p methods m groups) (hreached : Reached log r)
    (extra : Extra) : t.TouchedWithin (p.goals.map (·.1.name)) (r.update v t extra).2 := by
  obtain ⟨_, _, _, hmade⟩ := h.made
  rw [h.update_eq hreached]
  exact Plan.touchedWithin_effects (r.unbounded extra) v extra t hmade.supported hmade.direction_eq
    (List.Subset.refl p.goals)

/-- **What an update that succeeds makes of its target.** -/
theorem completes (h : r.Finds v t p methods m groups) (hreached : Reached log r)
    (hupdate : r.update v t extra = (.ok (), left)) : r.Completes extra v t left p methods := by
  obtain ⟨_, _, _, hmade⟩ := h.made
  have htouched := h.touchedWithin hreached extra
  rw [hupdate] at htouched
  rw [h.update_eq hreached] at hupdate
  have hstep := Plan.exists_step_of_mem hmade.supported hmade.direction_eq hmade.nodup_goal_names
    hupdate
  refine ⟨htouched, ?skipped, ?updated, ?marked, ?fared⟩
  case skipped =>
    intro entry hmem hskips
    obtain ⟨mid, next, hmid, hsteps, hnext⟩ := hstep entry hmem
    obtain rfl := hsteps.eq_of_skips hskips
    exact hmid.trans hnext
  case updated =>
    intro entry hmem value old hupdates
    obtain ⟨mid, next, hmid, hsteps, hnext⟩ := hstep entry hmem
    have hupdates' := (Plan.updates_congr hmid.field_eq).mpr hupdates
    obtain ⟨houtcome, rfl⟩ := Prod.mk.inj (hsteps.of_updates hupdates')
    obtain ⟨hfield, hmark⟩ := hupdates'.field_withField ((r.unbounded extra).update value old).2
    exact ⟨_, Prod.ext houtcome.symm rfl, hnext.field_eq.trans hfield,
      (hnext.mark_eq.trans hmark).trans hmid.mark_eq⟩
  case marked =>
    intro name
    -- each name of the plan has one field, and its mark is up to the step for this field
    by_cases hname : name ∈ p.goals.map (·.1.name)
    · obtain ⟨entry, hmem, rfl⟩ := List.mem_map.mp hname
      obtain ⟨mid, next, hmid, hsteps, hnext⟩ := hstep entry hmem
      rw [hnext.mark_eq, hsteps.isAssigned_iff, hmid.mark_eq, Plan.assigns_congr hmid.field_eq]
      refine or_congr .rfl ⟨fun hassigns => ⟨entry, hmem, rfl, hassigns⟩, ?_⟩
      rintro ⟨other, hother, heq, hassigns⟩
      rwa [List.inj_on_of_nodup_map hmade.nodup_goal_names hother hmem heq] at hassigns
    · rw [(htouched.same name hname).mark_eq]
      refine (or_iff_left ?_).symm
      rintro ⟨entry, hmem, rfl, -⟩
      exact hname (List.mem_map_of_mem hmem)
  case fared =>
    intro entry hmem
    obtain ⟨mid, next, hmid, hsteps, -⟩ := hstep entry hmem
    simpa only [Plan.assigns_congr hmid.field_eq, Plan.updates_congr hmid.field_eq]
      using hsteps.of_ok

/-- **Where an update fails**, and what has become of the field there. -/
theorem exists_halts (h : r.Finds v t p methods m groups) (hreached : Reached log r)
    (hupdate : r.update v t extra = (.error e, left)) :
    ∃ position entry, r.Halts extra v t e left p methods position entry ∧
      ((∀ value old, ¬ p.Updates methods v t value old entry) ∧ Value.SameAt entry.1.name t left ∨
        ∃ value old inner, p.Updates methods v t value old entry ∧
          r.update value old extra = (.error e, inner) ∧ left.field entry.1.name = .ok inner ∧
            left.isAssigned entry.1.name = t.isAssigned entry.1.name) := by
  obtain ⟨_, _, _, hmade⟩ := h.made
  have htouched := h.touchedWithin hreached extra
  rw [hupdate] at htouched
  rw [h.update_eq hreached] at hupdate
  obtain ⟨before, entry, after, mid, hgoals, hbefore, hfailed, hsteps, hsame, hmid, hafter⟩ :=
    Plan.exists_step_of_error hmade.supported hmade.direction_eq hmade.nodup_goal_names hupdate
  -- the method with its first groups only stops before, or right after, the field that fails
  have htake : p.goals.take before.length = before := by rw [hgoals, List.take_left]
  have htake' : p.goals.take (before.length + 1) = before ++ [entry] := by
    rw [hgoals, List.take_length_add_append]
    rfl
  have hdrop : p.goals.drop (before.length + 1) = after := by
    rw [hgoals, List.drop_length_add_append]
    rfl
  have hmid' : (m.only (groups.take before.length)).update (r.unbounded extra) v t extra.value
      = (.ok (), mid) := by
    rw [h.only_take_update_eq, htake, hbefore]
  have hleft : (m.only (groups.take (before.length + 1))).update (r.unbounded extra) v t extra.value
      = (.error e, left) := by
    rw [h.only_take_update_eq, htake', hfailed]
  refine ⟨before.length, entry, ⟨?_, htouched, ⟨m, groups, mid, h, hmid', hleft, ?_⟩, ?_⟩, ?_⟩
  · rw [hgoals, List.getElem?_append_right (Nat.le_refl _), Nat.sub_self]
    rfl
  · rwa [htake]
  · rwa [hdrop]
  · -- either nothing was done to the field, or an update of what it holds has failed in turn
    rcases hsteps.of_error with ⟨hupdates, rfl⟩ | ⟨value, old, inner, hupdates, hinner, rfl⟩
    · exact .inl ⟨fun value old hupdates' =>
        hupdates value old ((Plan.updates_congr hmid.field_eq).mpr hupdates'), hmid⟩
    · obtain ⟨hfield, hmark⟩ := hupdates.field_withField inner
      exact .inr ⟨value, old, inner, (Plan.updates_congr hmid.field_eq).mp hupdates, hinner, hfield,
        hmark.trans hmid.mark_eq⟩

end Finds

/-- **What an update that succeeds makes of its target**, by the method that it finds. -/
theorem Reached.exists_completes (hreached : Reached log r)
    (hupdate : r.update v t extra = (.ok (), left)) :
    ∃ p methods m groups, r.Finds v t p methods m groups ∧
      r.Completes extra v t left p methods := by
  by_cases hfound : ∃ m, r.updater? v t = some (.method m)
  · obtain ⟨m, hm⟩ := hfound
    obtain ⟨p, methods, groups, hfinds⟩ := hreached.exists_finds hm
    exact ⟨p, methods, m, groups, hfinds, hfinds.completes hreached hupdate⟩
  · rw [hreached.update_of_unregistered extra fun m hm => hfound ⟨m, hm⟩] at hupdate
    cases hupdate

/-- **What an update that fails leaves of its target**, however deep the failure is. -/
theorem Reached.stops (hreached : Reached log r) (hupdate : r.update v t extra = (.error e, left)) :
    r.Stops extra v t e left := by
  -- a nested update is by a part of the source, so the induction is on the height of the source
  induction hheight : v.height using Nat.strongRecOn generalizing v t left with
  | ind height ih =>
    subst hheight
    by_cases hfound : ∃ m, r.updater? v t = some (.method m)
    · obtain ⟨m, hm⟩ := hfound
      obtain ⟨p, methods, groups, hfinds⟩ := hreached.exists_finds hm
      obtain ⟨position, entry, hhalts, ⟨hupdates, hsame⟩ |
        ⟨value, old, inner, hupdates, hinner, hfield, hmark⟩⟩ := hfinds.exists_halts hreached hupdate
      · exact .unchanged hhalts hupdates hsame
      · obtain ⟨-, name, hvalue⟩ := hupdates.exists_field
        have hlt : value.height < v.height := by
          have hle := Value.height_le_of_field hvalue
          have hpos := v.height_pos
          omega
        exact .nested hhalts hupdates hinner hfield hmark (ih value.height hlt hinner rfl)
    · have hnone : ∀ m, r.updater? v t ≠ some (.method m) := fun m hm => hfound ⟨m, hm⟩
      rw [hreached.update_of_unregistered extra hnone] at hupdate
      obtain ⟨he, rfl⟩ := Prod.mk.inj hupdate
      obtain rfl := Except.error.inj he
      exact .unregistered hnone

end Registry

/-- **What updates touch.** In a registry that registrations lead to, an update that succeeds keeps
the class of its target and the order of its fields; fields for which nothing is planned, or whose
assignment is skipped by a condition, are as they were; and the names that are marked are those that
were marked and those that were assigned, while a field that is updated in place is not marked for
it. An update that fails stops at one field of its plan. The fields before it are as the statements
for them leave them, the fields after it are as they were, and so is the field itself, unless it was
being updated in place: then it holds what the nested update has left, of which the same is true. -/
theorem update_completes_or_stops {log : List Registration} {r : Registry}
    (hreached : Registry.Reached log r) (v t : Value) (extra : Extra) :
    (∀ left, r.update v t extra = (.ok (), left) →
      ∃ p methods m groups, r.Finds v t p methods m groups ∧
        r.Completes extra v t left p methods) ∧
    ∀ e left, r.update v t extra = (.error e, left) → r.Stops extra v t e left :=
  ⟨fun _ => hreached.exists_completes, fun _ _ => hreached.stops⟩

/-- A view of an order is brought up to date if the caller names the owner. Otherwise its item is,
and the update stops at the owner. -/
theorem update_completes_or_stops_order :
    (∃ left p methods m groups,
      Sample.registry.update (Sample.orderOf "pen") (Sample.viewOf "ink" "you") Sample.extra
          = (.ok (), left) ∧
        Sample.registry.Finds (Sample.orderOf "pen") (Sample.viewOf "ink" "you") p methods m groups ∧
        Sample.registry.Completes Sample.extra (Sample.orderOf "pen") (Sample.viewOf "ink" "you") left
          p methods) ∧
    ∃ e left,
      Sample.registry.update (Sample.orderOf "pen") (Sample.viewOf "ink" "you") []
          = (.error e, left) ∧
        Sample.registry.Stops [] (Sample.orderOf "pen") (Sample.viewOf "ink" "you") e left := by
  have hcompletes : (Sample.registry.update (Sample.orderOf "pen") (Sample.viewOf "ink" "you")
      Sample.extra).1.isOk = true := by
    decide +kernel
  have hstops : (Sample.registry.update (Sample.orderOf "pen") (Sample.viewOf "ink" "you")
      []).1.isOk = false := by
    decide +kernel
  have hlaw := update_completes_or_stops Sample.reached (Sample.orderOf "pen")
    (Sample.viewOf "ink" "you")
  constructor
  · cases hupdate : Sample.registry.update (Sample.orderOf "pen") (Sample.viewOf "ink" "you")
      Sample.extra with
    | mk outcome left =>
      rw [hupdate] at hcompletes
      cases outcome with
      | error e => cases hcompletes
      | ok _ =>
        obtain ⟨p, methods, m, groups, hfinds, hmade⟩ := (hlaw Sample.extra).1 left hupdate
        exact ⟨left, p, methods, m, groups, rfl, hfinds, hmade⟩
  · cases hupdate : Sample.registry.update (Sample.orderOf "pen") (Sample.viewOf "ink" "you") [] with
    | mk outcome left =>
      rw [hupdate] at hstops
      cases outcome with
      | error e => exact ⟨e, left, rfl, (hlaw []).2 e left hupdate⟩
      | ok _ => cases hstops

end ObjectMapping
