import ObjectMapping.Proofs.Plan.Contributions
import ObjectMapping.Proofs.Plan.Directions
import ObjectMapping.Proofs.Registry.MethodSafety

/-! # Registered methods for the two directions agree

A mapping that is registered in both directions has a create and an update method for the same
classes and overrides. If the update method leaves no field alone and skips no assignment, it brings
every field of its target in line with the object that the create method makes.

* `Makes.exists_contributions`: every field of a new object has the value that its plan contributes.
* **`Makes.changeFields_agrees`** — the invariant of a change, field by field.
* **`Makes.update_agrees`** — an update method makes its target equal to the new object. -/

namespace ObjectMapping

open Outcome Conversion

namespace Registry.Makes

variable {D : Declarations} {r : Registry} {source target : Class} {overrides : Overrides}
  {p p' : Plan} {methods methods' : MethodTable} {m m' : MappingMethod} {this w : Value}
  {extra : Extra} {invoker : Invoker} {refusal : Error}

/-! ## New objects -/

/-- The names under which accepted fields are given to the constructor are distinct. -/
theorem nodup_params (h : r.Makes source target overrides .create p methods m)
    (hdistinct : target.DistinctNames) :
    ((p.goals.filter (·.1.accepted)).map (·.1.param)).Nodup := by
  have hgoals := congrArg (fun goals => (goals.filter (·.accepted)).map (·.param))
    (h.map_goals hdistinct.names)
  rw [List.filter_map, List.filter_map, List.map_map, List.map_map] at hgoals
  exact (congrArg List.Nodup hgoals).mpr hdistinct.nodup_paramOf

/-- **The fields of a new object have the values that its plan contributes.** -/
theorem exists_contributions (h : r.Makes source target overrides .create p methods m)
    (hdistinct : target.DistinctNames) (hw : m.create invoker this extra.value = .ok w) :
    w.owner? = some target.handle ∧ w.names = target.slots.map (·.name) ∧
      ∀ entry ∈ p.goals, ∃ given,
        p.contribution invoker.create this extra entry.1 entry.2 = .ok given ∧
          ∀ u, given = some u → w.field entry.1.name = .ok u := by
  rw [h.create_eq, Plan.evaluate] at hw
  obtain ⟨args, hargs, hrest⟩ := bind_eq_ok.mp hw
  obtain ⟨object, hobject, hassigned⟩ := bind_eq_ok.mp hrest
  rw [h.target_eq] at hobject
  have hnames : (p.goals.map (·.1.name)).Nodup :=
    (h.map_goal_names hdistinct.names).symm ▸ hdistinct.names
  have hconstructed := Class.construct_meets hdistinct.names target.describe.strategy args
  rw [hobject] at hconstructed
  obtain ⟨howner, hkept⟩ := Plan.kept_of_foldlM hassigned
  have hothers := hnames.sublist
    ((List.filter_sublist (p := fun entry => !entry.1.accepted)).map _)
  -- fields of the constructor are arguments, and the other ones are assigned afterwards
  obtain ⟨haccepted, -⟩ := Plan.contributed_of_foldlM Plan.writesUnder_asArgument
    (h.nodup_params hdistinct) hargs
  obtain ⟨hremaining, hfields⟩ :=
    Plan.contributed_of_foldlM Plan.writesUnder_asField hothers hassigned
  refine ⟨howner.trans hconstructed.2, hkept.trans hconstructed.1, ?_⟩
  intro entry hmem
  cases hentry : entry.1.accepted with
  | false => exact hremaining entry (List.mem_filter.mpr ⟨hmem, by simp [hentry]⟩)
  | true =>
    obtain ⟨given, hgiven, hargument⟩ := haccepted entry (List.mem_filter.mpr ⟨hmem, hentry⟩)
    refine ⟨given, hgiven, ?_⟩
    intro u hu
    refine hfields _ u ?_ ?_
    · -- no other field of this name is assigned after the construction
      intro hassign
      obtain ⟨other, hother, hname⟩ := List.mem_map.mp hassign
      obtain ⟨hother, hrefused⟩ := List.mem_filter.mp hother
      obtain rfl := List.inj_on_of_nodup_map hnames hother hmem hname
      simp [hentry] at hrefused
    · obtain ⟨slot, hslot, hgoal, -⟩ := h.goal_inv hdistinct.names hmem
      have hlookup := hargument u hu
      rw [hgoal] at hlookup hentry ⊢
      exact Class.field_of_construct hdistinct hobject hslot hentry hlookup

/-! ## Changes -/

/-- **The change of a field leaves in it what the field takes**, up to equality. -/
theorem changeField_agrees (h : r.Makes source target overrides .update p methods m)
    (hdiffer : ∀ s t, methods s t .update = true → s.same t = false)
    (hupdate : UpdatesAsCreates D methods refusal invoker (this.height - 1)) {owner old u : Value}
    {goal : FieldDescriptor} {resolution : Resolution} (hmem : (goal, resolution) ∈ p.goals)
    (hfield : owner.field goal.name = .ok old) (hold : D.Conforms goal.type old)
    (hgiven : p.contribution invoker.create this extra goal resolution = .ok (some u))
    (hkeys : u.distinctKeys = true) :
    Meets (· = refusal) (HoldsSame goal.name u)
      (p.changeField methods invoker this extra owner (goal, resolution)).result := by
  have hname : goal.name ∈ owner.names := Value.mem_names_iff.mpr ⟨old, hfield⟩
  -- an assignment leaves exactly what is assigned
  have hassigned : Meets (· = refusal) (HoldsSame goal.name u) (Effect.ofExcept owner
      (p.contribute invoker.create this extra Plan.asField owner (goal, resolution))).result := by
    rw [Plan.contribute, hgiven, ok_bind]
    exact holdsSame_assign hname hkeys
  cases resolution with
  | field field type onlyIfSet =>
    obtain ⟨hperforms, hdirect⟩ := Plan.contribution_field_inv hgiven
    have hsupports := h.supported hmem
    rw [Plan.Supports] at hsupports
    rw [Plan.changeField]
    dsimp only
    rw [hperforms, Plan.revision]
    refine meets_branch (fun _ => ?_) (by rintro ⟨⟩)
    by_cases hinPlace : Plan.changesInPlace methods goal field type = true
    · rw [if_pos ⟨h.direction_eq, hinPlace⟩] at hsupports
      obtain ⟨change, hchange⟩ := hsupports
      rw [if_pos hinPlace]
      exact revise_agrees hchange hdiffer hfield hold
        (fun v hv => hupdate.mono (Value.height_le_of_field hv)) hdirect hkeys
    · rw [if_neg hinPlace, hdirect, ok_bind]
      exact holdsSame_assign hname hkeys
  | _ => exact hassigned

/-- **The changes of fields bring them in line with the new object**, one after another: the fields
that are still to be changed are as they were, and those that were changed stay as they are. -/
theorem changeFields_agrees (h : r.Makes source target overrides .update p methods m)
    (hdiffer : ∀ s t, methods s t .update = true → s.same t = false)
    (hupdate : UpdatesAsCreates D methods refusal invoker (this.height - 1))
    (hkeys : w.distinctKeys = true) {goals : List (FieldDescriptor × Resolution)}
    (hgoals : ∀ entry ∈ goals, entry ∈ p.goals) (hnodup : (goals.map (·.1.name)).Nodup)
    (hgiven : ∀ entry ∈ goals, ∃ u,
      p.contribution invoker.create this extra entry.1 entry.2 = .ok (some u) ∧
        w.field entry.1.name = .ok u)
    {owner : Value} (howner : D.Holds owner goals) :
    Meets (· = refusal) (Value.Aligned w (goals.map (·.1.name)) owner)
      (effects (p.changeField methods invoker this extra) goals owner).result := by
  induction goals generalizing owner with
  | nil => exact .nil w owner
  | cons entry rest ih =>
    obtain ⟨old, hfield, hold⟩ := howner entry List.mem_cons_self
    obtain ⟨u, hcontribution, hu⟩ := hgiven entry List.mem_cons_self
    have hmem := hgoals entry List.mem_cons_self
    -- the first change touches its field only, so the others are still as they were
    have hchanged := h.changedAt_changeField invoker this extra owner hmem
    have hsame := h.changeField_agrees hdiffer hupdate hmem hfield hold hcontribution
      (Value.distinctKeys_of_field hkeys hu)
    rw [List.map_cons, List.nodup_cons] at hnodup
    rw [effects_cons]
    generalize p.changeField methods invoker this extra owner entry = x at hsame hchanged ⊢
    obtain ⟨outcome, next⟩ := x
    cases outcome with
    | error e => exact hsame
    | ok _ =>
      obtain ⟨part, hpart, hpartSame⟩ := hsame
      have hrest := ih (fun other hother => hgoals other (List.mem_cons_of_mem _ hother)) hnodup.2
        (fun other hother => hgiven other (List.mem_cons_of_mem _ hother))
        (howner.of_changedAt hchanged hnodup.1)
      refine hrest.mono ?_
      intro owner' haligned
      refine haligned.cons hchanged ?_ hnodup.1
      intro part' u' hpart' hu'
      obtain rfl := Except.ok.inj (hpart.symm.trans hpart')
      obtain rfl := Except.ok.inj (hu.symm.trans hu')
      exact hpartSame

/-- Every field has a value in the plan for changes, and it is that of the new object. -/
theorem exists_contributions_update (h : r.Makes source target overrides .create p methods m)
    (h' : r.Makes source target overrides .update p' methods' m') (hdistinct : target.DistinctNames)
    (hassigns : p'.assignsAll this = true) (hw : m.create invoker this extra.value = .ok w) :
    ∀ entry ∈ p'.goals, ∃ u,
      p'.contribution invoker.create this extra entry.1 entry.2 = .ok (some u) ∧
        w.field entry.1.name = .ok u := by
  rintro ⟨goal, resolution'⟩ hmem
  obtain ⟨-, -, -, hresolve'⟩ := h'.goal_inv hdistinct.names hmem
  obtain ⟨-, -, hcontributions⟩ := h.exists_contributions hdistinct hw
  -- both plans are for the fields of the target class
  have hgoal : goal ∈ p.goals.map (·.1) := by
    rw [h.map_goals hdistinct.names, ← h'.map_goals hdistinct.names]
    exact List.mem_map.mpr ⟨_, hmem, rfl⟩
  obtain ⟨⟨_, resolution⟩, hmem', rfl⟩ := List.mem_map.mp hgoal
  obtain ⟨-, -, -, hresolve⟩ := h.goal_inv hdistinct.names hmem'
  obtain ⟨given, hgiven, hfield⟩ := hcontributions _ hmem'
  obtain ⟨u, rfl, hcontribution⟩ := Plan.contribution_of_counterpart
    (h'.source_eq.trans h.source_eq.symm) (h'.target_eq.trans h.target_eq.symm)
    (Plan.counterpart_of_resolve hresolve hresolve')
    (List.all_eq_true.mp hassigns _ hmem) hgiven
  exact ⟨u, hcontribution, hfield u rfl⟩

/-- **An update method makes its target equal to the object that the create method makes.** -/
theorem update_agrees (h : r.Makes source target overrides .create p methods m)
    (h' : r.Makes source target overrides .update p' methods' m') (htarget : target ∈ D.classes)
    (hdiffer : ∀ s t, methods' s t .update = true → s.same t = false)
    (hupdate : UpdatesAsCreates D methods' refusal invoker (this.height - 1)) {object : Value}
    (hobject : D.Conforms (.named target.handle) object) (hassigns : p'.assignsAll this = true)
    (hw : m.create invoker this extra.value = .ok w) (hkeys : w.distinctKeys = true) :
    Meets (· = refusal) (fun object' => object'.same w = true)
      (Effect.result (m'.update invoker this object extra.value)) := by
  have hdistinct := D.distinct target htarget
  obtain ⟨howner, hnames, -⟩ := h.exists_contributions hdistinct hw
  have hgoals : p'.goals.map (·.1.name) = w.names :=
    (h'.map_goal_names hdistinct.names).trans hnames.symm
  have hnodup : w.names.Nodup := hnames ▸ hdistinct.names
  have hfields := h'.changeFields_agrees hdiffer hupdate hkeys (fun _ hmem => hmem)
    (hgoals ▸ hnodup) (h.exists_contributions_update h' hdistinct hassigns hw)
    (h'.holds_goals htarget hobject)
  obtain ⟨holder, fields, assigned, rfl, hid, hperm, -⟩ := hobject.class_inv htarget rfl
  rw [h'.update_eq, Plan.change]
  rw [hgoals] at hfields
  refine hfields.mono ?_
  intro object' haligned
  exact haligned.same_of_perm rfl howner hid (hnames.symm ▸ hperm) hnodup

end Registry.Makes

end ObjectMapping
