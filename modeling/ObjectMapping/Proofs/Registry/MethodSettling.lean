import ObjectMapping.Proofs.Conversion.Settling
import ObjectMapping.Proofs.Registry.MethodAgreement

/-! # Registered update methods settle their targets

An update method brings its target up to date field by field. Once it has, each field holds something
that the change of this field leaves as it is, and so the method leaves the whole target as it is. The
same holds of an object that the create method for the same classes made: whatever the update method
would assign or change is there already.

* **`Plan.KeepsField`** — the change of a field leaves what it holds as it is.
* `keepsField_of_contribution`: what a plan contributes to a field is kept.
* **`Plan.effects_keep`** — a change that keeps all fields leaves the object as it is.
* **`Makes.update_settles`**, **`Makes.create_settles`** — an update method leaves objects as they are
  that it has changed, or that the create method has made. -/

namespace ObjectMapping

open Outcome Conversion

namespace Plan

variable (p : Plan) (methods : MethodTable) (invoker : Invoker) (this : Value) (extra : Extra)

/-- **The change of a field leaves what it holds as it is**, up to the record of assigned fields. -/
def KeepsField (entry : FieldDescriptor × Resolution) (part : Value) : Prop :=
  ∀ owner part' : Value, owner.field entry.1.name = .ok part' → part'.bare = part.bare →
    ∃ owner' left, p.changeField methods invoker this extra owner entry = (.ok (), owner') ∧
      owner'.field entry.1.name = .ok left ∧ left.bare = part.bare

variable {p methods invoker this extra} {goal field : FieldDescriptor} {type : FieldType}
  {onlyIfSet : Bool} {resolution : Resolution} {part u w : Value}

/-- What is skipped is kept. -/
theorem keepsField_of_skipped (hperforms : p.performs this goal field onlyIfSet = .ok false) :
    p.KeepsField methods invoker this extra (goal, .field field type onlyIfSet) part := by
  intro owner part' hpart hbare
  refine ⟨owner, part', ?_, hpart, hbare⟩
  rw [changeField]
  dsimp only
  rw [hperforms]
  rfl

/-- What stays in a field is kept by a change in place. -/
theorem keepsField_of_stays (hperforms : p.performs this goal field onlyIfSet = .ok true)
    (hinPlace : changesInPlace methods goal field type = true)
    (hstays : Stays invoker goal.name (this.field field.name) type goal.type part) :
    p.KeepsField methods invoker this extra (goal, .field field type onlyIfSet) part := by
  intro owner part' hpart hbare
  obtain ⟨owner', left, hrevise, hleft⟩ := hstays owner part' hpart hbare
  refine ⟨owner', left, ?_, hleft⟩
  rw [changeField]
  dsimp only
  rw [hperforms, revision, if_pos hinPlace]
  exact hrevise

/-- The same conversion is assigned again. -/
theorem keepsField_of_assigned (hperforms : p.performs this goal field onlyIfSet = .ok true)
    (hinPlace : changesInPlace methods goal field type = false)
    (hdirect : direct invoker.create type (this.field field.name) goal.type = .ok u) :
    p.KeepsField methods invoker this extra (goal, .field field type onlyIfSet) u := by
  intro owner part' hpart hbare
  obtain ⟨owner', hassign, hu⟩ := exists_assign_effect hpart u
  refine ⟨owner', u, ?_, hu, rfl⟩
  rw [changeField]
  dsimp only
  rw [hperforms, revision, if_neg (by simp [hinPlace]), hdirect]
  exact hassign

/-- What does not come from a source field is left alone, or assigned again. -/
theorem keepsField_of_given (hfield : ∀ field type onlyIfSet,
      resolution ≠ .field field type onlyIfSet) {given : Option Value}
    (hgiven : p.contribution invoker.create this extra goal resolution = .ok given)
    (hpart : ∀ u, given = some u → part = u) :
    p.KeepsField methods invoker this extra (goal, resolution) part := by
  intro owner part' hpart' hbare
  have hchange : p.changeField methods invoker this extra owner (goal, resolution)
      = .ofExcept owner (p.contribute invoker.create this extra asField owner (goal, resolution)) := by
    cases resolution with
    | field field type onlyIfSet => exact absurd rfl (hfield field type onlyIfSet)
    | _ => rfl
  rw [hchange, contribute, hgiven, ok_bind]
  cases given with
  | none => exact ⟨owner, part', rfl, hpart', hbare⟩
  | some u =>
    obtain rfl := hpart u rfl
    obtain ⟨owner', hassign, hu⟩ := exists_assign_effect hpart' part
    exact ⟨owner', part, hassign, hu, rfl⟩

/-- **A change that keeps all fields leaves the object as it is**, up to the record of assigned
fields. -/
theorem effects_keep {goals : List (FieldDescriptor × Resolution)} (hnodup : w.names.Nodup)
    (hchanged : ∀ owner, ∀ entry ∈ goals, Value.ChangedAt entry.1.name owner
      (p.changeField methods invoker this extra owner entry).2)
    (hkeeps : ∀ entry ∈ goals, ∃ part, w.field entry.1.name = .ok part ∧
      p.KeepsField methods invoker this extra entry part)
    {owner : Value} (howner : owner.bare = w.bare) :
    ∃ owner', effects (p.changeField methods invoker this extra) goals owner = (.ok (), owner') ∧
      owner'.bare = w.bare := by
  -- the invariant is that the object differs from `w` in the record only
  induction goals generalizing owner with
  | nil => exact ⟨owner, rfl, howner⟩
  | cons entry rest ih =>
    obtain ⟨part, hpart, hkept⟩ := hkeeps entry List.mem_cons_self
    obtain ⟨part', hpart', hbare⟩ := Value.field_of_bare_eq howner hpart
    obtain ⟨next, left, hnext, hleft, hleftBare⟩ := hkept owner part' hpart' hbare
    have hentry := hchanged owner entry List.mem_cons_self
    rw [hnext] at hentry
    have hnames : owner.names.Nodup := by
      rw [← Value.names_bare owner, howner, Value.names_bare]
      exact hnodup
    have hnextBare : next.bare = w.bare :=
      (Value.bare_of_changedAt hentry hnames hpart' hleft (hleftBare.trans hbare.symm)).trans howner
    rw [effects_cons, hnext, Effect.ok_andThen]
    exact ih (fun owner other hother => hchanged owner other (List.mem_cons_of_mem _ hother))
      (fun other hother => hkeeps other (List.mem_cons_of_mem _ hother)) hnextBare

end Plan

namespace Registry.Makes

variable {D : Declarations} {r : Registry} {source target : Class} {overrides : Overrides}
  {direction : Direction} {p p' : Plan} {methods methods' : MethodTable} {m m' : MappingMethod}
  {this w : Value} {extra : Extra} {invoker : Invoker} {goal field : FieldDescriptor}
  {type : FieldType} {onlyIfSet : Bool} {resolution : Resolution}

/-- A source field is there, with a value of the type that it is read as, unless it is absent. -/
theorem exists_read (h : r.Makes source target overrides direction p methods m)
    (hsource : source ∈ D.classes) (htarget : target ∈ D.classes)
    (hthis : D.Conforms (.named source.handle) this)
    (hmem : (goal, .field field type onlyIfSet) ∈ p.goals) :
    ∃ part, this.field field.name = .ok part ∧ D.ConformsIfPresent type part := by
  obtain ⟨slot, hslot, rfl, hresolve⟩ := h.goal_inv (D.distinct target htarget).names hmem
  obtain ⟨name, hfield, hreads⟩ := Plan.resolve_eq_field hresolve
  obtain ⟨slot', hslot', rfl, rfl⟩ :=
    Class.exists_slot_of_field? (D.distinct source hsource).names hfield
  obtain ⟨part, hpart, hconforms⟩ := hthis.field hsource rfl hslot'
  refine ⟨part, hpart, ?_⟩
  rcases hreads with rfl | ⟨rfl, -⟩
  · exact fun _ => hconforms
  · exact fun hpresent => hconforms.strip hpresent

section Fields

variable (h' : r.Makes source target overrides .update p' methods' m') (hsource : source ∈ D.classes)
  (htarget : target ∈ D.classes) (hthis : D.Conforms (.named source.handle) this)
  (hdiffer : ∀ s t, methods' s t .update = true → s.same t = false)
  (hsettles : Settles D methods' invoker)

include h' hsource htarget hthis hdiffer hsettles

/-- **What a plan contributes to a field is kept.** -/
theorem keepsField_of_contribution {part : Value} (hmem : (goal, resolution) ∈ p'.goals)
    {given : Option Value}
    (hgiven : p'.contribution invoker.create this extra goal resolution = .ok given)
    (hpart : ∀ u, given = some u → part = u) :
    p'.KeepsField methods' invoker this extra (goal, resolution) part := by
  cases resolution with
  | field field type onlyIfSet =>
    obtain ⟨performed, hperforms, hvalue⟩ := bind_eq_ok.mp hgiven
    cases performed with
    | false => exact Plan.keepsField_of_skipped hperforms
    | true =>
      obtain ⟨u, hdirect, hu⟩ := bind_eq_ok.mp hvalue
      obtain rfl := hpart u (Except.ok.inj hu).symm
      cases hinPlace : Plan.changesInPlace methods' goal field type with
      | false => exact Plan.keepsField_of_assigned hperforms hinPlace hdirect
      | true =>
        have hsupports := h'.supported hmem
        rw [Plan.Supports, if_pos ⟨h'.direction_eq, hinPlace⟩] at hsupports
        obtain ⟨change, hchange⟩ := hsupports
        obtain ⟨read, hread, hconforms⟩ := h'.exists_read hsource htarget hthis hmem
        refine Plan.keepsField_of_stays hperforms hinPlace
          (stays_of_direct hchange hdiffer hsettles ?_ hdirect)
        intro v hv
        obtain rfl := Except.ok.inj (hread.symm.trans hv)
        exact hconforms
  | _ => exact Plan.keepsField_of_given (fun _ _ _ h => by cases h) hgiven hpart

/-- **What the change of a field leaves is kept.** -/
theorem exists_keepsField {owner owner' old : Value} (hmem : (goal, resolution) ∈ p'.goals)
    (hfield : owner.field goal.name = .ok old) (hold : D.Conforms goal.type old)
    (hchange : p'.changeField methods' invoker this extra owner (goal, resolution)
      = (.ok (), owner')) :
    ∃ part, owner'.field goal.name = .ok part ∧
      p'.KeepsField methods' invoker this extra (goal, resolution) part := by
  -- all resolutions but one assign what they contribute, if they contribute anything
  have hassigned : Effect.ofExcept owner
        (p'.contribute invoker.create this extra Plan.asField owner (goal, resolution))
      = (.ok (), owner') → ∃ part, owner'.field goal.name = .ok part ∧
        p'.KeepsField methods' invoker this extra (goal, resolution) part := by
    intro hcontribute
    obtain ⟨given, hgiven, hnext⟩ := bind_eq_ok.mp (Effect.ofExcept_eq_ok.mp hcontribute)
    cases given with
    | none =>
      obtain rfl := Except.ok.inj hnext
      exact ⟨old, hfield, h'.keepsField_of_contribution hsource htarget hthis hdiffer hsettles hmem
        hgiven nofun⟩
    | some u =>
      refine ⟨u, Value.field_assign hnext, h'.keepsField_of_contribution hsource htarget hthis
        hdiffer hsettles hmem hgiven ?_⟩
      exact fun u' hu' => Option.some.inj hu'
  cases resolution with
  | field field type onlyIfSet =>
    rw [Plan.changeField] at hchange
    rcases Effect.branch_eq_ok.mp hchange with ⟨hperforms, hrevision⟩ | ⟨hskips, hsame⟩
    · rw [Plan.revision] at hrevision
      split at hrevision
      · next hinPlace =>
        have hsupports := h'.supported hmem
        rw [Plan.Supports, if_pos ⟨h'.direction_eq, hinPlace⟩] at hsupports
        obtain ⟨change, hamended⟩ := hsupports
        obtain ⟨read, hread, hconforms⟩ := h'.exists_read hsource htarget hthis hmem
        obtain ⟨part, hpart, hstays, -⟩ := stays_of_revise hamended hdiffer hsettles
          (fun v hv => Except.ok.inj (hread.symm.trans hv) ▸ hconforms) hfield hold hrevision
        exact ⟨part, hpart, Plan.keepsField_of_stays hperforms hinPlace hstays⟩
      · next hwhole =>
        obtain ⟨u, hdirect, hassign⟩ := bind_eq_ok.mp (Effect.ofExcept_eq_ok.mp hrevision)
        exact ⟨u, Value.field_assign hassign,
          Plan.keepsField_of_assigned hperforms (by simpa using hwhole) hdirect⟩
    · obtain rfl := (Prod.mk.inj hsame).2
      exact ⟨old, hfield, Plan.keepsField_of_skipped hskips⟩
  | _ => exact hassigned hchange

/-- **What the changes of fields leave is kept, field by field**: the change of a field leaves in it
what the changes of the others do not touch. -/
theorem effects_leave {goals : List (FieldDescriptor × Resolution)}
    (hgoals : ∀ entry ∈ goals, entry ∈ p'.goals) (hnodup : (goals.map (·.1.name)).Nodup)
    {owner : Value} (howner : D.Holds owner goals)
    (hchange : effects (p'.changeField methods' invoker this extra) goals owner = (.ok (), w)) :
    w.owner? = owner.owner? ∧ w.names = owner.names ∧
      (∀ name, name ∉ goals.map (·.1.name) → w.field name = owner.field name) ∧
      ∀ entry ∈ goals, ∃ part, w.field entry.1.name = .ok part ∧
        p'.KeepsField methods' invoker this extra entry part := by
  induction goals generalizing owner with
  | nil =>
    obtain ⟨-, rfl⟩ := Prod.mk.inj hchange
    exact ⟨rfl, rfl, fun _ _ => rfl, nofun⟩
  | cons entry rest ih =>
    rw [List.map_cons, List.nodup_cons] at hnodup
    rw [effects_cons] at hchange
    obtain ⟨next, hnext, hrest⟩ := Effect.andThen_eq_ok.mp hchange
    obtain ⟨old, hfield, hold⟩ := howner entry List.mem_cons_self
    have hmem := hgoals entry List.mem_cons_self
    -- the first change leaves the fields of the others as they were, and they leave its own
    have hchanged := h'.changedAt_changeField invoker this extra owner hmem
    rw [hnext] at hchanged
    obtain ⟨part, hpart, hkept⟩ :=
      h'.exists_keepsField hsource htarget hthis hdiffer hsettles hmem hfield hold hnext
    obtain ⟨hclass, hnames, hothers, hkeeps⟩ :=
      ih (fun other hother => hgoals other (List.mem_cons_of_mem _ hother)) hnodup.2
        (howner.of_changedAt hchanged hnodup.1) hrest
    refine ⟨hclass.trans hchanged.owner_eq, hnames.trans hchanged.names_eq, ?_, ?_⟩
    · intro name hname
      rw [List.map_cons, List.mem_cons, not_or] at hname
      exact (hothers name hname.2).trans (hchanged.field_eq name hname.1)
    · intro other hother
      rcases List.mem_cons.mp hother with rfl | hmem
      · exact ⟨part, (hothers _ hnodup.1).trans hpart, hkept⟩
      · exact hkeeps other hmem

/-- **An update method leaves an object as it is that it has changed before.** -/
theorem update_settles {object : Value} (hobject : D.Conforms (.named target.handle) object)
    (hupdate : m'.update invoker this object extra.value = (.ok (), w)) :
    w.owner? = object.owner? ∧ ∀ w' : Value, w'.bare = w.bare → ∃ left,
      m'.update invoker this w' extra.value = (.ok (), left) ∧ left.bare = w.bare := by
  have hdistinct := (D.distinct target htarget).names
  have hgoals := h'.map_goal_names hdistinct
  rw [h'.update_eq, Plan.change] at hupdate
  obtain ⟨hclass, hnames, -, hkeeps⟩ := h'.effects_leave hsource htarget hthis hdiffer hsettles
    (fun _ hmem => hmem) (hgoals ▸ hdistinct) (h'.holds_goals htarget hobject) hupdate
  obtain ⟨holder, fields, assigned, rfl, -, hperm, -⟩ := hobject.class_inv htarget rfl
  refine ⟨hclass, fun w' hw' => ?_⟩
  rw [h'.update_eq, Plan.change]
  have hnodup : w.names.Nodup := hnames ▸ hperm.nodup_iff.mpr hdistinct
  exact Plan.effects_keep hnodup
    (fun owner entry hmem => h'.changedAt_changeField invoker this extra owner hmem) hkeeps hw'

/-- **An update method leaves an object as it is that the create method has made.** -/
theorem create_settles (h : r.Makes source target overrides .create p methods m)
    (hcreate : m.create invoker this extra.value = .ok w) :
    ∀ w' : Value, w'.bare = w.bare → ∃ left,
      m'.update invoker this w' extra.value = (.ok (), left) ∧ left.bare = w.bare := by
  have hdistinct := D.distinct target htarget
  obtain ⟨-, hnames, hcontributions⟩ := h.exists_contributions hdistinct hcreate
  intro w' hw'
  rw [h'.update_eq, Plan.change]
  refine Plan.effects_keep (hnames ▸ hdistinct.names)
    (fun owner entry hmem => h'.changedAt_changeField invoker this extra owner hmem) ?_ hw'
  rintro ⟨goal, resolution'⟩ hmem
  obtain ⟨slot, hslot, hgoal, hresolve'⟩ := h'.goal_inv hdistinct.names hmem
  -- both plans are for the fields of the target class
  have hgoals : goal ∈ p.goals.map (·.1) := by
    rw [h.map_goals hdistinct.names, ← h'.map_goals hdistinct.names]
    exact List.mem_map.mpr ⟨_, hmem, rfl⟩
  obtain ⟨⟨found, resolution⟩, hmem', hfound⟩ := List.mem_map.mp hgoals
  obtain rfl : goal = found := hfound.symm
  obtain ⟨-, -, -, hresolve⟩ := h.goal_inv hdistinct.names hmem'
  obtain ⟨given, hgiven, hfield⟩ := hcontributions _ hmem'
  obtain ⟨given', hgiven', htaken⟩ := Plan.exists_contribution_of_counterpart
    (h'.source_eq.trans h.source_eq.symm) (h'.target_eq.trans h.target_eq.symm)
    (Plan.counterpart_of_resolve hresolve hresolve') (by
      rintro field type onlyIfSet rfl
      obtain ⟨part, hpart, -⟩ := h'.exists_read hsource htarget hthis hmem
      exact ⟨part, hpart⟩) hgiven
  have hname : goal.name ∈ w.names := by
    rw [hnames, hgoal]
    exact List.mem_map_of_mem hslot
  obtain ⟨part, hpart⟩ := Value.mem_names_iff.mp hname
  refine ⟨part, hpart, h'.keepsField_of_contribution hsource htarget hthis hdiffer hsettles hmem
    hgiven' ?_⟩
  intro u hu
  exact Except.ok.inj (hpart.symm.trans (hfield u (htaken u hu)))

end Fields

end Registry.Makes

end ObjectMapping
