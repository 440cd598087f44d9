import ObjectMapping.Proofs.Plan.Building

/-! # Which classes can be mapped

Whether there is a plan is settled in three rounds. Overrides for fields that the target does not
have are refused first, all together. Then an override that cannot be followed is refused, the one of
the first target field that has such an override. What is left are the target fields for which
nothing tells where the value comes from: they are reported together, and without them there is a
plan. The two directions differ in two ways: only a new object has defaults for fields that nothing
is said about, and only an object that is there can do without a value for a field that is required.

* **`Plan.Faulty`** — the override of a field cannot be followed; `Plan.resolve_eq_error_iff`.
* **`Plan.isOpen`** — nothing tells where the value of a field comes from;
  `Plan.resolve_eq_none_iff`.
* **`Plan.Decided`** — the three rounds, and `Plan.build_decided`, that they decide on plans.
* `Plan.update_of_create`, `Plan.create_of_update`: what a plan for one direction says about the
  other one.
* **`Plan.mappable_decided`** — all of it together. -/

namespace ObjectMapping

open Outcome

/-- The source field that an override reads, for a target field of a name. -/
def Override.sourceName? (goal : String) : Override → Option String
  | .source name => some name
  | .assumeNotNone name? | .updateOnlyIfSet name? => some (name?.getD goal)
  | .factory _ | .fromExtra _ | .ignore _ => none

/-- Whether a field is left to its default. -/
def Resolution.isDefault : Resolution → Bool
  | .default => true
  | .field .. | .factory _ | .fromExtra _ => false

namespace Plan

variable (source target : Descriptor) (direction : Direction) (overrides : Overrides)

/-- Why an override for a target field cannot be followed. -/
inductive Misuse (goal : FieldDescriptor) : Override → Error → Prop
  /-- There is no source field of the name. -/
  | unknownField {override : Override} {name : String}
      (hreads : override.sourceName? goal.name = some name) (hunknown : source.field? name = none) :
      Misuse goal override (.unknownSourceField source.name target.name name)
  /-- A new object needs the field. -/
  | omitted {omission : Omission} (hcreate : direction = .create) (hrequired : goal.required = true) :
      Misuse goal (.ignore omission) (.invalidOverride goal.name target.name omission.text)

/-- **The override of a target field cannot be followed**, for the reason that the error tells. -/
def Faulty (field : String × FieldDescriptor) (e : Error) : Prop :=
  ∃ override, overrides.lookup field.1 = some override ∧
    Misuse source target direction field.2 override e

/-- **Whether nothing tells where the value of a target field comes from**: neither an override nor a
source field of its name, nor a default that a new object would have. -/
def isOpen (field : String × FieldDescriptor) : Bool :=
  (overrides.lookup field.1).isNone && (source.field? field.2.name).isNone &&
    (field.2.required || direction == .update)

/-- The target fields for which nothing tells where the value comes from. -/
def openFields : List String :=
  (target.fields.filter (isOpen source direction overrides)).map (·.1)

/-- The overrides for fields that the target does not have. -/
def unknownKeys : List String :=
  (overrides.map (·.1)).filter fun key => key ∉ target.fields.map (·.1)

variable {source target : Descriptor} {direction : Direction} {overrides : Overrides}
  {goal : FieldDescriptor} {field : String × FieldDescriptor} {e : Error}

/-! ## One target field -/

/-- A source field is missed exactly if the source has none of the name. -/
theorem sourceField_eq_error_iff {name : String} :
    sourceField source target name = .error e ↔
      source.field? name = none ∧ e = .unknownSourceField source.name target.name name := by
  rw [sourceField]
  cases source.field? name with
  | some field => simp
  | none => simp [eq_comm]

/-- What an override that reads a source field asks for depends on whether the field exists. -/
theorem sourceField_bind_eq_error_iff {name : String} {f : FieldDescriptor → Resolution} :
    (sourceField source target name >>= fun field => (.ok (f field) : Except Error Resolution))
        = .error e ↔
      source.field? name = none ∧ e = .unknownSourceField source.name target.name name := by
  rw [← sourceField_eq_error_iff]
  cases sourceField source target name <;> simp

/-- An override fails exactly if it cannot be followed. -/
theorem explicit_eq_error_iff {override : Override} :
    explicit source target direction goal override = .error e ↔
      Misuse source target direction goal override e := by
  constructor
  · intro h
    cases override with
    | source name =>
      obtain ⟨hunknown, rfl⟩ := sourceField_bind_eq_error_iff.mp h
      exact .unknownField rfl hunknown
    | factory f => cases h
    | fromExtra key => cases h
    | ignore omission =>
      rw [explicit] at h
      split at h
      · next hneeded =>
        obtain rfl := Except.error.inj h
        have hboth := Bool.and_eq_true_iff.mp hneeded
        exact .omitted (eq_of_beq hboth.1) hboth.2
      · cases h
    | assumeNotNone name? =>
      obtain ⟨hunknown, rfl⟩ := sourceField_bind_eq_error_iff.mp h
      exact .unknownField rfl hunknown
    | updateOnlyIfSet name? =>
      obtain ⟨hunknown, rfl⟩ := sourceField_bind_eq_error_iff.mp h
      exact .unknownField rfl hunknown
  · intro h
    cases h with
    | omitted hcreate hrequired =>
      subst hcreate
      rw [explicit, hrequired]
      rfl
    | unknownField hreads hunknown =>
      cases override with
      | factory f => cases hreads
      | fromExtra key => cases hreads
      | ignore omission => cases hreads
      | _ =>
        obtain rfl := Option.some.inj hreads
        exact sourceField_bind_eq_error_iff.mpr ⟨hunknown, rfl⟩

/-- **A field fails to be resolved exactly if its override cannot be followed.** -/
theorem resolve_eq_error_iff :
    resolve source target direction overrides field.1 field.2 = .error e ↔
      Faulty source target direction overrides field e := by
  rw [resolve, Faulty]
  cases overrides.lookup field.1 with
  | none => simp
  | some override =>
    simp only [Option.some.injEq, exists_eq_left', ← explicit_eq_error_iff]
    cases explicit source target direction field.2 override <;> simp

/-- **Nothing is found for a field exactly if it is open.** -/
theorem resolve_eq_none_iff :
    resolve source target direction overrides field.1 field.2 = .ok none ↔
      isOpen source direction overrides field = true := by
  rw [resolve, isOpen]
  cases overrides.lookup field.1 with
  | some override =>
    refine iff_of_false (fun h => ?_) (by simp)
    obtain ⟨resolution, -, hsome⟩ := bind_eq_ok.mp h
    cases hsome
  | none =>
    rw [implicit?]
    cases source.field? field.2.name with
    | some found => simp
    | none => cases direction <;> cases field.2.required <;> simp

/-! ## All target fields -/

variable (source target direction overrides) in
/-- What is found for a target field, under its name. -/
def found (field : String × FieldDescriptor) : Except Error (String × Option Resolution) := do
  return (field.1, ← resolve source target direction overrides field.1 field.2)

/-- What is found for a field is its resolution, under its name. -/
theorem found_eq_ok_iff {entry : String × Option Resolution} :
    found source target direction overrides field = .ok entry ↔
      entry.1 = field.1 ∧ resolve source target direction overrides field.1 field.2 = .ok entry.2 := by
  obtain ⟨name, resolution⟩ := entry
  rw [found]
  cases resolve source target direction overrides field.1 field.2 <;> simp [eq_comm]

/-- Looking for a field fails exactly if its override cannot be followed. -/
theorem found_eq_error_iff :
    found source target direction overrides field = .error e ↔
      Faulty source target direction overrides field e := by
  rw [← resolve_eq_error_iff, found]
  cases resolve source target direction overrides field.1 field.2 <;> simp

/-- Nothing is found for the open fields, and for no others. -/
theorem missing_eq_openFields {entries : List (String × Option Resolution)}
    (h : target.fields.mapM (found source target direction overrides) = .ok entries) :
    (entries.filter fun entry => entry.2.isNone).map (·.1)
      = openFields source target direction overrides := by
  have hentries := mapM_eq_ok.mp h
  clear h
  unfold openFields
  generalize target.fields = fields at hentries ⊢
  induction hentries with
  | nil => rfl
  | @cons field entry _ _ hentry _ ih =>
    obtain ⟨hname, hresolve⟩ := found_eq_ok_iff.mp hentry
    have hnone : resolve source target direction overrides field.1 field.2 = .ok none ↔
        isOpen source direction overrides field = true := resolve_eq_none_iff
    have hmissing : entry.2.isNone = isOpen source direction overrides field := by
      rw [Bool.eq_iff_iff, ← hnone, hresolve, Except.ok.injEq, Option.isNone_iff_eq_none]
    rw [List.filter_cons, List.filter_cons, hmissing]
    split
    · rw [List.map_cons, List.map_cons, ih, hname]
    · exact ih

/-- The keys that are looked up in vain are those for which the target has no field. -/
theorem unknownKeys_eq :
    ((overrides.map (·.1)).filter fun key => (target.field? key).isNone)
      = unknownKeys target overrides := by
  refine List.filter_congr fun key _ => ?_
  rw [Descriptor.field?, Bool.eq_iff_iff, Option.isNone_iff_eq_none, List.lookup_eq_none_iff,
    decide_eq_true_iff]
  constructor
  · intro h hmem
    obtain ⟨field, hfield, rfl⟩ := List.mem_map.mp hmem
    simpa using h field hfield
  · intro h field hfield
    have hne : key ≠ field.1 := fun heq => h (List.mem_map.mpr ⟨field, hfield, heq.symm⟩)
    simpa using hne

/-- Overrides for unknown fields are all refused together. -/
theorem build_of_unknown (h : unknownKeys target overrides ≠ []) :
    build source target direction overrides
      = .error (.unknownOverrideKey source.name target.name (unknownKeys target overrides)) := by
  rw [build, unknownKeys_eq, if_pos (by simpa using h)]

/-- Without such overrides the fields are resolved one after the other. -/
theorem build_of_known (h : unknownKeys target overrides = []) :
    build source target direction overrides
      = target.fields.mapM (found source target direction overrides) >>= fun entries =>
          let missing := (entries.filter fun entry => entry.2.isNone).map (·.1)
          if !missing.isEmpty then .error (.incompleteMapping source.name target.name missing)
          else
            .ok ⟨source, target, direction,
              entries.filterMap fun (name, resolution) => resolution.map fun r => (name, r)⟩ := by
  rw [build, unknownKeys_eq, h, if_neg (by simp)]
  rfl

/-- Where every override can be followed, something is found for every field, or it is open. -/
theorem exists_found (h : ∀ field ∈ target.fields, ∀ e,
      ¬ Faulty source target direction overrides field e) :
    ∃ entries, target.fields.mapM (found source target direction overrides) = .ok entries := by
  refine exists_mapM_eq_ok fun field hmem => ?_
  cases hfound : found source target direction overrides field with
  | ok entry => exact ⟨entry, rfl⟩
  | error e => exact absurd (found_eq_error_iff.mp hfound) (h field hmem e)

/-! ## The decision -/

/-- **How it is decided whether there is a plan.** -/
structure Decided (source target : Descriptor) (direction : Direction) (overrides : Overrides)
    (outcome : Except Error Plan) : Prop where
  /-- Overrides for fields that the target does not have are refused, in the order in which they were
  given. -/
  unknown : unknownKeys target overrides ≠ [] →
    outcome = .error (.unknownOverrideKey source.name target.name (unknownKeys target overrides))
  /-- Otherwise an override that cannot be followed is, that of the first such target field. -/
  faulty : unknownKeys target overrides = [] → ∀ before field after e,
    target.fields = before ++ field :: after →
    (∀ other ∈ before, ∀ e', ¬ Faulty source target direction overrides other e') →
    Faulty source target direction overrides field e → outcome = .error e
  /-- Otherwise open fields are reported, in the order of the target fields. -/
  incomplete : unknownKeys target overrides = [] →
    (∀ field ∈ target.fields, ∀ e, ¬ Faulty source target direction overrides field e) →
    openFields source target direction overrides ≠ [] →
    outcome = .error (.incompleteMapping source.name target.name
      (openFields source target direction overrides))
  /-- Otherwise there is a plan, with one entry for each target field, in their order. -/
  mapped : unknownKeys target overrides = [] →
    (∀ field ∈ target.fields, ∀ e, ¬ Faulty source target direction overrides field e) →
    openFields source target direction overrides = [] →
    ∃ p, outcome = .ok p ∧ p.source = source ∧ p.target = target ∧ p.direction = direction ∧
      p.entries.map (·.1) = target.fields.map (·.1)

/-- The entries of a resolved plan have the names of the target fields. -/
theorem Resolved.names_eq {p : Plan} (h : p.Resolved overrides) :
    p.entries.map (·.1) = p.target.fields.map (·.1) := by
  have hnames := h.imp fun _ _ hentry => hentry.1
  have hmap : List.Forall₂ Eq (p.target.fields.map (·.1)) (p.entries.map (·.1)) := by
    rw [List.forall₂_map_left_iff, List.forall₂_map_right_iff]
    exact hnames.imp fun _ _ hname => hname.symm
  exact (List.forall₂_eq_eq_eq ▸ hmap).symm

/-- **Plans are decided on in three rounds.** -/
theorem build_decided (source target : Descriptor) (direction : Direction) (overrides : Overrides) :
    Decided source target direction overrides (build source target direction overrides) where
  unknown := build_of_unknown
  faulty := by
    intro hknown before field after e hfields hbefore hfaulty
    -- the fields before this one are resolved, so this is where resolving them ends
    have herror : target.fields.mapM (found source target direction overrides) = .error e := by
      refine mapM_eq_error.mpr ⟨before, field, after, hfields, fun other hmem => ?_,
        found_eq_error_iff.mpr hfaulty⟩
      cases hfound : found source target direction overrides other with
      | ok entry => exact ⟨entry, rfl⟩
      | error e' => exact absurd (found_eq_error_iff.mp hfound) (hbefore other hmem e')
    rw [build_of_known hknown, herror]
    rfl
  incomplete := by
    intro hknown hfollowed hopen
    obtain ⟨entries, hentries⟩ := exists_found hfollowed
    rw [build_of_known hknown, hentries, ok_bind, missing_eq_openFields hentries]
    exact if_pos (by simpa using hopen)
  mapped := by
    intro hknown hfollowed hopen
    obtain ⟨entries, hentries⟩ := exists_found hfollowed
    have hplan : ∃ p, build source target direction overrides = .ok p := by
      rw [build_of_known hknown, hentries, ok_bind, missing_eq_openFields hentries, hopen]
      exact ⟨_, rfl⟩
    obtain ⟨p, hp⟩ := hplan
    obtain ⟨hsource, htarget, hdirection, hresolved⟩ := build_eq_ok hp
    exact ⟨p, hp, hsource, htarget, hdirection, htarget ▸ hresolved.names_eq⟩

/-! ## What one direction says about the other one -/

/-- Where there is a plan, no round has refused it. -/
theorem decided_of_build {p : Plan} (h : build source target direction overrides = .ok p) :
    unknownKeys target overrides = [] ∧
      (∀ field ∈ target.fields, ∀ e, ¬ Faulty source target direction overrides field e) ∧
      openFields source target direction overrides = [] := by
  have hdecided := build_decided source target direction overrides
  rw [h] at hdecided
  have hknown : unknownKeys target overrides = [] := by
    by_contra hunknown
    cases hdecided.unknown hunknown
  have hfollowed : ∀ field ∈ target.fields, ∀ e,
      ¬ Faulty source target direction overrides field e := by
    intro field hmem e hfaulty
    obtain ⟨rfl, rfl, rfl, hresolved⟩ := build_eq_ok h
    obtain ⟨entry, -, -, hresolve⟩ := exists_of_forall₂ hresolved hmem
    rw [resolve_eq_error_iff.mpr hfaulty] at hresolve
    cases hresolve
  refine ⟨hknown, hfollowed, ?_⟩
  by_contra hopen
  cases hdecided.incomplete hknown hfollowed hopen

/-- An override leaves out a field that has to be given to a new object. -/
def Omits (overrides : Overrides) (field : String × FieldDescriptor) (omission : Omission) : Prop :=
  field.2.required = true ∧ overrides.lookup field.1 = some (.ignore omission)

/-- For a new object an override fails where it fails for a change, or because it leaves out a field
that has to be given. -/
theorem faulty_create_iff : Faulty source target .create overrides field e ↔
    Faulty source target .update overrides field e ∨
      ∃ omission, Omits overrides field omission ∧
        e = .invalidOverride field.2.name target.name omission.text := by
  constructor
  · rintro ⟨override, hoverride, hmisuse⟩
    cases hmisuse with
    | unknownField hreads hunknown => exact .inl ⟨override, hoverride, .unknownField hreads hunknown⟩
    | @omitted omission _ hrequired => exact .inr ⟨omission, ⟨hrequired, hoverride⟩, rfl⟩
  · rintro (⟨override, hoverride, hmisuse⟩ | ⟨omission, ⟨hrequired, hoverride⟩, rfl⟩)
    · cases hmisuse with
      | unknownField hreads hunknown => exact ⟨override, hoverride, .unknownField hreads hunknown⟩
      | omitted hcreate => cases hcreate
    · exact ⟨.ignore omission, hoverride, .omitted rfl hrequired⟩

/-- The target fields that a plan leaves to their defaults although no override says so. -/
def unasked (p : Plan) (overrides : Overrides) : List String :=
  ((p.target.fields.zip p.entries).filter fun pair =>
    pair.2.2.isDefault && (overrides.lookup pair.1.1).isNone).map (·.2.1)

/-- A field that a new object has by its own default is open in a change. -/
theorem isDefault_eq_isOpen {resolution : Resolution}
    (h : resolve source target .create overrides field.1 field.2 = .ok (some resolution)) :
    (resolution.isDefault && (overrides.lookup field.1).isNone)
      = isOpen source .update overrides field := by
  rw [resolve] at h
  rw [isOpen]
  cases hoverride : overrides.lookup field.1 with
  | some override => simp
  | none =>
    rw [hoverride] at h
    have himplicit := Except.ok.inj h
    rw [implicit?] at himplicit
    cases hfield : source.field? field.2.name with
    | some found =>
      rw [hfield] at himplicit
      obtain rfl := Option.some.inj himplicit
      rfl
    | none =>
      rw [hfield] at himplicit
      cases hrequired : field.2.required with
      | true => simp [hrequired] at himplicit
      | false =>
        obtain rfl : Resolution.default = resolution := by simpa [hrequired] using himplicit
        rfl

/-- What the plan for new objects leaves to defaults is what is open in a change. -/
theorem unasked_eq_openFields {p : Plan} (h : build source target .create overrides = .ok p) :
    p.unasked overrides = openFields source target .update overrides := by
  obtain ⟨rfl, rfl, hdirection, hresolved⟩ := build_eq_ok h
  rw [Resolved, hdirection] at hresolved
  unfold unasked openFields
  clear h hdirection
  generalize p.target.fields = fields at hresolved ⊢
  generalize p.entries = entries at hresolved ⊢
  induction hresolved with
  | nil => rfl
  | cons hentry _ ih =>
    rw [List.zip_cons_cons, List.filter_cons, List.filter_cons, isDefault_eq_isOpen hentry.2]
    split
    · rw [List.map_cons, List.map_cons, ih, hentry.1]
    · exact ih

/-- **The direction of changes follows from that of new objects**: only fields that are left to their
defaults stand in the way. -/
theorem update_of_create {p : Plan} (h : build source target .create overrides = .ok p) :
    (p.unasked overrides = [] → ∃ p', build source target .update overrides = .ok p') ∧
      (p.unasked overrides ≠ [] → build source target .update overrides
        = .error (.incompleteMapping source.name target.name (p.unasked overrides))) := by
  obtain ⟨hknown, hfollowed, -⟩ := decided_of_build h
  have hfollowed' : ∀ field ∈ target.fields, ∀ e,
      ¬ Faulty source target .update overrides field e :=
    fun field hmem e hfaulty => hfollowed field hmem e (faulty_create_iff.mpr (.inl hfaulty))
  have hdecided := build_decided source target .update overrides
  rw [unasked_eq_openFields h]
  refine ⟨fun hopen => ?_, hdecided.incomplete hknown hfollowed'⟩
  obtain ⟨p', hp', -⟩ := hdecided.mapped hknown hfollowed' hopen
  exact ⟨p', hp'⟩

/-- **The direction of new objects follows from that of changes**: only an override that leaves out a
field that has to be given stands in the way. -/
theorem create_of_update {p : Plan} (h : build source target .update overrides = .ok p) :
    ((∀ field ∈ target.fields, ∀ omission, ¬ Omits overrides field omission) →
        ∃ p', build source target .create overrides = .ok p') ∧
      ∀ before field after omission, target.fields = before ++ field :: after →
        (∀ other ∈ before, ∀ omission', ¬ Omits overrides other omission') →
        Omits overrides field omission → build source target .create overrides
          = .error (.invalidOverride field.2.name target.name omission.text) := by
  obtain ⟨hknown, hfollowed, hopen⟩ := decided_of_build h
  have hdecided := build_decided source target .create overrides
  -- what fails for a new object only is that a field is left out
  have hfaulty : ∀ field ∈ target.fields, (∀ omission, ¬ Omits overrides field omission) →
      ∀ e, ¬ Faulty source target .create overrides field e := by
    intro field hmem hkept e he
    rcases faulty_create_iff.mp he with hfaulty | ⟨omission, homits, -⟩
    · exact hfollowed field hmem e hfaulty
    · exact hkept omission homits
  constructor
  · intro hkept
    have hclosed : openFields source target .create overrides = [] := by
      rw [openFields, List.map_eq_nil_iff, List.filter_eq_nil_iff] at hopen ⊢
      intro field hmem hcreate
      refine hopen field hmem ?_
      simp only [isOpen, Bool.and_eq_true] at hcreate ⊢
      exact ⟨hcreate.1, by simp⟩
    obtain ⟨p', hp', -⟩ := hdecided.mapped hknown
      (fun field hmem => hfaulty field hmem (hkept field hmem)) hclosed
    exact ⟨p', hp'⟩
  · intro before field after omission hfields hbefore homits
    refine hdecided.faulty hknown before field after _ hfields (fun other hmem => ?_)
      (faulty_create_iff.mpr (.inr ⟨omission, homits, rfl⟩))
    exact hfaulty other (hfields ▸ List.mem_append_left _ hmem) (hbefore other hmem)

/-- **Which classes can be mapped, and what the two directions have to do with each other.** -/
theorem mappable_decided (source target : Descriptor) (overrides : Overrides) :
    (∀ direction, Decided source target direction overrides
        (build source target direction overrides)) ∧
      (∀ p, build source target .create overrides = .ok p →
        (p.unasked overrides = [] → ∃ p', build source target .update overrides = .ok p') ∧
          (p.unasked overrides ≠ [] → build source target .update overrides
            = .error (.incompleteMapping source.name target.name (p.unasked overrides)))) ∧
      ∀ p, build source target .update overrides = .ok p →
        ((∀ field ∈ target.fields, ∀ omission, ¬ Omits overrides field omission) →
            ∃ p', build source target .create overrides = .ok p') ∧
          ∀ before field after omission, target.fields = before ++ field :: after →
            (∀ other ∈ before, ∀ omission', ¬ Omits overrides other omission') →
            Omits overrides field omission → build source target .create overrides
              = .error (.invalidOverride field.2.name target.name omission.text) :=
  ⟨fun direction => build_decided source target direction overrides, fun _ => update_of_create,
    fun _ => create_of_update⟩

end Plan

namespace Sample

/-- A class with a title. -/
def draft : Descriptor :=
  ⟨⟨9, "Draft"⟩, .dataclass, [("title", ⟨"title", .builtin .str, true, "title", true⟩)], .validating,
    .none⟩

/-- A class with a title and an author, who need not be given. -/
def memo : Descriptor :=
  ⟨⟨10, "Memo"⟩, .dataclass,
    [("title", ⟨"title", .builtin .str, true, "title", true⟩),
      ("author", ⟨"author", .builtin .str, false, "author", true⟩)], .validating, .none⟩

end Sample

open Sample in
/-- A memo is made of a draft, but then a change has no author for it. If the title and the author
are left out, a memo can be changed but not made. -/
theorem mappable_decided_memo :
    Plan.build draft memo .create [("date", .ignore .ignore)]
        = .error (.unknownOverrideKey "Draft" "Memo" ["date"]) ∧
      Plan.build draft memo .create [("author", .source "name"), ("title", .ignore .ignore)]
        = .error (.invalidOverride "title" "Memo" "ignore()") ∧
      Plan.build draft memo .update [] = .error (.incompleteMapping "Draft" "Memo" ["author"]) ∧
      Plan.build draft memo .create [("title", .ignore .ignore), ("author", .ignore .ignore)]
        = .error (.invalidOverride "title" "Memo" "ignore()") := by
  have hdecided := fun overrides => Plan.mappable_decided draft memo overrides
  refine ⟨((hdecided _).1 .create).unknown (by decide), ?_, ?_, ?_⟩
  · refine ((hdecided _).1 .create).faulty (by decide) [] _ _ _ rfl nofun ?_
    exact ⟨_, rfl, .omitted rfl rfl⟩
  · obtain ⟨p, hp⟩ : ∃ p, Plan.build draft memo .create [] = .ok p := ⟨_, rfl⟩
    have hopen := ((hdecided []).2.1 p hp).2
    obtain rfl := Except.ok.inj hp
    exact hopen (by decide)
  · obtain ⟨p, hp⟩ : ∃ p, Plan.build draft memo .update
        [("title", .ignore .ignore), ("author", .ignore .ignore)] = .ok p := ⟨_, rfl⟩
    exact ((hdecided _).2.2 p hp).2 [] _ _ .ignore rfl nofun ⟨rfl, rfl⟩

end ObjectMapping
