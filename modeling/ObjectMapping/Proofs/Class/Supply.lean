import ObjectMapping.Class.Record
import ObjectMapping.Class.Row
import ObjectMapping.Proofs.Class.Arguments

/-! # Constructors that are supplied

A constructor lacks nothing if every field that it cannot fill in by itself is given, and it knows
every argument if each one belongs to a field.

* `Error.isConstruction`: the errors of constructors that lack an argument or do not know one.
* `Class.Fillable`: what a constructor cannot fill in has to be provided by mappings. So it is in the
  classes of every flavor.
* `Class.Supplies`: arguments for the slots that are still to be filled, all of which belong to one.
* **`Class.construct_supplied`** — a construction with such arguments has no such error. -/

namespace ObjectMapping

open Outcome

/-- Whether a constructor lacks an argument, or does not know one. -/
def Error.isConstruction : Error → Bool
  | .construction .. => true
  | _ => false

/-- The outcome is not the one of a constructor with the wrong arguments. -/
abbrev Supplied {α : Type} (x : Except Error α) : Prop :=
  Meets (fun e => e.isConstruction = false) (fun _ => True) x

/-- Whether a constructor cannot fill a field in by itself. -/
def Slot.needsArgument (slot : Slot) : Bool := slot.accepted && slot.default?.isNone

namespace Class

variable {c : Class} {ns : Namespace} {handle : ClassHandle} {slot : Slot} {slots : List Slot}
  {args : Arguments}

/-! ## What has to be provided -/

/-- What a constructor cannot fill in has to be provided by mappings. -/
def Fillable (c : Class) : Prop :=
  ∀ slot ∈ c.slots, slot.needsArgument = true → slot.required = true

/-- A declared field that cannot be filled in is required. -/
theorem required_of_declaration {d : FieldDeclaration} (h : d.slot ns = .ok slot)
    (hneeds : slot.needsArgument = true) : slot.required = true := by
  obtain ⟨type, -, hslot⟩ := bind_eq_ok.mp h
  obtain rfl := Except.ok.inj hslot
  exact (Bool.and_eq_true_iff.mp hneeds).2

/-- What the constructor of a dataclass cannot fill in is required. -/
theorem fillable_dataclass {fields : List FieldDeclaration}
    (h : Class.dataclass ns handle fields = .ok c) : c.Fillable := by
  obtain ⟨slots, hslots, hc⟩ := bind_eq_ok.mp h
  obtain rfl := Except.ok.inj hc
  intro slot hslot
  obtain ⟨d, -, hd⟩ := exists_mem_of_mem_mapM hslots hslot
  exact required_of_declaration hd

/-- What the constructor of a model cannot fill in is required. -/
theorem fillable_model {fields : List FieldDeclaration} {populateByName : Bool}
    {validators : List Validator}
    (h : Class.model ns handle fields populateByName validators = .ok c) : c.Fillable := by
  obtain ⟨slots, hslots, hc⟩ := bind_eq_ok.mp h
  obtain rfl := Except.ok.inj hc
  intro slot hslot
  obtain ⟨d, -, hd⟩ := exists_mem_of_mem_mapM hslots hslot
  exact required_of_declaration hd

/-- A column that the database can fill in starts out empty, and relationships start out empty. -/
theorem fillable_orm {columns : List Column} {relationships : List Relationship}
    (h : Class.orm ns handle columns relationships = .ok c) : c.Fillable := by
  obtain ⟨columnSlots, hcolumns, hrest⟩ := bind_eq_ok.mp h
  obtain ⟨otherSlots, hothers, hc⟩ := bind_eq_ok.mp hrest
  obtain rfl := Except.ok.inj hc
  intro slot hslot hneeds
  rcases List.mem_append.mp hslot with hcolumn | hother
  · obtain ⟨column, -, hcolumn⟩ := exists_mem_of_mem_mapM hcolumns hcolumn
    obtain ⟨type, -, hslot⟩ := bind_eq_ok.mp hcolumn
    obtain rfl := Except.ok.inj hslot
    have hinitial : column.initial? = none := by simpa using (Bool.and_eq_true_iff.mp hneeds).2
    -- a column that is not required may be empty, so it has an initial value
    by_contra hrequired
    rw [Column.initial?] at hinitial
    simp only [Bool.not_eq_true] at hrequired
    split at hinitial
    · cases hinitial
    · rw [hrequired, Bool.not_false, Bool.true_or, if_pos rfl] at hinitial
      cases hinitial
  · obtain ⟨relationship, -, hrelationship⟩ := exists_mem_of_mem_mapM hothers hother
    rw [Relationship.slot] at hrelationship
    split at hrelationship
    · cases hrelationship
    · obtain rfl := Except.ok.inj hrelationship
      cases (Bool.and_eq_true_iff.mp hneeds).2

/-! ## Arguments for slots -/

/-- Arguments for slots: each under the first name of one that is accepted, and none left out that is
needed. -/
structure Supplies (c : Class) (slots : List Slot) (args : Arguments) : Prop where
  nodup : (args.map (·.1)).Nodup
  known : ∀ param ∈ args.map (·.1),
    ∃ slot ∈ slots, slot.accepted = true ∧ param = c.paramOf slot
  needed : ∀ slot ∈ slots, slot.needsArgument = true → c.paramOf slot ∈ args.map (·.1)

/-- The parameter of a slot is among the names that the constructor accepts for it. -/
theorem paramOf_mem_params (c : Class) (slot : Slot) :
    c.paramOf slot ∈ c.params c.describe.strategy slot := by
  obtain ⟨others, hparams⟩ := c.exists_params slot
  rw [hparams]
  exact List.mem_cons_self

/-- The accepted slots have no names in common. -/
abbrev Apart (c : Class) (slots : List Slot) : Prop :=
  (slots.filter (·.accepted)).Pairwise fun a b =>
    List.Disjoint (c.params c.describe.strategy a) (c.params c.describe.strategy b)

/-- Another slot is not given under a name of the first one. -/
theorem Apart.ne (h : c.Apart (slot :: slots)) (haccepted : slot.accepted = true) {other : Slot}
    (hother : other ∈ slots) (haccepted' : other.accepted = true) :
    c.paramOf other ∉ c.params c.describe.strategy slot := by
  rw [Apart, List.filter_cons_of_pos haccepted, List.pairwise_cons] at h
  exact fun hmem => h.1 other (List.mem_filter.mpr ⟨hother, haccepted'⟩) hmem
    (c.paramOf_mem_params other)

/-- Slots that are apart stay apart when the first one is left out. -/
theorem Apart.tail (h : c.Apart (slot :: slots)) : c.Apart slots :=
  h.sublist ((List.sublist_cons_self slot slots).filter _)

/-- Arguments under the first names of slots fit, if none that is needed is left out. -/
theorem Supplies.fits (h : c.Supplies slots args) (hapart : c.Apart slots) :
    c.Fits c.describe.strategy slots args := by
  -- a name of a slot that is given is the first one of this slot, and not that of another one
  have hown : ∀ slot ∈ slots, ∀ name ∈ args.map (·.1), c.Accepts c.describe.strategy slot name →
      name = c.paramOf slot := by
    intro slot hslot name hname haccepts
    obtain ⟨owner, howner, haccepted, rfl⟩ := h.known name hname
    exact congrArg c.paramOf ((namesApart_of_disjoint hapart).unique howner hslot
      ⟨haccepted, c.paramOf_mem_params owner⟩ haccepts)
  constructor
  · intro name hname
    obtain ⟨slot, hslot, haccepted, rfl⟩ := h.known name hname
    exact ⟨slot, hslot, haccepted, c.paramOf_mem_params slot⟩
  · intro slot hslot name hname other hother haccepts haccepts'
    rw [hown slot hslot name hname haccepts, hown slot hslot other hother haccepts']
  · intro slot hslot haccepted hdefault
    refine ⟨c.paramOf slot, h.needed slot hslot ?_, haccepted, c.paramOf_mem_params slot⟩
    rw [Slot.needsArgument, haccepted, hdefault]
    rfl

/-- Filling all slots uses all arguments up. -/
theorem Supplies.fillSlots (h : c.Supplies slots args) (hapart : c.Apart slots) :
    ∃ filled, c.fillSlots c.describe.strategy slots args = .ok (filled, []) :=
  ⟨_, fillSlots_of_fits h.nodup (namesApart_of_disjoint hapart) (h.fits hapart)⟩

/-- **A construction from the right arguments** neither lacks one nor finds one too many. -/
theorem construct_supplied (hdistinct : c.DistinctNames) (h : c.Supplies c.slots args) :
    Supplied (c.construct c.describe.strategy args) := by
  obtain ⟨filled, hfilled⟩ := h.fillSlots hdistinct.params
  rw [construct, hfilled, ok_bind]
  cases c.describe.strategy with
  | bypassing => exact trivial
  | validating =>
    show Supplied (c.validate (c.objectOf filled))
    rw [validate]
    split
    · exact rfl
    · exact trivial

/-- A constructor without validators accepts the right arguments. -/
theorem exists_construct (hdistinct : c.DistinctNames) (hvalidators : c.validators = [])
    (h : c.Supplies c.slots args) :
    ∃ object, c.construct c.describe.strategy args = .ok object := by
  obtain ⟨filled, hfilled⟩ := h.fillSlots hdistinct.params
  refine ⟨c.objectOf filled, ?_⟩
  rw [construct, hfilled, ok_bind]
  cases c.describe.strategy with
  | bypassing => rfl
  | validating =>
    show c.validate (c.objectOf filled) = .ok _
    rw [validate, hvalidators]
    rfl

end Class

end ObjectMapping
