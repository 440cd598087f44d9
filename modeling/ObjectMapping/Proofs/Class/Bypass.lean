import ObjectMapping.Proofs.Class.Supply

/-! # Models with and without validators

A model without validators is constructed without them, from arguments under the names of its
fields. With validators it is described differently: arguments go under the aliases of the fields,
where they have one. If the validators accept everything, both descriptions lead to the same objects.

* `Class.withValidators`: a model with other validators.
* `Class.Interchangeable`: classes that differ in the names of their arguments and in validators that
  accept everything; models are (`interchangeable_withValidators`).
* **`Interchangeable.construct_eq`** — from the same values for the same fields, each under the names
  of its own, interchangeable classes construct the same object, or lack the same argument. -/

namespace ObjectMapping.Class

open Outcome

/-- The class with other validators, if it is a model. -/
def withValidators (c : Class) (validators : List Validator) : Class :=
  match c.body with
  | .model populateByName _ => { c with body := .model populateByName validators }
  | _ => c

/-- Two classes are the same but for the names under which arguments are given, which are distinct in
each, and for validators, which accept everything. -/
structure Interchangeable (c c' : Class) : Prop where
  handle_eq : c'.handle = c.handle
  slots_eq : c'.slots = c.slots
  flavor_eq : c'.describe.flavor = c.describe.flavor
  hook_eq : c'.describe.hook = c.describe.hook
  distinct : c.DistinctNames
  distinct' : c'.DistinctNames
  accepts : ∀ object, c.validate object = .ok object
  accepts' : ∀ object, c'.validate object = .ok object

/-- The accepted names of the fields of a class have nothing in common, however it is constructed. -/
def ParamsDisjoint (c : Class) : Prop :=
  ∀ strategy, c.slots.Pairwise fun a b => List.Disjoint (c.params strategy a) (c.params strategy b)

/-- If nobody checks the arguments, a field goes by its own name. -/
theorem params_bypassing (c : Class) (slot : Slot) : c.params .bypassing slot = [slot.name] := by
  unfold params
  split
  · contradiction
  · rfl

/-- If the accepted names have nothing in common, neither have the fields. -/
theorem ParamsDisjoint.nodup_names {c : Class} (h : c.ParamsDisjoint) :
    (c.slots.map (·.name)).Nodup := by
  rw [List.Nodup, List.pairwise_map]
  refine (h .bypassing).imp fun {a b} hdisjoint => ?_
  rw [params_bypassing, params_bypassing, List.singleton_disjoint, List.mem_singleton] at hdisjoint
  exact hdisjoint

/-- In a class whose accepted names have nothing in common, all names are distinct. -/
theorem ParamsDisjoint.distinctNames {c : Class} (h : c.ParamsDisjoint) : c.DistinctNames :=
  ⟨h.nodup_names, (h _).sublist List.filter_sublist⟩

/-- The accepted names do not depend on validators. -/
theorem ParamsDisjoint.withValidators {c : Class} (h : c.ParamsDisjoint)
    (validators : List Validator) : (c.withValidators validators).ParamsDisjoint := by
  obtain ⟨handle, slots, body⟩ := c
  cases body with
  | model populateByName others =>
    have hparams : ∀ strategy slot,
        (Class.mk handle slots (.model populateByName validators)).params strategy slot
          = (Class.mk handle slots (.model populateByName others)).params strategy slot := by
      intro strategy slot
      unfold params
      cases slot.alias? <;> cases strategy <;> rfl
    intro strategy
    refine (h strategy).imp fun {a b} hab => ?_
    rw [Class.withValidators, hparams, hparams]
    exact hab
  | dataclass => exact h
  | orm => exact h

/-- Validators that accept everything leave every object as it is. -/
theorem validate_of_accepts {c : Class}
    (h : ∀ validator ∈ c.validators, ∀ object, validator object = none) (object : Value) :
    c.validate object = .ok object := by
  rw [validate, List.findSome?_eq_none_iff.mpr fun validator hmem => h validator hmem object]

/-- A model without validators is interchangeable with the same model under validators that accept
everything. -/
theorem interchangeable_withValidators {c : Class} {populateByName : Bool}
    {validators : List Validator} (hbody : c.body = .model populateByName [])
    (haccepts : ∀ validator ∈ validators, ∀ object, validator object = none)
    (hdisjoint : c.ParamsDisjoint) : c.Interchangeable (c.withValidators validators) := by
  obtain ⟨handle, slots, body⟩ := c
  obtain rfl : body = .model populateByName [] := hbody
  exact {
    handle_eq := rfl
    slots_eq := rfl
    flavor_eq := rfl
    hook_eq := rfl
    distinct := hdisjoint.distinctNames
    distinct' := (hdisjoint.withValidators validators).distinctNames
    accepts := validate_of_accepts nofun
    accepts' := validate_of_accepts haccepts }

/-! ## Arguments in the order of the fields -/

/-- The arguments for fields that are given values, each under the first name of its field. -/
def argumentsFor (c : Class) (entries : List (Slot × Option Value)) : Arguments :=
  entries.filterMap fun entry => entry.2.map fun value => (c.paramOf entry.1, value)

section Arguments

variable {c c' : Class} {slot : Slot} {entries : List (Slot × Option Value)} {value : Value}

/-- No entries make no arguments. -/
@[simp] theorem argumentsFor_nil : c.argumentsFor [] = [] := rfl

/-- A slot without a value has no argument. -/
@[simp] theorem argumentsFor_none :
    c.argumentsFor ((slot, none) :: entries) = c.argumentsFor entries := rfl

/-- A slot with a value has an argument under its parameter. -/
@[simp] theorem argumentsFor_some :
    c.argumentsFor ((slot, some value) :: entries)
      = (c.paramOf slot, value) :: c.argumentsFor entries := rfl

/-- The arguments for some entries and for others are joined. -/
@[simp] theorem argumentsFor_append (others : List (Slot × Option Value)) :
    c.argumentsFor (entries ++ others) = c.argumentsFor entries ++ c.argumentsFor others :=
  List.filterMap_append

/-- Arguments are given under the names of the fields. -/
theorem mem_keys_argumentsFor {param : String} (h : param ∈ (c.argumentsFor entries).map (·.1)) :
    ∃ slot ∈ entries.map (·.1), param = c.paramOf slot := by
  obtain ⟨argument, hargument, rfl⟩ := List.mem_map.mp h
  obtain ⟨entry, hentry, hgiven⟩ := List.mem_filterMap.mp hargument
  obtain ⟨value, -, rfl⟩ := Option.map_eq_some_iff.mp hgiven
  exact ⟨entry.1, List.mem_map_of_mem hentry, rfl⟩

/-- The first argument is the one for the first field. -/
theorem fillSlot_given (haccepted : slot.accepted = true) (args : Arguments) :
    c.fillSlot c.describe.strategy slot ((c.paramOf slot, value) :: args)
      = .ok (⟨slot.name, value, true⟩, args) := by
  obtain ⟨others, hparams⟩ := c.exists_params slot
  rw [fillSlot, if_pos haccepted, hparams, takeFirst?, Keyed.take?, if_pos (beq_self_eq_true _)]

/-- **Filling slots does not depend on the names under which the arguments are given**, if these are
the first names of the fields and the other names of a field are not those of another. -/
theorem fillSlots_argumentsFor {slots : List Slot} (hname : c'.name = c.name)
    (hapart : c.Apart slots) (hapart' : c'.Apart slots)
    (hentries : entries.map (·.1) = slots.filter (·.accepted)) :
    c'.fillSlots c'.describe.strategy slots (c'.argumentsFor entries)
      = c.fillSlots c.describe.strategy slots (c.argumentsFor entries) := by
  have hdefaultOf : ∀ slot, c'.defaultOf slot = c.defaultOf slot := fun slot => by
    rw [defaultOf, defaultOf, hname]
  induction slots generalizing entries with
  | nil =>
    obtain rfl := List.map_eq_nil_iff.mp hentries
    rfl
  | cons slot rest ih =>
    -- no argument for a later field is under a name of this one
    have hothers : ∀ {d : Class}, d.Apart (slot :: rest) → ∀ {others : List (Slot × Option Value)},
        others.map (·.1) = rest.filter (·.accepted) → slot.accepted = true →
          ∀ param ∈ d.params d.describe.strategy slot, param ∉ (d.argumentsFor others).map (·.1) := by
      intro d hd others hothers haccepted param hparam hmem
      obtain ⟨other, hother, rfl⟩ := mem_keys_argumentsFor hmem
      rw [hothers, List.mem_filter] at hother
      exact hd.ne haccepted hother.1 hother.2 hparam
    cases haccepted : slot.accepted with
    | false =>
      rw [List.filter_cons_of_neg (by simp [haccepted])] at hentries
      rw [fillSlots, fillSlots, fillSlot_default (by simp [haccepted]),
        fillSlot_default (by simp [haccepted]), hdefaultOf]
      cases c.defaultOf slot with
      | error e => rfl
      | ok value =>
        simp only [Except.map, ok_bind, ih hapart.tail hapart'.tail hentries]
    | true =>
      rw [List.filter_cons_of_pos haccepted] at hentries
      obtain ⟨⟨_, given?⟩, others, rfl, rfl, hrest⟩ := List.map_eq_cons_iff.mp hentries
      cases given? with
      | some value =>
        rw [argumentsFor_some, argumentsFor_some, fillSlots, fillSlots, fillSlot_given haccepted,
          fillSlot_given haccepted]
        simp only [ok_bind, ih hapart.tail hapart'.tail hrest]
      | none =>
        rw [argumentsFor_none, argumentsFor_none, fillSlots, fillSlots,
          fillSlot_default (hothers hapart' hrest), fillSlot_default (hothers hapart hrest),
          hdefaultOf]
        cases c.defaultOf _ with
        | error e => rfl
        | ok value =>
          simp only [Except.map, ok_bind, ih hapart.tail hapart'.tail hrest]

end Arguments

/-! ## Constructions -/

namespace Interchangeable

variable {c c' : Class} {entries : List (Slot × Option Value)}

/-- Without objections a construction gives the object of the filled slots, by either strategy. -/
theorem construct_of_accepts (haccepts : ∀ object, c.validate object = .ok object)
    (strategy : Strategy) (args : Arguments) :
    c.construct strategy args = (do
      let (filled, left) ← c.fillSlots strategy c.slots args
      match left with
      | (unknown, _) :: _ => .error (.construction c.name (.unexpectedArgument unknown))
      | [] => .ok (c.objectOf filled)) := by
  rw [construct]
  refine bind_congr fun filling => ?_
  obtain ⟨filled, left⟩ := filling
  cases left with
  | nil => cases strategy with
    | validating => exact haccepts _
    | bypassing => rfl
  | cons first rest => rfl

/-- **Interchangeable classes construct the same objects** from the same values for their accepted
fields, some of which may be left out. -/
theorem construct_eq (h : c.Interchangeable c')
    (hentries : entries.map (·.1) = c.slots.filter (·.accepted)) :
    c'.construct c'.describe.strategy (c'.argumentsFor entries)
      = c.construct c.describe.strategy (c.argumentsFor entries) := by
  have hname : c'.name = c.name := congrArg ClassHandle.name h.handle_eq
  have hapart' : c'.Apart c.slots := h.slots_eq ▸ h.distinct'.params
  rw [construct_of_accepts h.accepts', construct_of_accepts h.accepts, h.slots_eq, hname,
    fillSlots_argumentsFor hname h.distinct.params hapart' hentries]
  simp only [objectOf, h.handle_eq]

end Interchangeable

end ObjectMapping.Class
