import ObjectMapping.Proofs.Conversion.Safety
import ObjectMapping.Proofs.Value.Change

/-! # What constructors do

A constructor fills the slots of its class one after another, from the arguments or by default. It
fails with rejections only, and the object that it makes has exactly the fields of the class.

* **`Class.construct_meets`** — the outcome of a construction.
* **`Class.field_of_construct`** — a field has the value of the argument that is given for it. -/

namespace ObjectMapping.Class

open Outcome

variable {c : Class} {strategy : Strategy}

/-- Making a default value only fails by rejecting it. -/
theorem defaultOf_safe (c : Class) (slot : Slot) : Safe (c.defaultOf slot) := by
  rw [defaultOf]
  split
  · exact trivial
  · split
    · exact rfl
    · exact trivial

/-- Filling a slot gives the field of its name a value, or finds the value missing. -/
theorem fillSlot_meets (c : Class) (strategy : Strategy) (slot : Slot) (args : Arguments) :
    Meets (fun e => e.isRejection = true) (fun result => result.1.name = slot.name)
      (c.fillSlot strategy slot args) := by
  rw [fillSlot]
  split
  · exact rfl
  · exact (defaultOf_safe c slot).bind fun _ _ => rfl

/-- Filling slots gives values for these slots, in order, or rejects the arguments. -/
theorem fillSlots_meets (c : Class) (strategy : Strategy) (slots : List Slot) (args : Arguments) :
    Meets (fun e => e.isRejection = true)
      (fun result => result.1.map (·.name) = slots.map (·.name))
      (c.fillSlots strategy slots args) := by
  induction slots generalizing args with
  | nil => exact rfl
  | cons slot rest ih =>
    rw [fillSlots]
    refine (fillSlot_meets c strategy slot args).bind ?_
    intro result hname
    refine (ih result.2).bind ?_
    intro others hothers
    exact congrArg₂ List.cons hname hothers

/-- Validators accept the object as it is, or reject it. -/
theorem validate_meets (c : Class) (object : Value) :
    Meets (fun e => e.isRejection = true) (· = object) (c.validate object) := by
  rw [validate]
  split
  · exact rfl
  · exact rfl

/-- The attributes of a new object are named after the slots that are filled. -/
theorem names_objectOf {filled : List Filled} (h : (filled.map (·.name)).Nodup) :
    (c.objectOf filled).names = filled.map (·.name) := by
  rw [objectOf, Value.names, Keyed.ofList_eq_self (by rw [List.map_map]; exact h), List.map_map]
  rfl

/-- The fields of a new object are those that are filled. -/
theorem field_objectOf {filled : List Filled} (hnodup : (filled.map (·.name)).Nodup) {f : Filled}
    (hf : f ∈ filled) : (c.objectOf filled).field f.name = .ok f.value := by
  have hnodup' : ((filled.map fun f => (f.name, f.value)).map (·.1)).Nodup := by
    rw [List.map_map]
    exact hnodup
  rw [objectOf, Value.field_object, Keyed.ofList_eq_self hnodup',
    Keyed.lookup_of_mem hnodup' (List.mem_map.mpr ⟨f, hf, rfl⟩)]

/-- **A construction gives an object with the fields of the class, or rejects the arguments.** -/
theorem construct_meets (hnames : (c.slots.map (·.name)).Nodup) (strategy : Strategy)
    (args : Arguments) :
    Meets (fun e => e.isRejection = true)
      (fun object => object.names = c.slots.map (·.name) ∧ object.owner? = some c.handle)
      (c.construct strategy args) := by
  rw [construct]
  refine (fillSlots_meets c strategy c.slots args).bind ?_
  intro result hfilled
  obtain ⟨filled, left⟩ := result
  have hobject : (c.objectOf filled).names = c.slots.map (·.name) := by
    rw [names_objectOf (by rw [hfilled]; exact hnames), hfilled]
  cases left with
  | cons unknown _ => exact rfl
  | nil =>
    cases strategy with
    | validating =>
      refine (validate_meets c _).mono ?_
      intro object hobject'
      obtain rfl := hobject'
      exact ⟨hobject, rfl⟩
    | bypassing => exact ⟨hobject, rfl⟩

/-! ## Arguments -/

/-- The first name of a field is the one under which a mapping gives it. -/
theorem exists_params (c : Class) (slot : Slot) :
    ∃ others, c.params c.describe.strategy slot = c.paramOf slot :: others := by
  have hnonempty : c.params c.describe.strategy slot ≠ [] := by
    unfold params
    split
    · split <;> simp
    · simp
  rw [paramOf]
  cases hparams : c.params c.describe.strategy slot with
  | nil => exact absurd hparams hnonempty
  | cons param others => exact ⟨others, rfl⟩

/-- The first names of the accepted fields are distinct. -/
theorem DistinctNames.nodup_paramOf (h : c.DistinctNames) :
    ((c.slots.filter (·.accepted)).map c.paramOf).Nodup := by
  rw [List.Nodup, List.pairwise_map]
  refine h.params.imp ?_
  intro a b hdisjoint hparam
  obtain ⟨_, ha⟩ := c.exists_params a
  obtain ⟨_, hb⟩ := c.exists_params b
  rw [ha, hb] at hdisjoint
  exact hdisjoint List.mem_cons_self (hparam ▸ List.mem_cons_self)

/-- Taking an argument leaves those under other names alone. -/
theorem lookup_of_takeFirst? {args rest : Arguments} {params : List String} {value : Value}
    (h : takeFirst? args params = some (value, rest)) {other : String} (hother : other ∉ params) :
    rest.lookup other = args.lookup other := by
  induction params with
  | nil => cases h
  | cons param params ih =>
    rw [List.mem_cons, not_or] at hother
    rw [takeFirst?] at h
    cases htake : Keyed.take? args param with
    | none =>
      rw [htake] at h
      exact ih h hother.2
    | some found =>
      rw [htake] at h
      obtain rfl := Option.some.inj h
      exact (Keyed.lookup_of_take? htake).2 other hother.1

/-- An argument under the first name of a field is taken for it. -/
theorem takeFirst?_of_lookup {args : Arguments} {param : String} {value : Value}
    (h : args.lookup param = some value) (others : List String) :
    ∃ rest, takeFirst? args (param :: others) = some (value, rest) := by
  rw [takeFirst?]
  cases htake : Keyed.take? args param with
  | none =>
    have hnone := Keyed.take?_eq_none htake
    rw [h] at hnone
    cases hnone
  | some found =>
    obtain ⟨hlookup, -⟩ := Keyed.lookup_of_take? htake
    rw [h] at hlookup
    obtain rfl := Option.some.inj hlookup
    exact ⟨found.2, rfl⟩

/-- Filling a slot takes arguments under the names of the slot only, and only if it is accepted. -/
theorem lookup_of_fillSlot {slot : Slot} {args rest : Arguments} {filled : Filled}
    (h : c.fillSlot strategy slot args = .ok (filled, rest)) {other : String}
    (hother : slot.accepted = true → other ∉ c.params strategy slot) :
    rest.lookup other = args.lookup other := by
  rw [fillSlot] at h
  split at h
  · next value left htaken =>
    obtain ⟨-, rfl⟩ := Prod.mk.inj (Except.ok.inj h)
    split at htaken
    · next haccepted => exact lookup_of_takeFirst? htaken (hother haccepted)
    · cases htaken
  · obtain ⟨value, -, hfilled⟩ := bind_eq_ok.mp h
    obtain ⟨-, rfl⟩ := Prod.mk.inj (Except.ok.inj hfilled)
    rfl

/-- A slot is filled with the argument under its first name, whatever slots are filled before. -/
theorem mem_of_fillSlots {slots : List Slot} {args left : Arguments} {filled : List Filled}
    (hdisjoint : slots.Pairwise fun a b => a.accepted = true → b.accepted = true →
      (c.params strategy a).Disjoint (c.params strategy b))
    (h : c.fillSlots strategy slots args = .ok (filled, left)) {slot : Slot} (hslot : slot ∈ slots)
    (haccepted : slot.accepted = true) {param : String} {others : List String}
    (hparams : c.params strategy slot = param :: others) {value : Value}
    (hgiven : args.lookup param = some value) : ⟨slot.name, value, true⟩ ∈ filled := by
  -- the slots before this one take arguments under other names, so its own is still there
  induction slots generalizing args filled left with
  | nil => simp at hslot
  | cons head tail ih =>
    rw [List.pairwise_cons] at hdisjoint
    rw [fillSlots] at h
    obtain ⟨⟨first, rest⟩, hfirst, hothers⟩ := bind_eq_ok.mp h
    obtain ⟨⟨filled', left'⟩, hfilled', hresult⟩ := bind_eq_ok.mp hothers
    obtain ⟨rfl, rfl⟩ := Prod.mk.inj (Except.ok.inj hresult)
    rcases List.mem_cons.mp hslot with rfl | htail
    · obtain ⟨rest', htaken⟩ := takeFirst?_of_lookup hgiven others
      rw [fillSlot, if_pos haccepted, hparams, htaken] at hfirst
      obtain ⟨rfl, -⟩ := Prod.mk.inj (Except.ok.inj hfirst)
      exact List.mem_cons_self
    · have hother : head.accepted = true → param ∉ c.params strategy head := by
        intro hhead hmem
        exact hdisjoint.1 slot htail hhead haccepted hmem (hparams ▸ List.mem_cons_self)
      refine List.mem_cons_of_mem _ (ih hdisjoint.2 hfilled' htail ?_)
      rw [lookup_of_fillSlot hfirst hother, hgiven]

/-- A construction that succeeds uses up all arguments. -/
theorem construct_eq_ok {args : Arguments} {object : Value}
    (h : c.construct strategy args = .ok object) :
    ∃ filled, c.fillSlots strategy c.slots args = .ok (filled, []) ∧ object = c.objectOf filled := by
  rw [construct] at h
  obtain ⟨⟨filled, left⟩, hfilled, hrest⟩ := bind_eq_ok.mp h
  cases left with
  | cons unknown _ => cases hrest
  | nil =>
    refine ⟨filled, hfilled, ?_⟩
    cases strategy with
    | validating =>
      have hvalidated := validate_meets c (c.objectOf filled)
      rw [show c.validate (c.objectOf filled) = .ok object from hrest] at hvalidated
      exact hvalidated
    | bypassing => exact (Except.ok.inj hrest).symm

/-- **An accepted field has the value of the argument that is given for it.** -/
theorem field_of_construct (hdistinct : c.DistinctNames) {args : Arguments} {object : Value}
    (h : c.construct c.describe.strategy args = .ok object) {slot : Slot} (hslot : slot ∈ c.slots)
    (haccepted : slot.accepted = true) {value : Value}
    (hgiven : args.lookup (c.paramOf slot) = some value) : object.field slot.name = .ok value := by
  obtain ⟨filled, hfilled, rfl⟩ := construct_eq_ok h
  obtain ⟨others, hparams⟩ := c.exists_params slot
  have hmem := mem_of_fillSlots (List.pairwise_filter.mp hdistinct.params) hfilled hslot haccepted
    hparams hgiven
  have hnames := fillSlots_meets c c.describe.strategy c.slots args
  rw [hfilled] at hnames
  exact field_objectOf ((congrArg List.Nodup hnames).mpr hdistinct.names) hmem

end ObjectMapping.Class
