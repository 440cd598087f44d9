import ObjectMapping.Proofs.Class.Construction
import ObjectMapping.Proofs.Value.Marks

/-! # Arguments that fit a class

A constructor goes through the slots of its class and takes for each one the argument under the
first of its names that is still there; arguments that are left over in the end are unknown. If no
name belongs to two slots, this comes down to a condition on the arguments as a whole, in which the
order of slots and of arguments plays no part.

* `Class.fill` is a construction up to the validators (`construct_eq_fill`).
* **`Class.Fits`** — every argument belongs to a slot, no slot is given twice, and none is missing.
* `Class.given?`, `Class.entry`: the argument for a slot, and what the constructor makes of the slot.
* `fillSlots_of_fits`, `fits_of_fillSlots`: filling slots uses all arguments up exactly if they fit.
* **`Class.fill_exact`** — a constructor loses nothing and invents nothing. -/

namespace ObjectMapping

open Outcome

/-- The name of a field that is given counts as assigned, however many others do. -/
theorem Value.mem_sortNames {names : List String} {name : String} :
    name ∈ Value.sortNames names ↔ name ∈ names := by
  have hfold : ∀ sorted : List String,
      name ∈ names.foldl Value.insertName sorted ↔ name ∈ names ∨ name ∈ sorted := by
    induction names with
    | nil => simp
    | cons first rest ih =>
      intro sorted
      rw [List.foldl_cons, ih, Value.mem_insertName, List.mem_cons]
      exact or_left_comm.trans (or_assoc.symm)
  rw [Value.sortNames, hfold]
  simp

namespace Class

variable {c : Class} {strategy : Strategy} {slot : Slot} {slots : List Slot} {args left : Arguments}
  {name : String} {value : Value}

/-! ## Constructions without validators -/

/-- The new object, before the validators see it. -/
def fill (c : Class) (strategy : Strategy) (args : Arguments) : Except Error Value := do
  let (filled, left) ← c.fillSlots strategy c.slots args
  match left with
  | (unknown, _) :: _ => .error (.construction c.name (.unexpectedArgument unknown))
  | [] => return c.objectOf filled

/-- Runs the validators, unless they are bypassed. -/
def check (c : Class) (strategy : Strategy) (object : Value) : Except Error Value :=
  match strategy with
  | .validating => c.validate object
  | .bypassing => .ok object

/-- A construction fills in an object, which the validators see last. -/
theorem construct_eq_fill (c : Class) (strategy : Strategy) (args : Arguments) :
    c.construct strategy args = c.fill strategy args >>= c.check strategy := by
  rw [construct, fill, bind_assoc]
  refine bind_congr fun result => ?_
  obtain ⟨filled, left⟩ := result
  cases left with
  | nil => cases strategy <;> rfl
  | cons unknown _ => rfl

/-- A construction fills an object in if all arguments are used up. -/
theorem fill_eq_ok {object : Value} :
    c.fill strategy args = .ok object ↔
      ∃ filled, c.fillSlots strategy c.slots args = .ok (filled, []) ∧ object = c.objectOf filled := by
  rw [fill, bind_eq_ok]
  constructor
  · rintro ⟨⟨filled, left⟩, hfilled, hrest⟩
    cases left with
    | nil => exact ⟨filled, hfilled, (Except.ok.inj hrest).symm⟩
    | cons unknown _ => cases hrest
  · rintro ⟨filled, hfilled, rfl⟩
    exact ⟨_, hfilled, rfl⟩

/-! ## Names of slots -/

/-- The constructor accepts a slot under a name. -/
def Accepts (c : Class) (strategy : Strategy) (slot : Slot) (name : String) : Prop :=
  slot.accepted = true ∧ name ∈ c.params strategy slot

/-- No name belongs to two of the slots. -/
def NamesApart (c : Class) (strategy : Strategy) (slots : List Slot) : Prop :=
  slots.Pairwise fun a b => ∀ name, c.Accepts strategy a name → ¬ c.Accepts strategy b name

/-- Slots have names apart if no two of them accept the same name. -/
theorem namesApart_of_disjoint (h : (slots.filter (·.accepted)).Pairwise fun a b =>
    List.Disjoint (c.params strategy a) (c.params strategy b)) : c.NamesApart strategy slots := by
  refine (List.pairwise_filter.mp h).imp fun hdisjoint name ha hb => ?_
  exact hdisjoint ha.1 hb.1 ha.2 hb.2

/-- A name belongs to one slot at most. -/
theorem NamesApart.unique {a b : Slot} (h : c.NamesApart strategy slots) (ha : a ∈ slots)
    (hb : b ∈ slots) (hname : c.Accepts strategy a name) (hname' : c.Accepts strategy b name) :
    a = b := by
  induction slots with
  | nil => cases ha
  | cons first rest ih =>
    rw [NamesApart, List.pairwise_cons] at h
    rcases List.mem_cons.mp ha with rfl | ha'
    · rcases List.mem_cons.mp hb with rfl | hb'
      · rfl
      · exact absurd hname' (h.1 b hb' name hname)
    · rcases List.mem_cons.mp hb with rfl | hb'
      · exact absurd hname (h.1 a ha' name hname')
      · exact ih h.2 ha' hb'

/-- The argument for a slot, under the first of its names that is given. -/
def given? (c : Class) (strategy : Strategy) (args : Arguments) (slot : Slot) : Option Value :=
  if slot.accepted then (c.params strategy slot).findSome? (fun name => args.lookup name) else none

/-- What the constructor makes of a slot: the argument for it, or else its default. -/
def entry (c : Class) (strategy : Strategy) (args : Arguments) (slot : Slot) : Filled :=
  ⟨slot.name, (c.given? strategy args slot).getD (slot.default?.getD .none),
    (c.given? strategy args slot).isSome⟩

/-- Arguments that differ under names of other slots only are the same for a slot. -/
theorem given?_congr (h : ∀ name, c.Accepts strategy slot name → left.lookup name = args.lookup name) :
    c.given? strategy left slot = c.given? strategy args slot := by
  rw [given?, given?]
  split
  · next haccepted =>
    rw [← List.head?_filterMap, ← List.head?_filterMap,
      List.filterMap_congr fun name hname => h name ⟨haccepted, hname⟩]
  · rfl

/-- A slot is given if an argument is under one of its names. -/
theorem isSome_given? :
    (c.given? strategy args slot).isSome = true ↔
      ∃ name ∈ args.map (·.1), c.Accepts strategy slot name := by
  have hfound : ∀ name, (args.lookup name).isSome = true ↔ name ∈ args.map (·.1) :=
    fun _ => Keyed.lookup_isSome_iff_mem_keys
  rw [given?]
  split
  · next haccepted =>
    simp only [List.findSome?_isSome_iff, hfound, Accepts, haccepted, true_and]
    exact exists_congr fun name => and_comm
  · next hrefused => simp [Accepts, hrefused]

/-- The order of the arguments plays no part for a slot. -/
theorem given?_perm {others : Arguments} (hnodup : (args.map (·.1)).Nodup)
    (hperm : others.Perm args) (slot : Slot) :
    c.given? strategy others slot = c.given? strategy args slot :=
  given?_congr fun name _ => Keyed.lookup_perm hnodup hperm name

/-! ## One slot -/

/-- The argument that is taken is the one under the first name that is there. -/
theorem exists_take?_of_takeFirst? {params : List String}
    (h : takeFirst? args params = some (value, left)) :
    ∃ name, params.find? (Keyed.contains args) = some name ∧
      Keyed.take? args name = some (value, left) := by
  induction params with
  | nil => cases h
  | cons param params ih =>
    rw [takeFirst?] at h
    rw [List.find?_cons, ← Keyed.isSome_take?]
    cases htake : Keyed.take? args param with
    | none =>
      rw [htake] at h
      exact ih h
    | some found =>
      rw [htake] at h
      obtain rfl := Option.some.inj h
      exact ⟨param, rfl, htake⟩

/-- Nothing is found under names that no argument has. -/
theorem takeFirst?_eq_none {params : List String}
    (h : ∀ param ∈ params, param ∉ args.map (·.1)) : takeFirst? args params = none := by
  induction params with
  | nil => rfl
  | cons param params ih =>
    rw [takeFirst?, Keyed.take?_eq_none_iff.mpr (h param List.mem_cons_self)]
    exact ih fun other hother => h other (List.mem_cons_of_mem _ hother)

/-- What is taken is what a search under the names finds. -/
theorem map_fst_takeFirst? (args : Arguments) (params : List String) :
    (takeFirst? args params).map (·.1) = params.findSome? fun name => args.lookup name := by
  induction params with
  | nil => rfl
  | cons param params ih =>
    rw [takeFirst?, List.findSome?_cons]
    cases htake : Keyed.take? args param with
    | none => rw [Keyed.take?_eq_none htake, ih]
    | some found => rw [(Keyed.lookup_of_take? htake).1]; rfl

/-- A field without an argument takes its default. -/
theorem fillSlot_default
    (h : slot.accepted = true → ∀ param ∈ c.params strategy slot, param ∉ args.map (·.1)) :
    c.fillSlot strategy slot args
      = (c.defaultOf slot).map fun value => (⟨slot.name, value, false⟩, args) := by
  have hnone : (if slot.accepted then takeFirst? args (c.params strategy slot) else none) = none := by
    split
    · next haccepted => exact takeFirst?_eq_none (h haccepted)
    · rfl
  rw [fillSlot, hnone]
  rfl

/-- The name under which the argument for a slot is taken: the first one that is given. -/
def chosen? (c : Class) (strategy : Strategy) (args : Arguments) (slot : Slot) : Option String :=
  if slot.accepted then (c.params strategy slot).find? (Keyed.contains args) else none

/-- The name that is chosen for a slot is one that the slot accepts. -/
theorem accepts_of_chosen? (h : c.chosen? strategy args slot = some name) :
    c.Accepts strategy slot name := by
  rw [chosen?] at h
  split at h
  · next haccepted => exact ⟨haccepted, List.mem_of_find?_eq_some h⟩
  · cases h

/-- **What a constructor does with a slot**: it takes the argument under the name that is chosen, or
none is given and the slot takes its default. -/
theorem fillSlot_cases (c : Class) (strategy : Strategy) (slot : Slot) (args : Arguments) :
    (∃ name value left, c.chosen? strategy args slot = some name ∧
        Keyed.take? args name = some (value, left) ∧ c.given? strategy args slot = some value ∧
        c.fillSlot strategy slot args = .ok (⟨slot.name, value, true⟩, left)) ∨
      ((∀ name ∈ args.map (·.1), ¬ c.Accepts strategy slot name) ∧
        c.given? strategy args slot = none ∧
        c.fillSlot strategy slot args
          = (c.defaultOf slot).map fun value => (⟨slot.name, value, false⟩, args)) := by
  cases hgiven : c.given? strategy args slot with
  | some value =>
    refine .inl ?_
    rw [given?] at hgiven
    split at hgiven
    · next haccepted =>
      rw [← map_fst_takeFirst?, Option.map_eq_some_iff] at hgiven
      obtain ⟨⟨_, left⟩, htaken, rfl⟩ := hgiven
      obtain ⟨name, hname, htake⟩ := exists_take?_of_takeFirst? htaken
      refine ⟨name, _, left, ?_, htake, rfl, ?_⟩
      · rw [chosen?, if_pos haccepted, hname]
      · rw [fillSlot, if_pos haccepted, htaken]
    · cases hgiven
  | none =>
    have hnone : ∀ name ∈ args.map (·.1), ¬ c.Accepts strategy slot name := by
      intro name hname haccepts
      have hsome := isSome_given?.mpr ⟨name, hname, haccepts⟩
      rw [hgiven] at hsome
      cases hsome
    -- no argument has an accepted name, so nothing stands in the way of the default
    refine .inr ⟨hnone, rfl, fillSlot_default fun haccepted param hparam hmem => ?_⟩
    exact hnone param hmem ⟨haccepted, hparam⟩

/-! ## Arguments that fit -/

/-- **The arguments fit the slots**: each belongs to one of them, none of them is given twice, and
those without a default are given. -/
structure Fits (c : Class) (strategy : Strategy) (slots : List Slot) (args : Arguments) : Prop where
  known : ∀ name ∈ args.map (·.1), ∃ slot ∈ slots, c.Accepts strategy slot name
  once : ∀ slot ∈ slots, ∀ name ∈ args.map (·.1), ∀ other ∈ args.map (·.1),
    c.Accepts strategy slot name → c.Accepts strategy slot other → name = other
  complete : ∀ slot ∈ slots, slot.accepted = true → slot.default? = none →
    ∃ name ∈ args.map (·.1), c.Accepts strategy slot name

/-- The order of the arguments plays no part. -/
theorem Fits.perm {others : Arguments} (h : c.Fits strategy slots args) (hperm : others.Perm args) :
    c.Fits strategy slots others := by
  have hmem : ∀ name, name ∈ others.map (·.1) ↔ name ∈ args.map (·.1) :=
    fun name => (hperm.map (·.1)).mem_iff
  constructor
  · intro name hname
    exact h.known name ((hmem name).mp hname)
  · intro slot hslot name hname other hother
    exact h.once slot hslot name ((hmem name).mp hname) other ((hmem other).mp hother)
  · intro slot hslot haccepted hdefault
    obtain ⟨name, hname, haccepts⟩ := h.complete slot hslot haccepted hdefault
    exact ⟨name, (hmem name).mpr hname, haccepts⟩

/-- Arguments fit if they do without the one for the first slot. -/
theorem fits_cons_of_perm (hnodup : (args.map (·.1)).Nodup)
    (hapart : c.NamesApart strategy (slot :: slots)) (haccepts : c.Accepts strategy slot name)
    (hperm : args.Perm ((name, value) :: left)) :
    c.Fits strategy (slot :: slots) args ↔ c.Fits strategy slots left := by
  have hkeys : (args.map (·.1)).Perm (name :: left.map (·.1)) := hperm.map (·.1)
  have hnew : name ∉ left.map (·.1) := (List.nodup_cons.mp (hkeys.nodup_iff.mp hnodup)).1
  have hmem : ∀ other, other ∈ args.map (·.1) ↔ other = name ∨ other ∈ left.map (·.1) :=
    fun other => hkeys.mem_iff.trans List.mem_cons
  have hothers : ∀ other ∈ slots, ¬ c.Accepts strategy other name :=
    fun other hother => (List.pairwise_cons.mp hapart).1 other hother name haccepts
  constructor
  · intro h
    constructor
    · -- a second argument for the first slot would be one too many
      intro other hother
      obtain ⟨owner, howner, hother'⟩ := h.known other ((hmem other).mpr (.inr hother))
      rcases List.mem_cons.mp howner with rfl | howner
      · have heq := h.once owner List.mem_cons_self name ((hmem name).mpr (.inl rfl)) other
          ((hmem other).mpr (.inr hother)) haccepts hother'
        exact absurd (heq ▸ hother) hnew
      · exact ⟨owner, howner, hother'⟩
    · intro owner howner first hfirst second hsecond
      exact h.once owner (List.mem_cons_of_mem _ howner) first ((hmem first).mpr (.inr hfirst)) second
        ((hmem second).mpr (.inr hsecond))
    · intro owner howner haccepted hdefault
      obtain ⟨other, hother, hother'⟩ :=
        h.complete owner (List.mem_cons_of_mem _ howner) haccepted hdefault
      rcases (hmem other).mp hother with rfl | hother
      · exact absurd hother' (hothers owner howner)
      · exact ⟨other, hother, hother'⟩
  · intro h
    -- what is left belongs to the other slots, so it cannot belong to the first one
    have hfirst : ∀ other ∈ args.map (·.1), c.Accepts strategy slot other → other = name := by
      intro other hother hother'
      refine ((hmem other).mp hother).resolve_right fun hleft => ?_
      obtain ⟨owner, howner, howner'⟩ := h.known other hleft
      exact (List.pairwise_cons.mp hapart).1 owner howner other hother' howner'
    constructor
    · intro other hother
      rcases (hmem other).mp hother with rfl | hother
      · exact ⟨slot, List.mem_cons_self, haccepts⟩
      · obtain ⟨owner, howner, hother'⟩ := h.known other hother
        exact ⟨owner, List.mem_cons_of_mem _ howner, hother'⟩
    · intro owner howner first hmemfirst second hmemsecond haccepts' haccepts''
      rcases List.mem_cons.mp howner with rfl | howner
      · rw [hfirst first hmemfirst haccepts', hfirst second hmemsecond haccepts'']
      · have hleft : ∀ other ∈ args.map (·.1), c.Accepts strategy owner other →
            other ∈ left.map (·.1) := fun other hother hother' =>
          ((hmem other).mp hother).resolve_left fun heq => hothers owner howner (heq ▸ hother')
        exact h.once owner howner first (hleft first hmemfirst haccepts') second
          (hleft second hmemsecond haccepts'') haccepts' haccepts''
    · intro owner howner haccepted hdefault
      rcases List.mem_cons.mp howner with rfl | howner
      · exact ⟨name, (hmem name).mpr (.inl rfl), haccepts⟩
      · obtain ⟨other, hother, hother'⟩ := h.complete owner howner haccepted hdefault
        exact ⟨other, (hmem other).mpr (.inr hother), hother'⟩

/-- Arguments that leave the first slot to its default fit if they fit the others. -/
theorem fits_cons_of_not_given (hnone : ∀ name ∈ args.map (·.1), ¬ c.Accepts strategy slot name) :
    c.Fits strategy (slot :: slots) args ↔
      (∃ value, c.defaultOf slot = .ok value) ∧ c.Fits strategy slots args := by
  -- there is a default, unless the constructor needs an argument
  have hdefault : (∃ value, c.defaultOf slot = .ok value) ↔
      (slot.accepted = true → slot.default? ≠ none) := by
    rw [defaultOf]
    cases slot.default? <;> cases slot.accepted <;> simp
  rw [hdefault]
  constructor
  · intro h
    refine ⟨fun haccepted hmissing => ?_, fun name hname => ?_, fun owner howner => ?_,
      fun owner howner => ?_⟩
    · obtain ⟨name, hname, haccepts⟩ := h.complete slot List.mem_cons_self haccepted hmissing
      exact hnone name hname haccepts
    · obtain ⟨owner, howner, haccepts⟩ := h.known name hname
      rcases List.mem_cons.mp howner with rfl | howner
      · exact absurd haccepts (hnone name hname)
      · exact ⟨owner, howner, haccepts⟩
    · exact h.once owner (List.mem_cons_of_mem _ howner)
    · exact h.complete owner (List.mem_cons_of_mem _ howner)
  · rintro ⟨hneeded, h⟩
    constructor
    · intro name hname
      obtain ⟨owner, howner, haccepts⟩ := h.known name hname
      exact ⟨owner, List.mem_cons_of_mem _ howner, haccepts⟩
    · intro owner howner name hname other hother haccepts haccepts'
      rcases List.mem_cons.mp howner with rfl | howner
      · exact absurd haccepts (hnone name hname)
      · exact h.once owner howner name hname other hother haccepts haccepts'
    · intro owner howner haccepted hmissing
      rcases List.mem_cons.mp howner with rfl | howner
      · exact absurd hmissing (hneeded haccepted)
      · exact h.complete owner howner haccepted hmissing

/-! ## All slots -/

/-- Arguments under distinct names stay so when one of them is taken out. -/
theorem nodup_of_take? (hnodup : (args.map (·.1)).Nodup)
    (htake : Keyed.take? args name = some (value, left)) : (left.map (·.1)).Nodup :=
  (List.nodup_cons.mp (((Keyed.perm_of_take? htake).map (·.1)).nodup_iff.mp hnodup)).2

/-- **Arguments that fit are used up**, each for the slot that it belongs to. -/
theorem fillSlots_of_fits (hnodup : (args.map (·.1)).Nodup) (hapart : c.NamesApart strategy slots)
    (hfits : c.Fits strategy slots args) :
    c.fillSlots strategy slots args = .ok (slots.map (c.entry strategy args), []) := by
  induction slots generalizing args with
  | nil =>
    obtain rfl : args = [] := by
      refine List.eq_nil_iff_forall_not_mem.mpr fun arg harg => ?_
      obtain ⟨slot, hslot, -⟩ := hfits.known _ (List.mem_map_of_mem harg)
      cases hslot
    rfl
  | cons slot rest ih =>
    have hrest := (List.pairwise_cons.mp hapart).2
    rw [fillSlots, List.map_cons]
    rcases fillSlot_cases c strategy slot args with
      ⟨name, value, left, hchosen, htake, hgiven, hslot⟩ | ⟨hnone, hgiven, hslot⟩
    · have haccepts := accepts_of_chosen? hchosen
      -- the argument that is taken is under no name of a later slot
      have hentries : rest.map (c.entry strategy left) = rest.map (c.entry strategy args) := by
        refine List.map_congr_left fun other hother => ?_
        rw [entry, entry, given?_congr fun param hparam => (Keyed.lookup_of_take? htake).2 param ?_]
        rintro rfl
        exact (List.pairwise_cons.mp hapart).1 other hother param haccepts hparam
      have hleft := (fits_cons_of_perm hnodup hapart haccepts (Keyed.perm_of_take? htake)).mp hfits
      rw [hslot, ok_bind, entry, hgiven]
      dsimp only
      rw [ih (nodup_of_take? hnodup htake) hrest hleft, hentries]
      rfl
    · obtain ⟨⟨value, hvalue⟩, hothers⟩ := (fits_cons_of_not_given hnone).mp hfits
      have hdefault : value = slot.default?.getD .none := by
        rw [defaultOf] at hvalue
        split at hvalue
        · next found hfound => rw [hfound]; exact (Except.ok.inj hvalue).symm
        · next hfound =>
          split at hvalue
          · cases hvalue
          · rw [hfound]; exact (Except.ok.inj hvalue).symm
      rw [hslot, hvalue, entry, hgiven, ← hdefault]
      show (c.fillSlots strategy rest args >>= _) = _
      rw [ih hnodup hrest hothers]
      rfl

/-- **Arguments that are used up fit.** -/
theorem fits_of_fillSlots (hnodup : (args.map (·.1)).Nodup) (hapart : c.NamesApart strategy slots)
    {filled : List Filled} (h : c.fillSlots strategy slots args = .ok (filled, [])) :
    c.Fits strategy slots args := by
  induction slots generalizing args filled with
  | nil =>
    obtain ⟨-, rfl⟩ := Prod.mk.inj (Except.ok.inj h)
    exact ⟨by simp, by simp, by simp⟩
  | cons slot rest ih =>
    have hrest := (List.pairwise_cons.mp hapart).2
    rw [fillSlots] at h
    obtain ⟨⟨first, left⟩, hfirst, hothers⟩ := bind_eq_ok.mp h
    obtain ⟨⟨filled', left'⟩, hfilled, hresult⟩ := bind_eq_ok.mp hothers
    obtain ⟨-, rfl⟩ := Prod.mk.inj (Except.ok.inj hresult)
    rcases fillSlot_cases c strategy slot args with
      ⟨name, value, taken, hchosen, htake, -, hslot⟩ | ⟨hnone, -, hslot⟩
    · rw [hslot] at hfirst
      obtain ⟨-, rfl⟩ := Prod.mk.inj (Except.ok.inj hfirst)
      refine (fits_cons_of_perm hnodup hapart (accepts_of_chosen? hchosen)
        (Keyed.perm_of_take? htake)).mpr ?_
      exact ih (nodup_of_take? hnodup htake) hrest hfilled
    · rw [hslot] at hfirst
      obtain ⟨value, hvalue, heq⟩ := map_eq_ok.mp hfirst
      obtain ⟨-, rfl⟩ := Prod.mk.inj heq
      exact (fits_cons_of_not_given hnone).mpr ⟨⟨value, hvalue⟩, ih hnodup hrest hfilled⟩

/-! ## The new object -/

/-- What the constructor makes of arguments that fit. -/
theorem fill_of_fits (hnodup : (args.map (·.1)).Nodup) (hapart : c.NamesApart strategy c.slots)
    (hfits : c.Fits strategy c.slots args) :
    c.fill strategy args = .ok (c.objectOf (c.slots.map (c.entry strategy args))) :=
  fill_eq_ok.mpr ⟨_, fillSlots_of_fits hnodup hapart hfits, rfl⟩

/-- Only arguments that fit make an object. -/
theorem fits_of_fill {object : Value} (hnodup : (args.map (·.1)).Nodup)
    (hapart : c.NamesApart strategy c.slots) (h : c.fill strategy args = .ok object) :
    c.Fits strategy c.slots args := by
  obtain ⟨filled, hfilled, -⟩ := fill_eq_ok.mp h
  exact fits_of_fillSlots hnodup hapart hfilled

/-- The object has the fields of the class in order, and the fields that are given are assigned. -/
theorem objectOf_entries (hnames : (c.slots.map (·.name)).Nodup) :
    c.objectOf (c.slots.map (c.entry strategy args))
      = .object c.handle
          (c.slots.map fun slot =>
            (slot.name, (c.given? strategy args slot).getD (slot.default?.getD .none)))
          (Value.sortNames
            ((c.slots.filter fun slot => (c.given? strategy args slot).isSome).map (·.name))) := by
  rw [objectOf, List.map_map, List.filter_map, List.map_map, Keyed.ofList_eq_self]
  · rfl
  · rw [List.map_map]
    exact hnames

/-- The outcome is the same for arguments in another order. -/
theorem fill_perm {others : Arguments} (hnodup : (args.map (·.1)).Nodup)
    (hapart : c.NamesApart strategy c.slots) (hperm : others.Perm args) :
    Parallel (· = ·) (c.fill strategy others) (c.fill strategy args) := by
  have hnodup' : (others.map (·.1)).Nodup := (hperm.map (·.1)).nodup_iff.mpr hnodup
  have hentries : c.slots.map (c.entry strategy others) = c.slots.map (c.entry strategy args) :=
    List.map_congr_left fun slot _ => by rw [entry, entry, given?_perm hnodup hperm]
  have hfits : ∀ {object}, c.fill strategy args = .ok object →
      c.fill strategy others = .ok object := by
    intro object h
    have hfits := fits_of_fill hnodup hapart h
    rw [fill_of_fits hnodup' hapart (hfits.perm hperm), hentries, ← fill_of_fits hnodup hapart hfits, h]
  refine parallel_of_ok (fun object h => ?_) fun object => hfits
  have hfits' := fits_of_fill hnodup' hapart h
  rw [fill_of_fits hnodup hapart (hfits'.perm hperm.symm), ← hentries,
    ← fill_of_fits hnodup' hapart hfits', h]

/-- **A constructor loses nothing and invents nothing.** Up to the validators, it succeeds exactly if
every argument belongs to a slot, no slot is given under two names, and every slot without a default
is given. The object then has the fields of the class in order, each with the argument that is given
for it or else its default, and the fields that are given are assigned explicitly. In another order
the same arguments make the same object, or none. -/
theorem fill_exact (c : Class) (strategy : Strategy) (args : Arguments)
    (hnames : (c.slots.map (·.name)).Nodup) (hapart : c.NamesApart strategy c.slots)
    (hnodup : (args.map (·.1)).Nodup) :
    ((∃ object, c.fill strategy args = .ok object) ↔ c.Fits strategy c.slots args) ∧
      (∀ object, c.fill strategy args = .ok object → ∃ assigned,
        object = .object c.handle
          (c.slots.map fun slot =>
            (slot.name, (c.given? strategy args slot).getD (slot.default?.getD .none))) assigned ∧
        ∀ name, name ∈ assigned ↔
          ∃ slot ∈ c.slots, slot.name = name ∧ (c.given? strategy args slot).isSome = true) ∧
      c.construct strategy args = c.fill strategy args >>= c.check strategy ∧
      ∀ others : Arguments, others.Perm args →
        Parallel (· = ·) (c.fill strategy others) (c.fill strategy args) ∧
          Parallel (· = ·) (c.construct strategy others) (c.construct strategy args) := by
  refine ⟨⟨?_, ?_⟩, ?_, construct_eq_fill c strategy args, ?_⟩
  · rintro ⟨object, h⟩
    exact fits_of_fill hnodup hapart h
  · exact fun hfits => ⟨_, fill_of_fits hnodup hapart hfits⟩
  · intro object h
    have hfits := fits_of_fill hnodup hapart h
    rw [fill_of_fits hnodup hapart hfits, objectOf_entries hnames] at h
    refine ⟨_, (Except.ok.inj h).symm, fun name => ?_⟩
    simp only [Value.mem_sortNames, List.mem_map, List.mem_filter]
    exact exists_congr fun slot => and_right_comm.trans and_assoc
  · -- validators see the object only, so they tell the orders apart no more than `fill` does
    intro others hperm
    have hfill := fill_perm hnodup hapart hperm
    refine ⟨hfill, ?_⟩
    rw [construct_eq_fill, construct_eq_fill]
    refine hfill.bind ?_
    rintro object _ rfl
    exact related_self (fun _ => trivial) fun _ _ => rfl

/-! ## Labels -/

namespace Sample

/-- A label has a text, which goes by another name too, and a color, which is white by default. -/
def label : Class where
  handle := ⟨9, "Label"⟩
  slots := [
    ⟨"text", .builtin .str, none, some "caption", true, true⟩,
    ⟨"color", .builtin .str, some (.str "white"), none, true, false⟩]
  body := .model true []

/-- The slots of the sample class have names apart. -/
theorem namesApart_label : label.NamesApart .validating label.slots :=
  namesApart_of_disjoint (by simp [label, params, List.Disjoint])

end Sample

/-- A label with a caption is filled in, with its color or without. -/
theorem fill_exact_label :
    Sample.label.fill .validating [("caption", .str "pens")]
        = .ok (.object Sample.label.handle [("text", .str "pens"), ("color", .str "white")] ["text"]) ∧
      Sample.label.Fits .validating Sample.label.slots [("caption", .str "pens")] ∧
      Parallel (· = ·)
        (Sample.label.construct .validating [("color", .str "red"), ("caption", .str "pens")])
        (Sample.label.construct .validating [("caption", .str "pens"), ("color", .str "red")]) := by
  have hfill : Sample.label.fill .validating [("caption", .str "pens")]
      = .ok (.object Sample.label.handle [("text", .str "pens"), ("color", .str "white")] ["text"]) :=
    rfl
  refine ⟨hfill, ?_, ?_⟩
  · exact (fill_exact Sample.label .validating _ (by decide) Sample.namesApart_label
      (by decide)).1.mp ⟨_, hfill⟩
  · exact ((fill_exact Sample.label .validating _ (by decide) Sample.namesApart_label
      (by decide)).2.2.2 _ (List.Perm.swap _ _ _)).2

end Class

end ObjectMapping
