import ObjectMapping.Proofs.Class.Arguments

/-! # Which argument a field takes

A constructor takes arguments out one after another, so whether a slot still finds an argument under
one of its names depends on the slots before it. Names may belong to several slots here.

* **`Class.Consumes`** — the name under which a run of the constructor takes the argument for a slot.
* `exists_consumes`: a field that is assigned holds the argument that is taken for it.
* `Consumes.own_name`: an earlier slot leaves an argument under one of its names only if it is its
  own name and the slot is given under its alias. -/

namespace ObjectMapping

open Outcome

/-- Taking an entry out leaves the others in their order. -/
theorem Keyed.sublist_of_take? {α β : Type} [BEq α] {entries rest : List (α × β)} {key : α} {value : β}
    (h : take? entries key = some (value, rest)) : rest.Sublist entries := by
  induction entries generalizing rest with
  | nil => cases h
  | cons entry tail ih =>
    obtain ⟨k, v⟩ := entry
    rw [take?] at h
    split at h
    · obtain ⟨-, rfl⟩ := Prod.mk.inj (Option.some.inj h)
      exact List.sublist_cons_self _ _
    · split at h
      · next found others htake =>
        obtain ⟨rfl, rfl⟩ := Prod.mk.inj (Option.some.inj h)
        exact (ih htake).cons_cons _
      · cases h

namespace Class

variable {c : Class} {strategy : Strategy} {slot other : Slot} {before after : List Slot}
  {args left : Arguments} {filled : List Filled} {f : Filled} {key name : String} {value : Value}

/-! ## Runs -/

/-- A run over all slots passes by each of them. -/
theorem fillSlots_split (h : c.fillSlots strategy (before ++ slot :: after) args = .ok (filled, left)) :
    ∃ firsts mid f rest lasts, c.fillSlots strategy before args = .ok (firsts, mid) ∧
      c.fillSlot strategy slot mid = .ok (f, rest) ∧
      c.fillSlots strategy after rest = .ok (lasts, left) ∧ filled = firsts ++ f :: lasts := by
  induction before generalizing args filled with
  | nil =>
    rw [List.nil_append, fillSlots] at h
    obtain ⟨⟨f, rest⟩, hf, h⟩ := bind_eq_ok.mp h
    obtain ⟨⟨lasts, end'⟩, hlasts, h⟩ := bind_eq_ok.mp h
    obtain ⟨rfl, rfl⟩ := Prod.mk.inj (Except.ok.inj h)
    exact ⟨[], args, f, rest, lasts, rfl, hf, hlasts, rfl⟩
  | cons first before ih =>
    rw [List.cons_append, fillSlots] at h
    obtain ⟨⟨f, rest⟩, hfirst, h⟩ := bind_eq_ok.mp h
    obtain ⟨⟨others, end'⟩, hothers, h⟩ := bind_eq_ok.mp h
    obtain ⟨rfl, rfl⟩ := Prod.mk.inj (Except.ok.inj h)
    obtain ⟨firsts, mid, f', rest', lasts, hfirsts, hf', hlasts, rfl⟩ := ih hothers
    refine ⟨f :: firsts, mid, f', rest', lasts, ?_, hf', hlasts, rfl⟩
    rw [fillSlots, hfirst, ok_bind]
    dsimp only
    rw [hfirsts]
    rfl

/-- A slot that is filled takes the argument under the name that is chosen, or none is given. -/
theorem fillSlot_eq_ok (h : c.fillSlot strategy slot args = .ok (f, left)) :
    f.name = slot.name ∧
      ((f.given = true ∧ ∃ key, c.chosen? strategy args slot = some key ∧
          Keyed.take? args key = some (f.value, left)) ∨
        f.given = false ∧ left = args ∧ ∀ name ∈ args.map (·.1), ¬ c.Accepts strategy slot name) := by
  rcases fillSlot_cases c strategy slot args with
    ⟨key, value, rest, hchosen, htake, -, hslot⟩ | ⟨hnone, -, hslot⟩
  · rw [hslot] at h
    obtain ⟨rfl, rfl⟩ := Prod.mk.inj (Except.ok.inj h)
    exact ⟨rfl, .inl ⟨rfl, key, hchosen, htake⟩⟩
  · rw [hslot] at h
    obtain ⟨value, -, heq⟩ := map_eq_ok.mp h
    obtain ⟨rfl, rfl⟩ := Prod.mk.inj heq
    exact ⟨rfl, .inr ⟨rfl, rfl, hnone⟩⟩

/-- Filling a slot may use up an argument and changes none of the others. -/
theorem sublist_of_fillSlot (h : c.fillSlot strategy slot args = .ok (f, left)) :
    left.Sublist args := by
  rcases (fillSlot_eq_ok h).2 with ⟨-, key, -, htake⟩ | ⟨-, rfl, -⟩
  · exact Keyed.sublist_of_take? htake
  · exact .refl _

/-- A run adds no arguments. -/
theorem sublist_of_fillSlots {slots : List Slot}
    (h : c.fillSlots strategy slots args = .ok (filled, left)) : left.Sublist args := by
  induction slots generalizing args filled with
  | nil =>
    obtain ⟨-, rfl⟩ := Prod.mk.inj (Except.ok.inj h)
    exact .refl _
  | cons slot rest ih =>
    rw [fillSlots] at h
    obtain ⟨⟨f, mid⟩, hf, h⟩ := bind_eq_ok.mp h
    obtain ⟨⟨others, end'⟩, hothers, h⟩ := bind_eq_ok.mp h
    obtain ⟨-, rfl⟩ := Prod.mk.inj (Except.ok.inj h)
    exact (ih hothers).trans (sublist_of_fillSlot hf)

/-! ## The argument for a slot -/

/-- **The constructor takes the argument under a name for a slot**: the first name of the slot that
is still there when the slots before it have taken theirs. -/
def Consumes (c : Class) (strategy : Strategy) (args : Arguments) (slot : Slot) (key : String) :
    Prop :=
  ∃ before after filled left, c.slots = before ++ slot :: after ∧
    c.fillSlots strategy before args = .ok (filled, left) ∧ c.chosen? strategy left slot = some key

/-- A slot stands at one place only, so there is one run that leads up to it. -/
theorem Consumes.run (hnames : (c.slots.map (·.name)).Nodup)
    (hslots : c.slots = before ++ slot :: after) (h : c.Consumes strategy args slot key) :
    ∃ filled left, c.fillSlots strategy before args = .ok (filled, left) ∧
      c.chosen? strategy left slot = some key := by
  obtain ⟨before', after', filled, left, hslots', hrun, hkey⟩ := h
  -- a slot that occurs once splits the slots in one way only
  have hnodup : (before' ++ slot :: after').Nodup := hslots' ▸ hnames.of_map
  rw [List.nodup_middle, List.nodup_cons, List.mem_append, not_or] at hnodup
  obtain ⟨rfl, -, -⟩ :=
    (List.append_cons_inj_of_notMem hnodup.1.1 hnodup.1.2).mp (hslots'.symm.trans hslots)
  exact ⟨filled, left, hrun, hkey⟩

/-- What is chosen is given. -/
theorem mem_keys_of_chosen? (h : c.chosen? strategy args slot = some name) :
    name ∈ args.map (·.1) := by
  rw [chosen?] at h
  split at h
  · have hcontains : Keyed.contains args name = true := List.find?_some h
    exact Keyed.lookup_isSome_iff_mem_keys.mp hcontains
  · cases h

/-- One argument at most is taken for a slot. -/
theorem Consumes.unique (hnames : (c.slots.map (·.name)).Nodup) {key' : String}
    (h : c.Consumes strategy args slot key) (h' : c.Consumes strategy args slot key') :
    key = key' := by
  obtain ⟨before, after, filled, left, hslots, hrun, hkey⟩ := h
  obtain ⟨filled', left', hrun', hkey'⟩ := h'.run hnames hslots
  rw [hrun] at hrun'
  obtain ⟨-, rfl⟩ := Prod.mk.inj (Except.ok.inj hrun')
  exact Option.some.inj (hkey.symm.trans hkey')

/-- The argument that a slot uses up has a name that the slot accepts. -/
theorem Consumes.accepts (h : c.Consumes strategy args slot key) : c.Accepts strategy slot key := by
  obtain ⟨before, after, filled, left, -, -, hkey⟩ := h
  exact accepts_of_chosen? hkey

/-- The constructor accepts a slot under one name, or under its alias and then its own name. -/
theorem params_cases (c : Class) (strategy : Strategy) (slot : Slot) :
    (∃ param, c.params strategy slot = [param]) ∨
      ∃ other, c.params strategy slot = [other, slot.name] := by
  unfold params
  split
  · split
    · exact .inr ⟨_, rfl⟩
    · exact .inl ⟨_, rfl⟩
  · exact .inl ⟨_, rfl⟩

/-- Of two names that are given, the one that is not chosen is the own name of the slot. -/
theorem eq_name_of_chosen? (hchosen : c.chosen? strategy args slot = some name)
    (haccepts : c.Accepts strategy slot key) (hgiven : key ∈ args.map (·.1)) (hne : name ≠ key) :
    slot.name = key := by
  have hname := (accepts_of_chosen? hchosen).2
  obtain ⟨haccepted, hkey⟩ := haccepts
  rw [chosen?, if_pos haccepted] at hchosen
  rcases params_cases c strategy slot with ⟨param, hparams⟩ | ⟨other, hparams⟩
  · rw [hparams, List.mem_singleton] at hname hkey
    exact absurd (hname.trans hkey.symm) hne
  · rw [hparams] at hchosen hkey
    rcases List.mem_cons.mp hkey with rfl | hown
    · -- the alias is looked for first, so it would have been chosen
      have hcontains : Keyed.contains args key = true :=
        Keyed.lookup_isSome_iff_mem_keys.mpr hgiven
      rw [List.find?_cons_of_pos hcontains] at hchosen
      exact absurd (Option.some.inj hchosen).symm hne
    · exact (List.mem_singleton.mp hown).symm

/-- **An argument that an earlier slot leaves under one of its names** is under its own name, and the
earlier slot takes another one. -/
theorem Consumes.own_name (hnames : (c.slots.map (·.name)).Nodup) (hnodup : (args.map (·.1)).Nodup)
    (hslots : c.slots = before ++ slot :: after) (hother : other ∈ before)
    (haccepts : c.Accepts strategy other key) (h : c.Consumes strategy args slot key) :
    other.name = key ∧ ∃ name, c.Consumes strategy args other name ∧ name ≠ key := by
  obtain ⟨filled, left, hrun, hkey⟩ := h.run hnames hslots
  obtain ⟨first, between, rfl⟩ := List.append_of_mem hother
  obtain ⟨firsts, mid, f, rest, lasts, hfirsts, hf, hlasts, -⟩ := fillSlots_split hrun
  -- the argument is there after the other slot, hence before it
  have hrest : key ∈ rest.map (·.1) :=
    ((sublist_of_fillSlots hlasts).map _).subset (mem_keys_of_chosen? hkey)
  have hmid : key ∈ mid.map (·.1) := ((sublist_of_fillSlot hf).map _).subset hrest
  rcases (fillSlot_eq_ok hf).2 with ⟨-, name, hname, htake⟩ | ⟨-, -, hnone⟩
  · -- the other slot has taken one of its names out, so that is not the one which is left
    have hne : name ≠ key := by
      rintro rfl
      have hperm := (Keyed.perm_of_take? htake).map (·.1)
      have hnodup' := hnodup.sublist ((sublist_of_fillSlots hfirsts).map _)
      exact (List.nodup_cons.mp (hperm.nodup_iff.mp hnodup')).1 hrest
    have hconsumes : c.Consumes strategy args other name :=
      ⟨first, between ++ slot :: after, firsts, mid, by simp [hslots], hfirsts, hname⟩
    exact ⟨eq_name_of_chosen? hname haccepts hmid hne, name, hconsumes, hne⟩
  · exact absurd haccepts (hnone key hmid)

/-! ## New objects -/

/-- The fields that count as assigned are those that are given. -/
theorem isAssigned_objectOf (hnodup : (filled.map (·.name)).Nodup) (hf : f ∈ filled)
    (h : (c.objectOf filled).isAssigned f.name = .ok true) : f.given = true := by
  have hmem := Value.mem_sortNames.mp (List.contains_iff_mem.mp (Except.ok.inj h))
  obtain ⟨f', hf', hname⟩ := List.mem_map.mp hmem
  obtain ⟨hf', hgiven⟩ := List.mem_filter.mp hf'
  rwa [List.inj_on_of_nodup_map hnodup hf' hf hname] at hgiven

/-- **A field that is assigned holds the argument that is taken for it.** -/
theorem exists_consumes (hnames : (c.slots.map (·.name)).Nodup) {object : Value}
    (h : c.construct strategy args = .ok object) (hslot : slot ∈ c.slots)
    (hassigned : object.isAssigned slot.name = .ok true) :
    ∃ key value, c.Consumes strategy args slot key ∧ (key, value) ∈ args ∧
      object.field slot.name = .ok value := by
  obtain ⟨filled, hfilled, rfl⟩ := construct_eq_ok h
  have hnodup : (filled.map (·.name)).Nodup := by
    have hmeets := fillSlots_meets c strategy c.slots args
    rw [hfilled] at hmeets
    exact (congrArg List.Nodup hmeets).mpr hnames
  obtain ⟨before, after, hslots⟩ := List.append_of_mem hslot
  rw [hslots] at hfilled
  obtain ⟨firsts, mid, f, rest, lasts, hfirsts, hf, -, rfl⟩ := fillSlots_split hfilled
  have hmem : f ∈ firsts ++ f :: lasts := List.mem_append_right _ List.mem_cons_self
  obtain ⟨hname, ⟨-, key, hkey, htake⟩ | ⟨hdefault, -, -⟩⟩ := fillSlot_eq_ok hf
  · rw [← hname]
    refine ⟨key, f.value, ⟨before, after, firsts, mid, hslots, hfirsts, hkey⟩, ?_,
      field_objectOf hnodup hmem⟩
    exact (sublist_of_fillSlots hfirsts).subset
      ((Keyed.perm_of_take? htake).mem_iff.mpr List.mem_cons_self)
  · rw [← hname] at hassigned
    rw [isAssigned_objectOf hnodup hmem hassigned] at hdefault
    cases hdefault

end Class

end ObjectMapping
