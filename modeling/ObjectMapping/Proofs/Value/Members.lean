import ObjectMapping.Proofs.Class.Consumption
import ObjectMapping.Proofs.Value.Readings

/-! # Which member a field is read from

A decoder reads a member of an object for the first field that goes by its name, before the
constructor decides for which field it is taken. The two agree unless an alias is the own name of an
earlier field that has an alias too: the earlier field may be given under its alias, and leave the
other member to the later field.

* **`Class.Mistakes`** — the member that the constructor takes for one field is read for another one.
* **`Decoding.decodeObject_assigned`** — the value of a field that is assigned is read from the
  member that is taken for it, for the field itself unless it is mistaken for another one. -/

namespace ObjectMapping

/-- **The argument for `slot` is read for an earlier field.** That one is accepted under its own name
and given under its alias, and its own name is a name of `slot`. -/
structure Class.Mistakes (c : Class) (args : Arguments) (other slot : Slot) : Prop where
  earlier : ∃ before after, c.slots = before ++ slot :: after ∧ other ∈ before
  own : c.Accepts .validating other other.name
  taken : c.Consumes .validating args slot other.name
  given : ∃ name, c.Consumes .validating args other name ∧ name ≠ other.name

namespace Decoding

variable {classes : ClassTable} {c : Class} {slot other : Slot} {before after : List Slot}
  {members : List (String × Json)} {args : Arguments} {key : String}

/-- The members of an object are read under their names. -/
theorem ReadsMembers.keys (h : ReadsMembers classes c members args) :
    args.map (·.1) = members.map (·.1) := by
  induction h with
  | nil => rfl
  | cons hmember _ ih => rw [List.map_cons, List.map_cons, hmember.1, ih]

/-- Every argument is read from a member of its name. -/
theorem ReadsMembers.exists_member (h : ReadsMembers classes c members args) {value : Value}
    (harg : (key, value) ∈ args) : ∃ item, (key, item) ∈ members ∧
      ∀ slot, slotFor? c key = some slot → Reads classes slot.type item value := by
  obtain ⟨⟨name, item⟩, hitem, hname, hvalue⟩ := Outcome.exists_of_forall₂ h.flip harg
  obtain rfl : key = name := hname
  exact ⟨item, hitem, hvalue⟩

/-- The field that a member is read for is accepted under its name. -/
theorem accepts_of_slotFor? (h : slotFor? c key = some slot) : c.Accepts .validating slot key := by
  have hfound := List.find?_some h
  rw [Bool.and_eq_true, List.contains_iff_mem] at hfound
  exact hfound

/-- A member is read for a field that is accepted under its name, or for one before it. -/
theorem exists_slotFor? (hslots : c.slots = before ++ slot :: after)
    (haccepts : c.Accepts .validating slot key) :
    slotFor? c key = some slot ∨ ∃ other ∈ before, slotFor? c key = some other := by
  have hfits : (slot.accepted && (c.params .validating slot).contains key) = true := by
    rw [Bool.and_eq_true, List.contains_iff_mem]
    exact haccepts
  rw [slotFor?, hslots, List.find?_append]
  cases hfound : before.find? _ with
  | none =>
    rw [Option.none_or, List.find?_cons, hfits]
    exact .inl rfl
  | some other => exact .inr ⟨other, List.mem_of_find?_eq_some hfound, rfl⟩

/-- A member that is not read for the field that it is taken for is mistaken. -/
theorem mistakes_of_slotFor? (hnames : (c.slots.map (·.name)).Nodup)
    (hnodup : (args.map (·.1)).Nodup) (hslots : c.slots = before ++ slot :: after)
    (hconsumes : c.Consumes .validating args slot key) (hother : other ∈ before)
    (hfound : slotFor? c key = some other) : other.name = key ∧ c.Mistakes args other slot := by
  have haccepts := accepts_of_slotFor? hfound
  obtain ⟨rfl, halias⟩ := hconsumes.own_name hnames hnodup hslots hother haccepts
  exact ⟨rfl, ⟨before, after, hslots, hother⟩, haccepts, hconsumes, halias⟩

/-- A field that is mistaken for another one is read for that one. -/
theorem slotFor?_of_mistakes (hnames : (c.slots.map (·.name)).Nodup)
    (hnodup : (args.map (·.1)).Nodup) (h : c.Mistakes args other slot) :
    slotFor? c other.name = some other := by
  obtain ⟨⟨before, after, hslots, hother⟩, hown, htaken, -⟩ := h
  obtain ⟨first, between, rfl⟩ := List.append_of_mem hother
  rw [List.append_assoc, List.cons_append] at hslots
  rcases exists_slotFor? hslots hown with hfound | ⟨third, hthird, hfound⟩
  · exact hfound
  · -- a slot before the other one would have the same own name, so it is the other one
    have hslots' : c.slots = (first ++ other :: between) ++ slot :: after := by simp [hslots]
    obtain ⟨hname, -⟩ := mistakes_of_slotFor? hnames hnodup hslots' htaken
      (List.mem_append_left _ hthird) hfound
    rw [hfound, List.inj_on_of_nodup_map hnames ?_ ?_ hname] <;> simp [hslots, hthird]

/-- **A field that is assigned holds what is read from the member that the constructor takes for
it**: read for the field itself, unless the member is mistaken to be one of another field, and then
for that one. -/
theorem decodeObject_assigned (hnames : (c.slots.map (·.name)).Nodup)
    (hmembers : (members.map (·.1)).Nodup) {object : Value}
    (h : Value.decodeObject classes c (.object members) = .ok object) :
    ∃ args, Yields (decodeArguments classes c members) args ∧
      ∀ slot ∈ c.slots, object.isAssigned slot.name = .ok true →
        ∃ key item value, c.Consumes .validating args slot key ∧ (key, item) ∈ members ∧
          object.field slot.name = .ok value ∧
          ((∀ other, ¬ c.Mistakes args other slot) →
            Value.decode classes slot.type item = .ok value) ∧
          ∀ other, c.Mistakes args other slot →
            Value.decode classes other.type item = .ok value := by
  have hgives : Gives (Decoding.object classes c (.object members)) object := ⟨[], h⟩
  obtain ⟨args, hargs, hconstruct⟩ := hgives.bind_inv
  have hreads := readsMembers_of_decodeArguments hargs
  have hnodup : (args.map (·.1)).Nodup := hreads.keys ▸ hmembers
  refine ⟨args, hargs.yields (steady_decodeArguments fun _ _ _ _ => steady_decode _ _ _), ?_⟩
  intro slot hslot hassigned
  obtain ⟨key, value, hconsumes, harg, hfield⟩ :=
    Class.exists_consumes hnames hconstruct.lift_inv hslot hassigned
  obtain ⟨item, hitem, hvalue⟩ := hreads.exists_member harg
  refine ⟨key, item, value, hconsumes, hitem, hfield, fun hright => ?_, fun other hmistakes => ?_⟩
  · obtain ⟨before, after, hslots⟩ := List.append_of_mem hslot
    -- the first field with this name is the field itself, or an earlier one by mistake
    rcases exists_slotFor? hslots hconsumes.accepts with hfound | ⟨other, hother, hfound⟩
    · exact (hvalue slot hfound).decode_eq
    · have hmistakes := mistakes_of_slotFor? hnames hnodup hslots hconsumes hother hfound
      exact absurd hmistakes.2 (hright other)
  · obtain rfl := hconsumes.unique hnames hmistakes.taken
    exact (hvalue other (slotFor?_of_mistakes hnames hnodup hmistakes)).decode_eq

/-! ## Badges -/

namespace Sample

/-- The stamp of a badge; its alias is the own name of the field before it. -/
def stamp : Slot := ⟨"stamp", .builtin .bytes, none, some "name", true, true⟩

/-- A badge has a name, which goes by an alias too, and a stamp. -/
def badge : Class where
  handle := ⟨12, "Badge"⟩
  slots := [⟨"name", .builtin .str, none, some "title", true, true⟩, stamp]
  body := .model true []

/-- A document for a badge, with its name under the alias. -/
def badgeMembers : List (String × Json) := [("title", .string "Ann"), ("name", .string "q")]

/-- The badge that is read from the document. -/
def annsBadge : Value :=
  .object badge.handle [("name", .str "Ann"), ("stamp", .str "q")] ["name", "stamp"]

/-- Both members are read as strings, for the first field. -/
theorem readsArguments_badge : List.Forall₂ (ReadsArgument .empty badge) badgeMembers
    [("title", .str "Ann"), ("name", .str "q")] :=
  .cons ⟨rfl, _, rfl, reads_builtin rfl rfl⟩ (.cons ⟨rfl, _, rfl, reads_builtin rfl rfl⟩ .nil)

/-- The sample document is read as the sample badge. -/
theorem decodeObject_badge :
    Value.decodeObject .empty badge (.object badgeMembers) = .ok annsBadge :=
  ((yields_decodeArguments readsArguments_badge).bind (yields_lift rfl)) []

end Sample

open Decoding.Sample

/-- Each field of a badge is read from the member that is taken for it, though not for itself. -/
theorem decodeObject_assigned_badge :
    ∃ args, Yields (decodeArguments .empty badge badgeMembers) args ∧
      ∀ slot ∈ badge.slots, annsBadge.isAssigned slot.name = .ok true →
        ∃ key item value, badge.Consumes .validating args slot key ∧ (key, item) ∈ badgeMembers ∧
          annsBadge.field slot.name = .ok value ∧
          ((∀ other, ¬ badge.Mistakes args other slot) →
            Value.decode .empty slot.type item = .ok value) ∧
          ∀ other, badge.Mistakes args other slot →
            Value.decode .empty other.type item = .ok value :=
  decodeObject_assigned (by decide) (by decide) decodeObject_badge

/-- **The stamp of a badge is mistaken for its name**: it is assigned, but it does not hold what is
read for it from the member that is taken for it. -/
theorem badge_mistaken :
    (badge.slots.map (·.name)).Nodup ∧ stamp ∈ badge.slots ∧
      Value.decodeObject .empty badge (.object badgeMembers) = .ok annsBadge ∧
      annsBadge.isAssigned stamp.name = .ok true ∧
      ∀ args, Yields (decodeArguments .empty badge badgeMembers) args →
        ∀ key item, badge.Consumes .validating args stamp key → (key, item) ∈ badgeMembers →
          Value.decode .empty stamp.type item ≠ annsBadge.field stamp.name := by
  have hnames : (badge.slots.map (·.name)).Nodup := by decide
  refine ⟨hnames, by simp [badge], decodeObject_badge, rfl, ?_⟩
  intro args hargs key item hconsumes hitem
  obtain rfl := hargs.unique (yields_decodeArguments readsArguments_badge)
  -- the name has taken the other member
  obtain ⟨filled, left, hrun, hkey⟩ := hconsumes.run hnames
    (show badge.slots = [⟨"name", .builtin .str, none, some "title", true, true⟩] ++ [stamp] from rfl)
  obtain ⟨-, rfl⟩ := Prod.mk.inj (Except.ok.inj hrun)
  obtain rfl : "name" = key := Option.some.inj hkey
  obtain rfl : item = .string "q" := by simpa [badgeMembers] using hitem
  have hread : Reads .empty stamp.type (.string "q") (.bytes (Bytes.ofText "q")) :=
    reads_builtin rfl rfl
  rw [hread.decode_eq]
  intro heq
  cases Except.ok.inj heq

end Decoding

end ObjectMapping
