import Mathlib.Data.List.Forall2
import ObjectMapping.Proofs.Outcome
import ObjectMapping.Proofs.Value.Equality
import ObjectMapping.Proofs.Value.Parts

/-! # Equality of values is an equivalence

Sets, dictionaries and objects are compared from one side only: as many parts, and each of them has
a counterpart on the other side. Where the parts are pairwise different, no two of them can have the
same counterpart, so every part of the other side is a counterpart too.

* `Value.Matches`: as many elements, each with a counterpart.
* `Value.same_set_iff`, `Value.same_dict_iff`, `Value.same_object_iff`: the three comparisons.
* **`Value.WellFormed.same_symm`**, **`Value.WellFormed.same_trans`** — equality of well-formed
  values is symmetric and transitive. -/

namespace ObjectMapping.Value

/-! ## Matching lists -/

/-- As many elements in both lists, and each of the first one has a counterpart in the second. -/
def Matches {α : Type} (R : α → α → Prop) (as bs : List α) : Prop :=
  as.length = bs.length ∧ ∀ a ∈ as, ∃ b ∈ bs, R a b

variable {α : Type} {R : α → α → Prop} {as bs cs : List α}

/-- Counterparts that are no counterparts of two elements make up the whole other list. -/
theorem Matches.exists_perm (h : Matches R as bs)
    (hapart : as.Pairwise fun a later => ∀ b ∈ bs, R a b → ¬ R later b) :
    ∃ bs', bs'.Perm bs ∧ List.Forall₂ R as bs' := by
  induction as generalizing bs with
  | nil =>
    obtain rfl : bs = [] := List.length_eq_zero_iff.mp h.1.symm
    exact ⟨[], .refl _, .nil⟩
  | cons a as ih =>
    obtain ⟨hlength, hall⟩ := h
    rw [List.forall_mem_cons] at hall
    rw [List.pairwise_cons] at hapart
    obtain ⟨⟨b, hb, hab⟩, hrest⟩ := hall
    obtain ⟨before, after, rfl⟩ := List.append_of_mem hb
    have hperm : (before ++ b :: after).Perm (b :: (before ++ after)) := List.perm_middle
    -- the counterpart of a later element is another one than that of the first
    have hmatches : Matches R as (before ++ after) := by
      have hlength' := hperm.length_eq
      simp only [List.length_cons] at hlength hlength'
      refine ⟨by omega, fun later hlater => ?_⟩
      obtain ⟨b', hb', hlater'⟩ := hrest later hlater
      rcases List.mem_cons.mp (hperm.mem_iff.mp hb') with rfl | hb'
      · exact absurd hlater' (hapart.1 later hlater _ hb hab)
      · exact ⟨b', hb', hlater'⟩
    obtain ⟨bs', hbs', hforall⟩ := ih hmatches (hapart.2.imp fun hne b' hb' =>
      hne b' (hperm.mem_iff.mpr (List.mem_cons_of_mem _ hb')))
    exact ⟨b :: bs', (hbs'.cons b).trans hperm.symm, .cons hab hforall⟩

/-- Elements with counterparts that are no counterparts of two elements are at most as many. -/
theorem length_le_of_apart (h : ∀ a ∈ as, ∃ b ∈ bs, R a b)
    (hapart : as.Pairwise fun a later => ∀ b ∈ bs, R a b → ¬ R later b) :
    as.length ≤ bs.length := by
  induction as generalizing bs with
  | nil => exact Nat.zero_le _
  | cons a as ih =>
    rw [List.forall_mem_cons] at h
    rw [List.pairwise_cons] at hapart
    obtain ⟨⟨b, hb, hab⟩, hrest⟩ := h
    obtain ⟨before, after, rfl⟩ := List.append_of_mem hb
    have hperm : (before ++ b :: after).Perm (b :: (before ++ after)) := List.perm_middle
    have hle := @ih (before ++ after) (fun later hlater => by
        obtain ⟨b', hb', hlater'⟩ := hrest later hlater
        rcases List.mem_cons.mp (hperm.mem_iff.mp hb') with rfl | hb'
        · exact absurd hlater' (hapart.1 later hlater _ hb hab)
        · exact ⟨b', hb', hlater'⟩)
      (hapart.2.imp fun hne b' hb' => hne b' (hperm.mem_iff.mpr (List.mem_cons_of_mem _ hb')))
    rw [hperm.length_eq]
    exact Nat.succ_le_succ hle

/-- Matching lists match the other way around, if different elements have different counterparts. -/
theorem Matches.symm (h : Matches R as bs)
    (hapart : as.Pairwise fun a later => ∀ b ∈ bs, R a b → ¬ R later b)
    (hsymm : ∀ a ∈ as, ∀ b ∈ bs, R a b → R b a) : Matches R bs as := by
  obtain ⟨bs', hperm, hforall⟩ := h.exists_perm hapart
  refine ⟨h.1.symm, fun b hb => ?_⟩
  obtain ⟨a, ha, hab⟩ := Outcome.exists_of_forall₂ hforall.flip (hperm.mem_iff.mpr hb)
  exact ⟨a, ha, hsymm a ha b hb hab⟩

/-- Lists match across one in between. -/
theorem Matches.trans (h : Matches R as bs) (h' : Matches R bs cs)
    (htrans : ∀ a ∈ as, ∀ b ∈ bs, ∀ c ∈ cs, R a b → R b c → R a c) : Matches R as cs := by
  refine ⟨h.1.trans h'.1, fun a ha => ?_⟩
  obtain ⟨b, hb, hab⟩ := h.2 a ha
  obtain ⟨c, hc, hbc⟩ := h'.2 b hb
  exact ⟨c, hc, htrans a ha b hb c hc hab hbc⟩

/-- Lists that are related element by element are so the other way around. -/
theorem forall₂_symm (h : List.Forall₂ R as bs) (hsymm : ∀ a ∈ as, ∀ b ∈ bs, R a b → R b a) :
    List.Forall₂ R bs as := by
  induction h with
  | nil => exact .nil
  | cons hab _ ih =>
    refine .cons (hsymm _ List.mem_cons_self _ List.mem_cons_self hab) (ih fun a ha b hb => ?_)
    exact hsymm a (List.mem_cons_of_mem _ ha) b (List.mem_cons_of_mem _ hb)

/-- Lists are related element by element across one in between. -/
theorem forall₂_trans (h : List.Forall₂ R as bs) (h' : List.Forall₂ R bs cs)
    (htrans : ∀ a ∈ as, ∀ b ∈ bs, ∀ c ∈ cs, R a b → R b c → R a c) : List.Forall₂ R as cs := by
  induction h generalizing cs with
  | nil => exact h'
  | cons hab _ ih =>
    cases h' with
    | cons hbc hrest =>
      refine .cons (htrans _ List.mem_cons_self _ List.mem_cons_self _ List.mem_cons_self hab hbc) ?_
      exact ih hrest fun a ha b hb c hc =>
        htrans a (List.mem_cons_of_mem _ ha) b (List.mem_cons_of_mem _ hb) c
          (List.mem_cons_of_mem _ hc)

/-! ## Comparisons of collections -/

/-- Entries of dictionaries with equal keys and values. -/
def EntrySame (entry other : Value × Value) : Prop :=
  entry.1.same other.1 = true ∧ entry.2.same other.2 = true

/-- Fields of objects with the same name and equal values. -/
def FieldSame (field other : String × Value) : Prop :=
  field.1 = other.1 ∧ field.2.same other.2 = true

/-- Lists of values are equal if their elements are, position by position. -/
theorem sameAll_iff {items others : List Value} :
    sameAll items others = true ↔ List.Forall₂ (fun a b => same a b = true) items others := by
  induction items generalizing others with
  | nil => cases others <;> simp [sameAll]
  | cons item rest ih =>
    cases others with
    | nil => simp [sameAll]
    | cons other others => rw [sameAll, Bool.and_eq_true, ih, List.forall₂_cons]

/-- A list of values is included in another one if each of them has an equal there. -/
theorem included_iff {items others : List Value} :
    included items others = true ↔ ∀ item ∈ items, ∃ other ∈ others, same item other = true := by
  induction items with
  | nil => simp [included]
  | cons item rest ih =>
    rw [included, Bool.and_eq_true, ih, List.any_eq_true, List.forall_mem_cons]

/-- Sets are equal if they have as many elements and each has an equal in the other one. -/
theorem same_set_iff {items others : List Value} :
    (set items).same (set others) = true ↔ Matches (fun a b => same a b = true) items others := by
  rw [same, Bool.and_eq_true, beq_iff_eq, included_iff]
  rfl

/-- Entries are included if each finds its key among the others, with an equal value. -/
theorem entriesIncluded_iff {entries others : List (Value × Value)} :
    entriesIncluded entries others = true ↔ ∀ entry ∈ entries, ∃ found,
      others.find? (fun other => same entry.1 other.1) = some found ∧ same entry.2 found.2 = true := by
  induction entries with
  | nil => simp [entriesIncluded]
  | cons entry rest ih =>
    obtain ⟨key, value⟩ := entry
    rw [entriesIncluded, Bool.and_eq_true, ih, List.forall_mem_cons]
    refine and_congr_left fun _ => ?_
    cases others.find? fun other => same key other.1 <;> simp

/-- Fields are included if each finds its name among the others, with an equal value. -/
theorem fieldsIncluded_iff {fields others : List (String × Value)} :
    fieldsIncluded fields others = true ↔ ∀ field ∈ fields, ∃ found,
      others.lookup field.1 = some found ∧ same field.2 found = true := by
  induction fields with
  | nil => simp [fieldsIncluded]
  | cons field rest ih =>
    obtain ⟨name, value⟩ := field
    rw [fieldsIncluded, Bool.and_eq_true, ih, List.forall_mem_cons]
    refine and_congr_left fun _ => ?_
    cases others.lookup name <;> simp

/-- Among names that are pairwise different, a field is found under its name. -/
theorem same_object_iff {owner owner' : ClassHandle} {fields others : List (String × Value)}
    {assigned assigned' : List String} (hnodup : (others.map (·.1)).Nodup) :
    (object owner fields assigned).same (object owner' others assigned') = true ↔
      owner.id = owner'.id ∧ Matches FieldSame fields others := by
  rw [same, Bool.and_eq_true, Bool.and_eq_true, beq_iff_eq, fieldsIncluded_iff, ClassHandle.same,
    beq_iff_eq, and_assoc]
  refine and_congr_right fun _ => and_congr_right fun _ => forall₂_congr fun field _ => ?_
  constructor
  · rintro ⟨found, hfound, hsame⟩
    exact ⟨(field.1, found), Keyed.mem_of_lookup hfound, rfl, hsame⟩
  · rintro ⟨⟨name, found⟩, hmem, hname, hsame⟩
    have hfound : (field.1, found) ∈ others := hname ▸ hmem
    exact ⟨found, Keyed.lookup_of_mem hnodup hfound, hsame⟩

/-- Among keys that are pairwise different, the first entry under a key is the only one. -/
theorem same_dict_iff {entries others : List (Value × Value)}
    (hunique : ∀ entry ∈ entries, others.Pairwise fun a later =>
      entry.1.same a.1 = true → entry.1.same later.1 = true → False) :
    (dict entries).same (dict others) = true ↔ Matches EntrySame entries others := by
  rw [same, Bool.and_eq_true, beq_iff_eq, entriesIncluded_iff]
  refine and_congr_right fun _ => forall₂_congr fun entry hentry => ?_
  constructor
  · rintro ⟨found, hfound, hsame⟩
    exact ⟨found, List.mem_of_find?_eq_some hfound, by simpa using List.find?_some hfound, hsame⟩
  · rintro ⟨found, hmem, hkey, hsame⟩
    refine ⟨found, ?_, hsame⟩
    obtain ⟨before, after, rfl⟩ := List.append_of_mem hmem
    have hbefore := (List.pairwise_append.mp (hunique entry hentry)).2.2
    -- an earlier entry under this key would be a second one
    refine List.find?_eq_some_iff_append.mpr ⟨hkey, before, after, rfl, fun a ha => ?_⟩
    rw [Bool.not_eq_true']
    exact Bool.eq_false_iff.mpr fun hearlier =>
      hbefore a ha found List.mem_cons_self hearlier hkey

/-! ## Shapes of equal values -/

variable {v w : Value}

/-- Equal values are of the same kind. -/
theorem ctorIdx_eq_of_same (h : v.same w = true) : v.ctorIdx = w.ctorIdx := by
  fun_cases same v w
  -- the last equation is the one for values of different kinds
  case case15 => simp_all [same]
  all_goals rfl

/-- Whether nothing but the value itself is equal to it. -/
def isPlain : Value → Bool
  | none | bool _ | int _ | str _ | bytes _ | date _ | datetime _ => true
  | float _ | list _ | set _ | dict _ | tuple _ | member .. | object .. => false

/-- A plain value is equal to itself only. -/
theorem eq_of_same_of_isPlain (hv : v.isPlain = true) (h : v.same w = true) : w = v := by
  fun_cases same v w <;> simp_all [isPlain, same]

/-- Only a list equals a list. -/
theorem exists_of_same_list {items : List Value} (h : (list items).same w = true) :
    ∃ others, w = list others ∧ List.Forall₂ (fun a b => same a b = true) items others := by
  cases w with
  | list others => exact ⟨others, rfl, sameAll_iff.mp (by rwa [same] at h)⟩
  | _ => cases ctorIdx_eq_of_same h

/-- Only a tuple equals a tuple. -/
theorem exists_of_same_tuple {items : List Value} (h : (tuple items).same w = true) :
    ∃ others, w = tuple others ∧ List.Forall₂ (fun a b => same a b = true) items others := by
  cases w with
  | tuple others => exact ⟨others, rfl, sameAll_iff.mp (by rwa [same] at h)⟩
  | _ => cases ctorIdx_eq_of_same h

/-- Only a set equals a set. -/
theorem exists_of_same_set {items : List Value} (h : (set items).same w = true) :
    ∃ others, w = set others := by
  cases w with
  | set others => exact ⟨others, rfl⟩
  | _ => cases ctorIdx_eq_of_same h

/-- Only a dictionary equals a dictionary. -/
theorem exists_of_same_dict {entries : List (Value × Value)} (h : (dict entries).same w = true) :
    ∃ others, w = dict others := by
  cases w with
  | dict others => exact ⟨others, rfl⟩
  | _ => cases ctorIdx_eq_of_same h

/-- Only an object equals an object. -/
theorem exists_of_same_object {owner : ClassHandle} {fields : List (String × Value)}
    {assigned : List String} (h : (object owner fields assigned).same w = true) :
    ∃ owner' others assigned', w = object owner' others assigned' := by
  cases w with
  | object owner' others assigned' => exact ⟨owner', others, assigned', rfl⟩
  | _ => cases ctorIdx_eq_of_same h

/-- Only a floating-point number equals one. -/
theorem exists_of_same_float {x : Double} (h : (float x).same w = true) :
    ∃ y, w = float y ∧ x.same y = true := by
  cases w with
  | float y => exact ⟨y, rfl, by rwa [same] at h⟩
  | _ => cases ctorIdx_eq_of_same h

/-- Only a member of the same enum equals a member. -/
theorem exists_of_same_member {owner : ClassHandle} {name : String}
    (h : (member owner name).same w = true) :
    ∃ owner', w = member owner' name ∧ owner.id = owner'.id := by
  cases w with
  | member owner' other =>
    rw [same, Bool.and_eq_true, ClassHandle.same, beq_iff_eq, beq_iff_eq] at h
    exact ⟨owner', by rw [h.2], h.1⟩
  | _ => cases ctorIdx_eq_of_same h

/-! ## Values up to a height -/

/-- A well-formed value below a height. -/
def Low (n : Nat) (v : Value) : Prop := v.height < n ∧ v.WellFormed

/-- A part of a low value is lower. -/
theorem Low.part {n : Nat} (h : Low (n + 1) v) {inner : Value} (hinner : inner ∈ v.parts) :
    Low n inner := by
  have hlt := height_lt_of_mem_parts hinner
  exact ⟨by have := h.1; omega, h.2.part hinner⟩

/-- A key of a low dictionary is lower. -/
theorem Low.key {n : Nat} {entries : List (Value × Value)} (h : Low (n + 1) (dict entries))
    {entry : Value × Value} (hentry : entry ∈ entries) : Low n entry.1 :=
  h.part (key_mem_parts hentry)

/-- A value in a low dictionary is lower. -/
theorem Low.value {n : Nat} {entries : List (Value × Value)} (h : Low (n + 1) (dict entries))
    {entry : Value × Value} (hentry : entry ∈ entries) : Low n entry.2 :=
  h.part (value_mem_parts hentry)

/-- A field of a low object is lower. -/
theorem Low.field {n : Nat} {owner : ClassHandle} {fields : List (String × Value)}
    {assigned : List String} (h : Low (n + 1) (object owner fields assigned))
    {field : String × Value} (hfield : field ∈ fields) : Low n field.2 :=
  h.part (List.mem_map_of_mem hfield)

/-- Equality is symmetric and transitive for well-formed values below a height. -/
structure LawfulBelow (n : Nat) : Prop where
  symm : ∀ {v w}, Low n v → Low n w → v.same w = true → w.same v = true
  trans : ∀ {u v w}, Low n u → Low n v → Low n w → u.same v = true → v.same w = true →
    u.same w = true

variable {n : Nat}

/-- Different values have no counterpart in common. -/
theorem LawfulBelow.apart (hlaw : LawfulBelow n) {a later b : Value} (ha : Low n a)
    (hlater : Low n later) (hb : Low n b) (hne : later.same a = false) (hab : a.same b = true) :
    ¬ later.same b = true := by
  intro hlaterb
  rw [hlaw.trans hlater hb ha hlaterb (hlaw.symm ha hb hab)] at hne
  cases hne

/-- In a dictionary no two keys are equal to the same key. -/
theorem LawfulBelow.unique (hlaw : LawfulBelow n) {key : Value} (hkey : Low n key)
    {entries : List (Value × Value)} (hentries : Low (n + 1) (dict entries)) :
    entries.Pairwise fun a later => key.same a.1 = true → key.same later.1 = true → False := by
  refine (List.pairwise_map.mp hentries.2.here).imp_of_mem ?_
  intro a later ha hlater hne hka hkl
  have hback := hlaw.symm hkey (hentries.key hlater) hkl
  rw [hlaw.trans (hentries.key hlater) hkey (hentries.key ha) hback hka] at hne
  cases hne

/-- Equality of values is symmetric if it is an equivalence for their parts. -/
theorem LawfulBelow.symm_succ (hlaw : LawfulBelow n) (hv : Low (n + 1) v) (hw : Low (n + 1) w)
    (h : v.same w = true) : w.same v = true := by
  cases v with
  | list items =>
    obtain ⟨others, rfl, hall⟩ := exists_of_same_list h
    rw [same, sameAll_iff]
    exact forall₂_symm hall fun a ha b hb => hlaw.symm (hv.part ha) (hw.part hb)
  | tuple items =>
    obtain ⟨others, rfl, hall⟩ := exists_of_same_tuple h
    rw [same, sameAll_iff]
    exact forall₂_symm hall fun a ha b hb => hlaw.symm (hv.part ha) (hw.part hb)
  | set items =>
    -- only one side is included in the other; that they are as long makes up for it
    obtain ⟨others, rfl⟩ := exists_of_same_set h
    rw [same_set_iff] at h ⊢
    refine h.symm ?_ fun a ha b hb => hlaw.symm (hv.part ha) (hw.part hb)
    have hdistinct : items.Pairwise fun a later => later.same a = false := hv.2.here
    exact hdistinct.imp_of_mem fun ha hlater hne b hb =>
      hlaw.apart (hv.part ha) (hv.part hlater) (hw.part hb) hne
  | dict entries =>
    obtain ⟨others, rfl⟩ := exists_of_same_dict h
    rw [same_dict_iff fun entry hentry => hlaw.unique (hv.key hentry) hw] at h
    rw [same_dict_iff fun entry hentry => hlaw.unique (hw.key hentry) hv]
    refine h.symm ?_ fun a ha b hb hab =>
      ⟨hlaw.symm (hv.key ha) (hw.key hb) hab.1, hlaw.symm (hv.value ha) (hw.value hb) hab.2⟩
    refine (List.pairwise_map.mp hv.2.here).imp_of_mem fun ha hlater hne b hb hab hlaterb => ?_
    exact hlaw.apart (hv.key ha) (hv.key hlater) (hw.key hb) hne hab.1 hlaterb.1
  | object owner fields assigned =>
    obtain ⟨owner', others, assigned', rfl⟩ := exists_of_same_object h
    rw [same_object_iff hw.2.here] at h
    rw [same_object_iff hv.2.here]
    refine ⟨h.1.symm, h.2.symm ?_ fun a ha b hb hab => ?_⟩
    · refine (List.pairwise_map.mp hv.2.here).imp fun hne b _ hab hlaterb => ?_
      exact hne (hab.1.trans hlaterb.1.symm)
    · exact ⟨hab.1.symm, hlaw.symm (hv.field ha) (hw.field hb) hab.2⟩
  | float x =>
    obtain ⟨y, rfl, hxy⟩ := exists_of_same_float h
    rwa [same, Double.same_comm]
  | member owner name =>
    obtain ⟨owner', rfl, hid⟩ := exists_of_same_member h
    simp [same, ClassHandle.same, hid]
  | _ =>
    obtain rfl := eq_of_same_of_isPlain rfl h
    exact h

/-- Equality of values is transitive if it is an equivalence for their parts. -/
theorem LawfulBelow.trans_succ (hlaw : LawfulBelow n) {u : Value} (hu : Low (n + 1) u)
    (hv : Low (n + 1) v) (hw : Low (n + 1) w) (h : u.same v = true) (h' : v.same w = true) :
    u.same w = true := by
  cases u with
  | list items =>
    obtain ⟨others, rfl, hall⟩ := exists_of_same_list h
    obtain ⟨last, rfl, hall'⟩ := exists_of_same_list h'
    rw [same, sameAll_iff]
    exact forall₂_trans hall hall' fun a ha b hb c hc =>
      hlaw.trans (hu.part ha) (hv.part hb) (hw.part hc)
  | tuple items =>
    obtain ⟨others, rfl, hall⟩ := exists_of_same_tuple h
    obtain ⟨last, rfl, hall'⟩ := exists_of_same_tuple h'
    rw [same, sameAll_iff]
    exact forall₂_trans hall hall' fun a ha b hb c hc =>
      hlaw.trans (hu.part ha) (hv.part hb) (hw.part hc)
  | set items =>
    obtain ⟨others, rfl⟩ := exists_of_same_set h
    obtain ⟨last, rfl⟩ := exists_of_same_set h'
    rw [same_set_iff] at h h' ⊢
    exact h.trans h' fun a ha b hb c hc => hlaw.trans (hu.part ha) (hv.part hb) (hw.part hc)
  | dict entries =>
    obtain ⟨others, rfl⟩ := exists_of_same_dict h
    obtain ⟨last, rfl⟩ := exists_of_same_dict h'
    -- a key finds its equal in any order, since equal keys are unique on the other side
    rw [same_dict_iff fun entry hentry => hlaw.unique (hu.key hentry) hv] at h
    rw [same_dict_iff fun entry hentry => hlaw.unique (hv.key hentry) hw] at h'
    rw [same_dict_iff fun entry hentry => hlaw.unique (hu.key hentry) hw]
    exact h.trans h' fun a ha b hb c hc hab hbc =>
      ⟨hlaw.trans (hu.key ha) (hv.key hb) (hw.key hc) hab.1 hbc.1,
        hlaw.trans (hu.value ha) (hv.value hb) (hw.value hc) hab.2 hbc.2⟩
  | object owner fields assigned =>
    obtain ⟨owner', others, assigned', rfl⟩ := exists_of_same_object h
    obtain ⟨owner'', last, assigned'', rfl⟩ := exists_of_same_object h'
    rw [same_object_iff hv.2.here] at h
    rw [same_object_iff hw.2.here] at h' ⊢
    exact ⟨h.1.trans h'.1, h.2.trans h'.2 fun a ha b hb c hc hab hbc =>
      ⟨hab.1.trans hbc.1, hlaw.trans (hu.field ha) (hv.field hb) (hw.field hc) hab.2 hbc.2⟩⟩
  | float x =>
    obtain ⟨y, rfl, hxy⟩ := exists_of_same_float h
    obtain ⟨z, rfl, hyz⟩ := exists_of_same_float h'
    rw [same, Double.same_iff]
    exact (Double.same_iff.mp hxy).trans (Double.same_iff.mp hyz)
  | member owner name =>
    obtain ⟨owner', rfl, hid⟩ := exists_of_same_member h
    obtain ⟨owner'', rfl, hid'⟩ := exists_of_same_member h'
    simp [same, ClassHandle.same, hid, hid']
  | _ =>
    obtain rfl := eq_of_same_of_isPlain rfl h
    exact h'

/-- Equality is lawful below every height, by induction on the height. -/
theorem lawfulBelow (n : Nat) : LawfulBelow n := by
  induction n with
  | zero =>
    exact ⟨fun hv => absurd hv.1 (Nat.not_lt_zero _), fun hu => absurd hu.1 (Nat.not_lt_zero _)⟩
  | succ n ih => exact ⟨ih.symm_succ, ih.trans_succ⟩

/-! ## Equivalence -/

/-- **Equality of well-formed values is symmetric.** -/
theorem WellFormed.same_symm (hv : v.WellFormed) (hw : w.WellFormed) (h : v.same w = true) :
    w.same v = true :=
  (lawfulBelow (max v.height w.height + 1)).symm ⟨by omega, hv⟩ ⟨by omega, hw⟩ h

/-- **Equality of well-formed values is transitive.** -/
theorem WellFormed.same_trans {u : Value} (hu : u.WellFormed) (hv : v.WellFormed)
    (hw : w.WellFormed) (h : u.same v = true) (h' : v.same w = true) : u.same w = true :=
  (lawfulBelow (max u.height (max v.height w.height) + 1)).trans ⟨by omega, hu⟩ ⟨by omega, hv⟩
    ⟨by omega, hw⟩ h h'

/-- Well-formed dictionaries are equal if they have as many entries, and equal ones. -/
theorem WellFormed.same_dict_iff {entries others : List (Value × Value)}
    (h : (dict entries).WellFormed) (h' : (dict others).WellFormed) :
    (dict entries).same (dict others) = true ↔ Matches EntrySame entries others := by
  have hlaw := lawfulBelow (max (dict entries).height (dict others).height)
  have hlow : Low (max (dict entries).height (dict others).height + 1) (dict entries) :=
    ⟨by omega, h⟩
  exact Value.same_dict_iff fun entry hentry => hlaw.unique (hlow.key hentry) ⟨by omega, h'⟩

/-- Counterparts that are different for different values are pairwise different if the values are. -/
theorem pairwise_of_differs {R : Value → Value → Prop} {items others : List Value}
    (hdiffers : ∀ {v w v' w'}, R v w → R v' w' → v'.same v = false → w'.same w = false)
    (h : List.Forall₂ R items others)
    (hdistinct : items.Pairwise fun v later => later.same v = false) :
    others.Pairwise fun w later => later.same w = false := by
  induction h with
  | nil => exact .nil
  | cons hcounterpart hrest ih =>
    rw [List.pairwise_cons] at hdistinct ⊢
    refine ⟨fun later hlater => ?_, ih hdistinct.2⟩
    obtain ⟨v, hv, hcounterpart'⟩ := Outcome.exists_of_forall₂ hrest.flip hlater
    exact hdiffers hcounterpart hcounterpart' (hdistinct.1 v hv)

/-- Lists that are related element by element match. -/
theorem Matches.of_forall₂ (h : List.Forall₂ R as bs) : Matches R as bs :=
  ⟨h.length_eq, fun _ ha => Outcome.exists_of_forall₂ h ha⟩

/-- A list matches what it matches in any order. -/
theorem Matches.of_perm {as' : List α} (h : Matches R as bs) (hperm : as'.Perm as) :
    Matches R as' bs :=
  ⟨hperm.length_eq.trans h.1, fun a ha => h.2 a (hperm.mem_iff.mp ha)⟩

end ObjectMapping.Value
