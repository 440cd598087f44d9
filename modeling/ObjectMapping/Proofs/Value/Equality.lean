import ObjectMapping.Proofs.Value.Change
import ObjectMapping.Proofs.Value.DistinctKeys

/-! # Equality of values with distinct keys

Dictionaries and objects are compared by looking keys up, so equality is reflexive only where a key
leads back to its own entry.

* **`Value.same_self`** — a value with distinct keys equals itself.
* **`Value.same_object`** — objects of a class are equal if they have the same names and equal values
  under them.
* **`Value.Aligned`** — fields of an object have been brought in line with those of another one. -/

namespace ObjectMapping.Value

/-- A list of values that equal themselves equals itself. -/
theorem sameAll_self {items : List Value} (h : ∀ item ∈ items, same item item = true) :
    sameAll items items = true := by
  induction items with
  | nil => rw [sameAll]
  | cons item rest ih =>
    rw [sameAll, h item List.mem_cons_self, Bool.true_and]
    exact ih fun other hmem => h other (List.mem_cons_of_mem _ hmem)

/-- Values with equals in another list are included in it. -/
theorem included_of_forall {items others : List Value}
    (h : ∀ item ∈ items, ∃ other ∈ others, same item other = true) :
    included items others = true := by
  induction items with
  | nil => rw [included]
  | cons item rest ih =>
    rw [included, List.any_eq_true.mpr (h item List.mem_cons_self), Bool.true_and]
    exact ih fun other hmem => h other (List.mem_cons_of_mem _ hmem)

/-- The first entry under the key of an entry is this entry, if keys are pairwise different. -/
theorem find?_entry {entries : List (Value × Value)} (h : distinctKeysEntries entries = true)
    {entry : Value × Value} (hmem : entry ∈ entries) (hkey : same entry.1 entry.1 = true) :
    entries.find? (fun other => same entry.1 other.1) = some entry := by
  induction entries with
  | nil => simp at hmem
  | cons head tail ih =>
    rw [distinctKeysEntries, Bool.and_eq_true, Bool.and_eq_true, Bool.and_eq_true] at h
    rcases List.mem_cons.mp hmem with rfl | htail
    · simp [hkey]
    · -- the key of a later entry is not the same as that of the first one
      have hne : same entry.1 head.1 = false := by
        simpa using List.all_eq_true.mp h.1.1.1 entry htail
      rw [List.find?_cons_of_neg (by simp [hne])]
      exact ih h.2 htail

/-- Entries with equals in another list are included in it. -/
theorem entriesIncluded_of_forall {entries others : List (Value × Value)}
    (h : ∀ entry ∈ entries, ∃ found, others.find? (fun other => same entry.1 other.1) = some found ∧
      same entry.2 found.2 = true) : entriesIncluded entries others = true := by
  induction entries with
  | nil => rw [entriesIncluded]
  | cons entry rest ih =>
    obtain ⟨found, hfound, hsame⟩ := h entry List.mem_cons_self
    rw [entriesIncluded, hfound]
    dsimp only
    rw [hsame, Bool.true_and]
    exact ih fun other hmem => h other (List.mem_cons_of_mem _ hmem)

/-- Fields with equals in another list are included in it. -/
theorem fieldsIncluded_of_forall {fields others : List (String × Value)}
    (h : ∀ field ∈ fields, ∃ found, others.lookup field.1 = some found ∧
      same field.2 found = true) : fieldsIncluded fields others = true := by
  induction fields with
  | nil => rw [fieldsIncluded]
  | cons field rest ih =>
    obtain ⟨found, hfound, hsame⟩ := h field List.mem_cons_self
    rw [fieldsIncluded, hfound]
    dsimp only
    rw [hsame, Bool.true_and]
    exact ih fun other hmem => h other (List.mem_cons_of_mem _ hmem)

/-- **A value with distinct keys equals itself.** -/
theorem same_self {v : Value} (h : v.distinctKeys = true) : v.same v = true := by
  -- the parts of a value are lower than the value, whatever kind of collection it is
  induction hheight : v.height using Nat.strongRecOn generalizing v with
  | ind n ih =>
    subst hheight
    have hitems : ∀ {items : List Value}, v.elements = .ok items → distinctKeysAll items = true →
        ∀ item ∈ items, same item item = true := fun helements hall item hmem =>
      ih _ (height_lt_of_mem_elements helements hmem) (distinctKeysAll_iff.mp hall item hmem) rfl
    cases v with
    | list items =>
      rw [same]
      exact sameAll_self (hitems rfl h)
    | tuple items =>
      rw [same]
      exact sameAll_self (hitems rfl h)
    | set items =>
      rw [same, beq_self_eq_true, Bool.true_and]
      exact included_of_forall fun item hmem => ⟨item, hmem, hitems rfl h item hmem⟩
    | dict entries =>
      rw [same, beq_self_eq_true, Bool.true_and]
      refine entriesIncluded_of_forall fun entry hmem => ⟨entry, ?_, ?_⟩
      · exact find?_entry h hmem (ih _ (height_lt_of_mem_entries rfl hmem).1
          (distinctKeys_of_mem_entries h hmem).1 rfl)
      · exact ih _ (height_lt_of_mem_entries rfl hmem).2 (distinctKeys_of_mem_entries h hmem).2 rfl
    | object owner fields assigned =>
      rw [same, ClassHandle.same_self, beq_self_eq_true, Bool.true_and, Bool.true_and]
      refine fieldsIncluded_of_forall fun field hmem => ⟨field.2, ?_, ?_⟩
      · exact Keyed.lookup_of_mem (distinctKeysFields_iff.mp h).1 hmem
      · exact ih _ (Nat.lt_succ_of_le (height_le_heightFields hmem))
          ((distinctKeysFields_iff.mp h).2 field hmem) rfl
    | float x => rw [same, Double.same_self]
    | member owner name => rw [same, ClassHandle.same_self, beq_self_eq_true, Bool.true_and]
    | _ => simp [same]

/-- **Objects of a class are equal** if they have the same names and equal values under them. -/
theorem same_object {v w : Value} {a b : ClassHandle} (hv : v.owner? = some a)
    (hw : w.owner? = some b) (hid : a.id = b.id) (hnames : v.names.Perm w.names)
    (hnodup : w.names.Nodup)
    (hfields : ∀ name part part', v.field name = .ok part → w.field name = .ok part' →
      part.same part' = true) : v.same w = true := by
  cases v with
  | object owner fields assigned =>
    cases w with
    | object owner' others assigned' =>
      obtain rfl := Option.some.inj hv
      obtain rfl := Option.some.inj hw
      have hnodup' : (fields.map (·.1)).Nodup := hnames.nodup_iff.mpr hnodup
      have hlength : fields.length = others.length := by simpa [names] using hnames.length_eq
      have howner : owner.same owner' = true := by rw [ClassHandle.same, hid, beq_self_eq_true]
      rw [same, howner, hlength, beq_self_eq_true, Bool.true_and, Bool.true_and]
      refine fieldsIncluded_of_forall ?_
      intro field hmem
      obtain ⟨found, hfound⟩ := Option.isSome_iff_exists.mp
        (Keyed.lookup_isSome_iff_mem_keys.mpr (hnames.mem_iff.mp (List.mem_map_of_mem hmem)))
      refine ⟨found, hfound, hfields field.1 field.2 found ?_ ?_⟩
      · rw [field_object, Keyed.lookup_of_mem hnodup' hmem]
      · rw [field_object, hfound]
    | _ => cases hw
  | _ => cases hv

/-! ## Fields brought in line -/

/-- **Fields of an object have been brought in line** with those of the object `w`: under the given
names it holds equal values, and otherwise it is as it was. -/
structure Aligned (w : Value) (names : List String) (owner owner' : Value) : Prop where
  owner_eq : owner'.owner? = owner.owner?
  names_eq : owner'.names = owner.names
  same : ∀ name ∈ names, ∀ part u, owner'.field name = .ok part → w.field name = .ok u →
    part.same u = true
  field_eq : ∀ other, other ∉ names → owner'.field other = owner.field other

variable {w owner owner' owner'' : Value} {name : String} {names : List String}

/-- Where no fields have to be brought in line, an object is so already. -/
theorem Aligned.nil (w owner : Value) : Aligned w [] owner owner :=
  ⟨rfl, rfl, nofun, fun _ _ => rfl⟩

/-- Bringing one field in line and then others brings them all in line. -/
theorem Aligned.cons (hchanged : ChangedAt name owner owner')
    (hsame : ∀ part u, owner'.field name = .ok part → w.field name = .ok u → part.same u = true)
    (hname : name ∉ names) (hrest : Aligned w names owner' owner'') :
    Aligned w (name :: names) owner owner'' := by
  refine ⟨hrest.owner_eq.trans hchanged.owner_eq, hrest.names_eq.trans hchanged.names_eq, ?_, ?_⟩
  · intro other hother part u hpart hu
    rcases List.mem_cons.mp hother with rfl | hmem
    · rw [hrest.field_eq other hname] at hpart
      exact hsame part u hpart hu
    · exact hrest.same other hmem part u hpart hu
  · intro other hother
    rw [List.mem_cons, not_or] at hother
    rw [hrest.field_eq other hother.2, hchanged.field_eq other hother.1]

/-- With all its fields in line an object of the same class is equal. -/
theorem Aligned.same_of_perm {a b : ClassHandle} (h : Aligned w w.names owner owner')
    (howner : owner.owner? = some a) (hw : w.owner? = some b) (hid : a.id = b.id)
    (hnames : owner.names.Perm w.names) (hnodup : w.names.Nodup) : owner'.same w = true := by
  refine same_object (h.owner_eq.trans howner) hw hid (h.names_eq ▸ hnames) hnodup ?_
  intro name part u hpart hu
  exact h.same name (mem_names_iff.mpr ⟨u, hu⟩) part u hpart hu

end ObjectMapping.Value
