import ObjectMapping.Proofs.Value.Decoding
import ObjectMapping.Proofs.Value.Equivalence

/-! # Copies of values

What is read from a document is not the very value that was written: objects are constructed anew, so
their fields come in the order of the class and all count as assigned. But it is equal to the value,
and elements and keys that are pairwise different stay so.

* **`Value.Copies`** — well-formed values that are equal, with a lemma for each kind of collection
  and for objects.
* `Value.same_dict_of_copies`: no entry of a dictionary is lost when its keys are copied.
* **`ClassTable.Restores`**, **`ClassTable.RestoresKey`** — a value is read back as a copy from its
  document, a key from its member name. -/

namespace ObjectMapping

open Decoding

namespace Value

/-! ## Copies -/

/-- A well-formed value that is equal to a well-formed value. -/
structure Copies (copy v : Value) : Prop where
  source : v.WellFormed
  wellFormed : copy.WellFormed
  same : copy.same v = true

/-- A well-formed value is a copy of itself. -/
theorem WellFormed.copies_self {v : Value} (h : v.WellFormed) : Copies v v :=
  ⟨h, h, same_self h.distinctKeys⟩

/-- Copies of one value are copies of equal values. -/
theorem Copies.joined {copy v w : Value} (hv : Copies copy v) (hw : Copies copy w) :
    v.same w = true :=
  hv.source.same_trans hv.wellFormed hw.source
    (hv.wellFormed.same_symm hv.source hv.same) hw.same

/-- Copies of different values are different. -/
theorem Copies.differs {copy copy' v v' : Value} (h : Copies copy v) (h' : Copies copy' v')
    (hne : v'.same v = false) : copy'.same copy = false := by
  by_contra hsame
  rw [Bool.not_eq_false] at hsame
  -- equal copies would both be copies of the first value
  have hcopy : Copies copy' v :=
    ⟨h.source, h'.wellFormed, h'.wellFormed.same_trans h.wellFormed h.source hsame h.same⟩
  rw [h'.joined hcopy] at hne
  cases hne

/-- Pairwise different values have pairwise different copies. -/
theorem pairwise_of_copies {items copies : List Value}
    (h : List.Forall₂ (fun v copy => Copies copy v) items copies)
    (hdistinct : items.Pairwise fun v later => later.same v = false) :
    copies.Pairwise fun v later => later.same v = false :=
  pairwise_of_differs Copies.differs h hdistinct

/-! ## Copies of collections -/

/-- Copies are well-formed. -/
theorem wellFormed_of_copies {items copies : List Value}
    (h : List.Forall₂ (fun v copy => Copies copy v) items copies) :
    ∀ copy ∈ copies, copy.WellFormed := by
  intro copy hcopy
  obtain ⟨v, -, hv⟩ := Outcome.exists_of_forall₂ h.flip hcopy
  exact hv.wellFormed

/-- A list of copies is a copy of the list. -/
theorem Copies.list {items copies : List Value} (hsource : (Value.list items).WellFormed)
    (h : List.Forall₂ (fun v copy => Copies copy v) items copies) :
    Copies (.list copies) (.list items) := by
  refine ⟨hsource, .of_parts trivial (wellFormed_of_copies h), ?_⟩
  rw [Value.same, sameAll_iff]
  exact h.flip.imp fun _ _ hcopy => hcopy.same

/-- A tuple of copies is a copy of the tuple. -/
theorem Copies.tuple {items copies : List Value} (hsource : (Value.tuple items).WellFormed)
    (h : List.Forall₂ (fun v copy => Copies copy v) items copies) :
    Copies (.tuple copies) (.tuple items) := by
  refine ⟨hsource, .of_parts trivial (wellFormed_of_copies h), ?_⟩
  rw [Value.same, sameAll_iff]
  exact h.flip.imp fun _ _ hcopy => hcopy.same

/-- No element is lost when copies of the elements of a set are put into a set. -/
theorem Copies.set {items copies : List Value} (hsource : (Value.set items).WellFormed)
    (h : List.Forall₂ (fun v copy => Copies copy v) items copies) :
    Copies (.set (Keyed.distinct copies)) (.set items) := by
  have hdistinct : copies.Pairwise fun v later => later.same v = false :=
    pairwise_of_copies h hsource.here
  rw [Keyed.distinct_of_pairwise hdistinct]
  refine ⟨hsource, .of_parts hdistinct (wellFormed_of_copies h), ?_⟩
  rw [same_set_iff]
  exact .of_forall₂ (h.flip.imp fun _ _ hcopy => hcopy.same)

/-- Entries whose keys are copies of different keys have different keys. -/
theorem pairwise_of_copied_keys {P : Value → Value → Prop} {entries copies : List (Value × Value)}
    (hsource : (Value.dict entries).WellFormed)
    (h : List.Forall₂ (fun entry copy : Value × Value =>
      Copies copy.1 entry.1 ∧ P copy.2 entry.2) entries copies) :
    (copies.map (·.1)).Pairwise fun v later => later.same v = false := by
  have hkeys : List.Forall₂ (fun v copy => Copies copy v)
      (entries.map (·.1)) (copies.map (·.1)) := by
    rw [List.forall₂_map_left_iff, List.forall₂_map_right_iff]
    exact h.imp fun _ _ hcopy => hcopy.1
  exact pairwise_of_copies hkeys hsource.here

/-- No entry is lost when entries with copies of the keys and equal values are put into a
dictionary. -/
theorem same_dict_of_copies {entries copies : List (Value × Value)}
    (hsource : (Value.dict entries).WellFormed)
    (h : List.Forall₂ (fun entry copy : Value × Value =>
      Copies copy.1 entry.1 ∧ copy.2.same entry.2 = true) entries copies) :
    (Value.dict (Keyed.ofList copies)).same (.dict entries) = true := by
  have hunique : ∀ copy ∈ copies, entries.Pairwise fun entry later =>
      copy.1.same entry.1 = true → copy.1.same later.1 = true → False := by
    intro copy hcopy
    obtain ⟨source, -, hsame⟩ := Outcome.exists_of_forall₂ h.flip hcopy
    have hkey : copy.1.WellFormed := hsame.1.wellFormed
    refine (List.pairwise_map.mp hsource.here).imp_of_mem fun {entry later} hentry hlater hne => ?_
    -- keys that a copy is equal to are equal to each other
    intro hcopyEntry hcopyLater
    have hentryKey : entry.1.WellFormed := hsource.part (key_mem_parts hentry)
    have hlaterKey : later.1.WellFormed := hsource.part (key_mem_parts hlater)
    rw [hlaterKey.same_trans hkey hentryKey (hkey.same_symm hlaterKey hcopyLater) hcopyEntry] at hne
    cases hne
  have hdistinct := pairwise_of_copied_keys (P := fun v w => v.same w = true) hsource h
  rw [Keyed.ofList_of_pairwise hdistinct, same_dict_iff hunique]
  exact .of_forall₂ (h.flip.imp fun _ _ hcopy => ⟨hcopy.1.same, hcopy.2⟩)

/-- No entry is lost when copies of the entries of a dictionary are put into a dictionary. -/
theorem Copies.dict {entries copies : List (Value × Value)}
    (hsource : (Value.dict entries).WellFormed)
    (h : List.Forall₂ (fun entry copy : Value × Value =>
      Copies copy.1 entry.1 ∧ Copies copy.2 entry.2) entries copies) :
    Copies (.dict (Keyed.ofList copies)) (.dict entries) := by
  have hdistinct := pairwise_of_copied_keys hsource h
  have hparts : ∀ part ∈ (Value.dict copies).parts, part.WellFormed := by
    refine List.forall_mem_append.mpr ⟨?_, ?_⟩
    · intro key hkey
      obtain ⟨copy, hcopy, rfl⟩ := List.mem_map.mp hkey
      obtain ⟨source, -, hsame⟩ := Outcome.exists_of_forall₂ h.flip hcopy
      exact hsame.1.wellFormed
    · intro value hvalue
      obtain ⟨copy, hcopy, rfl⟩ := List.mem_map.mp hvalue
      obtain ⟨source, -, hsame⟩ := Outcome.exists_of_forall₂ h.flip hcopy
      exact hsame.2.wellFormed
  refine ⟨hsource, ?_, same_dict_of_copies hsource (h.imp fun _ _ hcopy =>
    ⟨hcopy.1, hcopy.2.same⟩)⟩
  rw [Keyed.ofList_of_pairwise hdistinct]
  exact .of_parts hdistinct hparts

/-- A member of the same enum with the same name is a copy of the member. -/
theorem Copies.member {owner owner' : ClassHandle} {name : String} (howner : owner'.id = owner.id) :
    Copies (.member owner' name) (.member owner name) := by
  have hwellFormed : ∀ handle, (Value.member handle name).WellFormed := fun handle =>
    .of_parts trivial (by simp [Value.parts])
  exact ⟨hwellFormed owner, hwellFormed owner', by simp [Value.same, ClassHandle.same, howner]⟩

/-- Arguments that stand beside fields of the same names have the same names. -/
theorem names_eq_of_forall₂ {P : Value → Value → Prop} {fields args : List (String × Value)}
    (h : List.Forall₂ (fun field arg : String × Value => arg.1 = field.1 ∧ P arg.2 field.2)
      fields args) : args.map (·.1) = fields.map (·.1) := by
  refine List.forall₂_eq_eq_eq ▸ ?_
  rw [List.forall₂_map_left_iff, List.forall₂_map_right_iff]
  exact h.flip.imp fun _ _ hcopy => hcopy.1

/-- The order of the fields does not matter, nor which of them count as assigned. -/
theorem Copies.object {owner owner' : ClassHandle} {fields fields' args : List (String × Value)}
    {assigned assigned' : List String}
    (hsource : (Value.object owner fields assigned).WellFormed) (howner : owner'.id = owner.id)
    (h : List.Forall₂ (fun field arg : String × Value => arg.1 = field.1 ∧ Copies arg.2 field.2)
      fields args) (hperm : fields'.Perm args) :
    Copies (.object owner' fields' assigned') (.object owner fields assigned) := by
  have hnodup : (fields'.map (·.1)).Nodup := by
    rw [(hperm.map _).nodup_iff, names_eq_of_forall₂ h]
    exact hsource.here
  refine ⟨hsource, .of_parts hnodup fun part hpart => ?_, ?_⟩
  · obtain ⟨field, hfield, rfl⟩ := List.mem_map.mp hpart
    obtain ⟨source, -, hcopy⟩ := Outcome.exists_of_forall₂ h.flip (hperm.mem_iff.mp hfield)
    exact hcopy.2.wellFormed
  · rw [same_object_iff hsource.here]
    exact ⟨howner, (Matches.of_forall₂ (h.flip.imp fun _ _ hcopy =>
      ⟨hcopy.1, hcopy.2.same⟩)).of_perm hperm⟩

end Value

/-! ## Reading back -/

/-- Two names from which one key is read are those of equal keys. -/
theorem Decoding.ReadsKey.unique {t : ClassTable} {type : FieldType} {name : String}
    {key key' : Value} (h : ReadsKey t type name key) (h' : ReadsKey t type name key') : key = key' :=
  Except.ok.inj ((h .null []).symm.trans (h' .null []))

/-- **A value is read back from its document**, as a copy. -/
def ClassTable.Restores (t : ClassTable) (type : FieldType) (v : Value) : Prop :=
  ∃ copy, Reads t type v.toJson copy ∧ copy.Copies v

/-- **A key is read back from its member name**, as a copy. -/
def ClassTable.RestoresKey (t : ClassTable) (type : FieldType) (key : Value) : Prop :=
  ∃ copy, ReadsKey t type (key.keyName key.toJson) copy ∧ copy.Copies key

end ObjectMapping
