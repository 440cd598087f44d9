import ObjectMapping.Proofs.Value.Restoration

/-! # Dictionaries are read back, whatever their keys are

Member names are strings, yet keys may be numbers, tuples or absent. A dictionary is read back from
its document, and different keys have different names, if its values are read back and no key is
mistaken for another one: neither a key of the dictionary itself nor one of a dictionary inside of a
key.

* `ClassTable.Unmistaken`: no key of a dictionary in a value is mistaken.
* **`ClassTable.decode_dict_toJson`** — a dictionary is read back if its keys are not mistaken. -/

namespace ObjectMapping

open Decoding

namespace ClassTable

variable {t : ClassTable}

/-- No key of a dictionary in a value is mistaken. -/
def Unmistaken (t : ClassTable) (type : FieldType) (v : Value) : Prop :=
  ∀ key value entries, t.Place type v (.dict key value) (.dict entries) →
    ∀ entry ∈ entries, ¬ t.Mistakes key entry.1

/-- A value is read back if none of the keys in it is mistaken. -/
theorem Admits.restores_of_unmistaken {type : FieldType} {v : Value} (hv : t.Admits type v)
    (hwellFormed : v.WellFormed) (hexact : v.Everywhere Value.Exact)
    (hlegible : v.Everywhere Value.Legible)
    (htypes : ∀ other, t.Reaches type other → t.Determinate other) (haccepts : t.Accepts type v)
    (hclear : t.Unmistaken type v) : t.Restores type v := by
  refine hv.restores_of_keys hwellFormed hexact htypes haccepts
    fun key value entries hplace entry hentry hkey hrestores => ?_
  have hkeyType : key ∈ (FieldType.dict key value).parts := List.mem_cons_self
  have hpart : entry.1.Everywhere Value.Legible :=
    (hlegible.of_part hplace.part).part (Value.key_mem_parts hentry)
  exact hkey.restoresKey
    (fun other hother => htypes other (hplace.reaches.trans (.part hkeyType hother)))
    (hclear key value entries hplace entry hentry) hrestores
    (Value.legible_toJson hpart hpart.here.1).ofText_compact

/-- **A dictionary is read back if its keys are not mistaken**, provided that its values are read
back and that the texts of its keys are not too deep and their numbers read back. Different keys have
different member names. -/
theorem decode_dict_toJson {key value : FieldType} {entries : List (Value × Value)}
    (hwellFormed : (Value.dict entries).WellFormed)
    (hkeys : ∀ entry ∈ entries, t.Admits key entry.1)
    (hexact : ∀ entry ∈ entries, entry.1.Everywhere Value.Exact)
    (hlegible : ∀ entry ∈ entries, entry.1.Everywhere Value.Legible)
    (htypes : ∀ other, t.Reaches key other → t.Determinate other)
    (haccepts : ∀ entry ∈ entries, t.Accepts key entry.1)
    (hclear : ∀ entry ∈ entries, ¬ t.Mistakes key entry.1 ∧ t.Unmistaken key entry.1)
    (hvalues : ∀ entry ∈ entries, ∃ copy,
      Value.decode t value entry.2.toJson = .ok copy ∧ copy.same entry.2 = true) :
    ((Value.toJsonEntries entries).map (·.1)).Nodup ∧
      ∃ copy, Value.decode t (.dict key value) (Value.dict entries).toJson = .ok copy ∧
        copy.same (.dict entries) = true := by
  -- the texts of keys that are not mistaken are read back, one by one
  have hrestores : ∀ entry ∈ entries, t.RestoresKey key entry.1 := by
    intro entry hentry
    have hkeyWellFormed := hwellFormed.part (Value.key_mem_parts hentry)
    have hlegibleKey := hlegible entry hentry
    refine (hkeys entry hentry).restoresKey htypes (hclear entry hentry).1 ?_
      (Value.legible_toJson hlegibleKey hlegibleKey.here.1).ofText_compact
    exact (hkeys entry hentry).restores_of_unmistaken hkeyWellFormed (hexact entry hentry)
      hlegibleKey htypes (haccepts entry hentry) (hclear entry hentry).2
  have hreads : ∀ entry ∈ entries, ∃ copy,
      Reads t value entry.2.toJson copy ∧ copy.same entry.2 = true := by
    intro entry hentry
    obtain ⟨copy, hdecode, hsame⟩ := hvalues entry hentry
    exact ⟨copy, (steady_decode t value entry.2.toJson).yields hdecode, hsame⟩
  obtain ⟨copies, hdict, hcopies⟩ := exists_reads_dict
    (P := fun copy v => copy.same v = true) hwellFormed hrestores hreads
  exact ⟨nodup_keyNames hwellFormed.here hrestores, _, hdict.decode_eq,
    Value.same_dict_of_copies hwellFormed hcopies⟩

end ClassTable

/-! ## Spots -/

namespace Sample

/-- The number one half. -/
def half : Double := .ofRatio false 1 2

/-- Numbers that may be absent with marks, and a distance; or nothing at all. -/
def spotType : FieldType :=
  .optional (.tuple [.dict (.optional (.builtin .int)) (.builtin .bool), .builtin .float])

/-- Marks for the number three and for no number. -/
def marks : Value := .dict [(.none, .bool true), (.int 3, .bool false)]

/-- A spot: the marks and a distance. -/
def spot : Value := .tuple [marks, .float half]

/-- What is at the spot, and what is nowhere. -/
def spots : List (Value × Value) := [(.none, .str "nowhere"), (spot, .str "here")]

/-- The sample value is of the sample type. -/
theorem admits_spot : ClassTable.empty.Admits spotType spot := by
  have hmarks : ClassTable.empty.Admits (.dict (.optional (.builtin .int)) (.builtin .bool))
      marks := by
    refine .dict ?_ ?_
    · simp only [List.forall_mem_cons]
      exact ⟨.none _, .some (.builtin rfl rfl), by simp⟩
    · simp only [List.forall_mem_cons]
      exact ⟨.builtin rfl rfl, .builtin rfl rfl, by simp⟩
  refine .some (.tuple rfl ?_)
  simp only [List.zip_cons_cons, List.zip_nil_right, List.forall_mem_cons]
  exact ⟨hmarks, .builtin rfl rfl, by simp⟩

/-- What is asked of the parts of a key, apart from its type. -/
abbrev Readable (v : Value) : Prop := v.DistinctParts ∧ v.Exact ∧ v.Legible

/-- Whether a number was read. -/
def isNumber (n : Number) : Except Fault Json → Bool
  | .ok (.number m) => m == n
  | _ => false

/-- The number in the sample value is read back from its text. -/
theorem ofText_half :
    Json.ofText (Json.number (.double half)).compact = .ok (.number (.double half)) := by
  have hread : isNumber (.double half) (Json.ofText (Json.number (.double half)).compact)
      = true := by
    decide +kernel
  unfold isNumber at hread
  split at hread
  · next n hn => rw [hn, eq_of_beq hread]
  · cases hread

/-- A readable value without parts is readable everywhere. -/
theorem readable_scalar {v : Value} (hparts : v.parts = []) (h : Readable v) :
    v.Everywhere Readable :=
  .of_parts h (by simp [hparts])

/-- The absent value is readable everywhere. -/
theorem readable_none : Value.none.Everywhere Readable :=
  readable_scalar rfl ⟨trivial, trivial, by decide, by simp⟩

/-- The sample value is readable everywhere. -/
theorem readable_spot : spot.Everywhere Readable := by
  have hbool : ∀ b, (Value.bool b).Everywhere Readable := fun b =>
    readable_scalar rfl ⟨trivial, trivial, Nat.zero_le _, by simp⟩
  have hmarks : marks.Everywhere Readable := by
    have hdistinct : marks.DistinctParts := List.pairwise_pair.mpr (by simp [Value.same])
    refine .of_parts ⟨hdistinct, trivial, by decide, by simp [marks]⟩ ?_
    simp only [marks, Value.parts, List.map_cons, List.map_nil, List.cons_append, List.nil_append,
      List.forall_mem_cons]
    exact ⟨readable_none, readable_scalar rfl ⟨trivial, trivial, by decide, by simp⟩, hbool true,
      hbool false, by simp⟩
  have hhalf : (Value.float half).Everywhere Readable := by
    have hfinite : half.isFinite = true := by decide +kernel
    refine readable_scalar rfl ⟨trivial, hfinite, by decide, fun x hx => ?_⟩
    obtain rfl := Value.float.inj hx
    exact ofText_half
  refine .of_parts ⟨trivial, trivial, by decide, by simp [spot]⟩ ?_
  simp only [spot, Value.parts, List.forall_mem_cons]
  exact ⟨hmarks, hhalf, by simp⟩

/-- The types that the type of a spot leads to. -/
def spotTypes : List FieldType :=
  [spotType, .tuple [.dict (.optional (.builtin .int)) (.builtin .bool), .builtin .float],
    .dict (.optional (.builtin .int)) (.builtin .bool), .optional (.builtin .int), .builtin .int,
    .builtin .bool, .builtin .float]

/-- Without classes no class is found. -/
theorem classFor?_empty (handle : ClassHandle) : ClassTable.empty.classFor? handle = none := by
  unfold ClassTable.classFor?
  split <;> rfl

/-- Nothing in the sample type is left open. -/
theorem determinate_spotType {other : FieldType}
    (h : ClassTable.empty.Reaches spotType other) : ClassTable.empty.Determinate other := by
  have hnamed : ∀ handle, ClassTable.empty.Determinate (.named handle) := by
    intro handle c hclass
    rw [classFor?_empty] at hclass
    cases hclass
  have hmem : other ∈ spotTypes := by
    refine h.of_closed (P := (· ∈ spotTypes)) List.mem_cons_self ?_ ?_
    · intro type htype
      simp only [spotTypes, List.mem_cons, List.not_mem_nil, or_false] at htype
      rcases htype with rfl | rfl | rfl | rfl | rfl | rfl | rfl <;>
        simp [FieldType.parts, FieldType.builtin, spotTypes, spotType]
    · intro handle c _ hclass
      rw [classFor?_empty] at hclass
      cases hclass
  simp only [spotTypes, List.mem_cons, List.not_mem_nil, or_false] at hmem
  rcases hmem with rfl | rfl | rfl | rfl | rfl | rfl | rfl
  all_goals first | exact hnamed _ | trivial

/-- Without classes no validator refuses a value. -/
theorem accepts_spotType (v : Value) : ClassTable.empty.Accepts spotType v := by
  intro handle c _ hclass
  rw [classFor?_empty] at hclass
  cases hclass

/-- An absent number is not mistaken, since its name is not accepted as a number. -/
theorem not_mistakes_none {type : FieldType} (h : Fails (decode .empty type (.string "null"))) :
    ¬ ClassTable.empty.Mistakes type .none := by
  rintro ⟨v, hv⟩
  exact hv.not_fails h

/-- A number that is absent is not mistaken for another one. -/
theorem not_mistakes_number : ¬ ClassTable.empty.Mistakes (.optional (.builtin .int)) .none := by
  refine not_mistakes_none ?_
  rw [decode]
  · exact fails_builtin rfl rfl
  · simp

/-- A spot that is absent is not mistaken for another one. -/
theorem not_mistakes_spot : ¬ ClassTable.empty.Mistakes spotType .none := by
  refine not_mistakes_none ?_
  rw [spotType, decode]
  · rw [decode]
    · exact fails_mismatch _ _
    all_goals simp
  · simp

/-- No key in the sample value is mistaken. -/
theorem unmistaken_spot : ClassTable.empty.Unmistaken spotType spot := by
  intro key value entries hplace
  cases hplace with
  | some h =>
    cases h with
    | position hpair h =>
      simp only [List.zip_cons_cons, List.zip_nil_right, List.mem_cons, List.not_mem_nil,
        or_false] at hpair
      rcases hpair with rfl | rfl
      · cases h with
        | self =>
          simp only [List.forall_mem_cons]
          exact ⟨not_mistakes_number, id, by simp⟩
        | key hentry h =>
          simp only [List.mem_cons, List.not_mem_nil, or_false] at hentry
          rcases hentry with rfl | rfl
          · cases h with
            | some h => cases h
          · cases h with
            | some h => cases h
        | value hentry h =>
          simp only [List.mem_cons, List.not_mem_nil, or_false] at hentry
          rcases hentry with rfl | rfl <;> cases h
      · cases h

end Sample

/-- A spot and no spot at all are both read back as keys. -/
theorem decode_dict_toJson_spots :
    ((Value.toJsonEntries Sample.spots).map (·.1)).Nodup ∧
      ∃ copy, Value.decode .empty (.dict Sample.spotType (.builtin .str))
          (Value.dict Sample.spots).toJson = .ok copy ∧
        copy.same (.dict Sample.spots) = true := by
  have hreadable : ∀ entry ∈ Sample.spots, entry.1.Everywhere Sample.Readable := by
    simp only [Sample.spots, List.forall_mem_cons]
    exact ⟨Sample.readable_none, Sample.readable_spot, by simp⟩
  have htext : ∀ s : String, (Value.str s).WellFormed := fun s =>
    .of_parts trivial (by simp [Value.parts])
  have hwellFormed : (Value.dict Sample.spots).WellFormed := by
    refine .of_parts (List.pairwise_pair.mpr (by simp [Sample.spot, Value.same])) ?_
    simp only [Sample.spots, Value.parts, List.map_cons, List.map_nil, List.cons_append,
      List.nil_append, List.forall_mem_cons]
    exact ⟨fun part hpart => (Sample.readable_none part hpart).1,
      fun part hpart => (Sample.readable_spot part hpart).1, htext _, htext _, by simp⟩
  refine ClassTable.decode_dict_toJson hwellFormed ?_
    (fun entry hentry part hpart => (hreadable entry hentry part hpart).2.1)
    (fun entry hentry part hpart => (hreadable entry hentry part hpart).2.2)
    (fun _ => Sample.determinate_spotType) (fun entry _ => Sample.accepts_spotType entry.1) ?_ ?_
  · simp only [Sample.spots, List.forall_mem_cons]
    exact ⟨.none _, Sample.admits_spot, by simp⟩
  · simp only [Sample.spots, List.forall_mem_cons]
    refine ⟨⟨Sample.not_mistakes_spot, ?_⟩, ⟨id, Sample.unmistaken_spot⟩, by simp⟩
    intro key value entries hplace
    cases hplace with
    | some h => cases h
  · simp only [Sample.spots, List.forall_mem_cons]
    have hvalue : ∀ s, ∃ copy, Value.decode .empty (.builtin .str) (Value.str s).toJson = .ok copy ∧
        copy.same (.str s) = true := fun s =>
      ⟨.str s, (reads_builtin rfl rfl).decode_eq, by simp [Value.same]⟩
    exact ⟨hvalue _, hvalue _, by simp⟩

/-- **Bytes are read back with quotes around them, and a string takes the name of the absent
value**: bytes are written under the text of their document and read from the name itself, and where
strings may be absent, absence and a string are written under one name. -/
theorem keys_mistaken :
    (∃ copy, Value.decode .empty (.dict (.builtin .bytes) (.builtin .int))
        (Value.dict [(.bytes (Bytes.ofText "a"), .int 1)]).toJson = .ok copy ∧
      copy.same (.dict [(.bytes (Bytes.ofText "a"), .int 1)]) = false) ∧
    ¬ ((Value.toJsonEntries [(.none, .int 1), (.str "null", .int 2)]).map (·.1)).Nodup := by
  refine ⟨⟨.dict [(.bytes (Bytes.ofText (Json.quoted "a")), .int 1)], ?_, by decide +kernel⟩,
    by decide⟩
  have hdocument : (Value.dict [(.bytes (Bytes.ofText "a"), .int 1)]).toJson
      = .object [(Json.quoted "a", .number (.int 1))] := by
    have hname : (Value.bytes (Bytes.ofText "a")).keyName (Value.bytes (Bytes.ofText "a")).toJson
        = Json.quoted "a" := by
      rw [Value.toJson, Bytes.text_ofText]
      rfl
    rw [Value.toJson, Value.toJsonEntries_eq_map, List.map_singleton, hname]
    rfl
  have hreads : Reads .empty (.dict (.builtin .bytes) (.builtin .int))
      (.object [(Json.quoted "a", .number (.int 1))])
      (.dict (Keyed.ofList [(.bytes (Bytes.ofText (Json.quoted "a")), .int 1)])) :=
    reads_dict (.cons ⟨(reads_builtin rfl rfl).key, reads_builtin rfl rfl⟩ .nil)
  rw [hdocument]
  exact hreads.decode_eq

end ObjectMapping
