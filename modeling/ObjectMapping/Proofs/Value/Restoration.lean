import ObjectMapping.Proofs.Class.Reconstruction
import ObjectMapping.Proofs.Value.Keys

/-! # Values are read back from their documents

Writing follows the value and reading follows the type. A value of a type that leaves nothing open is
read back, up to equality, if the keys of the dictionaries in it are.

* `ClassTable.restores_list` and its like: collections are read back if their parts are, and objects
  if their fields are.
* `ClassTable.Admits.restores_of_keys`: a value is read back if the keys in it are.
* **`ClassTable.decode_toJson`** — a value of a type that leaves nothing open is read back. -/

namespace ObjectMapping

open Decoding

namespace ClassTable

variable {t : ClassTable}

/-! ## Collections and objects -/

/-- Copies of the elements of a list are read from the documents of the elements. -/
theorem exists_copies {type : FieldType} {items : List Value} (h : ∀ v ∈ items, t.Restores type v) :
    ∃ copies, List.Forall₂ (Reads t type) (Value.toJsonAll items) copies ∧
      List.Forall₂ (fun v copy => Value.Copies copy v) items copies := by
  obtain ⟨copies, hcopies⟩ := Outcome.exists_forall₂ h
  refine ⟨copies, ?_, hcopies.imp fun _ _ hcopy => hcopy.2⟩
  rw [Value.toJsonAll_eq_map, List.forall₂_map_left_iff]
  exact hcopies.imp fun _ _ hcopy => hcopy.1

/-- A list is restored if its elements are. -/
theorem restores_list {type : FieldType} {items : List Value}
    (hwellFormed : (Value.list items).WellFormed) (h : ∀ v ∈ items, t.Restores type v) :
    t.Restores (.list type) (.list items) := by
  obtain ⟨copies, hreads, hcopies⟩ := exists_copies h
  refine ⟨.list copies, ?_, .list hwellFormed hcopies⟩
  rw [Value.toJson]
  exact reads_list hreads

/-- A set is restored if its elements are. -/
theorem restores_set {type : FieldType} {items : List Value}
    (hwellFormed : (Value.set items).WellFormed) (h : ∀ v ∈ items, t.Restores type v) :
    t.Restores (.set type) (.set items) := by
  obtain ⟨copies, hreads, hcopies⟩ := exists_copies h
  refine ⟨.set (Keyed.distinct copies), ?_, .set hwellFormed hcopies⟩
  rw [Value.toJson]
  exact reads_set hreads

/-- A tuple is restored if its items are. -/
theorem restores_tuple {types : List FieldType} {items : List Value}
    (hwellFormed : (Value.tuple items).WellFormed) (hlength : types.length = items.length)
    (h : ∀ pair ∈ types.zip items, t.Restores pair.1 pair.2) :
    t.Restores (.tuple types) (.tuple items) := by
  obtain ⟨copies, hcopies⟩ := Outcome.exists_forall₂ h
  have hreads : List.Forall₂ (fun (entry : FieldType × Json) v => Reads t entry.1 entry.2 v)
      (types.zip (Value.toJsonAll items)) copies := by
    rw [Value.toJsonAll_eq_map, List.zip_map_right, List.forall₂_map_left_iff]
    exact hcopies.imp fun _ _ hcopy => hcopy.1
  have hvalues : List.Forall₂ (fun v copy => Value.Copies copy v)
      ((types.zip items).map (·.2)) copies := by
    rw [List.forall₂_map_left_iff]
    exact hcopies.imp fun _ _ hcopy => hcopy.2
  rw [List.map_snd_zip (Nat.le_of_eq hlength.symm)] at hvalues
  refine ⟨.tuple copies, ?_, .tuple hwellFormed hvalues⟩
  rw [Value.toJson]
  exact reads_tuple (by rw [hlength, Value.toJsonAll_eq_map, List.length_map]) hreads

/-- Different keys of a dictionary are written under different names, since each is read back. -/
theorem nodup_keyNames {key : FieldType} {entries : List (Value × Value)}
    (hdistinct : (entries.map (·.1)).Pairwise fun key later => later.same key = false)
    (hkeys : ∀ entry ∈ entries, t.RestoresKey key entry.1) :
    ((Value.toJsonEntries entries).map (·.1)).Nodup := by
  rw [Value.toJsonEntries_eq_map, List.map_map]
  rw [List.pairwise_map] at hdistinct
  refine List.pairwise_map.mpr (hdistinct.imp_of_mem fun {entry later} hentry hlater hne => ?_)
  intro hname
  obtain ⟨copy, hreads, hcopy⟩ := hkeys entry hentry
  obtain ⟨copy', hreads', hcopy'⟩ := hkeys later hlater
  dsimp only [Function.comp_apply] at hname
  -- one key is read from the name that both have, and it is a copy of both
  rw [← hname] at hreads'
  obtain rfl := hreads.unique hreads'
  rw [hcopy'.joined hcopy] at hne
  cases hne

/-- The entries of a dictionary are read back if their keys and values are, whatever is known about
the values that are read. -/
theorem exists_reads_dict {P : Value → Value → Prop} {key value : FieldType}
    {entries : List (Value × Value)} (hwellFormed : (Value.dict entries).WellFormed)
    (hkeys : ∀ entry ∈ entries, t.RestoresKey key entry.1)
    (hvalues : ∀ entry ∈ entries, ∃ copy, Reads t value entry.2.toJson copy ∧ P copy entry.2) :
    ∃ copies, Reads t (.dict key value) (Value.dict entries).toJson (.dict (Keyed.ofList copies)) ∧
      List.Forall₂ (fun entry copy : Value × Value => copy.1.Copies entry.1 ∧ P copy.2 entry.2)
        entries copies := by
  have hentries : ∀ entry ∈ entries, ∃ copy : Value × Value,
      (ReadsKey t key (entry.1.keyName entry.1.toJson) copy.1 ∧
        Reads t value entry.2.toJson copy.2) ∧ copy.1.Copies entry.1 ∧ P copy.2 entry.2 := by
    intro entry hentry
    obtain ⟨k, hk, hkey⟩ := hkeys entry hentry
    obtain ⟨v, hv, hvalue⟩ := hvalues entry hentry
    exact ⟨(k, v), ⟨hk, hv⟩, hkey, hvalue⟩
  obtain ⟨copies, hcopies⟩ := Outcome.exists_forall₂ hentries
  refine ⟨copies, ?_, hcopies.imp fun _ _ hcopy => hcopy.2⟩
  rw [Value.toJson, Keyed.ofList_eq_self (nodup_keyNames hwellFormed.here hkeys),
    Value.toJsonEntries_eq_map]
  refine reads_dict ?_
  rw [List.forall₂_map_left_iff]
  exact hcopies.imp fun _ _ hcopy => hcopy.1

/-- A dictionary is restored if its keys and values are. -/
theorem restores_dict {key value : FieldType} {entries : List (Value × Value)}
    (hwellFormed : (Value.dict entries).WellFormed)
    (hkeys : ∀ entry ∈ entries, t.RestoresKey key entry.1)
    (hvalues : ∀ entry ∈ entries, t.Restores value entry.2) :
    t.Restores (.dict key value) (.dict entries) := by
  obtain ⟨copies, hreads, hcopies⟩ := exists_reads_dict hwellFormed hkeys hvalues
  exact ⟨.dict (Keyed.ofList copies), hreads, .dict hwellFormed hcopies⟩

/-- An object is constructed again from copies of its fields. -/
theorem restores_object {c : Class} {handle owner : ClassHandle} {fields : List (String × Value)}
    {assigned : List String} (hwellFormed : (Value.object owner fields assigned).WellFormed)
    (hclass : t.classFor? handle = some c) (howner : owner.id = c.handle.id)
    (hnames : (fields.map (·.1)).Perm (c.slots.map (·.name))) (hconstructor : c.Reconstructible)
    (hvalidate : ∀ object : Value, object.owner? = some c.handle →
      object.same (.object owner fields assigned) = true → c.validate object = .ok object)
    (hfields : ∀ slot ∈ c.slots, ∀ v, (slot.name, v) ∈ fields → t.Restores slot.type v) :
    t.Restores (.named handle) (.object owner fields assigned) := by
  obtain ⟨hbuiltin, henum, hfound⟩ := classFor?_eq_some hclass
  have hargs : ∀ field ∈ fields, ∃ arg : String × Value,
      ReadsArgument t c (field.1, field.2.toJson) arg ∧ arg.1 = field.1 ∧ arg.2.Copies field.2 := by
    rintro ⟨name, v⟩ hfield
    obtain ⟨slot, hslot, rfl⟩ := List.mem_map.mp (hnames.mem_iff.mp (List.mem_map_of_mem hfield))
    obtain ⟨copy, hreads, hcopy⟩ := hfields slot hslot v hfield
    exact ⟨(slot.name, copy), ⟨rfl, slot, hconstructor.slotFor?_name hslot, hreads⟩, rfl, hcopy⟩
  obtain ⟨args, hall⟩ := Outcome.exists_forall₂ hargs
  have hcopies := hall.imp fun _ _ harg => harg.2
  have hgiven : (args.map (·.1)).Perm (c.slots.map (·.name)) := by
    rwa [Value.names_eq_of_forall₂ hcopies]
  obtain ⟨fields', assigned', hconstruct, hperm⟩ := hconstructor.construct hgiven
  have hcopy : Value.Copies (.object c.handle fields' assigned') (.object owner fields assigned) :=
    .object hwellFormed howner.symm hcopies hperm
  -- the new object is equal to the old one, which is what the validators are known to accept
  rw [hvalidate _ rfl hcopy.same] at hconstruct
  refine ⟨_, ?_, hcopy⟩
  rw [Value.toJson, Keyed.ofList_eq_self]
  · refine reads_object hbuiltin henum hfound ?_ hconstruct
    rw [Value.toJsonFields_eq_map, List.forall₂_map_left_iff]
    exact hall.imp fun _ _ harg => harg.1
  · rw [Value.toJsonFields_eq_map, List.map_map]
    exact hwellFormed.here

/-! ## Values -/

/-- A value whose type leaves nothing open is read back if the keys of the dictionaries in it are read
back from their names. -/
theorem Admits.restores_of_keys {type : FieldType} {v : Value} (hv : t.Admits type v)
    (hwellFormed : v.WellFormed) (hexact : v.Everywhere Value.Exact)
    (htypes : ∀ other, t.Reaches type other → t.Determinate other) (haccepts : t.Accepts type v)
    (hkeys : ∀ key value entries, t.Place type v (.dict key value) (.dict entries) →
      ∀ entry ∈ entries, t.Admits key entry.1 → t.Restores key entry.1 →
        t.RestoresKey key entry.1) :
    t.Restores type v := by
  have hinner : ∀ {type inner : FieldType}, inner ∈ type.parts →
      (∀ other, t.Reaches type other → t.Determinate other) →
      ∀ other, t.Reaches inner other → t.Determinate other :=
    fun hinner htypes other hother => htypes other (.part hinner hother)
  -- on how the value belongs to the type; the conditions are handed on to the parts of both
  induction hv with
  | any v => exact (htypes _ (.self _)).elim
  | union => exact (htypes _ (.self _)).elim
  | builtin hhandle hvalue =>
    exact ⟨_, reads_builtin hhandle (scalar?_toJson hvalue hexact.here), hwellFormed.copies_self⟩
  | @member e handle owner name henum howner hname =>
    obtain ⟨hbuiltin, hfound⟩ := enumFor?_eq_some henum
    refine ⟨.member e.handle name, ?_, .member howner.symm⟩
    rw [Value.toJson]
    exact reads_member hbuiltin hfound hname
  | none inner => exact ⟨.none, reads_null inner, hwellFormed.copies_self⟩
  | @some inner v hinner' ih =>
    by_cases hnull : v.toJson = .null
    · -- the absent value is read back without asking for the type inside
      obtain rfl := (Value.toJson_eq_null_iff hexact.here).mp hnull
      exact ⟨.none, reads_null inner, hwellFormed.copies_self⟩
    · have hmem : inner ∈ (FieldType.optional inner).parts := List.mem_singleton_self _
      obtain ⟨copy, hreads, hcopy⟩ := ih hwellFormed hexact (hinner hmem htypes)
        (haccepts.inner hmem) fun key value entries hplace => hkeys key value entries hplace.some
      exact ⟨copy, hreads.optional hnull, hcopy⟩
  | @list item items hitems ih =>
    have hmem : item ∈ (FieldType.list item).parts := List.mem_singleton_self _
    exact restores_list hwellFormed fun v hv =>
      ih v hv (hwellFormed.part hv) (hexact.part hv) (hinner hmem htypes) (haccepts.part hmem hv)
        fun key value entries hplace => hkeys key value entries (.item hv hplace)
  | @set item items hitems ih =>
    have hmem : item ∈ (FieldType.set item).parts := List.mem_singleton_self _
    exact restores_set hwellFormed fun v hv =>
      ih v hv (hwellFormed.part hv) (hexact.part hv) (hinner hmem htypes) (haccepts.part hmem hv)
        fun key value entries hplace => hkeys key value entries (.element hv hplace)
  | @tuple types items hlength hitems ih =>
    refine restores_tuple hwellFormed hlength fun pair hpair => ?_
    have hmem : pair.1 ∈ (FieldType.tuple types).parts := (List.of_mem_zip hpair).1
    have hv : pair.2 ∈ (Value.tuple items).parts := (List.of_mem_zip hpair).2
    exact ih pair hpair (hwellFormed.part hv) (hexact.part hv) (hinner hmem htypes)
      (haccepts.part hmem hv)
      fun key value entries hplace => hkeys key value entries (.position hpair hplace)
  | @dict key value entries hadmits hvalues ihkeys ihvalues =>
    have hkey : key ∈ (FieldType.dict key value).parts := by simp [FieldType.parts]
    have hvalue : value ∈ (FieldType.dict key value).parts := by simp [FieldType.parts]
    refine restores_dict hwellFormed (fun entry hentry => ?_) fun entry hentry => ?_
    · have hk := Value.key_mem_parts hentry
      exact hkeys key value entries (.self _ _) entry hentry (hadmits entry hentry)
        (ihkeys entry hentry (hwellFormed.part hk) (hexact.part hk) (hinner hkey htypes)
          (haccepts.part hkey hk)
          fun _ _ _ hplace => hkeys _ _ _ (.key hentry hplace))
    · have hv := Value.value_mem_parts hentry
      exact ihvalues entry hentry (hwellFormed.part hv) (hexact.part hv) (hinner hvalue htypes)
        (haccepts.part hvalue hv) fun _ _ _ hplace => hkeys _ _ _ (.value hentry hplace)
  | @object c handle owner fields assigned hclass howner hnames hfields ih =>
    refine restores_object hwellFormed hclass howner hnames (htypes _ (.self _) c hclass)
      (haccepts handle c (.self _) hclass _ (.self _)) fun slot hslot v hv => ?_
    have hpart : v ∈ (Value.object owner fields assigned).parts := List.mem_map_of_mem hv
    exact ih slot hslot v hv (hwellFormed.part hpart) (hexact.part hpart)
      (fun other hother => htypes other (.field hclass hslot hother))
      (haccepts.field hclass hslot hpart)
      fun _ _ _ hplace => hkeys _ _ _ (.field hclass hslot hv hplace)

/-- Every value of a type that leaves nothing open is read back. -/
theorem Admits.restores {type : FieldType} {v : Value} (hv : t.Admits type v)
    (hwellFormed : v.WellFormed) (hexact : v.Everywhere Value.Exact)
    (htypes : ∀ other, t.Reaches type other → t.Restorable other) (haccepts : t.Accepts type v) :
    t.Restores type v := by
  have hdeterminate : ∀ other, t.Reaches type other → t.Determinate other :=
    fun other hother => (htypes other hother).determinate
  refine hv.restores_of_keys hwellFormed hexact hdeterminate haccepts
    fun key value entries hplace entry _ hkey hrestores => ?_
  have hisKey : t.IsKey key := htypes _ hplace.reaches
  have hreaches : t.Reaches type key := hplace.reaches.trans (.part List.mem_cons_self (.self _))
  obtain ⟨hclear, hlegible⟩ := hisKey.clear hkey
  exact hkey.restoresKey (fun other hother => hdeterminate other (hreaches.trans hother)) hclear
    hrestores hlegible.ofText_compact

/-- **Reading undoes writing.** A value of a type is read back from its document, up to equality, if
the type leaves nothing open and the validators of its classes accept: what is read is equal to what
was written. -/
theorem decode_toJson {type : FieldType} {v : Value} (hv : t.Admits type v)
    (hwellFormed : v.WellFormed) (hexact : v.Everywhere Value.Exact)
    (htypes : ∀ other, t.Reaches type other → t.Restorable other) (haccepts : t.Accepts type v) :
    ∃ copy, Value.decode t type v.toJson = .ok copy ∧ copy.same v = true := by
  obtain ⟨copy, hreads, hcopy⟩ := hv.restores hwellFormed hexact htypes haccepts
  exact ⟨copy, hreads.decode_eq, hcopy.same⟩

end ClassTable

/-! ## Parcels -/

namespace Sample

/-- The shades that things come in. -/
def shade : Enumeration := ⟨⟨9, "Shade"⟩, ["pale", "dark"]⟩

/-- A parcel, which may hold another one. -/
def parcel : ClassHandle := ⟨10, "Parcel"⟩

/-- A parcel holds numbers of things by shades, it was sent on a day at a weight, and there may be
another one inside. -/
def parcelClass : Class where
  handle := parcel
  slots := [
    ⟨"things", .dict (.builtin .int) (.set (.named shade.handle)), none, some "items", true, true⟩,
    ⟨"sent", .tuple [.builtin .date, .builtin .float], none, none, true, true⟩,
    ⟨"inside", .optional (.named parcel), some .none, none, true, false⟩]
  body := .model true [fun object => if object.typeName == "Parcel" then none else some "no parcel"]

/-- The table of parcels and shades. -/
def parcels : ClassTable := ⟨[(10, parcelClass)], [(9, shade)]⟩

/-- The types that a parcel leads to. -/
def parcelTypes : List FieldType :=
  [.named parcel, .dict (.builtin .int) (.set (.named shade.handle)), .builtin .int,
    .set (.named shade.handle), .named shade.handle, .tuple [.builtin .date, .builtin .float],
    .builtin .date, .builtin .float, .optional (.named parcel)]

/-- A leap day and a weight. -/
def sent : Value := .tuple [.date ⟨2024, 2, 29, by decide⟩, .float (.ofRatio false 1 2)]

/-- Both shades, as a set. -/
def shades : Value := .set [.member shade.handle "dark", .member shade.handle "pale"]

/-- A parcel without things. -/
def emptyParcel : Value :=
  .object parcel [("things", .dict []), ("sent", sent), ("inside", .none)] ["sent", "things"]

/-- A parcel with its fields in another order than that of the class. -/
def fullParcel : Value :=
  .object parcel [("inside", emptyParcel), ("sent", sent), ("things", .dict [(.int 3, shades)])] []

/-- The only class in the sample table is that of parcels. -/
theorem classFor?_parcels {handle : ClassHandle} {c : Class}
    (h : parcels.classFor? handle = some c) : c = parcelClass :=
  ClassTable.eq_of_classFor?_singleton h

/-- A parcel leads to the types of its fields and of what is in them. -/
theorem mem_parcelTypes {other : FieldType} (h : parcels.Reaches (.named parcel) other) :
    other ∈ parcelTypes := by
  refine h.of_closed (P := (· ∈ parcelTypes)) List.mem_cons_self ?_ ?_
  · intro type htype
    simp only [parcelTypes, List.mem_cons, List.not_mem_nil, or_false] at htype
    rcases htype with rfl | rfl | rfl | rfl | rfl | rfl | rfl | rfl | rfl <;>
      simp [FieldType.parts, FieldType.builtin, parcelTypes]
  · intro handle c _ hclass slot hslot
    obtain rfl := classFor?_parcels hclass
    simp only [parcelClass, List.mem_cons, List.not_mem_nil, or_false] at hslot
    rcases hslot with rfl | rfl | rfl <;> simp [parcelTypes]

/-- Parcels are reconstructed from all of their fields. -/
theorem reconstructible_parcelClass : parcelClass.Reconstructible :=
  ⟨by decide, by decide, by decide, by decide⟩

/-- The types that a parcel leads to can be restored. -/
theorem restorable_parcel {other : FieldType} (h : parcels.Reaches (.named parcel) other) :
    parcels.Restorable other := by
  have hnamed : ∀ handle, parcels.Restorable (.named handle) := by
    intro handle c hclass
    obtain rfl := classFor?_parcels hclass
    exact reconstructible_parcelClass
  have hmem := mem_parcelTypes h
  simp only [parcelTypes, List.mem_cons, List.not_mem_nil, or_false] at hmem
  rcases hmem with rfl | rfl | rfl | rfl | rfl | rfl | rfl | rfl | rfl
  case inr.inl => exact .inl (by decide)
  all_goals first | exact hnamed _ | trivial

/-- No validator refuses a parcel. -/
theorem accepts_parcel (v : Value) : parcels.Accepts (.named parcel) v := by
  intro handle c _ hclass part _ object howner _
  obtain rfl := classFor?_parcels hclass
  cases object with
  | object owner fields assigned =>
    obtain rfl : owner = parcel := Option.some.inj howner
    rfl
  | _ => cases howner

/-- The date and the weight of a parcel are of their types. -/
theorem admits_sent : parcels.Admits (.tuple [.builtin .date, .builtin .float]) sent := by
  refine .tuple rfl ?_
  simp only [List.zip_cons_cons, List.zip_nil_right, List.forall_mem_cons]
  exact ⟨.builtin rfl rfl, .builtin rfl rfl, by simp⟩

/-- The shades of a parcel are of their type. -/
theorem admits_shades : parcels.Admits (.set (.named shade.handle)) shades := by
  have hmember : ∀ name ∈ shade.members, parcels.Admits (.named shade.handle)
      (.member shade.handle name) := fun name hname => .member (e := shade) rfl rfl hname
  refine .set ?_
  simp only [List.forall_mem_cons]
  exact ⟨hmember _ (by decide), hmember _ (by decide), by simp⟩

/-- The empty parcel is of its class. -/
theorem admits_emptyParcel : parcels.Admits (.named parcel) emptyParcel := by
  refine .object (c := parcelClass) rfl rfl (.refl _) ?_
  simp only [parcelClass, List.forall_mem_cons]
  refine ⟨?_, ?_, ?_, by simp⟩ <;> intro v hv <;> simp at hv <;> subst hv
  · exact .dict (by simp) (by simp)
  · exact admits_sent
  · exact .none _

/-- The full parcel is of its class. -/
theorem admits_fullParcel : parcels.Admits (.named parcel) fullParcel := by
  refine .object (c := parcelClass) rfl rfl (by decide) ?_
  simp only [parcelClass, List.forall_mem_cons]
  refine ⟨?_, ?_, ?_, by simp⟩ <;> intro v hv <;> simp at hv <;> subst hv
  · exact .dict (List.forall_mem_singleton.mpr (.builtin rfl rfl))
      (List.forall_mem_singleton.mpr admits_shades)
  · exact admits_sent
  · exact .some admits_emptyParcel

/-- What is asked of the parts of a value, apart from their types. -/
abbrev Checked (v : Value) : Prop := v.DistinctParts ∧ v.Exact

/-- A checked value without parts is checked everywhere. -/
theorem checked_of_no_parts {v : Value} (hparts : v.parts = []) (h : Checked v) :
    v.Everywhere Checked :=
  .of_parts h (by simp [hparts])

/-- The date and the weight of a parcel are checked everywhere. -/
theorem checked_sent : sent.Everywhere Checked := by
  have hfinite : (Double.ofRatio false 1 2).isFinite = true := by decide +kernel
  refine .of_parts ⟨trivial, trivial⟩ ?_
  simp only [sent, Value.parts, List.forall_mem_cons]
  exact ⟨checked_of_no_parts rfl ⟨trivial, trivial⟩, checked_of_no_parts rfl ⟨trivial, hfinite⟩,
    by simp⟩

/-- The shades of a parcel are checked everywhere. -/
theorem checked_shades : shades.Everywhere Checked := by
  have hmember : ∀ name, (Value.member shade.handle name).Everywhere Checked := fun _ =>
    checked_of_no_parts rfl ⟨trivial, trivial⟩
  refine .of_parts ⟨List.pairwise_pair.mpr (by simp [Value.same]), trivial⟩ ?_
  simp only [shades, Value.parts, List.forall_mem_cons]
  exact ⟨hmember _, hmember _, by simp⟩

/-- The empty parcel is checked everywhere. -/
theorem checked_emptyParcel : emptyParcel.Everywhere Checked := by
  refine .of_parts ⟨(by decide : List.Nodup _), trivial⟩ ?_
  simp only [emptyParcel, Value.parts, List.map_cons, List.map_nil, List.forall_mem_cons]
  exact ⟨checked_of_no_parts rfl ⟨.nil, trivial⟩, checked_sent,
    checked_of_no_parts rfl ⟨trivial, trivial⟩, by simp⟩

/-- The full parcel is checked everywhere. -/
theorem checked_fullParcel : fullParcel.Everywhere Checked := by
  have hthings : (Value.dict [(.int 3, shades)]).Everywhere Checked := by
    refine .of_parts ⟨List.pairwise_singleton _ _, trivial⟩ ?_
    simpa [Value.parts] using ⟨checked_of_no_parts rfl ⟨trivial, trivial⟩, checked_shades⟩
  refine .of_parts ⟨(by decide : List.Nodup _), trivial⟩ ?_
  simp only [fullParcel, Value.parts, List.map_cons, List.map_nil, List.forall_mem_cons]
  exact ⟨checked_emptyParcel, checked_sent, hthings, by simp⟩

end Sample

/-- A parcel inside another one is read back with it. -/
theorem decode_toJson_parcel :
    ∃ copy, Value.decode Sample.parcels (.named Sample.parcel) Sample.fullParcel.toJson = .ok copy ∧
      copy.same Sample.fullParcel = true :=
  ClassTable.decode_toJson Sample.admits_fullParcel
    (fun part hpart => (Sample.checked_fullParcel part hpart).1)
    (fun part hpart => (Sample.checked_fullParcel part hpart).2)
    (fun _ => Sample.restorable_parcel) (Sample.accepts_parcel _)

end ObjectMapping
