import ObjectMapping.Proofs.Value.Tracking

/-! # Where a document does not have its type

When a document is not of the type that is expected, the message names the place. The place is the
trail of the decoder at that moment: a step is put on it before a part is read and taken off after
the part has been read. A part that is not read leaves its step behind, which is right for an error
that ends the reading, but not where another member of a union is tried instead.

* `Decoding.Enters`: which parts are read, once those in front of them have been.
* **`Decoding.Mismatched`** — the place in a document that does not have its type, with the type and
  what is found there.
* `Decoding.Tries`, **`Decoding.Tidy`** — which members of unions are tried, and that those that are
  tried in vain leave the trail as it was.
* **`Decoding.tracks_decode`** — decoders keep track, type by type (`Decoding.PartsTracked`).
* **`Decoding.trail_of_decode`** — tidy readings restore the trail, and report true places. -/

namespace ObjectMapping.Decoding

variable {α β : Type} {classes : ClassTable}

/-! ## Places in a document -/

/-- What has been read of the members of an object as entries of a dictionary. -/
abbrev EntriesRead (classes : ClassTable) (key value : FieldType) (members : List (String × Json)) :
    Prop :=
  ∀ other ∈ members, (∃ k, ReadsKey classes key other.1 k) ∧ ∃ v, Reads classes value other.2 v

/-- What has been read of the members of an object as arguments of a constructor. -/
abbrev ArgumentsRead (classes : ClassTable) (c : Class) (members : List (String × Json)) : Prop :=
  ∀ other ∈ members, ∀ slot, slotFor? c other.1 = some slot → ∃ v, Reads classes slot.type other.2 v

/-- **A part that is read next**, as a type, after a step: what stands in front of it has been read.
The key of a dictionary is a part if it is not read as a string, but its text as a document. -/
inductive Enters (classes : ClassTable) : FieldType → Json → String → FieldType → Json → Prop
  | listItem {type : FieldType} {items before after : List Json} {item : Json}
      (hitems : items = before ++ item :: after)
      (hbefore : ∀ other ∈ before, ∃ v, Reads classes type other v) :
      Enters classes (.list type) (.array items) (toString before.length) type item
  | setItem {type : FieldType} {items before after : List Json} {item : Json}
      (hitems : items = before ++ item :: after)
      (hbefore : ∀ other ∈ before, ∃ v, Reads classes type other v) :
      Enters classes (.set type) (.array items) (toString before.length) type item
  | tupleItem {types typesBefore typesAfter : List FieldType} {type : FieldType}
      {items before after : List Json} {item : Json} (hlength : items.length = types.length)
      (htypes : types = typesBefore ++ type :: typesAfter) (hitems : items = before ++ item :: after)
      (hbefore : List.Forall₂ (fun type other => ∃ v, Reads classes type other v) typesBefore before) :
      Enters classes (.tuple types) (.array items) (toString before.length) type item
  | dictKey {key value : FieldType} {members before after : List (String × Json)} {name : String}
      {item parsed : Json} (hmembers : members = before ++ (name, item) :: after)
      (hbefore : EntriesRead classes key value before)
      (hstring : Fails (decode classes key (.string name))) (htext : Json.ofText name = .ok parsed) :
      Enters classes (.dict key value) (.object members) name key parsed
  | dictValue {key value : FieldType} {members before after : List (String × Json)} {name : String}
      {item : Json} {k : Value} (hmembers : members = before ++ (name, item) :: after)
      (hbefore : EntriesRead classes key value before)
      (hkey : ReadsKey classes key name k) :
      Enters classes (.dict key value) (.object members) name value item
  | field {handle : ClassHandle} {c : Class} {members before after : List (String × Json)}
      {name : String} {item : Json} {slot : Slot} (hbuiltin : handle.builtin? = none)
      (henum : classes.enumOf? handle = none) (hclass : classes.classOf? handle = some c)
      (hmembers : members = before ++ (name, item) :: after)
      (hbefore : ArgumentsRead classes c before)
      (hslot : slotFor? c name = some slot) :
      Enters classes (.named handle) (.object members) name slot.type item

/-- A document that is not of a type, whatever its parts are, and how the type is written. -/
inductive Refused (classes : ClassTable) : FieldType → Json → String → Prop
  | list {type : FieldType} {document : Json} (hshape : ∀ items, document ≠ .array items) :
      Refused classes (.list type) document (FieldType.list type).text
  | set {type : FieldType} {document : Json} (hshape : ∀ items, document ≠ .array items) :
      Refused classes (.set type) document (FieldType.set type).text
  | tuple {types : List FieldType} {document : Json}
      (hshape : ∀ items, document = .array items → items.length ≠ types.length) :
      Refused classes (.tuple types) document (FieldType.tuple types).text
  | dict {key value : FieldType} {document : Json} (hshape : ∀ members, document ≠ .object members) :
      Refused classes (.dict key value) document (FieldType.dict key value).text
  | builtin {handle : ClassHandle} {b : Builtin} {document : Json}
      (hbuiltin : handle.builtin? = some b) (hvalue : scalar? b document = none) :
      Refused classes (.named handle) document handle.name
  | enum {handle : ClassHandle} {e : Enumeration} {document : Json}
      (hbuiltin : handle.builtin? = none) (henum : classes.enumOf? handle = some e)
      (hshape : ∀ name, document ≠ .string name) :
      Refused classes (.named handle) document handle.name
  | object {handle : ClassHandle} {c : Class} {document : Json} (hbuiltin : handle.builtin? = none)
      (henum : classes.enumOf? handle = none) (hclass : classes.classOf? handle = some c)
      (hshape : ∀ members, document ≠ .object members) :
      Refused classes (.named handle) document c.handle.name
  | union {members : List FieldType} {document : Json}
      (hmembers : ∀ member ∈ members, Fails (decode classes member document)) :
      Refused classes (.union members) document (FieldType.union members).text

/-- **The place in a document that does not have its type**: the steps that lead from the document
to the part that is refused, how the type is written as which that part was to be read, and what is
found instead. The text of a key that is no document is refused for the object around it. -/
inductive Mismatched (classes : ClassTable) :
    FieldType → Json → List String → String → String → Prop
  | here {type : FieldType} {document : Json} {expected : String}
      (hrefused : Refused classes type document expected) :
      Mismatched classes type document [] expected document.kind
  | optional {inner : FieldType} {document : Json} {steps : List String} {expected found : String}
      (hpresent : document ≠ .null) (h : Mismatched classes inner document steps expected found) :
      Mismatched classes (.optional inner) document steps expected found
  | part {type part : FieldType} {document item : Json} {step : String} {steps : List String}
      {expected found : String} (hpart : Enters classes type document step part item)
      (h : Mismatched classes part item steps expected found) :
      Mismatched classes type document (step :: steps) expected found
  | key {key value : FieldType} {members before after : List (String × Json)} {name : String}
      {item : Json} {fault : Fault} (hmembers : members = before ++ (name, item) :: after)
      (hbefore : EntriesRead classes key value before)
      (hstring : Fails (decode classes key (.string name)))
      (htext : Json.ofText name = .error fault) :
      Mismatched classes (.dict key value) (.object members) [name] key.text
        (Json.object members).kind

/-! ## Members of unions -/

/-- Which documents are tried as which members of a union, while a document is read as a type: a
member is tried if those in front of it have been tried in vain. -/
inductive Tries (classes : ClassTable) : FieldType → Json → FieldType → Json → Prop
  | member {members before after : List FieldType} {member : FieldType} {document : Json}
      (hmembers : members = before ++ member :: after)
      (hbefore : ∀ other ∈ before, Fails (decode classes other document)) :
      Tries classes (.union members) document member document
  | within {members before after : List FieldType} {member tried : FieldType}
      {document part : Json} (hmembers : members = before ++ member :: after)
      (hbefore : ∀ other ∈ before, Fails (decode classes other document))
      (h : Tries classes member document tried part) :
      Tries classes (.union members) document tried part
  | optional {inner tried : FieldType} {document part : Json} (hpresent : document ≠ .null)
      (h : Tries classes inner document tried part) :
      Tries classes (.optional inner) document tried part
  | part {type type' tried : FieldType} {document document' part : Json} {step : String}
      (hpart : Enters classes type document step type' document')
      (h : Tries classes type' document' tried part) : Tries classes type document tried part

/-- **A member of a union that is tried in vain leaves the trail as it was.** -/
def Tidy (classes : ClassTable) (type : FieldType) (document : Json) : Prop :=
  ∀ tried part, Tries classes type document tried part → Fails (decode classes tried part) →
    ∀ trail, (decode classes tried part trail).2 = trail

/-! ## Decoders keep track -/

section Decoders

variable {P : List String → String → String → Prop} {type key value : FieldType} {document : Json}

/-- Decoding items keeps track if decoding each of them does, behind its position. -/
theorem tracks_decodeItems {items : List Json} {position : Nat}
    (h : ∀ before item after, items = before ++ item :: after →
      (∀ other ∈ before, ∃ v, Reads classes type other v) →
      Tracks (fun steps => P (toString (position + before.length) :: steps))
        (decode classes type item)) :
    Tracks P (decodeItems classes type position items) := by
  induction items generalizing position with
  | nil =>
    rw [decodeItems]
    exact tracks_pure _
  | cons item rest ih =>
    rw [decodeItems]
    refine (h [] item rest rfl (List.forall_mem_nil _)).entered (steady_decode _ _ _) fun v hv => ?_
    have hrest : Tracks P (decodeItems classes type (position + 1) rest) := by
      refine ih fun before other after hitems hbefore => ?_
      have hpart := h (item :: before) other after (by rw [hitems, List.cons_append])
        (List.forall_mem_cons.mpr ⟨⟨v, hv⟩, hbefore⟩)
      rwa [List.length_cons, Nat.add_comm before.length, ← Nat.add_assoc] at hpart
    refine hrest.bind ?_ fun _ _ => tracks_pure _
    exact steady_decodeItems (fun _ _ => steady_decode _ _ _) _

/-- Decoding positions keeps track if decoding each of them does, behind its number. -/
theorem tracks_decodeEach {types : List FieldType} {items : List Json} {position : Nat}
    (h : ∀ typesBefore type typesAfter before item after, types = typesBefore ++ type :: typesAfter →
      items = before ++ item :: after →
      List.Forall₂ (fun type other => ∃ v, Reads classes type other v) typesBefore before →
      Tracks (fun steps => P (toString (position + before.length) :: steps))
        (decode classes type item)) :
    Tracks P (decodeEach classes position types items) := by
  induction items generalizing types position with
  | nil =>
    rw [decodeEach]
    · exact tracks_pure _
    · simp
  | cons item rest ih =>
    cases types with
    | nil =>
      rw [decodeEach]
      · exact tracks_pure _
      · simp
    | cons type types =>
      rw [decodeEach]
      refine (h [] type types [] item rest rfl rfl .nil).entered (steady_decode _ _ _) fun v hv => ?_
      -- behind the first position, all numbers are greater by one
      have hrest : Tracks P (decodeEach classes (position + 1) types rest) := by
        refine ih fun typesBefore other typesAfter before part after htypes hitems hbefore => ?_
        have hpart := h (type :: typesBefore) other typesAfter (item :: before) part after
          (by rw [htypes, List.cons_append]) (by rw [hitems, List.cons_append])
          (.cons ⟨v, hv⟩ hbefore)
        rwa [List.length_cons, Nat.add_comm before.length, ← Nat.add_assoc] at hpart
      refine hrest.bind ?_ fun _ _ => tracks_pure _
      exact steady_decodeEach (fun _ _ _ => steady_decode _ _ _) _

/-- Trying members of a union keeps track if each of them leaves the trail alone, and if it is true
that none is read. -/
theorem tracks_decodeFirst {union : FieldType} {members : List FieldType}
    (h : ∀ before member after, members = before ++ member :: after →
      (∀ other ∈ before, Fails (decode classes other document)) →
      (∀ trail a, (decode classes member document trail).1 = .ok a →
        (decode classes member document trail).2 = trail) ∧
      (Fails (decode classes member document) →
        ∀ trail, (decode classes member document trail).2 = trail))
    (hall : (∀ member ∈ members, Fails (decode classes member document)) →
      P [] union.text document.kind) :
    Tracks P (decodeFirst classes union members document) := by
  induction members with
  | nil =>
    rw [decodeFirst]
    exact tracks_mismatch (hall (List.forall_mem_nil _))
  | cons member rest ih =>
    rw [decodeFirst]
    obtain ⟨hrestores, hvain⟩ := h [] member rest rfl (List.forall_mem_nil _)
    refine Tracks.attempt (steady_decode _ _ _) hrestores hvain (fun _ _ => tracks_pure _)
      fun hfails _ => ih (fun before other after hmembers hbefore => ?_) fun hothers => ?_
    · exact h (member :: before) other after (by rw [hmembers, List.cons_append])
        (List.forall_mem_cons.mpr ⟨hfails, hbefore⟩)
    · exact hall (List.forall_mem_cons.mpr ⟨hfails, hothers⟩)

/-- Decoding a key keeps track if decoding the document in its text does, and if it is true that a
text without one is no key. -/
theorem tracks_decodeKey {name : String}
    (hparsed : ∀ parsed, Fails (decode classes key (.string name)) → Json.ofText name = .ok parsed →
      Tracks P (decode classes key parsed))
    (hfault : ∀ fault, Fails (decode classes key (.string name)) →
      Json.ofText name = .error fault → P [] key.text document.kind) :
    Tracks P (decodeKey classes key document name) := by
  rw [decodeKey]
  refine Tracks.attempt (steady_decode _ _ _) (fun trail _ _ => keeps_decode_string key name trail)
    (fun _ => keeps_decode_string key name) (fun _ _ => tracks_pure _) fun hfails _ => ?_
  dsimp only
  split
  · next fault htext => exact tracks_mismatch (hfault fault hfails htext)
  · next parsed htext =>
    rw [if_pos (Json.weight_lt_of_ofText htext)]
    exact hparsed parsed hfails htext

/-- Decoding entries keeps track if decoding their keys and values does, behind the names. -/
theorem tracks_decodeEntries {members : List (String × Json)}
    (hkey : ∀ before name item after, members = before ++ (name, item) :: after →
      EntriesRead classes key value before →
      Tracks (fun steps => P (name :: steps)) (decodeKey classes key document name))
    (hvalue : ∀ before name item after k, members = before ++ (name, item) :: after →
      EntriesRead classes key value before → ReadsKey classes key name k →
      Tracks (fun steps => P (name :: steps)) (decode classes value item)) :
    Tracks P (decodeEntries classes key value document members) := by
  induction members with
  | nil =>
    rw [decodeEntries]
    exact tracks_pure _
  | cons member rest ih =>
    obtain ⟨name, item⟩ := member
    rw [decodeEntries]
    have hsteadyKey := steady_readKey classes key document name
    -- the key and the value are both read behind the name
    have hentry : Tracks (fun steps => P (name :: steps))
        (decodeKey classes key document name >>= fun k =>
          decode classes value item >>= fun v => pure (k, v)) := by
      refine (hkey [] name item rest rfl (List.forall_mem_nil _)).bind hsteadyKey fun k hk => ?_
      have hfirst := hvalue [] name item rest k rfl (List.forall_mem_nil _) (readsKey_of_yields hk)
      exact hfirst.bind (steady_decode _ _ _) fun _ _ => tracks_pure _
    have hsteadyEntry : Steady (decodeKey classes key document name >>= fun k =>
        decode classes value item >>= fun v => pure (k, v)) :=
      hsteadyKey.bind fun _ _ => (steady_decode _ _ _).bind fun _ _ => steady_pure _
    have hall := hentry.entered (f := fun entry =>
        decodeEntries classes key value document rest >>= fun others => pure (entry :: others))
      hsteadyEntry fun entry hread => ?_
    · simpa only [bind_assoc, pure_bind] using hall
    -- an entry that has been read stands in front of the others
    obtain ⟨k, v, hk, hv⟩ : ∃ k v, ReadsKey classes key name k ∧ Reads classes value item v := by
      rcases hsteadyKey with ⟨k, hk⟩ | hfails
      · rcases steady_decode classes value item with ⟨v, hv⟩ | hfails
        · exact ⟨k, v, readsKey_of_yields hk, hv⟩
        · exact absurd (hk.bind_fails (hfails.bind _)) hread.not_fails
      · exact absurd (hfails.bind _) hread.not_fails
    have hbefore : ∀ before, EntriesRead classes key value before →
        EntriesRead classes key value ((name, item) :: before) :=
      fun before hbefore => List.forall_mem_cons.mpr ⟨⟨⟨k, hk⟩, v, hv⟩, hbefore⟩
    have hrest : Tracks P (decodeEntries classes key value document rest) := by
      refine ih (fun before other part after hmembers hread => ?_)
        fun before other part after k hmembers hread => ?_
      · exact hkey ((name, item) :: before) other part after (by rw [hmembers, List.cons_append])
          (hbefore before hread)
      · exact hvalue ((name, item) :: before) other part after k
          (by rw [hmembers, List.cons_append]) (hbefore before hread)
    refine hrest.bind ?_ fun _ _ => tracks_pure _
    exact steady_decodeEntries (fun _ _ _ => steady_readKey _ _ _ _)
      fun _ _ _ => steady_decode _ _ _

/-- Decoding arguments keeps track if decoding the members does, behind their names. -/
theorem tracks_decodeArguments {c : Class} {members : List (String × Json)}
    (h : ∀ before name item after slot, members = before ++ (name, item) :: after →
      ArgumentsRead classes c before → slotFor? c name = some slot →
      Tracks (fun steps => P (name :: steps)) (decode classes slot.type item)) :
    Tracks P (decodeArguments classes c members) := by
  induction members with
  | nil =>
    rw [decodeArguments]
    exact tracks_pure _
  | cons member rest ih =>
    obtain ⟨name, item⟩ := member
    -- a member that was read before is one of those that do not fail
    have hrest : (∀ slot, slotFor? c name = some slot → ∃ v, Reads classes slot.type item v) →
        Tracks P (decodeArguments classes c rest) := by
      intro hread
      refine ih fun before other part after slot hmembers hbefore hslot => ?_
      exact h ((name, item) :: before) other part after slot (by rw [hmembers, List.cons_append])
        (List.forall_mem_cons.mpr ⟨hread, hbefore⟩) hslot
    have hsteady : Steady (decodeArguments classes c rest) :=
      steady_decodeArguments fun _ _ _ _ => steady_decode _ _ _
    rw [decodeArguments]
    split
    · next hslot =>
      rw [pure_bind]
      refine (hrest fun slot heq => ?_).bind hsteady fun _ _ => tracks_pure _
      rw [hslot] at heq
      cases heq
    · next slot hslot =>
      have hfirst := h [] name item rest slot rfl (List.forall_mem_nil _) hslot
      refine hfirst.entered (steady_decode _ _ _) fun v hv => ?_
      rw [pure_bind]
      refine (hrest fun other heq => ?_).bind hsteady fun _ _ => tracks_pure _
      rw [hslot] at heq
      obtain rfl := Option.some.inj heq
      exact ⟨v, hv⟩

end Decoders

/-- A constructor fails because of its arguments or a check of the class, and of nothing else. -/
theorem meets_construct (c : Class) (strategy : Strategy) (args : Arguments) :
    Outcome.Meets NoMismatch (fun _ => True)
      (c.construct strategy args) := by
  -- filling slots fails for a missing argument, or in a default factory
  have hfill : ∀ slots args, Outcome.Meets NoMismatch (fun _ => True)
      (c.fillSlots strategy slots args) := by
    intro slots
    induction slots with
    | nil => exact fun _ => trivial
    | cons slot rest ih =>
      intro args
      have hslot : Outcome.Meets NoMismatch (fun _ => True)
          (c.fillSlot strategy slot args) := by
        rw [Class.fillSlot]
        split
        · trivial
        · refine Outcome.Meets.bind (Q := fun _ => True) ?_ fun _ _ => trivial
          rw [Class.defaultOf]
          split
          · trivial
          · split
            · intro path expected found h
              cases h
            · trivial
      exact hslot.bind fun _ _ => (ih _).bind fun _ _ => trivial
  refine (hfill c.slots args).bind fun found _ => ?_
  obtain ⟨filled, left⟩ := found
  -- what is left over is refused, and only then the object is validated
  cases left with
  | cons argument others =>
    intro path expected found h
    cases h
  | nil =>
    cases strategy with
    | bypassing => trivial
    | validating =>
      show Outcome.Meets _ _ (c.validate _)
      rw [Class.validate]
      split
      · intro path expected found h
        cases h
      · trivial

/-- A name that is no member of an enumeration is not a document of another type. -/
theorem meets_member (e : Enumeration) (name : String) :
    Outcome.Meets NoMismatch (fun _ => True) (e.member name) := by
  rw [Enumeration.member]
  split
  · trivial
  · intro path expected found h
    cases h

/-! ## Types, one by one -/

/-- **The decoders of the parts keep track**: a place in a part is a place behind the step to it. -/
def PartsTracked (classes : ClassTable) (type : FieldType) (document : Json) : Prop :=
  ∀ {step : String} {part : FieldType} {item : Json}, Enters classes type document step part item →
    item.weight < document.weight →
    Tracks (fun steps => Mismatched classes type document (step :: steps)) (decode classes part item)

section Types

variable {types : List FieldType} {handle : ClassHandle} {items : List Json}
  {members : List (String × Json)}

/-- The items of an array are read from its first position on, whatever is made of them. -/
theorem tracks_items {whole : FieldType} (hparts : PartsTracked classes whole (.array items))
    (henters : ∀ {before part after}, items = before ++ part :: after →
      (∀ other ∈ before, ∃ v, Reads classes type other v) →
      Enters classes whole (.array items) (toString before.length) type part) :
    Tracks (Mismatched classes whole (.array items)) (decodeItems classes type 0 items) := by
  refine tracks_decodeItems fun before part after hitems hbefore => ?_
  rw [Nat.zero_add]
  exact hparts (henters hitems hbefore) (Json.weight_item_lt (by simp [hitems]))

/-- Decoding a list keeps track if decoding its items does. -/
theorem tracks_decode_list (hparts : PartsTracked classes (.list type) (.array items)) :
    Tracks (Mismatched classes (.list type) (.array items))
      (decode classes (.list type) (.array items)) := by
  rw [decode]
  exact (tracks_items hparts .listItem).bind
    (steady_decodeItems (fun _ _ => steady_decode _ _ _) _) fun _ _ => tracks_pure _

/-- Decoding a set keeps track if decoding its items does. -/
theorem tracks_decode_set (hparts : PartsTracked classes (.set type) (.array items)) :
    Tracks (Mismatched classes (.set type) (.array items))
      (decode classes (.set type) (.array items)) := by
  rw [decode]
  exact (tracks_items hparts .setItem).bind
    (steady_decodeItems (fun _ _ => steady_decode _ _ _) _) fun _ _ => tracks_pure _

/-- Decoding a tuple keeps track if decoding its items does. -/
theorem tracks_decode_tuple (hparts : PartsTracked classes (.tuple types) (.array items)) :
    Tracks (Mismatched classes (.tuple types) (.array items))
      (decode classes (.tuple types) (.array items)) := by
  rw [decode]
  split
  · next hlength =>
    refine Tracks.bind (tracks_decodeEach
        fun typesBefore type typesAfter before part after htypes hitems hbefore => ?_)
      (steady_decodeEach (fun _ _ _ => steady_decode _ _ _) _) fun _ _ => tracks_pure _
    rw [Nat.zero_add]
    exact hparts (.tupleItem (eq_of_beq hlength) htypes hitems hbefore)
      (Json.weight_item_lt (by simp [hitems]))
  · next hlength =>
    refine tracks_mismatch (.here (.tuple ?_))
    rintro _ ⟨⟩
    simpa using hlength

/-- Decoding a dictionary keeps track if decoding its keys and values does. -/
theorem tracks_decode_dict (hparts : PartsTracked classes (.dict key value) (.object members)) :
    Tracks (Mismatched classes (.dict key value) (.object members))
      (decode classes (.dict key value) (.object members)) := by
  rw [decode]
  have hsteady : Steady (decodeEntries classes key value (.object members) members) :=
    steady_decodeEntries (fun _ _ _ => steady_readKey _ _ _ _) fun _ _ _ => steady_decode _ _ _
  refine Tracks.bind (tracks_decodeEntries (fun before name item after hmembers hbefore => ?_)
    fun before name item after k hmembers hbefore hkey => ?_) hsteady fun _ _ => tracks_pure _
  · have hmem : (name, item) ∈ members := by simp [hmembers]
    refine tracks_decodeKey (fun parsed hstring htext => ?_) fun fault hstring htext => ?_
    · exact hparts (.dictKey hmembers hbefore hstring htext) (Json.weight_parsed_lt hmem htext)
    · exact .key hmembers hbefore hstring htext
  · have hmem : (name, item) ∈ members := by simp [hmembers]
    exact hparts (.dictValue hmembers hbefore hkey) (Json.weight_value_lt hmem)

/-- Decoding a class keeps track if decoding the fields does. -/
theorem tracks_decode_named (hparts : PartsTracked classes (.named handle) document) :
    Tracks (Mismatched classes (.named handle) document)
      (decode classes (.named handle) document) := by
  rw [decode]
  split
  · next b hbuiltin =>
    split
    · exact tracks_pure _
    · next hvalue => exact tracks_mismatch (.here (.builtin hbuiltin hvalue))
  · next hbuiltin =>
    split
    · next e henum =>
      split
      · next name => exact tracks_lift (meets_member e name)
      · next hshape => exact tracks_mismatch (.here (.enum hbuiltin henum hshape))
    · next henum =>
      split
      · refine tracks_throw fun path expected found h => ?_
        cases h
      · next c hclass =>
        split
        · next members =>
          -- what the constructor refuses is not a mismatch, so it needs no path
          refine Tracks.bind (tracks_decodeArguments
              fun before name item after slot hmembers hbefore hslot => ?_)
            (steady_decodeArguments fun _ _ _ _ => steady_decode _ _ _)
            fun args _ => tracks_lift (meets_construct c .validating args)
          have hmem : (name, item) ∈ members := by simp [hmembers]
          exact hparts (.field hbuiltin henum hclass hmembers hbefore hslot)
            (Json.weight_value_lt hmem)
        · next hshape => exact tracks_mismatch (.here (.object hbuiltin henum hclass hshape))

/-- A document of another shape than the type asks for is refused as a whole. -/
theorem tracks_decode_refused (hrefused : Refused classes type document type.text)
    (hdecode : decode classes type document = mismatch type document) :
    Tracks (Mismatched classes type document) (decode classes type document) := by
  rw [hdecode]
  exact tracks_mismatch (.here hrefused)

end Types

/-- **Decoders keep track**, where members of unions that are tried in vain do not spoil the trail. -/
theorem tracks_decode (type : FieldType) (document : Json) (htidy : Tidy classes type document) :
    Tracks (Mismatched classes type document) (decode classes type document) := by
  induction type, document using readingInduction with
  | step type document ihdocument ihtype =>
    -- a part that is entered is tidy, and places in it are places behind its step
    have hparts : PartsTracked classes type document := by
      intro step part item henters hlt
      have htidyPart : Tidy classes part item :=
        fun tried other htries => htidy tried other (.part henters htries)
      exact (ihdocument part item hlt htidyPart).mono fun _ _ _ h => .part henters h
    cases type with
    | any =>
      rw [decode]
      exact tracks_pure _
    | optional inner =>
      by_cases hpresent : document = .null
      · subst hpresent
        rw [decode]
        exact tracks_pure _
      · rw [decode]
        · refine (ihtype inner (by simp) ?_).mono fun _ _ _ h => .optional hpresent h
          exact fun tried part htries => htidy tried part (.optional hpresent htries)
        · exact hpresent
    | union members =>
      rw [decode]
      refine tracks_decodeFirst (fun before member after hmembers hbefore => ⟨?_, ?_⟩)
        fun hall => .here (.union hall)
      · have hsize : sizeOf member < sizeOf (FieldType.union members) := by
          have hlt : sizeOf member < sizeOf members := List.sizeOf_lt_of_mem (by simp [hmembers])
          simp only [FieldType.union.sizeOf_spec]
          omega
        refine (ihtype member hsize ?_).restores
        exact fun tried part htries => htidy tried part (.within hmembers hbefore htries)
      · exact htidy member _ (.member hmembers hbefore)
    | named handle => exact tracks_decode_named hparts
    | list item =>
      cases document with
      | array items => exact tracks_decode_list hparts
      | _ => exact tracks_decode_refused (.list (by simp)) (by simp [decode])
    | set item =>
      cases document with
      | array items => exact tracks_decode_set hparts
      | _ => exact tracks_decode_refused (.set (by simp)) (by simp [decode])
    | tuple types =>
      cases document with
      | array items => exact tracks_decode_tuple hparts
      | _ => exact tracks_decode_refused (.tuple (by simp)) (by simp [decode])
    | dict key value =>
      cases document with
      | object members => exact tracks_decode_dict hparts
      | _ => exact tracks_decode_refused (.dict (by simp)) (by simp [decode])

/-! ## The theorem -/

/-- **Tidy readings restore the trail and report true places.** In front of the place stands the
trail with which the decoder started. -/
theorem trail_of_decode (classes : ClassTable) (type : FieldType) (document : Json)
    (htidy : Tidy classes type document) :
    (∀ trail v, (decode classes type document trail).1 = .ok v →
        (decode classes type document trail).2 = trail) ∧
      (∀ trail path expected found, (decode classes type document trail).1
          = .error (.schema (.mismatch path expected found)) →
        ∃ steps, path = trail.reverse ++ steps ∧
          Mismatched classes type document steps expected found) ∧
      ∀ path expected found, Value.decode classes type document
          = .error (.schema (.mismatch path expected found)) →
        Mismatched classes type document path expected found := by
  have htracks := tracks_decode type document htidy
  refine ⟨htracks.restores, htracks.places, fun path expected found herror => ?_⟩
  obtain ⟨steps, hpath, hsteps⟩ := htracks.places [] path expected found herror
  obtain rfl : path = steps := hpath
  exact hsteps

/-! ## What is tried -/

/-- What is tried for a list is tried for one of its items. -/
theorem Tries.of_list {type tried : FieldType} {document part : Json}
    (h : Tries classes (.list type) document tried part) :
    ∃ items, document = .array items ∧ ∃ item ∈ items, Tries classes type item tried part := by
  cases h with | part hpart h =>
  cases hpart with | listItem hitems _ =>
  exact ⟨_, rfl, _, by simp [hitems], h⟩

/-- What is tried for a union is one of its members, or is tried for one of them. -/
theorem Tries.of_union {members : List FieldType} {tried : FieldType} {document part : Json}
    (h : Tries classes (.union members) document tried part) :
    ∃ member ∈ members, tried = member ∧ part = document ∨
      Tries classes member document tried part := by
  cases h with
  | member hmembers _ => exact ⟨_, by simp [hmembers], .inl ⟨rfl, rfl⟩⟩
  | within hmembers _ h => exact ⟨_, by simp [hmembers], .inr h⟩
  | part hpart _ => cases hpart

/-- A builtin class has no members to be tried. -/
theorem not_tries_builtin {b : Builtin} {tried : FieldType} {document part : Json} :
    ¬ Tries classes (.builtin b) document tried part := by
  intro h
  cases h with | part hpart _ =>
  cases hpart with | field hbuiltin _ _ _ _ _ =>
  rw [ClassHandle.builtin?_handle] at hbuiltin
  cases hbuiltin

/-- Reading a builtin class enters no part of a document. -/
theorem keeps_decode_builtin (b : Builtin) (document : Json) :
    Keeps (decode classes (.builtin b) document) := by
  rw [FieldType.builtin, decode, ClassHandle.builtin?_handle]
  dsimp only
  split
  · exact fun _ => rfl
  · exact fun _ => rfl

/-- A document that is no array is refused as a list before a part of it is entered. -/
theorem decode_list_refused {type : FieldType} {document : Json}
    (hshape : ∀ items, document ≠ .array items) :
    decode classes (.list type) document = mismatch (.list type) document := by
  rw [decode]
  all_goals simp [hshape]

namespace Sample

/-- Numbers in a list, or something else. -/
def numbersOr (other : FieldType) : FieldType := .union [.list (.builtin .int), other]

/-- A text and a number. -/
def mixed : Json := .array [.string "a", .number (.int 5)]

/-- Neither a text nor a number is entered before it is refused as a list. -/
theorem tidy_mixed : Tidy .empty (.list (numbersOr (.builtin .str))) mixed := by
  intro tried part htries _ trail
  obtain ⟨_, ⟨⟩, item, hitem, htries⟩ := htries.of_list
  have hshape : ∀ items, item ≠ .array items := by
    simp only [List.mem_cons, List.not_mem_nil, or_false] at hitem
    rcases hitem with rfl | rfl <;> exact fun _ => nofun
  obtain ⟨member, hmember, h⟩ := htries.of_union
  simp only [List.mem_cons, List.not_mem_nil, or_false] at hmember
  rcases hmember with rfl | rfl
  · rcases h with ⟨rfl, rfl⟩ | h
    · rw [decode_list_refused hshape]
      rfl
    · obtain ⟨items, hitems, -⟩ := h.of_list
      exact absurd hitems (hshape items)
  · rcases h with ⟨rfl, rfl⟩ | h
    · exact keeps_decode_builtin _ _ trail
    · exact absurd h not_tries_builtin

end Sample

open Decoding.Sample

/-- A pair of items is refused for its second item, wherever the trail leads behind the first one. -/
theorem decode_pair_of_error {type : FieldType} {item other : Json} {v : Value} {e : Error}
    {left left' : Trail} (hitem : decode classes type item ["0"] = (.ok v, left))
    (hother : decode classes type other ("1" :: left.tail) = (.error e, left')) :
    Value.decode classes (.list type) (.array [item, other]) = .error e := by
  have hrest : decodeItems classes type 1 [other] left.tail = (.error e, left') := by
    rw [decodeItems]
    exact entered_of_error hother
  have hitems : decodeItems classes type 0 [item, other] [] = (.error e, left') := by
    rw [decodeItems]
    refine (entered_of_ok hitem).trans ?_
    rw [bind_apply, hrest]
    rfl
  show (decode classes (.list type) (.array [item, other]) []).1 = .error e
  rw [decode, bind_apply, hitems]
  rfl

/-- A number is no list, and if it is nothing else either, the trail is kept. -/
theorem decode_number {other : FieldType}
    (hother : ∀ trail, decode .empty other (.number (.int 5)) trail
      = (mismatch other (.number (.int 5)) : Decoding Value) trail) (trail : Trail) :
    decode .empty (numbersOr other) (.number (.int 5)) trail
      = (.error (.schema (.mismatch trail.reverse (numbersOr other).text "a number")), trail) := by
  have hlist : decode .empty (.list (.builtin .int)) (.number (.int 5))
      = mismatch (.list (.builtin .int)) (.number (.int 5)) :=
    decode_list_refused fun items => nofun
  rw [numbersOr, decode, decodeFirst, attempt_bind_apply, hlist]
  show decodeFirst _ _ _ _ trail = _
  rw [decodeFirst, attempt_bind_apply, hother]
  show decodeFirst _ _ _ _ trail = _
  rw [decodeFirst]
  rfl

/-- A number that is neither a list nor a text is told by its position. -/
theorem trail_of_decode_mixed :
    Value.decode .empty (.list (numbersOr (.builtin .str))) mixed
        = .error (.schema (.mismatch ["1"] (numbersOr (.builtin .str)).text "a number")) ∧
      Mismatched .empty (.list (numbersOr (.builtin .str))) mixed ["1"]
        (numbersOr (.builtin .str)).text "a number" := by
  have htext : decode .empty (numbersOr (.builtin .str)) (.string "a") ["0"]
      = (.ok (.str "a"), ["0"]) := by
    have hlist : decode .empty (.list (.builtin .int)) (.string "a")
        = mismatch (.list (.builtin .int)) (.string "a") := decode_list_refused fun items => nofun
    rw [numbersOr, decode, decodeFirst, attempt_bind_apply, hlist]
    show decodeFirst _ _ _ _ ["0"] = _
    rw [decodeFirst, FieldType.builtin, decode]
    rfl
  have hother : ∀ trail, decode .empty (.builtin .str) (.number (.int 5)) trail
      = (mismatch (.builtin .str) (.number (.int 5)) : Decoding Value) trail := by
    intro trail
    rw [FieldType.builtin, decode]
    rfl
  have herror := decode_pair_of_error htext (decode_number hother ["1"])
  exact ⟨herror, (trail_of_decode .empty _ _ tidy_mixed).2.2 _ _ _ herror⟩

/-- Texts in a list are first tried as numbers, and the position of the text that is no number is
left on the trail. -/
theorem decode_texts (trail : Trail) :
    decode .empty (numbersOr (.list (.builtin .str))) (.array [.string "a"]) trail
      = (.ok (.list [.str "a"]), "0" :: trail) := by
  have hnumbers : decode .empty (.list (.builtin .int)) (.array [.string "a"]) trail
      = (.error (.schema (.mismatch ("0" :: trail).reverse "int" "a string")), "0" :: trail) := by
    rw [decode, decodeItems, FieldType.builtin, decode]
    rfl
  have htexts : decode .empty (.list (.builtin .str)) (.array [.string "a"]) ("0" :: trail)
      = (.ok (.list [.str "a"]), "0" :: trail) := by
    rw [decode, decodeItems, decodeItems, FieldType.builtin, decode]
    rfl
  rw [numbersOr, decode, decodeFirst, attempt_bind_apply, hnumbers]
  show decodeFirst _ _ _ _ ("0" :: trail) = _
  rw [decodeFirst, attempt_bind_apply, htexts]
  rfl

/-- **A member of a union that is tried in vain may spoil the trail**: the list of texts is read, but
the position of a text is left on the trail, and it stands in front of the position of the number. -/
theorem trail_spoilt :
    decode .empty (numbersOr (.list (.builtin .str))) (.array [.string "a"]) ["0"]
        = (.ok (.list [.str "a"]), ["0", "0"]) ∧
      Value.decode .empty (.list (numbersOr (.list (.builtin .str))))
          (.array [.array [.string "a"], .number (.int 5)])
        = .error (.schema (.mismatch ["0", "1"] (numbersOr (.list (.builtin .str))).text
          "a number")) ∧
      Mismatched .empty (.list (numbersOr (.list (.builtin .str))))
        (.array [.array [.string "a"], .number (.int 5)]) ["1"]
        (numbersOr (.list (.builtin .str))).text "a number" := by
  have hrefused : ∀ b, decode .empty (.list (.builtin b)) (.number (.int 5))
      = mismatch (.list (.builtin b)) (.number (.int 5)) :=
    fun b => decode_list_refused fun items => nofun
  refine ⟨decode_texts ["0"], ?_, ?_⟩
  · exact decode_pair_of_error (decode_texts ["0"])
      (decode_number (fun trail => by rw [hrefused]) ["1", "0"])
  · -- the list of texts is read, and the number is refused as a list of either kind
    have htexts : Reads .empty (numbersOr (.list (.builtin .str))) (.array [.string "a"])
        (.list [.str "a"]) := fun trail => congrArg Prod.fst (decode_texts trail)
    have hnumber : Refused .empty (numbersOr (.list (.builtin .str))) (.number (.int 5))
        (numbersOr (.list (.builtin .str))).text := by
      refine .union fun member hmember => ?_
      obtain ⟨b, rfl⟩ : ∃ b, member = .list (.builtin b) := by
        simp only [List.mem_cons, List.not_mem_nil, or_false] at hmember
        rcases hmember with rfl | rfl
        · exact ⟨.int, rfl⟩
        · exact ⟨.str, rfl⟩
      rw [hrefused]
      exact fails_mismatch _ _
    have hitems : [Json.array [.string "a"], .number (.int 5)]
        = [.array [.string "a"]] ++ .number (.int 5) :: [] := rfl
    exact .part (.listItem hitems (List.forall_mem_singleton.mpr ⟨_, htexts⟩)) (.here hnumber)

end ObjectMapping.Decoding
