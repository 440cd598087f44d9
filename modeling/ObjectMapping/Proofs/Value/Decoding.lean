import Mathlib.Data.List.Forall2
import ObjectMapping.Proofs.Outcome
import ObjectMapping.Value.Decoding

/-! # What decoders yield

A decoder keeps a trail for its messages, and what it reads does not depend on the trail. The rules
here say what is read from a document of each shape, given what is read from its parts.

* `Decoding.Yields`, `Decoding.Fails`: the outcome of a computation, whatever the trail.
* **`Decoding.Reads`** — the value that is read from a document for a type, with a rule for each
  type.
* **`Decoding.ReadsKey`** — the key that is read from a member name. -/

namespace ObjectMapping.Decoding

variable {α β : Type}

/-! ## Outcomes -/

/-- The computation gives the value, whatever has been entered before. -/
def Yields (d : Decoding α) (a : α) : Prop := ∀ trail, (d trail).1 = .ok a

/-- The computation fails, whatever has been entered before. -/
def Fails (d : Decoding α) : Prop := ∀ trail, ∃ e, (d trail).1 = .error e

/-- What follows a computation goes on from the trail that it leaves. -/
theorem bind_apply (d : Decoding α) (f : α → Decoding β) (trail : Trail) :
    (d >>= f) trail = ExceptT.bindCont f (d trail).1 (d trail).2 := rfl

/-- What is returned is what is read. -/
theorem yields_pure (a : α) : Yields (pure a : Decoding α) a := fun _ => rfl

/-- A computation goes on with what is read before it. -/
theorem Yields.bind {d : Decoding α} {f : α → Decoding β} {a : α} {b : β} (hd : Yields d a)
    (hf : Yields (f a) b) : Yields (d >>= f) b := by
  intro trail
  rw [bind_apply, hd trail]
  exact hf _

/-- Entering a place reads nothing. -/
theorem yields_enter (step : String) : Yields (enter step) () := fun _ => rfl

/-- Leaving a place reads nothing. -/
theorem yields_leave : Yields leave () := fun _ => rfl

/-- A successful outcome is what is read. -/
theorem yields_lift {outcome : Except Error α} {a : α} (h : outcome = .ok a) :
    Yields (lift outcome) a := fun _ => h

/-- An attempt reads a success as such. -/
theorem Yields.attempt {d : Decoding α} {a : α} (h : Yields d a) :
    Yields (Decoding.attempt d) (.ok a) := by
  intro trail
  show Except.ok (d trail).1 = _
  rw [h trail]

/-- What is done about a failure decides, where a computation fails. -/
theorem Fails.bind_attempt {d : Decoding α} {f : Except Error α → Decoding β} {b : β} (h : Fails d)
    (hf : ∀ e, Yields (f (.error e)) b) : Yields (Decoding.attempt d >>= f) b := by
  intro trail
  obtain ⟨e, he⟩ := h trail
  rw [bind_apply]
  show (f (d trail).1 (d trail).2).1 = _
  rw [he]
  exact hf e _

/-- A mismatch fails. -/
theorem fails_mismatch (expected : FieldType) (document : Json) :
    Fails (mismatch expected document : Decoding α) := fun _ => ⟨_, rfl⟩

/-! ## Values -/

/-- **The value that is read from a document for a type.** -/
def Reads (classes : ClassTable) (type : FieldType) (document : Json) (v : Value) : Prop :=
  Yields (decode classes type document) v

variable {classes : ClassTable} {type : FieldType} {document : Json} {v : Value}

/-- What a document is read as is its decoded value. -/
theorem Reads.decode_eq (h : Reads classes type document v) :
    Value.decode classes type document = .ok v := h []

/-- The null document is read as the absent value. -/
theorem reads_null (inner : FieldType) : Reads classes (.optional inner) .null .none := by
  rw [Reads, decode]
  exact yields_pure _

/-- A document that is not null is read as the type inside an optional one. -/
theorem Reads.optional (h : Reads classes type document v) (hdocument : document ≠ .null) :
    Reads classes (.optional type) document v := by
  rw [Reads, decode]
  · exact h
  · exact hdocument

/-- A scalar of the right kind is read as a builtin value. -/
theorem reads_builtin {handle : ClassHandle} {b : Builtin} (hhandle : handle.builtin? = some b)
    (hvalue : scalar? b document = some v) : Reads classes (.named handle) document v := by
  rw [Reads, decode, hhandle]
  dsimp only
  rw [hvalue]
  exact yields_pure _

/-- Any other document is not read as a builtin value. -/
theorem fails_builtin {handle : ClassHandle} {b : Builtin} (hhandle : handle.builtin? = some b)
    (hvalue : scalar? b document = none) : Fails (decode classes (.named handle) document) := by
  rw [decode, hhandle]
  dsimp only
  rw [hvalue]
  exact fails_mismatch _ _

/-- The name of a member is read as the member. -/
theorem reads_member {handle : ClassHandle} {e : Enumeration} {name : String}
    (hbuiltin : handle.builtin? = none) (henum : classes.enumOf? handle = some e)
    (hname : name ∈ e.members) :
    Reads classes (.named handle) (.string name) (.member e.handle name) := by
  rw [Reads, decode, hbuiltin, henum]
  exact yields_lift (if_pos (List.contains_iff_mem.mpr hname))

/-- The items of an array are read one by one. -/
theorem yields_decodeItems {items : List Json} {values : List Value}
    (h : List.Forall₂ (Reads classes type) items values) (position : Nat) :
    Yields (decodeItems classes type position items) values := by
  induction h generalizing position with
  | nil =>
    rw [decodeItems]
    exact yields_pure _
  | cons hitem _ ih =>
    rw [decodeItems]
    exact (yields_enter _).bind (hitem.bind (yields_leave.bind ((ih _).bind (yields_pure _))))

/-- A list is read item by item. -/
theorem reads_list {items : List Json} {values : List Value}
    (h : List.Forall₂ (Reads classes type) items values) :
    Reads classes (.list type) (.array items) (.list values) := by
  rw [Reads, decode]
  exact (yields_decodeItems h 0).bind (yields_pure _)

/-- A set is read item by item, without repetitions. -/
theorem reads_set {items : List Json} {values : List Value}
    (h : List.Forall₂ (Reads classes type) items values) :
    Reads classes (.set type) (.array items) (.set (Keyed.distinct values)) := by
  rw [Reads, decode]
  exact (yields_decodeItems h 0).bind (yields_pure _)

/-- The positions of a tuple are read one by one. -/
theorem yields_decodeEach {types : List FieldType} {items : List Json} {values : List Value}
    (hlength : types.length = items.length)
    (h : List.Forall₂ (fun (entry : FieldType × Json) v => Reads classes entry.1 entry.2 v)
      (types.zip items) values) (position : Nat) :
    Yields (decodeEach classes position types items) values := by
  induction types generalizing items values position with
  | nil =>
    cases h
    rw [decodeEach]
    · exact yields_pure _
    · simp
  | cons type types ih =>
    cases items with
    | nil => cases hlength
    | cons item items =>
      rw [List.zip_cons_cons] at h
      cases h with
      | cons hitem hrest =>
        rw [decodeEach]
        exact (yields_enter _).bind (hitem.bind (yields_leave.bind
          ((ih (Nat.succ.inj hlength) hrest _).bind (yields_pure _))))

/-- A tuple is read position by position. -/
theorem reads_tuple {types : List FieldType} {items : List Json} {values : List Value}
    (hlength : types.length = items.length)
    (h : List.Forall₂ (fun (entry : FieldType × Json) v => Reads classes entry.1 entry.2 v)
      (types.zip items) values) :
    Reads classes (.tuple types) (.array items) (.tuple values) := by
  rw [Reads, decode, if_pos (beq_iff_eq.mpr hlength.symm)]
  exact (yields_decodeEach hlength h 0).bind (yields_pure _)

/-- Members of a union are tried up to the first one that is read. -/
theorem yields_decodeFirst {union member : FieldType} {before after : List FieldType}
    (hbefore : ∀ other ∈ before, Fails (decode classes other document))
    (h : Reads classes member document v) :
    Yields (decodeFirst classes union (before ++ member :: after) document) v := by
  induction before with
  | nil =>
    rw [List.nil_append, decodeFirst]
    exact h.attempt.bind (yields_pure _)
  | cons first before ih =>
    obtain ⟨hfirst, hrest⟩ := List.forall_mem_cons.mp hbefore
    rw [List.cons_append, decodeFirst]
    exact hfirst.bind_attempt fun _ => ih hrest

/-- A document is read as the first member of a union that it can be read as. -/
theorem reads_union {member : FieldType} {before after : List FieldType}
    (hbefore : ∀ other ∈ before, Fails (decode classes other document))
    (h : Reads classes member document v) :
    Reads classes (.union (before ++ member :: after)) document v := by
  rw [Reads, decode]
  exact yields_decodeFirst hbefore h

/-! ## Dictionaries -/

/-- **The key that is read from a member name**, whatever document the member is in. -/
def ReadsKey (classes : ClassTable) (type : FieldType) (name : String) (key : Value) : Prop :=
  ∀ document, Yields (decodeKey classes type document name) key

/-- A name that is accepted as a string is the key. -/
theorem Reads.key {name : String} (h : Reads classes type (.string name) v) :
    ReadsKey classes type name v := by
  intro document
  rw [decodeKey]
  exact h.attempt.bind (yields_pure _)

/-- The members of an object are read as entries one by one. -/
theorem yields_decodeEntries {key value : FieldType} {members : List (String × Json)}
    {entries : List (Value × Value)}
    (h : List.Forall₂ (fun (member : String × Json) (entry : Value × Value) =>
      ReadsKey classes key member.1 entry.1 ∧ Reads classes value member.2 entry.2)
      members entries) :
    Yields (decodeEntries classes key value document members) entries := by
  induction h with
  | nil =>
    rw [decodeEntries]
    exact yields_pure _
  | cons hentry _ ih =>
    rw [decodeEntries]
    exact (yields_enter _).bind ((hentry.1 _).bind (hentry.2.bind (yields_leave.bind
      (ih.bind (yields_pure _)))))

/-- A dictionary is read member by member, and the last one under a key counts. -/
theorem reads_dict {key value : FieldType} {members : List (String × Json)}
    {entries : List (Value × Value)}
    (h : List.Forall₂ (fun (member : String × Json) (entry : Value × Value) =>
      ReadsKey classes key member.1 entry.1 ∧ Reads classes value member.2 entry.2)
      members entries) :
    Reads classes (.dict key value) (.object members) (.dict (Keyed.ofList entries)) := by
  rw [Reads, decode]
  exact (yields_decodeEntries h).bind (yields_pure _)

/-! ## Objects -/

/-- The argument that is read from a member of an object, for a field that the constructor accepts
under its name. -/
def ReadsArgument (classes : ClassTable) (c : Class) (member : String × Json)
    (arg : String × Value) : Prop :=
  arg.1 = member.1 ∧
    ∃ slot, slotFor? c member.1 = some slot ∧ Reads classes slot.type member.2 arg.2

/-- The members of an object are read as arguments one by one. -/
theorem yields_decodeArguments {c : Class} {members : List (String × Json)} {args : Arguments}
    (h : List.Forall₂ (ReadsArgument classes c) members args) :
    Yields (decodeArguments classes c members) args := by
  induction h with
  | nil =>
    rw [decodeArguments]
    exact yields_pure _
  | @cons member arg _ _ hmember _ ih =>
    obtain ⟨hname, slot, hslot, hvalue⟩ := hmember
    rw [decodeArguments, hslot, ← hname]
    exact (yields_enter _).bind (hvalue.bind (yields_leave.bind ((yields_pure arg.2).bind
      (ih.bind (yields_pure (arg :: _))))))

/-- An object is constructed from the arguments that its members are read as. -/
theorem reads_object {handle : ClassHandle} {c : Class} {members : List (String × Json)}
    {args : Arguments} (hbuiltin : handle.builtin? = none) (henum : classes.enumOf? handle = none)
    (hclass : classes.classOf? handle = some c)
    (hargs : List.Forall₂ (ReadsArgument classes c) members args)
    (hconstruct : c.construct .validating args = .ok v) :
    Reads classes (.named handle) (.object members) v := by
  rw [Reads, decode, hbuiltin, henum, hclass]
  exact (yields_decodeArguments hargs).bind (yields_lift hconstruct)

end ObjectMapping.Decoding
