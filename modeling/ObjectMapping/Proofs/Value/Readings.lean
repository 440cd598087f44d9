import ObjectMapping.Proofs.Value.Admission
import ObjectMapping.Proofs.Value.Steadiness

/-! # What a reading tells

A value that is read for a type tells what the document looks like and how its parts are read. These
are the converses of the rules by which values are read.

* `Decoding.Gives`: a value that a computation may have; sequences are taken apart by it.
* `Reads.list_inv` and its like: what is read for a type of each shape, and from what document.
* `ReadsKey.inv`: a key is read from a string, or from the document that the string is the text of.
* **`Decoding.ReadsMembers`** — the arguments that are read from the members of an object. -/

namespace ObjectMapping.Decoding

variable {α β : Type}

/-! ## Outcomes -/

/-- The computation has the value, whatever it is that has been entered before. -/
def Gives (d : Decoding α) (a : α) : Prop := ∃ trail, (d trail).1 = .ok a

/-- What is read whatever has been entered is read. -/
theorem Yields.gives {d : Decoding α} {a : α} (h : Yields d a) : Gives d a := ⟨[], h []⟩

/-- A steady computation has one value at most. -/
theorem Gives.yields {d : Decoding α} {a : α} (h : Gives d a) (hsteady : Steady d) : Yields d a := by
  obtain ⟨trail, hvalue⟩ := h
  exact hsteady.yields hvalue

/-- What a computation reads comes from what is read before. -/
theorem Gives.bind_inv {d : Decoding α} {f : α → Decoding β} {b : β} (h : Gives (d >>= f) b) :
    ∃ a, Gives d a ∧ Gives (f a) b := by
  obtain ⟨trail, hb⟩ := h
  rw [bind_apply] at hb
  cases hvalue : (d trail).1 with
  | ok a =>
    rw [hvalue] at hb
    exact ⟨a, ⟨trail, hvalue⟩, _, hb⟩
  | error e =>
    rw [hvalue] at hb
    cases hb

/-- What is returned is all that is read. -/
theorem Gives.pure_inv {a b : α} (h : Gives (pure a : Decoding α) b) : b = a := by
  obtain ⟨trail, hvalue⟩ := h
  exact (Except.ok.inj hvalue).symm

/-- The outcome is all that is read. -/
theorem Gives.lift_inv {outcome : Except Error α} {a : α} (h : Gives (lift outcome) a) :
    outcome = .ok a := by
  obtain ⟨trail, hvalue⟩ := h
  exact hvalue

/-- A mismatch reads nothing. -/
theorem not_gives_mismatch (expected : FieldType) (document : Json) (a : α) :
    ¬ Gives (mismatch expected document : Decoding α) a := by
  rintro ⟨trail, hvalue⟩
  cases hvalue

/-- What is read after a place was entered and left comes from what is read there. -/
theorem Gives.entered_inv {step : String} {d : Decoding α} {f : α → Decoding β} {b : β}
    (h : Gives (enter step >>= fun _ => d >>= fun a => leave >>= fun _ => f a) b) :
    ∃ a, Gives d a ∧ Gives (f a) b := by
  obtain ⟨_, -, hpart⟩ := h.bind_inv
  obtain ⟨a, ha, hleave⟩ := hpart.bind_inv
  obtain ⟨_, -, hrest⟩ := hleave.bind_inv
  exact ⟨a, ha, hrest⟩

/-- What is tried succeeds, or it fails and something else is done. -/
theorem Gives.attempt_inv {d : Decoding α} {f : Except Error α → Decoding β} {b : β}
    (h : Gives (attempt d >>= f) b) (hsteady : Steady d) :
    (∃ a, Yields d a ∧ Gives (f (.ok a)) b) ∨ (Fails d ∧ ∃ e, Gives (f (.error e)) b) := by
  obtain ⟨trail, hb⟩ := h
  -- a failed attempt leaves its steps in the trail, so what follows starts from another one
  have hstep : (attempt d >>= f) trail = f (d trail).1 (d trail).2 := rfl
  rw [hstep] at hb
  cases hvalue : (d trail).1 with
  | ok a =>
    rw [hvalue] at hb
    exact .inl ⟨a, hsteady.yields hvalue, _, hb⟩
  | error e =>
    rw [hvalue] at hb
    exact .inr ⟨hsteady.fails hvalue, e, _, hb⟩

/-! ## Parts -/

variable {classes : ClassTable} {type key value : FieldType} {document : Json} {v : Value}

/-- A document is read as what decoding gives for some trail. -/
theorem Gives.reads (h : Gives (decode classes type document) v) : Reads classes type document v :=
  h.yields (steady_decode classes type document)

/-- What is read once is read whatever has been entered before. -/
theorem reads_of_decode_eq (h : Value.decode classes type document = .ok v) :
    Reads classes type document v :=
  Gives.reads ⟨[], h⟩

/-- Items that are decoded are read one by one. -/
theorem reads_of_decodeItems {items : List Json} {position : Nat} {values : List Value}
    (h : Gives (decodeItems classes type position items) values) :
    List.Forall₂ (Reads classes type) items values := by
  induction items generalizing position values with
  | nil =>
    rw [decodeItems] at h
    obtain rfl := h.pure_inv
    exact .nil
  | cons item rest ih =>
    rw [decodeItems] at h
    obtain ⟨v, hv, hrest⟩ := h.entered_inv
    obtain ⟨others, hothers, hcons⟩ := hrest.bind_inv
    obtain rfl := hcons.pure_inv
    exact .cons hv.reads (ih hothers)

/-- Positions that are decoded are read one by one. -/
theorem reads_of_decodeEach {types : List FieldType} {items : List Json} {position : Nat}
    {values : List Value} (hlength : types.length = items.length)
    (h : Gives (decodeEach classes position types items) values) :
    List.Forall₂ (fun (entry : FieldType × Json) v => Reads classes entry.1 entry.2 v)
      (types.zip items) values := by
  induction types generalizing items position values with
  | nil =>
    rw [decodeEach] at h
    · obtain rfl := h.pure_inv
      exact .nil
    · simp
  | cons type types ih =>
    cases items with
    | nil => cases hlength
    | cons item items =>
      rw [decodeEach] at h
      obtain ⟨v, hv, hrest⟩ := h.entered_inv
      obtain ⟨others, hothers, hcons⟩ := hrest.bind_inv
      obtain rfl := hcons.pure_inv
      exact .cons hv.reads (ih (Nat.succ.inj hlength) hothers)

/-- A union is read as its first member that accepts the document. -/
theorem reads_of_decodeFirst {union : FieldType} {members : List FieldType}
    (h : Gives (decodeFirst classes union members document) v) :
    ∃ before member after, members = before ++ member :: after ∧
      (∀ other ∈ before, Fails (decode classes other document)) ∧
      Reads classes member document v := by
  induction members with
  | nil =>
    rw [decodeFirst] at h
    exact absurd h (not_gives_mismatch _ _ _)
  | cons member rest ih =>
    rw [decodeFirst] at h
    rcases h.attempt_inv (steady_decode classes member document) with
      ⟨a, ha, hpure⟩ | ⟨hfails, e, hrest⟩
    · obtain rfl := hpure.pure_inv
      exact ⟨[], member, rest, rfl, List.forall_mem_nil _, ha⟩
    · obtain ⟨before, found, after, rfl, hbefore, hfound⟩ := ih hrest
      exact ⟨member :: before, found, after, rfl, List.forall_mem_cons.mpr ⟨hfails, hbefore⟩, hfound⟩

/-- A key is read from the member name as a string, or else from the document of which it is the
text. -/
theorem ReadsKey.inv {name : String} (h : ReadsKey classes key name v) :
    Reads classes key (.string name) v ∨
      Fails (decode classes key (.string name)) ∧
        ∃ parsed, Json.ofText name = .ok parsed ∧ Reads classes key parsed v := by
  -- a key is read in the same way whatever the document that it would be reported with
  have hgives := (h .null).gives
  rw [decodeKey] at hgives
  rcases hgives.attempt_inv (steady_decode classes key (.string name)) with
    ⟨a, ha, hpure⟩ | ⟨hfails, e, hrest⟩
  · obtain rfl := hpure.pure_inv
    exact .inl ha
  · refine .inr ⟨hfails, ?_⟩
    dsimp only at hrest
    split at hrest
    · exact absurd hrest (not_gives_mismatch _ _ _)
    · next parsed htext =>
      split at hrest
      · exact ⟨parsed, htext, hrest.reads⟩
      · exact absurd hrest (not_gives_mismatch _ _ _)

/-- Entries that are decoded are read one by one. -/
theorem reads_of_decodeEntries {members : List (String × Json)} {entries : List (Value × Value)}
    (h : Gives (decodeEntries classes key value document members) entries) :
    List.Forall₂ (fun (member : String × Json) (entry : Value × Value) =>
      ReadsKey classes key member.1 entry.1 ∧ Reads classes value member.2 entry.2)
      members entries := by
  induction members generalizing entries with
  | nil =>
    rw [decodeEntries] at h
    obtain rfl := h.pure_inv
    exact .nil
  | cons member rest ih =>
    obtain ⟨name, item⟩ := member
    rw [decodeEntries] at h
    obtain ⟨_, -, hentry⟩ := h.bind_inv
    obtain ⟨k, hk, hvalue⟩ := hentry.bind_inv
    obtain ⟨v, hv, hleave⟩ := hvalue.bind_inv
    obtain ⟨_, -, hrest⟩ := hleave.bind_inv
    obtain ⟨others, hothers, hcons⟩ := hrest.bind_inv
    obtain rfl := hcons.pure_inv
    have hkey := readsKey_of_yields (hk.yields (steady_readKey classes key document name))
    exact .cons ⟨hkey, hv.reads⟩ (ih hothers)

/-- **The arguments that are read from the members of an object**: each under the name of its member,
and read for the first field that is accepted under this name, if there is one. -/
def ReadsMembers (classes : ClassTable) (c : Class) (members : List (String × Json))
    (args : Arguments) : Prop :=
  List.Forall₂ (fun (member : String × Json) (arg : String × Value) =>
    arg.1 = member.1 ∧
      ∀ slot, slotFor? c member.1 = some slot → Reads classes slot.type member.2 arg.2) members args

/-- Arguments that are decoded are read from the members that a slot takes. -/
theorem readsMembers_of_decodeArguments {c : Class} {members : List (String × Json)}
    {args : Arguments} (h : Gives (decodeArguments classes c members) args) :
    ReadsMembers classes c members args := by
  -- on the members; one that no slot takes has nothing to be read by
  induction members generalizing args with
  | nil =>
    rw [decodeArguments] at h
    obtain rfl := h.pure_inv
    exact .nil
  | cons member rest ih =>
    obtain ⟨name, item⟩ := member
    rw [decodeArguments] at h
    cases hslot : slotFor? c name with
    | none =>
      rw [hslot] at h
      obtain ⟨v, -, hrest⟩ := h.bind_inv
      obtain ⟨others, hothers, hcons⟩ := hrest.bind_inv
      obtain rfl := hcons.pure_inv
      refine .cons ⟨rfl, fun slot hfound => ?_⟩ (ih hothers)
      rw [hslot] at hfound
      cases hfound
    | some found =>
      rw [hslot] at h
      obtain ⟨v, hv, hvalue⟩ := h.entered_inv
      obtain ⟨given, hgiven, hrest⟩ := hvalue.bind_inv
      obtain rfl : given = v := hgiven.pure_inv
      obtain ⟨others, hothers, hcons⟩ := hrest.bind_inv
      obtain rfl := hcons.pure_inv
      refine .cons ⟨rfl, fun slot hfound => ?_⟩ (ih hothers)
      rw [hslot] at hfound
      obtain rfl := Option.some.inj hfound
      exact hv.reads

/-! ## Types -/

/-- Any document is read as it stands for any type. -/
theorem Reads.any_inv (h : Reads classes .any document v) : v = .ofJson document := by
  have hgives := Yields.gives h
  rw [decode] at hgives
  exact hgives.pure_inv

/-- A document that is read as an optional type is null or is read as the type inside. -/
theorem Reads.optional_inv (h : Reads classes (.optional type) document v) :
    document = .null ∧ v = .none ∨ Reads classes type document v := by
  by_cases hnull : document = .null
  · subst hnull
    have hgives := Yields.gives h
    rw [decode] at hgives
    exact .inl ⟨rfl, hgives.pure_inv⟩
  · rw [Reads, decode] at h
    · exact .inr h
    · exact hnull

/-- A document that is read as a union is read as a member, and not as one in front of it. -/
theorem Reads.union_inv {members : List FieldType}
    (h : Reads classes (.union members) document v) :
    ∃ before member after, members = before ++ member :: after ∧
      (∀ other ∈ before, Fails (decode classes other document)) ∧
      Reads classes member document v := by
  have hgives := Yields.gives h
  rw [decode] at hgives
  exact reads_of_decodeFirst hgives

/-- A document that is read as a list is an array, item by item. -/
theorem Reads.list_inv (h : Reads classes (.list type) document v) :
    ∃ items values, document = .array items ∧ v = .list values ∧
      List.Forall₂ (Reads classes type) items values := by
  have hgives := Yields.gives h
  cases document with
  | array items =>
    rw [decode] at hgives
    obtain ⟨values, hvalues, hlist⟩ := hgives.bind_inv
    exact ⟨items, values, rfl, hlist.pure_inv, reads_of_decodeItems hvalues⟩
  | _ =>
    rw [decode] at hgives
    all_goals simp [not_gives_mismatch] at hgives ⊢

/-- A document that is read as a set is an array, item by item. -/
theorem Reads.set_inv (h : Reads classes (.set type) document v) :
    ∃ items values, document = .array items ∧ v = .set (Keyed.distinct values) ∧
      List.Forall₂ (Reads classes type) items values := by
  have hgives := Yields.gives h
  cases document with
  | array items =>
    rw [decode] at hgives
    obtain ⟨values, hvalues, hset⟩ := hgives.bind_inv
    exact ⟨items, values, rfl, hset.pure_inv, reads_of_decodeItems hvalues⟩
  | _ =>
    rw [decode] at hgives
    all_goals simp [not_gives_mismatch] at hgives ⊢

/-- A document that is read as a tuple is an array of the same length, position by position. -/
theorem Reads.tuple_inv {types : List FieldType} (h : Reads classes (.tuple types) document v) :
    ∃ items values, document = .array items ∧ v = .tuple values ∧ types.length = items.length ∧
      List.Forall₂ (fun (entry : FieldType × Json) v => Reads classes entry.1 entry.2 v)
        (types.zip items) values := by
  have hgives := Yields.gives h
  cases document with
  | array items =>
    rw [decode] at hgives
    split at hgives
    · next hlength =>
      have hlength' : types.length = items.length := (beq_iff_eq.mp hlength).symm
      obtain ⟨values, hvalues, htuple⟩ := hgives.bind_inv
      exact ⟨items, values, rfl, htuple.pure_inv, hlength', reads_of_decodeEach hlength' hvalues⟩
    · exact absurd hgives (not_gives_mismatch _ _ _)
  | _ =>
    rw [decode] at hgives
    all_goals simp [not_gives_mismatch] at hgives ⊢

/-- A document that is read as a dictionary is an object, member by member. -/
theorem Reads.dict_inv (h : Reads classes (.dict key value) document v) :
    ∃ members entries, document = .object members ∧ v = .dict (Keyed.ofList entries) ∧
      List.Forall₂ (fun (member : String × Json) (entry : Value × Value) =>
        ReadsKey classes key member.1 entry.1 ∧ Reads classes value member.2 entry.2)
        members entries := by
  have hgives := Yields.gives h
  cases document with
  | object members =>
    rw [decode] at hgives
    obtain ⟨entries, hentries, hdict⟩ := hgives.bind_inv
    exact ⟨members, entries, rfl, hdict.pure_inv, reads_of_decodeEntries hentries⟩
  | _ =>
    rw [decode] at hgives
    all_goals simp [not_gives_mismatch] at hgives ⊢

/-- A document is read as a builtin class, as a member of an enum, or as an object of a class. -/
theorem Reads.named_inv {handle : ClassHandle} (h : Reads classes (.named handle) document v) :
    (∃ b, handle.builtin? = some b ∧ scalar? b document = some v) ∨
    (∃ e name, classes.enumFor? handle = some e ∧ document = .string name ∧ name ∈ e.members ∧
      v = .member e.handle name) ∨
    ∃ c members args, classes.classFor? handle = some c ∧ document = .object members ∧
      ReadsMembers classes c members args ∧ c.construct .validating args = .ok v := by
  have hgives := Yields.gives h
  rw [decode] at hgives
  -- a builtin class, an enum and a class are tried in this order
  split at hgives
  · next b hb =>
    split at hgives
    · next w hw =>
      obtain rfl := hgives.pure_inv
      exact .inl ⟨b, hb, hw⟩
    · exact absurd hgives (not_gives_mismatch _ _ _)
  next hbuiltin =>
  split at hgives
  · next e he =>
    split at hgives
    · next name =>
      have hmember : e.member name = .ok v := hgives.lift_inv
      rw [Enumeration.member] at hmember
      split at hmember
      · next hname =>
        refine .inr (.inl ⟨e, name, ?_, rfl, List.contains_iff_mem.mp hname,
          (Except.ok.inj hmember).symm⟩)
        rw [ClassTable.enumFor?, hbuiltin]
        exact he
      · cases hmember
    · exact absurd hgives (not_gives_mismatch _ _ _)
  next henum =>
  split at hgives
  · obtain ⟨_, hthrow⟩ := hgives
    cases hthrow
  next c hc =>
  split at hgives
  · next members =>
    obtain ⟨args, hargs, hconstruct⟩ := hgives.bind_inv
    refine .inr (.inr ⟨c, members, args, ?_, rfl, readsMembers_of_decodeArguments hargs,
      hconstruct.lift_inv⟩)
    rw [ClassTable.classFor?, hbuiltin, henum]
    exact hc
  · exact absurd hgives (not_gives_mismatch _ _ _)

end ObjectMapping.Decoding
