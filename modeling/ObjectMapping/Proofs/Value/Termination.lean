import ObjectMapping.Proofs.Json.Legible
import ObjectMapping.Proofs.Keyed
import ObjectMapping.Proofs.Value.Steadiness

/-! # Readings come to an end

An object of a class is read as the types of its fields, and these may be larger than the class and
lead back to it. The name of a member may be read once more as the text of a document, and this
document is no part of the object. So neither the types nor the documents become smaller on the way
by themselves.

The recursion of the decoder is written down here without any check of sizes: as a step that leaves
it open how the parts of a document are read, and which can be repeated.

* `Decoding.Partial`: computations that need not come to an end.
* **`Decoding.decodeWith`** — the step; `Decoding.decodeWithin` repeats it a number of times.
* **`Decoding.TurnsTo`** — the readings that a reading turns to. By `Decoding.decodeWith_eq` there
  are no others.
* `Decoding.levels`: the measure. It counts the names of members with their lengths, since what a name
  is the text of is no larger than the name.
* **`Decoding.wellFounded_turnsTo`**, **`Decoding.decodeWithin_eq`** — readings nest no deeper than
  their levels, and the step repeated as often reads what the decoder reads. -/

namespace ObjectMapping

/-! ## Heights of types -/

namespace FieldType

mutual

/-- How deep a type goes before it comes to classes. -/
def height : FieldType → Nat
  | named _ | any => 0
  | optional inner => height inner + 1
  | union members => heightAll members + 1
  | list item | set item => height item + 1
  | dict key value => max (height key) (height value) + 1
  | tuple items => heightAll items + 1

/-- The height of the highest type of a list. -/
def heightAll : List FieldType → Nat
  | [] => 0
  | type :: rest => max (height type) (heightAll rest)

end

/-- Types are as high as the highest of them. -/
theorem heightAll_le_iff {types : List FieldType} {n : Nat} :
    heightAll types ≤ n ↔ ∀ type ∈ types, type.height ≤ n := by
  induction types with
  | nil => simp [heightAll]
  | cons type rest ih => simp only [heightAll, Nat.max_le, ih, List.mem_cons, forall_eq_or_imp]

/-- A type in a list is no higher than the list of them. -/
theorem height_le_heightAll {types : List FieldType} {type : FieldType} (h : type ∈ types) :
    type.height ≤ heightAll types :=
  heightAll_le_iff.mp (Nat.le_refl _) type h

end FieldType

/-- The height of the highest type of a field. -/
def Class.fieldHeight (c : Class) : Nat := FieldType.heightAll (c.slots.map (·.type))

/-- The height of the highest type of a field of any class. -/
def ClassTable.fieldHeight (classes : ClassTable) : Nat :=
  FieldType.heightAll (classes.classes.flatMap fun entry => entry.2.slots.map (·.type))

/-- The fields of a class are no higher than those of all classes. -/
theorem ClassTable.fieldHeight_le {classes : ClassTable} {handle : ClassHandle} {c : Class}
    (h : classes.classOf? handle = some c) : c.fieldHeight ≤ classes.fieldHeight := by
  apply FieldType.heightAll_le_iff.mpr
  intro type htype
  apply FieldType.height_le_heightAll
  exact List.mem_flatMap.mpr ⟨_, Keyed.mem_of_lookup h, htype⟩

namespace Decoding

/-! ## The recursion of a decoder -/

/-- A computation that keeps a trail, may fail, and need not come to an end. -/
abbrev Partial := ExceptT Error (StateT Trail Option)

/-- A computation that has come to its end. -/
def finished {α : Type} (d : Decoding α) : Partial α := fun trail => some (d trail)

/-- The outcome of a computation as a value, if the computation comes to an end. -/
def tried {α : Type} (d : Partial α) : Partial (Except Error α) := fun trail =>
  (d trail).map fun (outcome, left) => (.ok outcome, left)

section Step

-- how a part is read as a type
variable (read : FieldType → Json → Partial Value)

/-- Reads a document as the first type that accepts it. -/
def firstWith (union : FieldType) (document : Json) : List FieldType → Partial Value
  | [] => finished (mismatch union document)
  | member :: rest => do
      match ← tried (read member document) with
      | .ok value => return value
      | .error _ => firstWith union document rest

/-- Reads all items of an array as one type. -/
def itemsWith (type : FieldType) : Nat → List Json → Partial (List Value)
  | _, [] => return []
  | position, item :: rest => do
      finished (enter (toString position))
      let value ← read type item
      finished leave
      return value :: (← itemsWith type (position + 1) rest)

/-- Reads each item of an array as its own type. -/
def eachWith : Nat → List FieldType → List Json → Partial (List Value)
  | position, type :: types, item :: items => do
      finished (enter (toString position))
      let value ← read type item
      finished leave
      return value :: (← eachWith (position + 1) types items)
  | _, _, _ => return []

/-- Reads a member name as a string or as the text of a document, however large the document is. -/
def keyWith (key : FieldType) (document : Json) (name : String) : Partial Value := do
  match ← tried (read key (.string name)) with
  | .ok value => return value
  | .error _ =>
      match Json.ofText name with
      | .error _ => finished (mismatch key document)
      | .ok parsed => read key parsed

/-- Reads the members of an object as entries of a dictionary. -/
def entriesWith (key value : FieldType) (document : Json) :
    List (String × Json) → Partial (List (Value × Value))
  | [] => return []
  | (name, item) :: rest => do
      finished (enter name)
      let k ← keyWith read key document name
      let v ← read value item
      finished leave
      return (k, v) :: (← entriesWith key value document rest)

/-- Reads the members of an object as arguments of a constructor. -/
def argumentsWith (c : Class) : List (String × Json) → Partial Arguments
  | [] => return []
  | (name, item) :: rest => do
      let value ←
        match slotFor? c name with
        | none => pure (Value.ofJson item)
        | some slot => do
            finished (enter name)
            let value ← read slot.type item
            finished leave
            pure value
      return (name, value) :: (← argumentsWith c rest)

/-- Reads an object of a class. -/
def objectWith (c : Class) : Json → Partial Value
  | .object members => do
      finished (lift (c.construct .validating (← argumentsWith read c members)))
  | document => finished (mismatch (.named c.handle) document)

/-- **One step of a decoder**, after which the parts of the document are read by `read`. -/
def decodeWith (classes : ClassTable) (type : FieldType) (document : Json) : Partial Value :=
  match type, document with
  | .any, document => return .ofJson document
  | .optional _, .null => return .none
  | .optional inner, document => read inner document
  | .union members, document => firstWith read type document members
  | .list item, .array items => do return .list (← itemsWith read item 0 items)
  | .set item, .array items => do return .set (Keyed.distinct (← itemsWith read item 0 items))
  | .tuple types, .array items =>
      if items.length == types.length then do return .tuple (← eachWith read 0 types items)
      else finished (mismatch type document)
  | .dict key value, .object members => do
      return .dict (Keyed.ofList (← entriesWith read key value document members))
  | .named handle, document =>
      match handle.builtin? with
      | some builtin =>
          match scalar? builtin document with
          | some value => return value
          | none => finished (mismatch type document)
      | none =>
          match classes.enumOf? handle with
          | some e =>
              match document with
              | .string name => finished (lift (e.member name))
              | _ => finished (mismatch type document)
          | none =>
              match classes.classOf? handle with
              | none => throw (.schema (.undefinedClass handle.name))
              | some c => objectWith read c document
  | _, _ => finished (mismatch type document)

end Step

/-- The step repeated, without an end where it would have to be repeated more often. -/
def decodeWithin (classes : ClassTable) : Nat → FieldType → Json → Partial Value
  | 0 => fun _ _ _ => none
  | depth + 1 => decodeWith (decodeWithin classes depth) classes

/-- **The readings that a reading turns to**: parts of the document as parts of the type or as types
of fields, the same document as a part of the type, and what a member name is the text of. -/
inductive TurnsTo (classes : ClassTable) : FieldType → Json → FieldType → Json → Prop
  | optional (inner : FieldType) (document : Json) :
      TurnsTo classes (.optional inner) document inner document
  | member {members : List FieldType} {member : FieldType} (hmember : member ∈ members)
      (document : Json) : TurnsTo classes (.union members) document member document
  | listItem (type : FieldType) {items : List Json} {item : Json} (hitem : item ∈ items) :
      TurnsTo classes (.list type) (.array items) type item
  | setItem (type : FieldType) {items : List Json} {item : Json} (hitem : item ∈ items) :
      TurnsTo classes (.set type) (.array items) type item
  | tupleItem {types : List FieldType} {type : FieldType} {items : List Json} {item : Json}
      (hitem : (type, item) ∈ types.zip items) :
      TurnsTo classes (.tuple types) (.array items) type item
  | keyName (key value : FieldType) {members : List (String × Json)} {name : String} {item : Json}
      (hmember : (name, item) ∈ members) :
      TurnsTo classes (.dict key value) (.object members) key (.string name)
  | keyText (key value : FieldType) {members : List (String × Json)} {name : String}
      {item parsed : Json} (hmember : (name, item) ∈ members)
      (htext : Json.ofText name = .ok parsed) :
      TurnsTo classes (.dict key value) (.object members) key parsed
  | entry (key value : FieldType) {members : List (String × Json)} {name : String} {item : Json}
      (hmember : (name, item) ∈ members) :
      TurnsTo classes (.dict key value) (.object members) value item
  | field {handle : ClassHandle} {c : Class} {members : List (String × Json)} {name : String}
      {item : Json} {slot : Slot} (hclass : classes.classOf? handle = some c)
      (hmember : (name, item) ∈ members) (hslot : slotFor? c name = some slot) :
      TurnsTo classes (.named handle) (.object members) slot.type item

/-! ## What has come to its end -/

section Finished

variable {α β : Type}

/-- What is returned is finished. -/
@[simp] theorem finished_pure (a : α) : finished (pure a) = pure a := rfl

/-- The outcome of a finished computation is finished. -/
@[simp] theorem tried_finished (d : Decoding α) : tried (finished d) = finished (attempt d) := rfl

/-- Computations that come to an end do so one after another. -/
theorem finished_bind (d : Decoding α) (f : α → Decoding β) :
    finished (d >>= f) = finished d >>= fun a => finished (f a) := by
  funext trail
  change some (ExceptT.bindCont f (d trail).1 (d trail).2)
    = ExceptT.bindCont (m := StateT Trail Option) (fun a => finished (f a)) (d trail).1 (d trail).2
  cases (d trail).1 <;> rfl

end Finished

section Agreement

variable {read : FieldType → Json → Partial Value} {classes : ClassTable}
  {type key value : FieldType} {document : Json}

/-- Members of a union are tried to the end if each of them is. -/
theorem firstWith_eq {union : FieldType} {members : List FieldType}
    (h : ∀ member ∈ members, read member document = finished (decode classes member document)) :
    firstWith read union document members
      = finished (decodeFirst classes union members document) := by
  induction members with
  | nil => rw [firstWith, decodeFirst]
  | cons member rest ih =>
    rw [List.forall_mem_cons] at h
    rw [firstWith, decodeFirst, h.1, tried_finished, finished_bind]
    congr
    funext outcome
    cases outcome with
    | ok value => rfl
    | error e => exact ih h.2

/-- Items are decoded to the end if each of them is. -/
theorem itemsWith_eq {items : List Json}
    (h : ∀ item ∈ items, read type item = finished (decode classes type item)) (position : Nat) :
    itemsWith read type position items = finished (decodeItems classes type position items) := by
  induction items generalizing position with
  | nil => rw [itemsWith, decodeItems, finished_pure]
  | cons item rest ih =>
    rw [List.forall_mem_cons] at h
    rw [itemsWith, decodeItems]
    simp only [finished_bind, finished_pure, h.1, ih h.2]

/-- Positions are decoded to the end if each of them is. -/
theorem eachWith_eq {types : List FieldType} {items : List Json}
    (h : ∀ type item, (type, item) ∈ types.zip items →
      read type item = finished (decode classes type item)) (position : Nat) :
    eachWith read position types items = finished (decodeEach classes position types items) := by
  induction types generalizing items position with
  | nil => rw [eachWith, decodeEach, finished_pure] <;> simp
  | cons type types ih =>
    cases items with
    | nil => rw [eachWith, decodeEach, finished_pure] <;> simp
    | cons item items =>
      have hrest := ih fun type item hmem => h type item (List.mem_cons_of_mem _ hmem)
      rw [eachWith, decodeEach]
      simp only [finished_bind, finished_pure, h type item List.mem_cons_self, hrest]

/-- The document of a member name is never too large. -/
theorem keyWith_eq {name : String}
    (hname : read key (.string name) = finished (decode classes key (.string name)))
    (htext : ∀ parsed, Json.ofText name = .ok parsed →
      read key parsed = finished (decode classes key parsed)) :
    keyWith read key document name = finished (decodeKey classes key document name) := by
  rw [keyWith, decodeKey, hname, tried_finished, finished_bind]
  congr
  funext outcome
  cases outcome with
  | ok value => rfl
  | error e =>
    dsimp only
    cases hparsed : Json.ofText name with
    | error fault => rfl
    | ok parsed => simp only [htext parsed hparsed, if_pos (Json.weight_lt_of_ofText hparsed)]

/-- Entries are decoded to the end if their keys and values are. -/
theorem entriesWith_eq {members : List (String × Json)}
    (hkey : ∀ name item, (name, item) ∈ members →
      keyWith read key document name = finished (decodeKey classes key document name))
    (hvalue : ∀ name item, (name, item) ∈ members →
      read value item = finished (decode classes value item)) :
    entriesWith read key value document members
      = finished (decodeEntries classes key value document members) := by
  induction members with
  | nil => rw [entriesWith, decodeEntries, finished_pure]
  | cons member rest ih =>
    obtain ⟨name, item⟩ := member
    have hrest := ih (fun name item hmem => hkey name item (List.mem_cons_of_mem _ hmem))
      fun name item hmem => hvalue name item (List.mem_cons_of_mem _ hmem)
    rw [entriesWith, decodeEntries]
    simp only [finished_bind, finished_pure, hkey name item List.mem_cons_self,
      hvalue name item List.mem_cons_self, hrest]

/-- Arguments are decoded to the end if the members are, for the slots that take them. -/
theorem argumentsWith_eq {c : Class} {members : List (String × Json)}
    (h : ∀ name item slot, (name, item) ∈ members → slotFor? c name = some slot →
      read slot.type item = finished (decode classes slot.type item)) :
    argumentsWith read c members = finished (decodeArguments classes c members) := by
  induction members with
  | nil => rw [argumentsWith, decodeArguments, finished_pure]
  | cons member rest ih =>
    obtain ⟨name, item⟩ := member
    have hrest := ih fun name item slot hmem => h name item slot (List.mem_cons_of_mem _ hmem)
    rw [argumentsWith, decodeArguments]
    cases hslot : slotFor? c name with
    | none => simp only [finished_bind, finished_pure, hrest]
    | some slot =>
      simp only [finished_bind, finished_pure, h name item slot List.mem_cons_self hslot, hrest]

/-- An object is decoded to the end if its members are, for the slots that take them. -/
theorem objectWith_eq {c : Class}
    (h : ∀ members, document = .object members → ∀ name item slot, (name, item) ∈ members →
      slotFor? c name = some slot → read slot.type item = finished (decode classes slot.type item)) :
    objectWith read c document = finished (object classes c document) := by
  cases document with
  | object members => rw [objectWith, object, argumentsWith_eq (h members rfl), finished_bind]
  | _ => rfl

/-- **What is read is decided by the readings that it turns to.** -/
theorem decodeWith_eq
    (h : ∀ part item, TurnsTo classes type document part item →
      read part item = finished (decode classes part item)) :
    decodeWith read classes type document = finished (decode classes type document) := by
  unfold decodeWith
  split
  · rw [decode, finished_pure]
  · rw [decode, finished_pure]
  · next inner document hpresent =>
    rw [decode]
    · exact h _ _ (.optional _ _)
    · exact hpresent
  · rw [decode]
    apply firstWith_eq
    exact fun member hmember => h _ _ (.member hmember _)
  · rw [decode, itemsWith_eq fun item hitem => h _ _ (.listItem _ hitem), finished_bind]
    rfl
  · rw [decode, itemsWith_eq fun item hitem => h _ _ (.setItem _ hitem), finished_bind]
    rfl
  · rw [decode]
    split
    · rw [eachWith_eq fun type item hitem => h _ _ (.tupleItem hitem), finished_bind]
      rfl
    · rfl
  · rw [decode, entriesWith_eq ?_ ?_, finished_bind]
    · rfl
    · intro name item hmember
      apply keyWith_eq (h _ _ (.keyName _ _ hmember))
      exact fun parsed htext => h _ _ (.keyText _ _ hmember htext)
    · intro name item hmember
      exact h _ _ (.entry _ _ hmember)
  · next handle =>
    rw [decode]
    -- only a class that is neither builtin nor an enum turns to other readings
    cases handle.builtin? with
    | some b =>
      dsimp only
      cases scalar? b document <;> rfl
    | none =>
      dsimp only
      cases classes.enumOf? handle with
      | some e => cases document <;> rfl
      | none =>
        dsimp only
        cases hclass : classes.classOf? handle with
        | none => rfl
        | some c =>
          dsimp only
          have hobject : objectWith read c document = finished (object classes c document) := by
            apply objectWith_eq
            rintro members rfl name item slot hmember hslot
            exact h _ _ (.field hclass hmember hslot)
          rw [hobject]
          cases document <;> rfl
  · rw [decode]
    all_goals assumption

end Agreement

/-! ## How deep readings nest -/

section Levels

variable {classes : ClassTable} {type part : FieldType} {document item : Json}

/-- The type of a slot is no higher than those of all fields. -/
theorem height_le_of_slotFor? {c : Class} {name : String} {slot : Slot}
    (h : slotFor? c name = some slot) : slot.type.height ≤ c.fieldHeight :=
  FieldType.height_le_heightAll (List.mem_map_of_mem (List.mem_of_find?_eq_some h))

/-- **A reading turns to the same document as a lower type, or to a smaller document.** The type may
become higher only where a class is entered. -/
theorem TurnsTo.descends (h : TurnsTo classes type document part item) :
    item = document ∧ part.height < type.height ∨
      item.weight < document.weight ∧ part.height ≤ classes.fieldHeight + type.height := by
  cases h with
  | optional inner => exact .inl ⟨rfl, by simp [FieldType.height]⟩
  | member hmember =>
    have hle := FieldType.height_le_heightAll hmember
    exact .inl ⟨rfl, by simp only [FieldType.height]; omega⟩
  | listItem _ hitem =>
    exact .inr ⟨Json.weight_item_lt hitem, by simp only [FieldType.height]; omega⟩
  | setItem _ hitem =>
    exact .inr ⟨Json.weight_item_lt hitem, by simp only [FieldType.height]; omega⟩
  | tupleItem hitem =>
    obtain ⟨htype, hitem⟩ := List.of_mem_zip hitem
    have hle := FieldType.height_le_heightAll htype
    exact .inr ⟨Json.weight_item_lt hitem, by simp only [FieldType.height]; omega⟩
  | keyName _ _ hmember =>
    exact .inr ⟨Json.weight_name_lt hmember, by simp only [FieldType.height]; omega⟩
  | keyText _ _ hmember htext =>
    -- this document is no part of the other one, but its text is
    exact .inr ⟨Json.weight_parsed_lt hmember htext, by simp only [FieldType.height]; omega⟩
  | entry _ _ hmember =>
    exact .inr ⟨Json.weight_value_lt hmember, by simp only [FieldType.height]; omega⟩
  | field hclass hmember hslot =>
    have hslot := height_le_of_slotFor? hslot
    have hclass := ClassTable.fieldHeight_le hclass
    exact .inr ⟨Json.weight_value_lt hmember, by omega⟩

/-- **How deep readings nest.** Each step into a document leaves room for the highest type of a
field. -/
def levels (classes : ClassTable) (type : FieldType) (document : Json) : Nat :=
  document.weight * (classes.fieldHeight + 1) + type.height

/-- A document that weighs less leaves room for the types of all fields. -/
theorem levels_add_le (classes : ClassTable) (type : FieldType) (h : item.weight < document.weight) :
    levels classes type item + (classes.fieldHeight + 1)
      ≤ document.weight * (classes.fieldHeight + 1) + type.height := by
  have hstep := Nat.mul_le_mul_right (classes.fieldHeight + 1) (Nat.succ_le_of_lt h)
  rw [Nat.succ_mul] at hstep
  rw [levels]
  omega

/-- Each turn goes to a lower level. -/
theorem TurnsTo.levels_lt (h : TurnsTo classes type document part item) :
    levels classes part item < levels classes type document := by
  rcases h.descends with ⟨rfl, hpart⟩ | ⟨hitem, hpart⟩
  · simp only [levels]
    omega
  · have hle := levels_add_le classes part hitem
    simp only [levels] at hle ⊢
    omega

/-- **No reading turns to others without an end.** -/
theorem wellFounded_turnsTo (classes : ClassTable) :
    WellFounded fun callee caller : FieldType × Json =>
      TurnsTo classes caller.1 caller.2 callee.1 callee.2 :=
  Subrelation.wf (fun h => h.levels_lt)
    (measure fun reading : FieldType × Json => levels classes reading.1 reading.2).wf

/-- **Within its levels a reading comes to its end.** -/
theorem decodeWithin_eq {depth : Nat} (h : levels classes type document < depth) :
    decodeWithin classes depth type document = finished (decode classes type document) := by
  induction depth generalizing type document with
  | zero => omega
  | succ depth ih =>
    rw [decodeWithin]
    apply decodeWith_eq
    intro part item hturns
    have hlt := hturns.levels_lt
    exact ih (by omega)

/-- An object of a class need not be in the table, and its fields may be higher than all others. -/
theorem objectWithin_eq {c : Class} {depth : Nat}
    (h : document.weight * (classes.fieldHeight + 1) + c.fieldHeight ≤ depth) :
    objectWith (decodeWithin classes depth) c document = finished (object classes c document) := by
  apply objectWith_eq
  rintro members rfl name item slot hmember hslot
  have hle := levels_add_le classes slot.type (Json.weight_value_lt hmember)
  have hheight := height_le_of_slotFor? hslot
  exact decodeWithin_eq (by omega)

end Levels

/-- **Reading comes to an end**, for all classes, however they refer to each other, and for every
type and document. What is read is decided by the readings that it turns to, where the text of a key
is read as a document of any size. No reading turns to others without an end. So the step of a
decoder, repeated as often as the levels of a reading say, reads what the decoder reads. -/
theorem decoding_terminates (classes : ClassTable) :
    (∀ (type : FieldType) (document : Json) (read : FieldType → Json → Partial Value),
      (∀ part item, TurnsTo classes type document part item →
        read part item = finished (decode classes part item)) →
      decodeWith read classes type document = finished (decode classes type document)) ∧
    (WellFounded fun callee caller : FieldType × Json =>
      TurnsTo classes caller.1 caller.2 callee.1 callee.2) ∧
    (∀ (type : FieldType) (document : Json) (depth : Nat), levels classes type document < depth →
      decodeWithin classes depth type document = finished (decode classes type document)) ∧
    ∀ (c : Class) (document : Json) (depth : Nat),
      document.weight * (classes.fieldHeight + 1) + c.fieldHeight ≤ depth →
      objectWith (decodeWithin classes depth) c document = finished (object classes c document) := by
  refine ⟨?_, wellFounded_turnsTo classes, ?_, ?_⟩
  · intro type document read h
    exact decodeWith_eq h
  · intro type document depth h
    exact decodeWithin_eq h
  · intro c document depth h
    exact objectWithin_eq h

namespace Sample

/-- A class whose objects have objects of the same class as keys of a dictionary. -/
def node : Class where
  handle := ⟨9, "Node"⟩
  slots := [⟨"links", .dict (.named ⟨9, "Node"⟩) (.builtin .int), none, none, true, true⟩]
  body := .dataclass

/-- The table of nodes. -/
def nodes : ClassTable := ClassTable.empty.insertClass node

/-- A node with links, as a document and as a value. -/
def documentOf (links : List (String × Json)) : Json := .object [("links", .object links)]

/-- The value that belongs to the document. -/
def nodeOf (links : List (Value × Value)) : Value :=
  .object node.handle [("links", .dict links)] ["links"]

/-- A link to a node without links. The node is the name of a member, so it is written as text. -/
def links : List (String × Json) := [((documentOf []).compact, .number (.int 1))]

/-- A node is read from its document if its links are. -/
theorem reads_nodeOf {links : List (String × Json)} {entries : List (Value × Value)}
    (h : Reads nodes (.dict (.named node.handle) (.builtin .int)) (.object links) (.dict entries)) :
    Reads nodes (.named node.handle) (documentOf links) (nodeOf entries) := by
  have hargs : List.Forall₂ (ReadsArgument nodes node) [("links", .object links)]
      [("links", .dict entries)] := .cons ⟨rfl, _, rfl, h⟩ .nil
  exact reads_object rfl rfl rfl hargs rfl

/-- The sample node with a link is read from its document. -/
theorem reads_linked :
    Reads nodes (.named node.handle) (documentOf links) (nodeOf [(nodeOf [], .int 1)]) := by
  have hname : Fails (decode nodes (.named node.handle) (.string (documentOf []).compact)) := by
    rw [decode]
    exact fails_mismatch _ _
  have htext : Json.ofText (documentOf []).compact = .ok (documentOf []) := by
    apply Json.Legible.ofText_compact
    refine .object (by simp) ?_
    simpa using .object (by simp) (by simp)
  have hkey := (reads_nodeOf (reads_dict .nil)).key_of_document hname htext
  have hlinks : Reads nodes (.dict (.named node.handle) (.builtin .int)) (.object links)
      (.dict (Keyed.ofList [(nodeOf [], .int 1)])) :=
    reads_dict (.cons ⟨hkey, reads_builtin rfl rfl⟩ .nil)
  exact reads_nodeOf hlinks

end Sample

open Decoding.Sample

/-- The key of a node is read as the text of another node. -/
theorem decoding_terminates_nodes :
    decodeWith (fun type document => finished (decode nodes type document)) nodes
        (.named node.handle) (documentOf links)
      = finished (decode nodes (.named node.handle) (documentOf links)) ∧
    levels nodes (.named node.handle) (documentOf links) < 49 ∧
    (∃ left, decodeWithin nodes 49 (.named node.handle) (documentOf links) []
      = some (.ok (nodeOf [(nodeOf [], .int 1)]), left)) ∧
    objectWith (decodeWithin nodes 49) node (documentOf links)
      = finished (object nodes node (documentOf links)) := by
  obtain ⟨hstep, -, hwithin, hobject⟩ := decoding_terminates nodes
  have hlevels : levels nodes (.named node.handle) (documentOf links) < 49 := by decide
  refine ⟨hstep _ _ _ fun _ _ _ => rfl, hlevels, ?_, hobject _ _ _ (by decide)⟩
  refine ⟨(decode nodes (.named node.handle) (documentOf links) []).2, ?_⟩
  rw [hwithin _ _ _ hlevels, ← reads_linked []]
  rfl

end Decoding

end ObjectMapping
