import ObjectMapping.Class.Table
import ObjectMapping.Json.Outline
import ObjectMapping.Value.Encoding

/-! # Documents as values of a type

A document is read as a value of a field type. Objects of a class are constructed from the members
of an object, under whatever names the constructor accepts; a union is read as its first member that
accepts the document. Member names are strings, so the key of a dictionary that is not accepted as a
string is read once more as the text of a document.

While it reads, a decoder keeps a trail of the member names and positions that it has entered, for
its messages.

* `Decoding.decode` reads a value of a type, `Decoding.object` an object of a class.
* `Json.weight` is what the recursion decreases: entering a part of a document takes some of it
  away, and so does reading a member name as a document. -/

namespace ObjectMapping

namespace Json

mutual

/-- The size of a document, in which member names count with their lengths. -/
def weight : Json → Nat
  | array items => weightAll items + 1
  | object members => weightMembers members + 1
  | null | bool _ | number _ | string _ => 1

/-- The size of the documents of a list. -/
def weightAll : List Json → Nat
  | [] => 0
  | item :: rest => weight item + 1 + weightAll rest

/-- The size of the members of an object. -/
def weightMembers : List (String × Json) → Nat
  | [] => 0
  | (name, value) :: rest => name.length + 2 + weight value + weightMembers rest

end

/-- Every document weighs something. -/
theorem weight_pos (document : Json) : 0 < document.weight := by
  cases document <;> simp [weight]

end Json

/-- The member names and positions that a decoder has entered, innermost first. -/
abbrev Trail := List String

/-- A computation that keeps a trail and may fail. -/
abbrev Decoding := ExceptT Error (StateM Trail)

namespace Decoding

/-- Enters a part of a document. -/
def enter (step : String) : Decoding Unit := modify (step :: ·)

/-- Leaves the innermost part of the trail. -/
def leave : Decoding Unit := modify List.tail

/-- Reports a document that is not of the type that is expected. -/
def mismatch {α : Type} (expected : FieldType) (document : Json) : Decoding α := do
  let trail ← get
  throw (.schema (.mismatch trail.reverse expected.text document.kind))

/-- An outcome that does not depend on the trail. -/
def lift {α : Type} (outcome : Except Error α) : Decoding α := fun trail => (outcome, trail)

/-- The outcome of a computation as a value; the trail stays as a failure left it. -/
def attempt {α : Type} (d : Decoding α) : Decoding (Except Error α) := fun trail =>
  let (outcome, left) := d trail
  (.ok outcome, left)

/-- The value of a builtin class that a document writes. -/
def scalar? : Builtin → Json → Option Value
  | .int, .number n => n.toInt64?.map .int
  | .float, .number n => some (.float n.toDouble)
  | .bool, .bool b => some (.bool b)
  | .str, .string s | .uuid, .string s => some (.str s)
  | .bytes, .string s => some (.bytes (Bytes.ofText s))
  | .date, .string s => (Date.ofText? s).map .date
  | .datetime, .string s => (DateTime.ofText? s).map .datetime
  | _, _ => none

/-- The field that the constructor of a class accepts under a name. -/
def slotFor? (c : Class) (name : String) : Option Slot :=
  c.slots.find? fun slot => slot.accepted && (c.params .validating slot).contains name

mutual

/-- Reads a value of a type. -/
def decode (classes : ClassTable) (type : FieldType) (document : Json) : Decoding Value :=
  match type, document with
  | .any, document => return .ofJson document
  | .optional _, .null => return .none
  | .optional inner, document => decode classes inner document
  | .union members, document => decodeFirst classes type members document
  | .list item, .array items => do return .list (← decodeItems classes item 0 items)
  | .set item, .array items => do
      return .set (Keyed.distinct (← decodeItems classes item 0 items))
  | .tuple types, .array items =>
      if items.length == types.length then do return .tuple (← decodeEach classes 0 types items)
      else mismatch type document
  | .dict key value, .object members => do
      return .dict (Keyed.ofList (← decodeEntries classes key value document members))
  | .named handle, document =>
      match handle.builtin? with
      | some builtin =>
          match scalar? builtin document with
          | some value => return value
          | none => mismatch type document
      | none =>
          match classes.enumOf? handle with
          | some e =>
              match document with
              | .string name => lift (e.member name)
              | _ => mismatch type document
          | none =>
              match classes.classOf? handle with
              | none => throw (.schema (.undefinedClass handle.name))
              | some c =>
                  match document with
                  | .object members => do
                      lift (c.construct .validating (← decodeArguments classes c members))
                  | _ => mismatch (.named c.handle) document
  | _, _ => mismatch type document
termination_by (document.weight, sizeOf type)
decreasing_by
  · exact .right _ (by simp)
  · exact .right _ (by simp)
  all_goals exact .left _ _ (by simp [Json.weight])

/-- Reads a value of the first type that accepts the document; `union` is the type of all of them.
-/
def decodeFirst (classes : ClassTable) (union : FieldType) (members : List FieldType)
    (document : Json) : Decoding Value :=
  match members with
  | [] => mismatch union document
  | member :: rest => do
      match ← attempt (decode classes member document) with
      | .ok value => return value
      | .error _ => decodeFirst classes union rest document
termination_by (document.weight, sizeOf members)
decreasing_by all_goals exact .right _ (by simp only [List.cons.sizeOf_spec]; omega)

/-- Reads values of one type from the positions of an array. -/
def decodeItems (classes : ClassTable) (type : FieldType) (position : Nat) (items : List Json) :
    Decoding (List Value) :=
  match items with
  | [] => return []
  | item :: rest => do
      enter (toString position)
      let value ← decode classes type item
      leave
      return value :: (← decodeItems classes type (position + 1) rest)
termination_by (Json.weightAll items, 0)
decreasing_by all_goals exact .left _ _ (by simp only [Json.weightAll]; omega)

/-- Reads a value of each type from the positions of an array. -/
def decodeEach (classes : ClassTable) (position : Nat) (types : List FieldType)
    (items : List Json) : Decoding (List Value) :=
  match types, items with
  | type :: types, item :: items => do
      enter (toString position)
      let value ← decode classes type item
      leave
      return value :: (← decodeEach classes (position + 1) types items)
  | _, _ => return []
termination_by (Json.weightAll items, 0)
decreasing_by all_goals exact .left _ _ (by simp only [Json.weightAll]; omega)

/-- Reads the entries of a dictionary from the members of `document`. -/
def decodeEntries (classes : ClassTable) (key value : FieldType) (document : Json)
    (members : List (String × Json)) : Decoding (List (Value × Value)) :=
  match members with
  | [] => return []
  | (name, item) :: rest => do
      enter name
      let k ← decodeKey classes key document name
      let v ← decode classes value item
      leave
      return (k, v) :: (← decodeEntries classes key value document rest)
termination_by (Json.weightMembers members, 0)
decreasing_by
  all_goals exact .left _ _ (by have := item.weight_pos; simp only [Json.weightMembers]; omega)

/-- Reads a key of a dictionary from a member name of `document`: as a string if the type accepts
it, else as the text of a document. -/
def decodeKey (classes : ClassTable) (key : FieldType) (document : Json) (name : String) :
    Decoding Value := do
  match ← attempt (decode classes key (.string name)) with
  | .ok value => return value
  | .error _ =>
      match Json.ofText name with
      | .error _ => mismatch key document
      | .ok parsed =>
          if parsed.weight < name.length + 2 then decode classes key parsed
          else mismatch key document
termination_by (name.length + 2, 0)
decreasing_by
  · exact .left _ _ (by simp [Json.weight])
  · exact .left _ _ (by assumption)

/-- Reads the arguments of a constructor from the members of an object. A member that the
constructor does not accept is left for it to reject. -/
def decodeArguments (classes : ClassTable) (c : Class) (members : List (String × Json)) :
    Decoding Arguments :=
  match members with
  | [] => return []
  | (name, item) :: rest => do
      let value ←
        match slotFor? c name with
        | none => pure (Value.ofJson item)
        | some slot => do
            enter name
            let value ← decode classes slot.type item
            leave
            pure value
      return (name, value) :: (← decodeArguments classes c rest)
termination_by (Json.weightMembers members, 0)
decreasing_by all_goals exact .left _ _ (by simp only [Json.weightMembers]; omega)

end

/-- Reads an object of a class. -/
def object (classes : ClassTable) (c : Class) (document : Json) : Decoding Value :=
  match document with
  | .object members => do lift (c.construct .validating (← decodeArguments classes c members))
  | _ => mismatch (.named c.handle) document

end Decoding

/-- The value of a type that a document writes. -/
def Value.decode (classes : ClassTable) (type : FieldType) (document : Json) : Except Error Value :=
  ((Decoding.decode classes type document).run []).1

/-- The object of a class that a document writes. -/
def Value.decodeObject (classes : ClassTable) (c : Class) (document : Json) : Except Error Value :=
  ((Decoding.object classes c document).run []).1

end ObjectMapping
