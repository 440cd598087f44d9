import ObjectMapping.Calendar
import ObjectMapping.ClassHandle
import ObjectMapping.Double.Basic
import ObjectMapping.Error
import ObjectMapping.Keyed

/-! # Values

The values that mappings read and produce. Sets hold their elements in the order in which they came
in and dictionaries their entries, but two of them are the same value in whatever order. Objects
carry the names of the fields that were assigned explicitly; these do not take part in equality.

* `Value.same` is the equality of values.
* `Value.handle?` is the class of a value and `Value.typeName` its name.
* `Value.field`, `Value.subscript`, `Value.contains` and `Value.elements` look into values,
  `Value.assign` sets a field of an object. -/

namespace ObjectMapping

/-- A value. -/
inductive Value where
  | none
  | bool (b : Bool)
  | int (i : Int64)
  | float (x : Double)
  | str (s : String)
  | bytes (data : List UInt8)
  | date (d : Date)
  | datetime (t : DateTime)
  | list (items : List Value)
  /-- Pairwise different elements. -/
  | set (items : List Value)
  /-- Entries with pairwise different keys. -/
  | dict (entries : List (Value × Value))
  | tuple (items : List Value)
  /-- A member of an enum class. -/
  | member (owner : ClassHandle) (name : String)
  /-- An object with its fields, and the sorted names of the fields assigned explicitly. -/
  | object (owner : ClassHandle) (fields : List (String × Value)) (assigned : List String)

namespace Value

instance : Inhabited Value := ⟨none⟩

/-! ## Equality -/

mutual

/-- Equality of values. Elements of sets are distinct, so two sets of the same size are the same
when one contains the other; dictionaries and objects are compared in the same way by key and by
name. -/
def same : Value → Value → Bool
  | none, none => true
  | bool a, bool b => a == b
  | int a, int b => a == b
  | float x, float y => x.same y
  | str s, str t => s == t
  | bytes a, bytes b => a == b
  | date d, date e => d == e
  | datetime t, datetime u => t == u
  | list as, list bs => sameAll as bs
  | set as, set bs => as.length == bs.length && included as bs
  | dict as, dict bs => as.length == bs.length && entriesIncluded as bs
  | tuple as, tuple bs => sameAll as bs
  | member a m, member b n => a.same b && m == n
  | object a fields _, object b others _ =>
      a.same b && fields.length == others.length && fieldsIncluded fields others
  | _, _ => false

/-- Whether two lists hold the same values in the same order. -/
def sameAll : List Value → List Value → Bool
  | [], [] => true
  | a :: as, b :: bs => same a b && sameAll as bs
  | _, _ => false

/-- Whether every value of the first list is the same as one of the second. -/
def included : List Value → List Value → Bool
  | [], _ => true
  | a :: as, bs => bs.any (fun b => same a b) && included as bs

/-- Whether every key of the first dictionary has the same value in the second. -/
def entriesIncluded : List (Value × Value) → List (Value × Value) → Bool
  | [], _ => true
  | (key, value) :: rest, others =>
      (match others.find? fun entry => same key entry.1 with
        | some entry => same value entry.2
        | Option.none => false) && entriesIncluded rest others

/-- Whether every name of the first list has the same value in the second. -/
def fieldsIncluded : List (String × Value) → List (String × Value) → Bool
  | [], _ => true
  | (name, value) :: rest, others =>
      (match others.lookup name with
        | some found => same value found
        | Option.none => false) && fieldsIncluded rest others

end

instance : BEq Value := ⟨same⟩

/-! ## Classes -/

/-- The class of a value; collections and the absent value have none. -/
def handle? : Value → Option ClassHandle
  | bool _ => some Builtin.bool.handle
  | int _ => some Builtin.int.handle
  | float _ => some Builtin.float.handle
  | str _ => some Builtin.str.handle
  | bytes _ => some Builtin.bytes.handle
  | date _ => some Builtin.date.handle
  | datetime _ => some Builtin.datetime.handle
  | member owner _ => some owner
  | object owner _ _ => some owner
  | none | list _ | set _ | dict _ | tuple _ => Option.none

/-- The name of the class of a value, or of its kind of collection. -/
def typeName (v : Value) : String :=
  match v.handle? with
  | some handle => handle.name
  | Option.none =>
      match v with
      | none => "NoneType"
      | list _ => "list"
      | set _ => "set"
      | dict _ => "dict"
      | _ => "tuple"

/-! ## Tests -/

/-- Whether a value is absent. -/
def isNone : Value → Bool
  | none => true
  | _ => false

/-- Whether a condition with this value holds: the absent value, zeros and everything empty count as
false. -/
def truthy : Value → Bool
  | none => false
  | bool b => b
  | int i => i != 0
  | float x => !x.isZero
  | str s => !s.isEmpty
  | bytes data => !data.isEmpty
  | list items | set items | tuple items => !items.isEmpty
  | dict entries => !entries.isEmpty
  | date _ | datetime _ | member .. | object .. => true

/-- Identity. Only the absent value, booleans and enum members are identical to anything. -/
def identical : Value → Value → Bool
  | none, none => true
  | bool a, bool b => a == b
  | member a m, member b n => a.same b && m == n
  | _, _ => false

/-! ## Parts -/

/-- The error for an attribute that an object does not have. -/
def noAttribute {α : Type} (owner : ClassHandle) (name : String) : Except Error α :=
  .error (.runtime (.noAttribute owner.name name))

/-- The error for a value that would have to be an object. -/
def notAnObject {α : Type} (v : Value) : Except Error α :=
  .error (.runtime (.notAnObject v.typeName))

/-- The value of a field of an object. -/
def field (v : Value) (name : String) : Except Error Value :=
  match v with
  | object owner fields _ =>
      match fields.lookup name with
      | some found => .ok found
      | Option.none => noAttribute owner name
  | _ => v.notAnObject

/-- Whether a field of an object was assigned explicitly. -/
def isAssigned (v : Value) (name : String) : Except Error Bool :=
  match v with
  | object _ _ assigned => .ok (assigned.contains name)
  | _ => v.notAnObject

/-- A name added to sorted names. -/
def insertName : List String → String → List String
  | [], name => [name]
  | other :: rest, name =>
      if name == other then other :: rest
      else if name < other then name :: other :: rest
      else other :: insertName rest name

/-- Names in ascending order, each once. -/
def sortNames (names : List String) : List String := names.foldl insertName []

/-- The object with another value in one of its fields, which now counts as assigned explicitly. -/
def assign (v : Value) (name : String) (value : Value) : Except Error Value :=
  match v with
  | object owner fields assigned =>
      if Keyed.contains fields name then
        .ok (object owner (Keyed.insert fields name value) (insertName assigned name))
      else noAttribute owner name
  | _ => v.notAnObject

/-- The object with another value in one of its fields; the field counts as assigned explicitly only
if it did before. Anything but an object stays as it is. -/
def withField (v : Value) (name : String) (value : Value) : Value :=
  match v with
  | object owner fields assigned =>
      if Keyed.contains fields name then object owner (Keyed.insert fields name value) assigned
      else v
  | _ => v

/-- The value with a field assigned in the object that a path of field names leads to. -/
def assignAlong (v : Value) (name : String) (value : Value) : List String → Except Error Value
  | [] => v.assign name value
  | step :: rest => do
      let inner ← v.field step
      return v.withField step (← inner.assignAlong name value rest)

/-- The value under a key of a dictionary, or at a position of a list or tuple. -/
def subscript? : Value → Value → Option Value
  | dict entries, key => entries.lookup key
  | list items, int i | tuple items, int i => if i < 0 then Option.none else items[i.toNatClampNeg]?
  | _, _ => Option.none

/-- Whether a collection holds a value; of a dictionary, whether it has the key. -/
def contains (v key : Value) : Except Error Bool :=
  match v with
  | dict entries => .ok (Keyed.contains entries key)
  | set items | list items | tuple items => .ok (items.any (key.same ·))
  | _ => .error (.runtime (.noContainer v.typeName))

/-- The elements of a collection in order; of a dictionary, its keys. -/
def elements (v : Value) : Except Error (List Value) :=
  match v with
  | list items | set items | tuple items => .ok items
  | dict entries => .ok (entries.map (·.1))
  | _ => .error (.runtime (.notIterable v.typeName))

/-- The entries of a dictionary. -/
def entries (v : Value) : Except Error (List (Value × Value)) :=
  match v with
  | dict entries => .ok entries
  | _ => .error (.runtime (.noItems v.typeName))

/-! ## Height -/

mutual

/-- The number of levels of a value; a value without parts has one. -/
def height : Value → Nat
  | list items | set items | tuple items => heightAll items + 1
  | dict entries => heightEntries entries + 1
  | object _ fields _ => heightFields fields + 1
  | none | bool _ | int _ | float _ | str _ | bytes _ | date _ | datetime _ | member .. => 1

/-- The greatest height in a list. -/
def heightAll : List Value → Nat
  | [] => 0
  | item :: rest => max (height item) (heightAll rest)

/-- The greatest height of the keys and values of a dictionary. -/
def heightEntries : List (Value × Value) → Nat
  | [] => 0
  | (key, value) :: rest => max (max (height key) (height value)) (heightEntries rest)

/-- The greatest height of the fields of an object. -/
def heightFields : List (String × Value) → Nat
  | [] => 0
  | (_, value) :: rest => max (height value) (heightFields rest)

end

/-- The field of an object is what is found under its name. -/
@[simp] theorem field_object (owner : ClassHandle) (fields : List (String × Value))
    (assigned : List String) (name : String) :
    (object owner fields assigned).field name =
      match fields.lookup name with
      | some found => .ok found
      | Option.none => noAttribute owner name := rfl

/-- The elements of a list are its items. -/
@[simp] theorem elements_list (items : List Value) : (list items).elements = .ok items := rfl

/-- The elements of a set are its items. -/
@[simp] theorem elements_set (items : List Value) : (set items).elements = .ok items := rfl

/-- The elements of a tuple are its items. -/
@[simp] theorem elements_tuple (items : List Value) : (tuple items).elements = .ok items := rfl

/-- The entries of a dictionary are its entries. -/
@[simp] theorem entries_dict (pairs : List (Value × Value)) :
    (dict pairs).entries = .ok pairs := rfl

end Value

end ObjectMapping
