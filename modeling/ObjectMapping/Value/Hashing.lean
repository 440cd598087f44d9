import ObjectMapping.Value.Basic

/-! # Hashes of values

A value is hashed by what it writes to a hasher, which says what kind of value it is and what it is
made of. Sets and dictionaries are the same in whatever order their elements stand, so they write
their length only; an object writes its class and the number of its fields.

* `Value.Hashing` takes in pieces and makes a hash of them.
* `Value.pieces` is what a value writes, `Value.hash` the hash of a value.
* `Value.sameByHash` is equality as hash tables find it: a counterpart is looked for only among what
  has the same hash. -/

namespace ObjectMapping.Value

/-- What is written to a hasher at once. -/
inductive Piece where
  /-- The place of a constructor among the others. -/
  | kind (place : Nat)
  | flag (b : Bool)
  | number (i : Int64)
  /-- What stands for a double. -/
  | double (bits : UInt64)
  | text (s : String)
  | bytes (data : List UInt8)
  | date (d : Date)
  | datetime (t : DateTime)
  /-- The length of a collection, or the number of fields of an object. -/
  | length (n : Nat)
  /-- The number of a class. -/
  | owner (id : Nat)
deriving DecidableEq

/-- A way to hash values. -/
structure Hashing where
  /-- What is written for a double. -/
  double : Double → UInt64
  /-- The hash of all that is written to a new hasher. -/
  digest : List Piece → UInt64

/-- Equal doubles write the same. -/
def Hashing.Lawful (h : Hashing) : Prop := ∀ x y : Double, x.same y = true → h.double x = h.double y

mutual

/-- What a value writes to a hasher; `double` is what it writes for doubles. -/
def pieces (double : Double → UInt64) : Value → List Piece
  | none => [.kind 0]
  | bool b => [.kind 1, .flag b]
  | int i => [.kind 2, .number i]
  | float x => [.kind 3, .double (double x)]
  | str s => [.kind 4, .text s]
  | bytes data => [.kind 5, .length data.length, .bytes data]
  | date d => [.kind 6, .date d]
  | datetime t => [.kind 7, .datetime t]
  | list items => .kind 8 :: .length items.length :: allPieces double items
  | set items => [.kind 9, .length items.length]
  | dict entries => [.kind 10, .length entries.length]
  | tuple items => .kind 11 :: .length items.length :: allPieces double items
  | member owner name => [.kind 12, .owner owner.id, .text name]
  | object owner fields _ => [.kind 13, .owner owner.id, .length fields.length]

/-- What values write one after another. -/
def allPieces (double : Double → UInt64) : List Value → List Piece
  | [] => []
  | item :: rest => pieces double item ++ allPieces double rest

end

/-- The hash of a value. -/
def hash (v : Value) (h : Hashing) : UInt64 := h.digest (v.pieces h.double)

mutual

/-- Equality of values as hash tables find it: elements and keys are compared only if they have the
same hash. -/
def sameByHash (h : Hashing) : Value → Value → Bool
  | list as, list bs => allSameByHash h as bs
  | set as, set bs => as.length == bs.length && includedByHash h as bs
  | dict as, dict bs => as.length == bs.length && entriesIncludedByHash h as bs
  | tuple as, tuple bs => allSameByHash h as bs
  | object a fields _, object b others _ =>
      a.same b && fields.length == others.length && fieldsIncludedByHash h fields others
  | v, w => v.same w

/-- Whether two lists hold the same values in the same order. -/
def allSameByHash (h : Hashing) : List Value → List Value → Bool
  | [], [] => true
  | a :: as, b :: bs => sameByHash h a b && allSameByHash h as bs
  | _, _ => false

/-- Whether every value of the first list is found among those of the second. -/
def includedByHash (h : Hashing) : List Value → List Value → Bool
  | [], _ => true
  | a :: as, bs =>
      bs.any (fun b => hash a h == hash b h && sameByHash h a b) && includedByHash h as bs

/-- Whether every key of the first dictionary is found in the second, with the same value. -/
def entriesIncludedByHash (h : Hashing) : List (Value × Value) → List (Value × Value) → Bool
  | [], _ => true
  | (key, value) :: rest, others =>
      (match others.find? fun entry => hash key h == hash entry.1 h && sameByHash h key entry.1 with
        | some entry => sameByHash h value entry.2
        | Option.none => false) && entriesIncludedByHash h rest others

/-- Whether every name of the first list has the same value in the second. -/
def fieldsIncludedByHash (h : Hashing) : List (String × Value) → List (String × Value) → Bool
  | [], _ => true
  | (name, value) :: rest, others =>
      (match others.lookup name with
        | some found => sameByHash h value found
        | Option.none => false) && fieldsIncludedByHash h rest others

end

end ObjectMapping.Value
