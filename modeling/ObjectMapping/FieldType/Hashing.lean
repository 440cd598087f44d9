import ObjectMapping.FieldType.Basic

/-! # Hashes of field types

A type is hashed by what it writes to a hasher, which says what kind of type it is and what it is
made of. Two unions are the same in whatever order their members stand, so every member is hashed by
itself, and the hashes are written in ascending order.

* `Hasher` takes in pieces and makes a hash of them.
* `FieldType.pieces` is what a type writes, `FieldType.hash` the hash of a type. -/

namespace ObjectMapping

/-- What is written to a hasher at once. -/
inductive HashPiece where
  /-- The place of a constructor among the others. -/
  | kind (place : Nat)
  /-- The number of a class. -/
  | number (id : Nat)
  /-- The length of a list, before its elements. -/
  | length (n : Nat)
  /-- A list of hashes. -/
  | hashes (values : List UInt64)
deriving DecidableEq

/-- A hasher, with a state that changes with every piece. -/
structure Hasher where
  State : Type
  initial : State
  write : State → HashPiece → State
  finish : State → UInt64

/-- The hash of what is written to a new hasher. -/
def Hasher.hash (h : Hasher) (pieces : List HashPiece) : UInt64 :=
  h.finish (pieces.foldl h.write h.initial)

namespace FieldType

/-- Hashes in ascending order. -/
def sortHashes (values : List UInt64) : List UInt64 := values.mergeSort (· ≤ ·)

mutual

/-- What a type writes to a hasher; `inner` is the hasher for the members of unions. -/
def pieces (inner : Hasher) : FieldType → List HashPiece
  | named handle => [.kind 0, .number handle.id]
  | optional type => .kind 1 :: pieces inner type
  | union members =>
      let values := sortHashes (memberHashes inner members)
      [.kind 2, .length values.length, .hashes values]
  | list item => .kind 3 :: pieces inner item
  | set item => .kind 4 :: pieces inner item
  | dict key value => .kind 5 :: (pieces inner key ++ pieces inner value)
  | tuple items => .kind 6 :: .length items.length :: allPieces inner items
  | any => [.kind 7]

/-- The hashes of types, each with a hasher of its own. -/
def memberHashes (inner : Hasher) : List FieldType → List UInt64
  | [] => []
  | member :: rest => inner.hash (pieces inner member) :: memberHashes inner rest

/-- What types write one after another. -/
def allPieces (inner : Hasher) : List FieldType → List HashPiece
  | [] => []
  | item :: rest => pieces inner item ++ allPieces inner rest

end

/-- The hash of a type. -/
def hash (type : FieldType) (inner outer : Hasher) : UInt64 := outer.hash (type.pieces inner)

end FieldType

end ObjectMapping
