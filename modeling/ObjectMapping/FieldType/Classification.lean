import ObjectMapping.FieldType.Basic
import ObjectMapping.FieldType.Namespace
import ObjectMapping.TypeTree.Parser

/-! # From written types to field types

A written type is classified by its outermost name. Unions and optional types inside a union are
part of that union: their members are collected in order, equal ones once, and a `None` anywhere
among them makes the whole type optional. A union with one member is that member.

* `FieldType.ofTree` classifies a tree in a namespace, `FieldType.parse` a text. -/

namespace ObjectMapping.FieldType

/-- The error for a tree. -/
def unsupported {α : Type} (tree : TypeTree) (reason : String) : Except Error α :=
  .error (.unsupportedType tree.text reason)

/-- The names that write the absence of a value. -/
def isNone (head : String) : Bool := head == "None" || head == "NoneType"

/-- The kinds of collections. -/
inductive Collection where
  | list
  | set
  | dict
  | tuple

/-- The kind of collection that a name stands for. -/
def collection? (head : String) : Option Collection :=
  if head == "List" || head == "list" then some .list
  else if ["Set", "set", "FrozenSet", "frozenset"].contains head then some .set
  else if head == "Dict" || head == "dict" then some .dict
  else if head == "Tuple" || head == "tuple" then some .tuple
  else none

/-- The type of a bare name. -/
def ofName (ns : Namespace) (head : String) : Except Error FieldType :=
  if head == "Any" then .ok .any
  else
    match collection? head with
    | some .tuple => unsupported (.name head) "tuple without element types"
    | some _ => unsupported (.name head) "collection without element types"
    | none =>
        match ns.resolve? head with
        | some handle => .ok (.named handle)
        | none => unsupported (.name head) s!"unknown type name '{head}'"

mutual

/-- Whether `None` is among the members that a tree adds to a union. -/
def addsNone : TypeTree → Bool
  | .name head => isNone head
  | .generic head args =>
      if head == "Union" then anyAddsNone args else head == "Optional" && args.length == 1

/-- Whether `None` is among the members that some tree of a list adds to a union. -/
def anyAddsNone : List TypeTree → Bool
  | [] => false
  | arg :: rest => addsNone arg || anyAddsNone rest

end

/-- The type of a tree, from the members that it adds to an empty union. Trees that are not written
as a union add one member, and a bare `None` adds none. -/
def ofMembers (tree : TypeTree) (members : List FieldType) : Except Error FieldType :=
  let none? := match tree with
    | .name _ => "None is only valid inside Optional or Union"
    | .generic .. => "union has no member besides None"
  match members with
  | [] => unsupported tree none?
  | [member] => .ok (if addsNone tree then orNone member else member)
  | _ => .ok (if addsNone tree then orNone (.union members) else .union members)

/-- Whether the arguments of a tuple say that it is empty. -/
def isUnit : List TypeTree → Bool
  | [arg] => arg.head == "()"
  | _ => false

/-- The type of a name with arguments that is not written as a union, from the types of its
arguments. The number of arguments is checked before any of them. -/
def ofCollection (head : String) (args : List TypeTree) (types : Except Error (List FieldType)) :
    Except Error FieldType :=
  let tree := TypeTree.generic head args
  match collection? head with
  | none => unsupported tree "no known type shape matches"
  | some .tuple =>
      if args.any fun arg => arg.head == "..." then
        unsupported tree "variable-length tuples are not supported"
      else if isUnit args then .ok (.tuple [])
      else types.map .tuple
  | some kind =>
      match kind, args with
      | .dict, [_, _] | .list, [_] | .set, [_] => do
          match kind, ← types with
          | .list, [item] => .ok (.list item)
          | .set, [item] => .ok (.set item)
          | _, [key, value] => .ok (.dict key value)
          | _, _ => unsupported tree "wrong number of type arguments"
      | _, _ => unsupported tree "wrong number of type arguments"

/-- The members of a union after a type has been added to them, unless it is one of them. -/
def insertMember (members : List FieldType) (type : FieldType) : List FieldType :=
  if contains members type then members else members ++ [type]

mutual

/-- The members of a union after a tree has been added to them. -/
def addMembers (ns : Namespace) (members : List FieldType) :
    TypeTree → Except Error (List FieldType)
  | .name head =>
      if isNone head then .ok members
      else do return insertMember members (← ofName ns head)
  | .generic head args =>
      if head == "Union" then addAllMembers ns members args
      else if head == "Optional" then
        match args with
        | [arg] => addMembers ns members arg
        | _ => unsupported (.generic head args) "no known type shape matches"
      else do return insertMember members (← ofCollection head args (ofTrees ns args))

/-- The members of a union after the trees of a list have been added to them. -/
def addAllMembers (ns : Namespace) (members : List FieldType) :
    List TypeTree → Except Error (List FieldType)
  | [] => .ok members
  | arg :: rest => do addAllMembers ns (← addMembers ns members arg) rest

/-- The types of the trees of a list. -/
def ofTrees (ns : Namespace) : List TypeTree → Except Error (List FieldType)
  | [] => .ok []
  | arg :: rest => do
      let type ← ofMembers arg (← addMembers ns [] arg)
      return type :: (← ofTrees ns rest)

end

/-- The type that a tree describes. -/
def ofTree (ns : Namespace) (tree : TypeTree) : Except Error FieldType := do
  ofMembers tree (← addMembers ns [] tree)

/-- The type that a text describes. -/
def parse (ns : Namespace) (text : String) : Except Error FieldType := do
  ofTree ns (← TypeTree.parse text)

end ObjectMapping.FieldType
