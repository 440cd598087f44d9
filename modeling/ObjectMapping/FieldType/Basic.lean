import ObjectMapping.ClassHandle
import ObjectMapping.Text

/-! # Field types

What a field may hold: objects of a class, one of several types, nothing or a value of a type,
collections, or anything at all. The members of a union form a set: two types are the same when they
agree up to the order of union members at every level.

* `FieldType.same` decides that, `FieldType.text` writes a type down. -/

namespace ObjectMapping

/-- The type of a field. Absence is expressed by `optional` and never by a member of a `union`. -/
inductive FieldType where
  /-- Objects of a class, builtin or not. -/
  | named (handle : ClassHandle)
  | optional (inner : FieldType)
  | union (members : List FieldType)
  | list (item : FieldType)
  | set (item : FieldType)
  | dict (key value : FieldType)
  | tuple (items : List FieldType)
  | any

namespace FieldType

instance : Inhabited FieldType := ⟨any⟩

/-- The type of a builtin class. -/
def builtin (b : Builtin) : FieldType := named b.handle

mutual

/-- Equality of types. Members of unions are distinct, so two unions of the same length are the same
set when one contains the other. -/
def same : FieldType → FieldType → Bool
  | named a, named b => a.same b
  | optional a, optional b => same a b
  | list a, list b => same a b
  | set a, set b => same a b
  | dict k v, dict k' v' => same k k' && same v v'
  | union as, union bs => as.length == bs.length && included as bs
  | tuple as, tuple bs => sameAll as bs
  | any, any => true
  | _, _ => false
termination_by structural left => left

/-- Equality with its sides exchanged: `sameAs a b` is `same b a`, by recursion on `a`. A list that is
searched for a type has its elements on the left-hand sides of the comparisons, so comparisons inside
comparisons take turns. -/
def sameAs : FieldType → FieldType → Bool
  | named a, named b => b.same a
  | optional a, optional b => sameAs a b
  | list a, list b => sameAs a b
  | set a, set b => sameAs a b
  | dict k v, dict k' v' => sameAs k k' && sameAs v v'
  | union as, union bs => bs.length == as.length && bs.all fun b => contains as b
  | tuple as, tuple bs => sameAsAll as bs
  | any, any => true
  | _, _ => false
termination_by structural left => left

/-- Whether every type of the first list is contained in the second one. -/
def included : List FieldType → List FieldType → Bool
  | [], _ => true
  | a :: as, bs => bs.any (fun b => sameAs a b) && included as bs
termination_by structural left => left

/-- Whether a list contains a type. -/
def contains : List FieldType → FieldType → Bool
  | [], _ => false
  | a :: as, b => same a b || contains as b
termination_by structural left => left

/-- Whether two lists hold the same types in the same order. -/
def sameAll : List FieldType → List FieldType → Bool
  | [], [] => true
  | a :: as, b :: bs => same a b && sameAll as bs
  | _, _ => false
termination_by structural left => left

/-- Whether two lists hold the same types in the same order, with the sides exchanged. -/
def sameAsAll : List FieldType → List FieldType → Bool
  | [], [] => true
  | a :: as, b :: bs => sameAs a b && sameAsAll as bs
  | _, _ => false
termination_by structural left => left

end

instance : BEq FieldType := ⟨same⟩

/-- A type or nothing; doing this twice changes nothing. -/
def orNone : FieldType → FieldType
  | optional inner => optional inner
  | inner => optional inner

/-- Whether a value may be absent. -/
def isOptional : FieldType → Bool
  | optional _ => true
  | _ => false

/-- The type without one `optional` around it. -/
def stripOptional : FieldType → FieldType
  | optional inner => inner
  | other => other

mutual

/-- The type as it is written. A union or nothing is written as one union. -/
def text : FieldType → String
  | named handle => handle.name
  | optional (union members) => "Union[" ++ Text.commas (texts members) ++ ", None]"
  | optional inner => "Optional[" ++ text inner ++ "]"
  | union members => "Union[" ++ Text.commas (texts members) ++ "]"
  | list item => "List[" ++ text item ++ "]"
  | set item => "Set[" ++ text item ++ "]"
  | dict key value => "Dict[" ++ text key ++ ", " ++ text value ++ "]"
  | tuple [] => "Tuple[()]"
  | tuple items => "Tuple[" ++ Text.commas (texts items) ++ "]"
  | any => "Any"

/-- The types of a list as they are written. -/
def texts : List FieldType → List String
  | [] => []
  | item :: rest => text item :: texts rest

end

end FieldType

end ObjectMapping
