/-! # Class handles

A handle stands for a class before and after the class has been defined. Two handles stand for the
same class when their numbers agree; the name is only for rendering. The numbers one to eight belong
to the builtin classes, and `ClassHandle.firstFree` is the first one for other classes. -/

namespace ObjectMapping

/-- A class, known by a number. -/
structure ClassHandle where
  id : Nat
  name : String
deriving Repr

/-- The classes that need no definition. -/
inductive Builtin where
  | int
  | float
  | str
  | bool
  | bytes
  | date
  | datetime
  | uuid
deriving DecidableEq, Repr

namespace Builtin

/-- All builtin classes, in the order of their numbers. -/
def all : List Builtin := [int, float, str, bool, bytes, date, datetime, uuid]

/-- The name of a builtin class. -/
def name : Builtin → String
  | int => "int"
  | float => "float"
  | str => "str"
  | bool => "bool"
  | bytes => "bytes"
  | date => "date"
  | datetime => "datetime"
  | uuid => "UUID"

/-- The number of a builtin class; other classes have greater ones. -/
def id : Builtin → Nat
  | int => 1
  | float => 2
  | str => 3
  | bool => 4
  | bytes => 5
  | date => 6
  | datetime => 7
  | uuid => 8

/-- The handle of a builtin class. -/
def handle (b : Builtin) : ClassHandle := ⟨b.id, b.name⟩

end Builtin

namespace ClassHandle

/-- The first number that belongs to no builtin class. -/
def firstFree : Nat := 9

/-- Whether two handles stand for the same class. -/
def same (a b : ClassHandle) : Bool := a.id == b.id

instance : BEq ClassHandle := ⟨same⟩

/-- The builtin class that a handle stands for. -/
def builtin? (c : ClassHandle) : Option Builtin := Builtin.all.find? (·.id == c.id)

/-- The handle of a builtin class is known to be that class. -/
@[simp] theorem builtin?_handle (b : Builtin) : b.handle.builtin? = some b := by
  cases b <;> rfl

/-- A class is the same as itself. -/
@[simp] theorem same_self (c : ClassHandle) : c.same c = true := by simp [same]

end ClassHandle

end ObjectMapping
