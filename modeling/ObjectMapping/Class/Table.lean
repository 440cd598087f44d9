import ObjectMapping.Class.Basic
import ObjectMapping.Enumeration

/-! # Class tables

The definitions that belong to class handles. A class that is defined again replaces its earlier
definition. -/

namespace ObjectMapping

/-- The definitions of classes and enum classes, by number. -/
structure ClassTable where
  classes : List (Nat × Class)
  enums : List (Nat × Enumeration)

namespace ClassTable

/-- The table without classes and enums. -/
def empty : ClassTable := ⟨[], []⟩

/-- The class that a handle stands for. -/
def classOf? (t : ClassTable) (handle : ClassHandle) : Option Class := t.classes.lookup handle.id

/-- The enum class that a handle stands for. -/
def enumOf? (t : ClassTable) (handle : ClassHandle) : Option Enumeration := t.enums.lookup handle.id

/-- The table with the definition of a class. -/
def insertClass (t : ClassTable) (c : Class) : ClassTable :=
  { t with classes := Keyed.insert t.classes c.handle.id c }

/-- The table with the definition of an enum class. -/
def insertEnum (t : ClassTable) (e : Enumeration) : ClassTable :=
  { t with enums := Keyed.insert t.enums e.handle.id e }

end ClassTable

end ObjectMapping
