import ObjectMapping.ClassHandle
import ObjectMapping.Keyed

/-! # Namespaces

A namespace says which class a bare name in a type stands for. The builtin classes are known from
the start, the one for identifiers under two names. Handles are drawn from a counter, so classes
that refer to each other can be declared before any of them is defined. -/

namespace ObjectMapping

/-- The classes that names stand for. -/
structure Namespace where
  names : List (String × ClassHandle)

namespace Namespace

/-- The namespace of the builtin classes. -/
def initial : Namespace :=
  ⟨Builtin.all.map (fun b => (b.name, b.handle)) ++ [("uuid", Builtin.uuid.handle)]⟩

/-- The class that a name stands for. -/
def resolve? (ns : Namespace) (name : String) : Option ClassHandle := ns.names.lookup name

/-- The namespace in which the name of a class stands for that class. -/
def insert (ns : Namespace) (handle : ClassHandle) : Namespace :=
  ⟨Keyed.insert ns.names handle.name handle⟩

/-- Lets a name stand for a new class with the given number. -/
def declare (ns : Namespace) (id : Nat) (name : String) : ClassHandle × Namespace :=
  (⟨id, name⟩, ns.insert ⟨id, name⟩)

end Namespace

end ObjectMapping
