import ObjectMapping.FieldType.Basic

/-! # Induction on field types

A union or a tuple holds a list of types. `FieldType.byParts` is the induction in which the
hypothesis is available for every member of such a list; `induction` uses it for field types. -/

namespace ObjectMapping.FieldType

/-- Induction on a field type, with the hypothesis for all members of a union or tuple. -/
@[induction_eliminator]
theorem byParts {motive : FieldType → Prop} (named : ∀ handle, motive (.named handle))
    (optional : ∀ inner, motive inner → motive (.optional inner))
    (union : ∀ members, (∀ member ∈ members, motive member) → motive (.union members))
    (list : ∀ item, motive item → motive (.list item))
    (set : ∀ item, motive item → motive (.set item))
    (dict : ∀ key value, motive key → motive value → motive (.dict key value))
    (tuple : ∀ items, (∀ item ∈ items, motive item) → motive (.tuple items))
    (any : motive .any) (type : FieldType) : motive type := by
  refine @FieldType.rec motive (fun types => ∀ type ∈ types, motive type)
    named optional union list set dict tuple any ?_ ?_ type
  · simp
  · intro head tail hhead htail type hmem
    rcases List.mem_cons.mp hmem with rfl | htype
    · exact hhead
    · exact htail type htype

end ObjectMapping.FieldType
