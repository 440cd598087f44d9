import ObjectMapping.FieldType.Namespace
import ObjectMapping.Proofs.FieldType.Normal
import ObjectMapping.Proofs.TypeTree.Spelling
import ObjectMapping.Proofs.Value.Admission

/-! # How types are written

A type is written as a tree: a class by its name, a collection by its kind with arguments, a union or
an optional type as `Union` or `Optional`, and both together as one union with `None` at its end. The
text of the type is the text of this tree, so it is read as the tree.

* **`FieldType.tree`** — the tree in which a type is written.
* **`Namespace.Legible`** — the name of a class leads back to it.
* **`FieldType.text_tree`** — the text of a type is the text of its tree.
* **`FieldType.parse_text_eq_tree`** — the text of a type is read as its tree. -/

namespace ObjectMapping

namespace FieldType

mutual

/-- **The tree in which a type is written.** A union or nothing is written as one union. -/
def tree : FieldType → TypeTree
  | named handle => .name handle.name
  | optional (union members) => .generic "Union" (trees members ++ [.name "None"])
  | optional inner => .generic "Optional" [tree inner]
  | union members => .generic "Union" (trees members)
  | list item => .generic "List" [tree item]
  | set item => .generic "Set" [tree item]
  | dict key value => .generic "Dict" [tree key, tree value]
  | tuple [] => .generic "Tuple" [.name "()"]
  | tuple items => .generic "Tuple" (trees items)
  | any => .name "Any"

/-- The trees in which the types of a list are written. -/
def trees : List FieldType → List TypeTree
  | [] => []
  | item :: rest => tree item :: trees rest

end

/-- Types are rendered as trees one by one. -/
theorem trees_eq_map (types : List FieldType) : trees types = types.map tree := by
  induction types with
  | nil => rfl
  | cons type rest ih => rw [trees, ih, List.map_cons]

/-- Types are rendered as texts one by one. -/
theorem texts_eq_map (types : List FieldType) : texts types = types.map text := by
  induction types with
  | nil => rfl
  | cons type rest ih => rw [texts, ih, List.map_cons]

end FieldType

/-- Trees are rendered as texts one by one. -/
theorem TypeTree.texts_eq_map (trees : List TypeTree) : texts trees = trees.map text := by
  induction trees with
  | nil => rfl
  | cons tree rest ih => rw [texts, ih, List.map_cons]

namespace FieldType

variable {inner item key value type : FieldType} {items members : List FieldType}

/-- A union is rendered with its members as arguments. -/
theorem tree_union : (union members).tree = .generic "Union" (trees members) := by rw [tree]

/-- An optional union is rendered as a union with one more argument. -/
theorem tree_optional_of_union :
    (optional (union members)).tree = .generic "Union" (trees members ++ [.name "None"]) := by
  rw [tree]

/-- Any other optional type is rendered with the type inside as its argument. -/
theorem tree_optional_of_single (h : inner.isSingle = true) :
    (optional inner).tree = .generic "Optional" [inner.tree] := by
  cases inner with
  | union members => cases h
  | _ => simp [tree]

/-- The text of such an optional type has the text inside in brackets. -/
theorem text_optional_of_single (h : inner.isSingle = true) :
    (optional inner).text = "Optional[" ++ inner.text ++ "]" := by
  cases inner with
  | union members => cases h
  | _ => simp [text]

/-- A type inside an optional one in normal form is a union or neither. -/
theorem isSingle_of_normal_optional (h : (optional inner).Normal) :
    inner.isSingle = true ∨ ∃ members, inner = union members := by
  cases h with
  | optional hinner hpresent =>
    cases inner with
    | optional _ => cases hpresent
    | union members => exact .inr ⟨members, rfl⟩
    | _ => exact .inl rfl

/-- The trees of a list have the texts of its types. -/
theorem texts_trees (h : ∀ item ∈ items, item.tree.text = item.text) :
    TypeTree.texts (trees items) = texts items := by
  rw [TypeTree.texts_eq_map, trees_eq_map, texts_eq_map, List.map_map]
  exact List.map_congr_left h

/-- A union in normal form has arguments. -/
theorem trees_ne_nil (h : 2 ≤ members.length) : trees members ≠ [] := by
  cases members with
  | nil => exact absurd h (by decide)
  | cons member rest => exact List.cons_ne_nil _ _

/-- **The text of a type is the text of its tree.** -/
theorem text_tree (h : type.Normal) : type.tree.text = type.text := by
  induction type with
  | named handle => simp [tree, text, TypeTree.text]
  | any => simp [tree, text, TypeTree.text]
  | list item ih =>
    cases h with
    | list hitem =>
      simp [tree, text, TypeTree.text, TypeTree.texts, Text.commas, ih hitem]
  | set item ih =>
    cases h with
    | set hitem =>
      simp [tree, text, TypeTree.text, TypeTree.texts, Text.commas, ih hitem]
  | dict key value ihkey ihvalue =>
    cases h with
    | dict hkey hvalue =>
      simp [tree, text, TypeTree.text, TypeTree.texts, Text.commas, ihkey hkey, ihvalue hvalue,
        String.append_assoc]
  | tuple items ih =>
    cases h with
    | tuple hitems =>
      have hall := texts_trees fun item hmem => ih item hmem (hitems item hmem)
      cases items with
      | nil => simp [tree, text, TypeTree.text, TypeTree.texts, Text.commas]
      | cons item rest => simp [tree, text, TypeTree.text, hall]
  | union members ih =>
    cases h with
    | union _ _ _ hmembers =>
      have hall := texts_trees fun member hmem => ih member hmem (hmembers member hmem)
      simp [tree, text, TypeTree.text, hall]
  | optional inner ih =>
    have hinner : inner.Normal := by
      cases h with
      | optional hinner _ => exact hinner
    rcases isSingle_of_normal_optional h with hsingle | ⟨members, rfl⟩
    · rw [tree_optional_of_single hsingle, text_optional_of_single hsingle]
      simp [TypeTree.text, TypeTree.texts, Text.commas, ih hinner]
    · -- the members are written as without `None`, which comes after them
      have hmembers : Text.commas (TypeTree.texts (trees members)) = Text.commas (texts members) := by
        simpa [tree, text, TypeTree.text] using ih hinner
      have hne : trees members ≠ [] := by
        cases hinner with
        | union hlength _ _ _ => exact trees_ne_nil hlength
      have hnone : Text.commas (TypeTree.texts (trees members ++ [.name "None"]))
          = Text.commas (texts members) ++ ", " ++ "None" := by
        rw [← hmembers, TypeTree.texts_eq_map, TypeTree.texts_eq_map, List.map_append]
        exact String.intercalate_append_of_ne_nil (mt List.map_eq_nil_iff.mp hne)
          (List.cons_ne_nil _ _)
      rw [tree, text, TypeTree.text, hnone]
      simp [String.append_assoc]

end FieldType

/-! ## Classes whose names can be written -/

/-- The names that mean something else than a class in a type. -/
def FieldType.reserved : List String :=
  ["Any", "None", "NoneType", "List", "list", "Set", "set", "FrozenSet", "frozenset", "Dict", "dict",
    "Tuple", "tuple"]

/-- **The name of a class leads back to it**: it can be written bare, it means nothing else in a type,
and it stands for the class. -/
structure Namespace.Legible (ns : Namespace) (handle : ClassHandle) : Prop where
  identifier : TypeTree.Token.isIdentifier handle.name = true
  free : handle.name ∉ FieldType.reserved
  resolves : ∃ found, ns.resolve? handle.name = some found ∧ found.same handle = true

namespace FieldType

/-- A type is about objects of a class, at some level. -/
inductive Mentions (handle : ClassHandle) : FieldType → Prop
  | named : Mentions handle (.named handle)
  | part {type inner : FieldType} (hinner : inner ∈ type.parts) (h : Mentions handle inner) :
      Mentions handle type

/-- The names of all classes in a type lead back to them. -/
def Legible (ns : Namespace) (type : FieldType) : Prop :=
  ∀ handle, type.Mentions handle → ns.Legible handle

variable {ns : Namespace} {inner item key value type : FieldType} {items members : List FieldType}

/-- A class whose name leads back to it is legible. -/
theorem Legible.of_named {handle : ClassHandle} (h : ns.Legible handle) :
    (named handle).Legible ns := by
  intro other hmentions
  cases hmentions with
  | named => exact h
  | part hinner _ => cases hinner

/-- A type that is no class is legible if what is inside it is. -/
theorem Legible.of_parts (hnamed : ∀ handle, type ≠ .named handle)
    (hparts : ∀ inner ∈ type.parts, inner.Legible ns) : type.Legible ns := by
  intro handle hmentions
  cases hmentions with
  | named => exact absurd rfl (hnamed handle)
  | part hinner hmentions => exact hparts _ hinner handle hmentions

/-- What is inside a legible type is legible. -/
theorem Legible.part (h : type.Legible ns) (hinner : inner ∈ type.parts) : inner.Legible ns :=
  fun handle hmentions => h handle (.part hinner hmentions)

/-- Trees of types that can be written down can be written down in a list. -/
theorem spellable_trees (h : ∀ item ∈ items, item.tree.Spellable) :
    ∀ tree ∈ trees items, tree.Spellable := by
  rw [trees_eq_map]
  intro tree htree
  obtain ⟨item, hitem, rfl⟩ := List.mem_map.mp htree
  exact h item hitem

/-- The tree of a type can be written down. -/
theorem spellable_tree (h : type.Normal) (hlegible : type.Legible ns) : type.tree.Spellable := by
  induction type with
  | named handle =>
    rw [tree]
    exact .name (hlegible handle .named).identifier
  | any =>
    rw [tree]
    exact .name (by decide)
  | list item ih =>
    cases h with
    | list hitem =>
      have hspelled := ih hitem (hlegible.part (List.mem_singleton_self _))
      rw [tree]
      exact .generic (by decide) (List.cons_ne_nil _ _) (by simpa using hspelled)
  | set item ih =>
    cases h with
    | set hitem =>
      have hspelled := ih hitem (hlegible.part (List.mem_singleton_self _))
      rw [tree]
      exact .generic (by decide) (List.cons_ne_nil _ _) (by simpa using hspelled)
  | dict key value ihkey ihvalue =>
    cases h with
    | dict hkey hvalue =>
      have hspelledKey := ihkey hkey (hlegible.part (by simp [parts]))
      have hspelledValue := ihvalue hvalue (hlegible.part (by simp [parts]))
      rw [tree]
      exact .generic (by decide) (List.cons_ne_nil _ _)
        (by simpa using ⟨hspelledKey, hspelledValue⟩)
  | tuple items ih =>
    cases h with
    | tuple hitems =>
      have hspelled := spellable_trees fun item hmem =>
        ih item hmem (hitems item hmem) (hlegible.part hmem)
      -- an empty tuple is written with a pair of parentheses as its argument
      cases items with
      | nil =>
        rw [tree]
        exact .generic (by decide) (List.cons_ne_nil _ _) (by simpa using .unit)
      | cons item rest =>
        have htree : (tuple (item :: rest)).tree = .generic "Tuple" (trees (item :: rest)) := by
          simp [tree]
        rw [htree]
        exact .generic (by decide) (List.cons_ne_nil _ _) hspelled
  | union members ih =>
    cases h with
    | union hlength _ _ hmembers =>
      have hspelled := spellable_trees fun member hmem =>
        ih member hmem (hmembers member hmem) (hlegible.part hmem)
      rw [tree]
      exact .generic (by decide) (trees_ne_nil hlength) hspelled
  | optional inner ih =>
    have hinner : inner.Normal := by
      cases h with
      | optional hinner _ => exact hinner
    have hspelled := ih hinner (hlegible.part (List.mem_singleton_self _))
    rcases isSingle_of_normal_optional h with hsingle | ⟨members, rfl⟩
    · rw [tree_optional_of_single hsingle]
      exact .generic (by decide) (List.cons_ne_nil _ _) (by simpa using hspelled)
    · -- the absent value is one more member of the union inside
      rw [tree_union] at hspelled
      rw [tree_optional_of_union]
      cases hspelled with
      | generic hhead hargs heach =>
        refine .generic hhead (List.append_ne_nil_of_left_ne_nil hargs _) ?_
        intro arg harg
        rcases List.mem_append.mp harg with hmem | hnone
        · exact heach arg hmem
        · obtain rfl := List.mem_singleton.mp hnone
          exact .name (by decide)

/-- The heads of trees are names. -/
theorem isIdentifier_head_tree (h : type.Legible ns) :
    TypeTree.Token.isIdentifier type.tree.head = true := by
  cases type with
  | named handle =>
    rw [tree]
    exact (h handle .named).identifier
  | optional inner => cases inner <;> simp only [tree, TypeTree.head] <;> decide
  | tuple items => cases items <;> simp only [tree, TypeTree.head] <;> decide
  | _ =>
    simp only [tree, TypeTree.head]
    decide

/-- **The text of a type is read as its tree.** -/
theorem parse_text_eq_tree (h : type.Normal) (hlegible : type.Legible ns) :
    TypeTree.parse type.text = .ok type.tree := by
  rw [← text_tree h]
  exact TypeTree.parse_of_writes (TypeTree.writes_text (spellable_tree h hlegible))

end FieldType

end ObjectMapping
