import ObjectMapping.Text

/-! # Trees of written types

A field states its type as a text such as `Optional[List[Item]]` or `int | None`. `TypeTree` is the
tree of such a text before any name has been looked up; `TypeTree.text` writes the tree down
again. -/

namespace ObjectMapping

/-- The tree of a written type: a bare name, or a name with arguments in brackets. The ellipsis and
the empty pair of parentheses count as bare names. -/
inductive TypeTree where
  | name (head : String)
  | generic (head : String) (args : List TypeTree)
deriving Repr

namespace TypeTree

/-- The name in front of the arguments. -/
def head : TypeTree → String
  | name head => head
  | generic head _ => head

mutual

/-- The tree in its usual spelling, with a comma and a blank between arguments. -/
def text : TypeTree → String
  | name head => head
  | generic head args => head ++ "[" ++ Text.commas (texts args) ++ "]"

/-- The spellings of a list of trees. -/
def texts : List TypeTree → List String
  | [] => []
  | arg :: rest => text arg :: texts rest

end

end TypeTree

end ObjectMapping
