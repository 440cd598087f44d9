import ObjectMapping.Code.Basic
import ObjectMapping.Value.Printer

/-! # Writing code

The text of expressions, statements and functions. Statements take whole lines, indented by four
blanks per level.

* `MethodKey.methodName` names a generated method after the class that it produces and the number of
  that class.
* `Expr.text`, `Stmt.textAt` and `Function.text` write code. -/

namespace ObjectMapping

/-- The name of a generated method. -/
def MethodKey.methodName (key : MethodKey) : String :=
  let start := match key.direction with
    | .create => "_map_to_"
    | .update => "_mapupdate_to_"
  start ++ key.target.name ++ "_" ++ toString key.target.id

/-- How a comparison is written. -/
def Comparison.text : Comparison → String
  | .is => "is"
  | .isNot => "is not"
  | .isIn => "in"
  | .notIn => "not in"

namespace Expr

/-- What a comprehension shows: an element for each value of a variable. -/
def forText (element names iterable : String) : String :=
  element ++ " for " ++ names ++ " in " ++ iterable

/-- The call of a constructor with the collected arguments. -/
def constructText (target : ClassHandle) : Strategy → String
  | .validating => target.name ++ "(**d)"
  | .bypassing => target.name ++ ".model_construct(**d)"

mutual

/-- The text of an expression. -/
def text : Expr → String
  | var name => name
  | const value => value.text
  | attr object name => text object ++ "." ++ name
  | index object key => text object ++ "[" ++ text key ++ "]"
  | compare left comparison right => text left ++ " " ++ comparison.text ++ " " ++ text right
  | ternary condition whenTrue whenFalse =>
      text whenTrue ++ " if " ++ text condition ++ " else " ++ text whenFalse
  | listOf element x iterable => "[" ++ forText (text element) x (text iterable) ++ "]"
  | setOf element x iterable => "\x7b" ++ forText (text element) x (text iterable) ++ "\x7d"
  | dictOf key value k v iterable =>
      "\x7b" ++ forText (text key ++ ": " ++ text value) (Text.commas [k, v])
        (text iterable ++ ".items()") ++ "\x7d"
  | tuple items => Value.parenthesized (texts items)
  | method receiver key args =>
      text receiver ++ "." ++ key.methodName ++ "(" ++ Text.commas (texts args) ++ ")"
  | factory slot args => "self._factory_" ++ toString slot ++ "(" ++ Text.commas (texts args) ++ ")"
  | construct target strategy => constructText target strategy
  | isSet object field => "'" ++ field ++ "' in " ++ text object ++ ".model_fields_set"

/-- The texts of the expressions of a list. -/
def texts : List Expr → List String
  | [] => []
  | e :: rest => text e :: texts rest

end

end Expr

namespace Stmt

/-- One line at a depth of levels. -/
def line (depth : Nat) (content : String) : String :=
  "".pushn ' ' (4 * depth) ++ content ++ "\n"

mutual

/-- The lines of a statement at a depth of levels. -/
def textAt (depth : Nat) : Stmt → String
  | assign place value => line depth (place.text ++ " = " ++ value.text)
  | perform e => line depth e.text
  | branch condition whenTrue whenFalse =>
      line depth ("if " ++ condition.text ++ ":") ++ blockAt (depth + 1) whenTrue ++
        (match whenFalse with
          | [] => ""
          | _ => line depth "else:" ++ blockAt (depth + 1) whenFalse)
  | raise message => line depth ("raise TypeError(" ++ Value.quoted message ++ ")")
  | result e => line depth ("return " ++ e.text)
  | pass => line depth "pass"

/-- The lines of a block; an empty one shows as `pass`. -/
def blockAt (depth : Nat) : List Stmt → String
  | [] => line depth "pass"
  | [s] => textAt depth s
  | s :: rest => textAt depth s ++ blockAt depth rest

end

end Stmt

/-- The text of a parameter. -/
def Param.text (p : Param) : String :=
  match p.type? with
  | some type => p.name ++ ": '" ++ type ++ "'"
  | none => p.name

/-- The text of a function: its head and its body one level further in. -/
def Function.text (f : Function) : String :=
  "def " ++ f.name ++ "(" ++ Text.commas (f.params.map Param.text) ++ ") -> " ++ f.returns ++
    ":\n" ++ Stmt.blockAt 1 f.body

/-- The texts of functions with an empty line between them. -/
def Function.moduleText (functions : List Function) : String :=
  "\n".intercalate (functions.map Function.text)

end ObjectMapping
