import ObjectMapping.Class.Strategy
import ObjectMapping.Direction
import ObjectMapping.Value.Basic

/-! # Code of mapping methods

Expressions, statements and functions. A method reads its source as `self` and the values handed to
it by the caller as `extra`. A create method collects the constructor arguments of its target under
`d` and may name the new object `obj`; an update method changes its `target`.

* `Expr.same` is equality of expressions, in which constants count as equal when their values do.
* `Expr.isChain` recognises the expressions that only look into values: variables, attributes and
  subscripts, under constants or under what was looked up. -/

namespace ObjectMapping

/-- The comparisons of expressions. -/
inductive Comparison where
  | is
  | isNot
  | isIn
  | notIn
deriving DecidableEq, Repr

/-- A generated method, known by what it produces. -/
structure MethodKey where
  direction : Direction
  target : ClassHandle

/-- Whether two keys stand for the same method. -/
def MethodKey.same (a b : MethodKey) : Bool :=
  a.direction == b.direction && a.target.same b.target

/-- An expression. -/
inductive Expr where
  | var (name : String)
  | const (value : Value)
  | attr (object : Expr) (name : String)
  | index (object key : Expr)
  | compare (left : Expr) (comparison : Comparison) (right : Expr)
  | ternary (condition whenTrue whenFalse : Expr)
  /-- The list of the values of `element`, with `var` bound to the elements of `iterable`. -/
  | listOf (element : Expr) (var : String) (iterable : Expr)
  | setOf (element : Expr) (var : String) (iterable : Expr)
  /-- The dictionary of `key` and `value`, with two variables bound to the entries of `iterable`. -/
  | dictOf (key value : Expr) (keyVar valueVar : String) (iterable : Expr)
  | tuple (items : List Expr)
  /-- The call of a generated method, which is looked up when the call is made. -/
  | method (receiver : Expr) (key : MethodKey) (args : List Expr)
  /-- The call of a factory that belongs to the method. -/
  | factory (slot : Nat) (args : List Expr)
  /-- The construction of the target from the collected arguments. -/
  | construct (target : ClassHandle) (strategy : Strategy)
  /-- Whether a field was assigned explicitly. -/
  | isSet (object : Expr) (field : String)

/-- A statement. -/
inductive Stmt where
  | assign (place value : Expr)
  | perform (e : Expr)
  | branch (condition : Expr) (whenTrue whenFalse : List Stmt)
  | raise (text : String)
  | result (e : Expr)
  | pass

/-- A parameter of a function, with its type if that is written. -/
structure Param where
  name : String
  type? : Option String

/-- A function. -/
structure Function where
  name : String
  params : List Param
  returns : String
  body : List Stmt

namespace Expr

instance : Inhabited Expr := ⟨const .none⟩

/-! ## Names -/

/-- The source of a mapping. -/
def self : Expr := var "self"

/-- The values that the caller hands to a mapping. -/
def extra : Expr := var "extra"

/-- The object that an update method changes. -/
def target : Expr := var "target"

/-- The constructor arguments that a create method has collected. -/
def arguments : Expr := var "d"

/-- The new object of a create method. -/
def created : Expr := var "obj"

/-! ## Shorthands -/

/-- The absent value as code. -/
def none : Expr := const .none

/-- A text as code. -/
def str (s : String) : Expr := const (.str s)

/-- A whole number as code. -/
def int (i : Int) : Expr := const (.int (Int64.ofInt i))

/-- The test for an absent value. -/
def isNone (e : Expr) : Expr := compare e .is none

/-- The test for a value that is there. -/
def isNotNone (e : Expr) : Expr := compare e .isNot none

/-- Whether an expression only looks into values. -/
def isChain : Expr → Bool
  | var _ => true
  | attr object _ => isChain object
  | index object (const _) => isChain object
  | index object key => isChain object && isChain key
  | _ => false

/-! ## Equality -/

mutual

/-- Equality of expressions; classes are compared by handle and constants by value. -/
def same : Expr → Expr → Bool
  | var a, var b => a == b
  | const a, const b => a.same b
  | attr a m, attr b n => same a b && m == n
  | index a k, index b l => same a b && same k l
  | compare a c b, compare a' c' b' => same a a' && c == c' && same b b'
  | ternary a b c, ternary a' b' c' => same a a' && same b b' && same c c'
  | listOf e x i, listOf e' x' i' => same e e' && x == x' && same i i'
  | setOf e x i, setOf e' x' i' => same e e' && x == x' && same i i'
  | dictOf k v x y i, dictOf k' v' x' y' i' =>
      same k k' && same v v' && x == x' && y == y' && same i i'
  | tuple as, tuple bs => sameAll as bs
  | method r k as, method r' k' bs => same r r' && k.same k' && sameAll as bs
  | factory s as, factory s' bs => s == s' && sameAll as bs
  | construct t s, construct t' s' => t.same t' && s == s'
  | isSet a f, isSet b g => same a b && f == g
  | _, _ => false

/-- Equality of lists of expressions. -/
def sameAll : List Expr → List Expr → Bool
  | [], [] => true
  | a :: as, b :: bs => same a b && sameAll as bs
  | _, _ => false

end

instance : BEq Expr := ⟨same⟩

end Expr

namespace Stmt

/-- Statements to run if a condition holds. -/
def when (condition : Expr) (body : List Stmt) : Stmt := branch condition body []

end Stmt

end ObjectMapping
