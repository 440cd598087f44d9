import ObjectMapping.Method

/-! # Evaluating expressions

Expressions of a method are evaluated in the frame of its invocation. Other methods are reached
through an `Invoker`, which looks them up by the class of the value at hand when a call is made.

* `Frame.eval` is the value of an expression. -/

namespace ObjectMapping

/-- How a method invokes other methods. -/
structure Invoker where
  /-- Makes an object of a class from a source. -/
  create : Value → ClassHandle → Except Error Value
  /-- Brings a target up to date with a source: the outcome, and the target as it is left. -/
  update : Value → Value → Except Error Unit × Value

/-- The state of one invocation. -/
structure Frame where
  method : MappingMethod
  source : Value
  extra : Value
  /-- The object that an update method changes. -/
  target? : Option Value
  /-- The constructor arguments collected so far. -/
  arguments : Arguments
  /-- The new object of a create method. -/
  created? : Option Value

/-- The values of loop variables, innermost first. -/
abbrev Scope := List (String × Value)

namespace Frame

/-- The value of an optional part of a frame. -/
def part (value? : Option Value) (absent : RuntimeFault) : Except Error Value :=
  match value? with
  | some value => .ok value
  | none => .error (.runtime absent)

/-- The value of a variable: of a loop variable, or of one of the names of the frame. -/
def valueOf (f : Frame) (scope : Scope) (name : String) : Except Error Value :=
  match scope.lookup name with
  | some value => .ok value
  | none =>
      match name with
      | "self" => .ok f.source
      | "extra" => .ok f.extra
      | "target" => part f.target? .noTarget
      | "obj" => part f.created? .notConstructed
      | other => .error (.runtime (.undefinedName other))

/-- The result of a comparison. -/
def compared (left right : Value) : Comparison → Except Error Bool
  | .is => .ok (left.identical right)
  | .isNot => .ok (!left.identical right)
  | .isIn => right.contains left
  | .notIn => do return !(← right.contains left)

/-- The object constructed from the arguments collected so far. -/
def constructed (f : Frame) (handle : ClassHandle) (strategy : Strategy) : Except Error Value :=
  if f.method.target.handle.same handle then f.method.target.construct strategy f.arguments
  else .error (.runtime (.otherClass handle.name f.method.target.name))

/-- The factory in a slot. -/
def factoryAt (f : Frame) (slot : Nat) : Except Error Factory :=
  match f.method.factories[slot]? with
  | some factory => .ok factory
  | none => .error (.runtime (.noFactory slot))

mutual

/-- The value of an expression. -/
def eval (invoker : Invoker) (f : Frame) (scope : Scope) : Expr → Except Error Value
  | .var name => f.valueOf scope name
  | .const value => .ok value
  | .attr object name => do (← eval invoker f scope object).field name
  | .index object key => do
      let value ← eval invoker f scope object
      value.subscript (← eval invoker f scope key)
  | .compare left comparison right => do
      let a ← eval invoker f scope left
      let b ← eval invoker f scope right
      return .bool (← compared a b comparison)
  | .ternary condition whenTrue whenFalse => do
      let c ← eval invoker f scope condition
      if c.truthy then eval invoker f scope whenTrue else eval invoker f scope whenFalse
  | .listOf element x iterable => do
      let items ← (← eval invoker f scope iterable).elements
      return .list (← items.mapM fun item => eval invoker f ((x, item) :: scope) element)
  | .setOf element x iterable => do
      let items ← (← eval invoker f scope iterable).elements
      return .set (Keyed.distinct
        (← items.mapM fun item => eval invoker f ((x, item) :: scope) element))
  | .dictOf key value k v iterable => do
      let entries ← (← eval invoker f scope iterable).entries
      return .dict (Keyed.ofList (← entries.mapM fun entry => do
        let scope := (v, entry.2) :: (k, entry.1) :: scope
        let newKey ← eval invoker f scope key
        return (newKey, ← eval invoker f scope value)))
  | .tuple items => do return .tuple (← evalAll invoker f scope items)
  | .method receiver key _ =>
      match key.direction with
      | .create => do invoker.create (← eval invoker f scope receiver) key.target
      | .update => .error (.runtime .updateValue)
  | .factory slot args => do
      match ← f.factoryAt slot with
      | .constant value => return value
      | .ofSource make => return make (← evalFirst invoker f scope args)
  | .construct handle strategy => f.constructed handle strategy
  | .isSet object name => do return .bool (← (← eval invoker f scope object).isAssigned name)

/-- The values of the expressions of a list. -/
def evalAll (invoker : Invoker) (f : Frame) (scope : Scope) : List Expr → Except Error (List Value)
  | [] => .ok []
  | e :: rest => do
      let value ← eval invoker f scope e
      return value :: (← evalAll invoker f scope rest)

/-- The value of the first argument of a factory. -/
def evalFirst (invoker : Invoker) (f : Frame) (scope : Scope) : List Expr → Except Error Value
  | [] => .error (.runtime .factoryArgument)
  | e :: _ => eval invoker f scope e

end

end Frame

end ObjectMapping
