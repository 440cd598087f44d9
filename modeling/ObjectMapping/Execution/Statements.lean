import ObjectMapping.Execution.Evaluation

/-! # Running statements

Statements change the frame of an invocation. A failure keeps the frame as it is at that moment, so
what an update did to its target before it failed stays done.

* `Run` is a computation on a frame.
* `Frame.read` and `Frame.write` access the value at a place.
* `Stmt.run` and `Stmt.runAll` run statements; their result is the value that was returned, if any.
  -/

namespace ObjectMapping

/-- A computation that changes a frame and may fail. -/
abbrev Run := ExceptT Error (StateM Frame)

namespace Frame

/-- The value at a place: the target, the new object, or a field of the value at a place. -/
def read (f : Frame) : Expr → Except Error Value
  | .var "target" => part f.target? .noTargetToChange
  | .var "obj" => part f.created? .notConstructed
  | .attr object name => do (← f.read object).field name
  | other => .error (.runtime (.notAssignable other.text))

/-- The frame with another value at a place that exists. -/
def write (f : Frame) (value : Value) : Expr → Frame
  | .var "target" => { f with target? := some value }
  | .var "obj" => { f with created? := some value }
  | .attr object name =>
      match f.read object with
      | .ok owner => f.write (owner.withField name value) object
      | .error _ => f
  | _ => f

/-- The frame after an assignment. -/
def assigned (f : Frame) (value : Value) : Expr → Except Error Frame
  | .index (.var "d") key =>
      match key with
      | .const (.str name) => .ok { f with arguments := Keyed.insert f.arguments name value }
      | _ => .error (.runtime .argumentName)
  | .var "obj" => .ok { f with created? := some value }
  | .attr object name => do
      let owner ← f.read object
      return f.write (← owner.assign name value) object
  | other => .error (.runtime (.cannotAssign other.text))

end Frame

namespace Stmt

/-- The value of an expression in the current frame. -/
def evaluate (invoker : Invoker) (e : Expr) : Run Value := do
  let f ← get
  liftExcept (f.eval invoker [] e)
where
  /-- An outcome that does not depend on the frame. -/
  liftExcept (outcome : Except Error Value) : Run Value := fun f => (outcome, f)

/-- Replaces the frame, unless making the new one failed. -/
def replaceFrame (change : Frame → Except Error Frame) : Run Unit := fun f =>
  match change f with
  | .ok next => (.ok (), next)
  | .error e => (.error e, f)

/-- Changes the value at a place by an update method. Whatever the outcome, the place holds the
value as the method left it. -/
def updateAt (invoker : Invoker) (source : Value) (place : Expr) : Run Unit := fun f =>
  match f.read place with
  | .error e => (.error e, f)
  | .ok value =>
      let (outcome, left) := invoker.update source value
      (outcome, f.write left place)

mutual

/-- Runs a statement. -/
def run (invoker : Invoker) : Stmt → Run (Option Value)
  | assign (.var "d") _ => do
      modify fun f => { f with arguments := [] }
      return none
  | assign place value => do
      let v ← evaluate invoker value
      replaceFrame fun f => f.assigned v place
      return none
  | perform (.method receiver ⟨.update, _⟩ args) => do
      let source ← evaluate invoker receiver
      match args with
      | [place, _] =>
          updateAt invoker source place
          return none
      | _ => throw (.runtime .updateArguments)
  | perform e => do
      discard (evaluate invoker e)
      return none
  | branch condition whenTrue whenFalse => do
      let c ← evaluate invoker condition
      if c.truthy then runAll invoker whenTrue else runAll invoker whenFalse
  | raise text => throw (.raised text)
  | result e => do return some (← evaluate invoker e)
  | pass => return none

/-- Runs statements up to the first one that returns a value. -/
def runAll (invoker : Invoker) : List Stmt → Run (Option Value)
  | [] => return none
  | s :: rest => do
      match ← run invoker s with
      | some value => return some value
      | none => runAll invoker rest

end

end Stmt

namespace MappingMethod

/-- The frame at the beginning of an invocation. -/
def frame (m : MappingMethod) (source extra : Value) (target? : Option Value) : Frame :=
  ⟨m, source, extra, target?, [], none⟩

/-- Runs a create method: the new object. -/
def create (m : MappingMethod) (invoker : Invoker) (source extra : Value) : Except Error Value :=
  match (Stmt.runAll invoker m.function.body).run (m.frame source extra none) with
  | (.ok (some value), _) => .ok value
  | (.ok none, _) => .error (.runtime (.noReturn m.function.name))
  | (.error e, _) => .error e

/-- Runs an update method: the outcome, and the target as it is left. -/
def update (m : MappingMethod) (invoker : Invoker) (source target extra : Value) :
    Except Error Unit × Value :=
  let (outcome, f) := (Stmt.runAll invoker m.function.body).run (m.frame source extra (some target))
  (outcome.map fun _ => (), f.target?.getD target)

end MappingMethod

end ObjectMapping
