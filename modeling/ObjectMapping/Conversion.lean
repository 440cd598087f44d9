import ObjectMapping.Code.Basic
import ObjectMapping.FieldType.Basic

/-! # Conversions between field types

An expression that turns a value of one type into a value of another, or a statement that brings the
value at a place up to date with another value. The rules are tried in a fixed order, and the first
one for the outer shape of the two types decides: a failure further inside is not retried with later
rules.

* `Conversion.express` gives the expression. Objects of different classes are converted by
  a create method; collections element by element; a union only into a union with more members.
* `Conversion.amend` gives the statement. It is stricter: only objects whose class has an update
  method are changed in place, behind any absence of a value. -/

namespace ObjectMapping

/-- Which methods exist: from a class, to a class, in a direction. -/
abbrev MethodTable := ClassHandle → ClassHandle → Direction → Bool

/-- Two types without a conversion between them, and the number of levels inside which they were
met. -/
structure NoConversion where
  source : FieldType
  target : FieldType
  depth : Nat

/-- The text for a missing conversion. -/
def NoConversion.message (c : NoConversion) : String :=
  "no conversion from '" ++ c.source.text ++ "' to '" ++ c.target.text ++ "' (depth " ++
    toString c.depth ++ ")"

/-- The text for a missing change in place. -/
def NoConversion.amendMessage (c : NoConversion) : String :=
  "no in-place update from '" ++ c.source.text ++ "' to '" ++ c.target.text ++ "' (depth " ++
    toString c.depth ++ ")"

namespace Conversion

/-- The name of a loop variable at a depth. -/
def loopVar (letter : String) (depth : Nat) : String := letter ++ toString depth

/-- The call of the create method for a class. -/
def createCall (value : Expr) (target : ClassHandle) : Expr :=
  .method value ⟨.create, target⟩ [.extra]

/-- The call of the update method for a class on the object at a place. -/
def updateCall (value : Expr) (target : ClassHandle) (place : Expr) : Expr :=
  .method value ⟨.update, target⟩ [place, .extra]

mutual

/-- The expression of type `target` for a `value` of type `source`. -/
def express (methods : MethodTable) (source : FieldType) (value : Expr) (depth : Nat)
    (target : FieldType) : Except NoConversion Expr :=
  match target, source with
  | .any, _ => .ok value
  | .named t, .named s =>
      if s.same t then .ok value
      else if methods s t .create then .ok (createCall value t)
      else .error ⟨source, target, depth⟩
  | .union members, .named _ =>
      if members.any fun member => member.same source then .ok value
      else .error ⟨source, target, depth⟩
  | .union members, .union arms =>
      if FieldType.included arms members then .ok value else .error ⟨source, target, depth⟩
  | .list t, .list s => do
      let x := loopVar "x" depth
      return .listOf (← express methods s (.var x) (depth + 1) t) x value
  | .set t, .set s => do
      let x := loopVar "x" depth
      return .setOf (← express methods s (.var x) (depth + 1) t) x value
  | .dict tk tv, .dict sk sv => do
      let k := loopVar "k" depth
      let v := loopVar "v" depth
      let key ← express methods sk (.var k) (depth + 1) tk
      return .dictOf key (← express methods sv (.var v) (depth + 1) tv) k v value
  | .tuple ts, .tuple ss =>
      if ss.length == ts.length then do
        return .tuple (← expressAll methods ss value 0 (depth + 1) ts)
      else .error ⟨source, target, depth⟩
  | .optional t, .optional s => do
      return .ternary value.isNone .none (← express methods s value (depth + 1) t)
  | .optional t, _ => express methods source value (depth + 1) t
  | _, _ => .error ⟨source, target, depth⟩

/-- The expressions for the positions of a tuple from `position` on. -/
def expressAll (methods : MethodTable) (sources : List FieldType) (value : Expr)
    (position depth : Nat) (targets : List FieldType) : Except NoConversion (List Expr) :=
  match targets, sources with
  | target :: targets, source :: sources => do
      let item ← express methods source (.index value (.int position)) depth target
      return item :: (← expressAll methods sources value (position + 1) depth targets)
  | _, _ => .ok []

end

/-- The statement that brings the value at `place`, of type `target`, up to date with a `value` of
type `source`. Where a place is empty there is nothing to change, so it gets a new object. -/
def amend (methods : MethodTable) (value place : Expr) (depth : Nat) :
    FieldType → FieldType → Except NoConversion Stmt
  | .named s, .named t =>
      if methods s t .update then .ok (.perform (updateCall value t place))
      else .error ⟨.named s, .named t, depth⟩
  | .optional s, .optional t => do
      let change ← amend methods value place (depth + 1) s (.optional t)
      return .branch value.isNone [.assign place .none] [change]
  | source, .optional t => do
      let change ← amend methods value place (depth + 1) source t
      match express methods source value (depth + 1) t with
      | .ok create => return .branch place.isNone [.assign place create] [change]
      | .error _ => .error ⟨source, .optional t, depth⟩
  | source, target => .error ⟨source, target, depth⟩
termination_by source target => sizeOf source + sizeOf target

end Conversion

end ObjectMapping
