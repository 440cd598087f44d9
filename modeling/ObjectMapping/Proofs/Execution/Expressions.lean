import ObjectMapping.Execution.Invocation
import ObjectMapping.Proofs.Outcome

/-! # The expressions of methods

What the names, tests and places of generated code stand for in a frame. Proofs about statements use
these equations, and never the definition of evaluation.

* Names and tests: `eval_self`, `eval_sourceField`, `eval_isNone`, `eval_isNotNone`, `eval_isSet`.
* The caller's values: `contains_extra`, `subscript_extra`.
* Objects at hand: `eval_construct`, `eval_created`, `eval_targetField`, and the place of a field of
  the target, `read_targetField` and `assigned_targetField`. -/

namespace ObjectMapping

open Outcome

variable {invoker : Invoker} {f : Frame}

/-- The source is visible under its name. -/
theorem eval_self : f.eval invoker [] .self = .ok f.source := by
  simp [Expr.self, Frame.eval, Frame.valueOf]

/-- The name for values of the caller stands for them. -/
theorem eval_extra : f.eval invoker [] .extra = .ok f.extra := by
  simp [Expr.extra, Frame.eval, Frame.valueOf]

/-- The name for no value stands for it. -/
theorem eval_none : f.eval invoker [] .none = .ok .none := by
  rw [Expr.none, Frame.eval]

/-- A source field is read off the source. -/
theorem eval_sourceField (name : String) :
    f.eval invoker [] (.attr .self name) = f.source.field name := by
  rw [Frame.eval, eval_self, ok_bind]

/-- The test for absence is true exactly for the absent value. -/
theorem eval_isNone (invoker : Invoker) (f : Frame) (e : Expr) :
    f.eval invoker [] e.isNone = ((f.eval invoker [] e).map Value.isNone).map .bool := by
  rw [Expr.isNone, Frame.eval]
  cases f.eval invoker [] e with
  | error e => rfl
  | ok v =>
    cases v <;> simp [Expr.none, Frame.eval, Frame.compared, Value.identical, Value.isNone, Except.map]

/-- The test for presence is false exactly for the absent value. -/
theorem eval_isNotNone (invoker : Invoker) (f : Frame) (e : Expr) :
    f.eval invoker [] e.isNotNone = ((f.eval invoker [] e).map (!·.isNone)).map .bool := by
  rw [Expr.isNotNone, Frame.eval]
  cases f.eval invoker [] e with
  | error e => rfl
  | ok v =>
    cases v <;> simp [Expr.none, Frame.eval, Frame.compared, Value.identical, Value.isNone, Except.map]

/-- The test for an assignment asks the source whether the field is assigned. -/
theorem eval_isSet (name : String) :
    f.eval invoker [] (.isSet .self name) = (f.source.isAssigned name).map .bool := by
  rw [Frame.eval, eval_self, ok_bind]
  cases f.source.isAssigned name <;> rfl

/-! ## The caller's values -/

/-- The caller's values are looked up by name. -/
theorem lookup_extra (extra : Extra) (key : String) :
    (extra.map fun entry => (Value.str entry.1, entry.2)).lookup (.str key) = extra.lookup key := by
  induction extra with
  | nil => rfl
  | cons entry rest ih =>
    obtain ⟨name, v⟩ := entry
    have hkey : ((Value.str key : Value) == Value.str name) = (key == name) := by
      show Value.same _ _ = _
      rw [Value.same]
    rw [List.map_cons, List.lookup_cons, List.lookup_cons, hkey, ih]

/-- The values of the caller contain the keys that are found in them. -/
theorem contains_extra (extra : Extra) (key : String) :
    extra.value.contains (.str key) = .ok (extra.lookup key).isSome := by
  rw [Extra.value, Value.contains, Keyed.contains]
  exact congrArg (fun found => Except.ok (Option.isSome found)) (lookup_extra extra key)

/-- The values of the caller have under a key what is found there. -/
theorem subscript_extra {extra : Extra} {key : String} {v : Value} (h : extra.lookup key = some v) :
    extra.value.subscript (.str key) = .ok v := by
  have hfound : extra.value.subscript? (.str key) = some v := by
    rw [Extra.value, Value.subscript?]
    exact (lookup_extra extra key).trans h
  rw [Value.subscript, hfound]

/-! ## Objects at hand -/

/-- A method constructs the class that its plan leads to. -/
theorem eval_construct (invoker : Invoker) {handle : ClassHandle} (strategy : Strategy)
    (h : f.method.target.handle.same handle = true) :
    f.eval invoker [] (.construct handle strategy)
      = f.method.target.construct strategy f.arguments := by
  rw [Frame.eval, Frame.constructed, if_pos h]

/-- The name for the new object stands for it. -/
theorem eval_created (invoker : Invoker) (f : Frame) (object : Value) :
    ({ f with created? := some object } : Frame).eval invoker [] .created = .ok object := by
  simp [Expr.created, Frame.eval, Frame.valueOf, Frame.part]

/-- A field of the object that an update method changes. -/
theorem eval_targetField {owner : Value} (h : f.target? = some owner) (name : String) :
    f.eval invoker [] (.attr .target name) = owner.field name := by
  simp [Expr.target, Frame.eval, Frame.valueOf, Frame.part, h]

/-- A field of the target is read off the target. -/
theorem read_targetField {owner : Value} (h : f.target? = some owner) (name : String) :
    f.read (.attr .target name) = owner.field name := by
  rw [Frame.read, Expr.target, Frame.read, h]
  rfl

/-- Writing a field of the target changes the target in this field. -/
theorem write_targetField {owner : Value} (h : f.target? = some owner) (name : String)
    (value : Value) :
    f.write value (.attr .target name)
      = { f with target? := some (owner.withField name value) } := by
  rw [Frame.write, Expr.target, Frame.read, h]
  rfl

/-- Assigning a field of the target assigns it in the target. -/
theorem assigned_targetField {owner : Value} (h : f.target? = some owner) (name : String)
    (value : Value) :
    f.assigned value (.attr .target name)
      = (owner.assign name value).map fun owner => { f with target? := some owner } := by
  rw [Frame.assigned, Expr.target, Frame.read, h, Frame.part, ok_bind]
  cases owner.assign name value <;> rfl

end ObjectMapping
