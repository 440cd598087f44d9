import ObjectMapping.Proofs.Registry.Nesting

/-! # Generated code means what it was made from

The two facts that let a reader forget about generated code. An expression for a conversion is the
conversion of its value, and a create method is its plan; in a registry, the conversions that either
of them asks for are the conversions by the registry itself.

* **`express_sound`** — conversions as code are conversions of values.
* **`create_sound`** — create methods are their plans. -/

namespace ObjectMapping

open Outcome Registry

/-- **Evaluating the code of a conversion is converting directly.** In every frame and under every
scope, the code that `express` gives for an expression has the outcome of the direct conversion of
that expression's outcome, where objects are made by whatever the frame invokes. In a registry that
registrations lead to, that is the conversion by the registry with the frame's own extra values. -/
theorem express_sound {methods : MethodTable} {source target : FieldType} {value code : Expr}
    {depth : Nat} (h : Conversion.express methods source value depth target = .ok code) :
    (∀ (invoker : Invoker) (f : Frame) (scope : Scope),
      f.eval invoker scope code
        = Conversion.direct invoker.create source (f.eval invoker scope value) target) ∧
    ∀ {log : List Registration} {r : Registry}, Reached log r →
      ∀ (extra : Extra) (n : Nat) (f : Frame) (scope : Scope) (v : Value), v.height ≤ n →
        f.extra = extra.value → f.eval (r.invoker extra.value n) scope value = .ok v →
          f.eval (r.invoker extra.value n) scope code
            = Conversion.direct (r.convert · · extra) source (.ok v) target := by
  refine ⟨fun invoker f scope => Conversion.eval_express invoker f h, ?_⟩
  intro log r hreached extra n f scope v hheight _ hvalue
  have hagree := (hreached.invoker_agree_unbounded extra n).mono hheight
  rw [Conversion.eval_express _ f h, hvalue]
  refine Conversion.direct_congr h ?_
  intro u hu
  obtain rfl := Except.ok.inj hu
  exact hagree.create

/-- A method of no account, invoked on a list of orders. -/
def Sample.frame : Frame :=
  MappingMethod.frame ⟨order, orderViewClass, .create, ⟨"convert", [], "", []⟩, []⟩
    (.list [orderOf "pen"]) Sample.extra.value none

/-- Orders in a list become views of them in a list. -/
theorem express_sound_orders :
    Sample.frame.eval (Sample.registry.invoker Sample.extra.value 4) []
        (.listOf (Conversion.createCall (.var "x0") Sample.orderView) "x0" .self)
      = Conversion.direct (Sample.registry.convert · · Sample.extra) (.list (.named Sample.order))
          (.ok (.list [Sample.orderOf "pen"])) (.list (.optional (.named Sample.orderView))) := by
  have hcode : Conversion.express Sample.registry.methodTable (.list (.named Sample.order)) .self 0
      (.list (.optional (.named Sample.orderView)))
        = .ok (.listOf (Conversion.createCall (.var "x0") Sample.orderView) "x0" .self) := by
    have hmethod : Sample.registry.methodTable Sample.order Sample.orderView .create = true := by
      decide +kernel
    refine Conversion.express_list_iff.mpr ⟨_, _, rfl, ?_, rfl⟩
    refine Conversion.express_optional_iff.mpr (.inr ⟨rfl, ?_⟩)
    exact Conversion.express_named_iff.mpr ⟨_, rfl, .inr ⟨by decide, hmethod, rfl⟩⟩
  have hheight : (Value.list [Sample.orderOf "pen"]).height ≤ 4 := by decide
  exact (express_sound hcode).2 Sample.reached Sample.extra 4 Sample.frame [] _ hheight rfl eval_self

/-- **A create method is its plan.** Let a plan for new objects of a described class be finished,
and let a method be assembled from it. Whatever the method invokes for nested conversions, it returns
or fails with what the plan gives: the accepted fields contribute the arguments, in the order of the
fields, the class constructs the object, and the other fields are assigned. In a registry that
registrations lead to, the conversions of source fields are those by the registry. -/
theorem create_sound {source described : Descriptor} {target : Class} {flavor : Flavor}
    {overrides : Overrides} {p : Plan} {methods : MethodTable} {m : MappingMethod}
    (hdescribed : target.describeAs flavor = .ok described)
    (hplan : Plan.build source described .create overrides = .ok p)
    (hmethod : MappingMethod.assemble p target methods = .ok m) (this : Value) (extra : Extra) :
    (∀ invoker : Invoker,
      m.create invoker this extra.value = p.evaluate invoker.create this extra target) ∧
    ∀ {log : List Registration} {r : Registry}, Reached log r → ∀ n, this.height ≤ n + 1 →
      m.create (r.invoker extra.value n) this extra.value
        = p.evaluate (r.convert · · extra) this extra target := by
  obtain ⟨-, htarget, hdirection, hresolved⟩ := Plan.build_eq_ok hplan
  obtain ⟨hhandle, hnodup⟩ := Class.describeAs_eq_ok hdescribed
  rw [← htarget] at hhandle hnodup
  have hcreate : ∀ invoker : Invoker,
      m.create invoker this extra.value = p.evaluate invoker.create this extra target := by
    intro invoker
    refine create_eq_evaluate_of_resolved hdirection hnodup hresolved ?_ hmethod
    rw [hhandle, ClassHandle.same_self]
  refine ⟨hcreate, ?_⟩
  intro log r hreached n hheight
  have hsupported := Plan.supported_of_assemble hnodup hresolved hmethod
  have hagree := (hreached.invoker_agree_unbounded extra n).mono
    (show this.height - 1 ≤ n by omega)
  rw [hcreate, Plan.evaluate_congr hsupported hdirection hagree.create]
  rfl

/-- The view of an order is what the plan for views of orders gives. -/
theorem create_sound_order : ∃ (p : Plan) (m : MappingMethod),
    Plan.build Sample.orderClass.describe Sample.orderViewClass.describe .create
        [("owner", .fromExtra "owner")] = .ok p ∧
      m.create (Sample.registry.invoker Sample.extra.value 2) (Sample.orderOf "pen")
          Sample.extra.value
        = p.evaluate (Sample.registry.convert · · Sample.extra) (Sample.orderOf "pen") Sample.extra
            Sample.orderViewClass := by
  have hkey : MappingKey.of Sample.order Sample.orderView .create ∈ (Registration.classes
      Sample.orderClass Sample.orderViewClass [("owner", .fromExtra "owner")] .createAndUpdate).keys :=
    List.mem_cons_self
  obtain ⟨registered, -, hprovides⟩ := Sample.reached.provides List.mem_cons_self hkey
  cases hprovides with
  | @method _ _ _ _ _ p methods m hdirection hmade =>
    have hheight : (Sample.orderOf "pen").height ≤ 3 := by decide
    exact ⟨p, m, hmade.build, (create_sound (Class.describeAs_flavor _) hmade.build hmade.assemble
      (Sample.orderOf "pen") Sample.extra).2 Sample.reached 2 hheight⟩

end ObjectMapping
