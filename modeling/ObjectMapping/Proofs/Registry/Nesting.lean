import ObjectMapping.Proofs.Plan.Nesting

/-! # Invocations nest as deep as the source

Every invocation of a mapping by another one is on a part of its source. So the height of a source
is enough for everything that is invoked on its behalf, and a greater bound changes nothing: in a
registry that registrations lead to, a mapping is invoked from within another one exactly as it is
from outside.

* **`Reached.invoker_agree`** — two bounds make no difference for sources within both of them.
* **`Reached.invoker_agree_unbounded`** — within its bound the invoker of a method is the registry
  itself. -/

namespace ObjectMapping.Registry

/-- The conversions and changes by a registry, as a method invokes them. -/
def unbounded (r : Registry) (extra : Extra) : Invoker :=
  ⟨fun source target => r.convert source target extra,
    fun source object => r.update source object extra⟩

namespace Reached

variable {log : List Registration} {r : Registry} {extra : Extra} {inner inner' : Invoker}

/-- A conversion asks for conversions of parts of its source. -/
theorem createWith_congr (h : Reached log r) {source : Value} {target : ClassHandle}
    (hagree : Conversion.AgreeUpTo (source.height - 1) inner.create inner'.create) :
    r.createWith extra.value inner source target
      = r.createWith extra.value inner' source target := by
  rw [createWith, createWith]
  cases hhandle : source.handle? with
  | none => rfl
  | some handle =>
    rw [Option.bind_some]
    cases hlookup : r.lookup? (.of handle target .create) with
    | none => rfl
    | some registered =>
      cases registered with
      | enum m => rfl
      | method m =>
        obtain ⟨_, _, _, _, p, methods, -, -, -, -, hmade⟩ := h.lookup_method hlookup
        dsimp only
        rw [hmade.create_eq, hmade.create_eq,
          Plan.evaluate_congr hmade.supported hmade.direction_eq hagree]

/-- A change asks for conversions and changes by parts of its source. -/
theorem updateWith_congr (h : Reached log r) {source object : Value}
    (hagree : inner.AgreeUpTo (source.height - 1) inner') :
    r.updateWith extra.value inner source object
      = r.updateWith extra.value inner' source object := by
  rw [updateWith, updateWith]
  cases hsource : source.handle? with
  | none => rfl
  | some s =>
    cases hobject : object.handle? with
    | none => rfl
    | some t =>
      rw [Option.bind_some, Option.bind_some]
      cases hlookup : r.lookup? (.of s t .update) with
      | none => rfl
      | some registered =>
        cases registered with
        | enum m => rfl
        | method m =>
          obtain ⟨_, _, _, _, p, methods, -, -, -, -, hmade⟩ := h.lookup_method hlookup
          dsimp only
          rw [hmade.update_eq, hmade.update_eq,
            Plan.change_congr hmade.supported hmade.direction_eq hagree]

/-- **Bounds make no difference for sources within them.** -/
theorem invoker_agree (h : Reached log r) (extra : Extra) (n k : Nat) :
    (r.invoker extra.value n).AgreeUpTo (min n k) (r.invoker extra.value k) := by
  -- one level down both bounds are one less, and so is the height that they have to be enough for
  induction n generalizing k with
  | zero => exact .of_lt_one (by omega)
  | succ n ih =>
    cases k with
    | zero => exact .of_lt_one (by omega)
    | succ k =>
      constructor
      · intro v hv t
        exact h.createWith_congr ((ih k).mono (by omega)).create
      · intro v hv old
        exact h.updateWith_congr ((ih k).mono (by omega))

/-- **Within its bound, an invoker is the registry.** -/
theorem invoker_agree_unbounded (h : Reached log r) (extra : Extra) (n : Nat) :
    (r.invoker extra.value n).AgreeUpTo n (r.unbounded extra) :=
  ⟨fun v hv t => (h.invoker_agree extra n v.height).create v (by omega) t,
    fun v hv old => (h.invoker_agree extra n v.height).update v (by omega) old⟩

/-- An update by a registry invokes the registry itself for parts of the source. -/
theorem update_eq_updateWith (h : Reached log r) (extra : Extra) (source object : Value) :
    r.update source object extra
      = r.updateWith extra.value (r.unbounded extra) source object := by
  obtain ⟨n, hn⟩ := Nat.exists_eq_add_one.mpr source.height_pos
  rw [update, hn]
  exact h.updateWith_congr ((h.invoker_agree_unbounded extra n).mono (by omega))

end Reached

end ObjectMapping.Registry
