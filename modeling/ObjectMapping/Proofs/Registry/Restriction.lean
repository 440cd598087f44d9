import ObjectMapping.Proofs.Registry.Nesting

/-! # Which mappings are invoked

What a conversion or a change does may depend on conditions on all the mappings that it invokes, at
whatever depth. Such a condition is expressed by refusing the invocations that violate it: if none is
made, refusing them makes no difference, and if one is made, its refusal is the outcome.

* `Invocation`: a conversion or a change, with what it is applied to, and `Invocation.satisfies`, a
  condition on its source that depends on the registration whose mapping is invoked.
* `Registry.restricted`: the invoker that refuses some invocations.
* **`Registry.ConvertsWithin`**, **`Registry.UpdatesWithin`** — a conversion, or a change, invokes
  allowed mappings only. -/

namespace ObjectMapping

/-- One use of a mapping. -/
inductive Invocation where
  | create (source : Value) (target : ClassHandle)
  | update (source object : Value)

namespace Invocation

/-- The source of an invocation. -/
def source : Invocation → Value
  | .create source _ => source
  | .update source _ => source

/-- The key of the mapping that is invoked, if source and target have classes. -/
def key? : Invocation → Option MappingKey
  | .create source target => source.handle?.map fun s => .of s target .create
  | .update source object => source.handle?.bind fun s => object.handle?.map fun t => .of s t .update

/-- Whether a condition on the source holds for the registration whose mapping is invoked. -/
def satisfies (log : List Registration) (condition : Registration → Value → Bool)
    (invocation : Invocation) : Bool :=
  log.all fun registration =>
    !invocation.key?.any registration.keys.contains || condition registration invocation.source

/-- The condition holds for the registration whose mapping is invoked. -/
theorem condition_of_satisfies {log : List Registration} {condition : Registration → Value → Bool}
    {invocation : Invocation} {registration : Registration} {key : MappingKey}
    (h : invocation.satisfies log condition = true) (hmem : registration ∈ log)
    (hkey : invocation.key? = some key) (hkeys : key ∈ registration.keys) :
    condition registration invocation.source = true := by
  have hall := List.all_eq_true.mp h registration hmem
  have hcontains : registration.keys.contains key = true := List.contains_iff_mem.mpr hkeys
  rw [hkey, Option.any_some, hcontains, Bool.not_true, Bool.false_or] at hall
  exact hall

/-- A condition that always holds holds for every invocation. -/
theorem satisfies_of_forall {log : List Registration} {condition : Registration → Value → Bool}
    (h : ∀ registration ∈ log, ∀ source, condition registration source = true)
    (invocation : Invocation) : invocation.satisfies log condition = true := by
  refine List.all_eq_true.mpr ?_
  intro registration hmem
  rw [h registration hmem, Bool.or_true]

/-- The mapping for a source is looked up by the number of its class. -/
theorem key?_create {v : Value} {owner s t : ClassHandle} (howner : v.handle? = some owner)
    (hid : owner.id = s.id) : (create v t).key? = some (.of s t .create) := by
  rw [key?, howner, Option.map_some, MappingKey.of, MappingKey.of, hid]

/-- An update is filed under the classes of the two objects. -/
theorem key?_update {v object : Value} {owner holder s t : ClassHandle}
    (howner : v.handle? = some owner) (hid : owner.id = s.id)
    (hholder : object.handle? = some holder) (hid' : holder.id = t.id) :
    (update v object).key? = some (.of s t .update) := by
  rw [key?, howner, hholder, Option.bind_some, Option.map_some, MappingKey.of, MappingKey.of, hid,
    hid']

end Invocation

namespace Registry

variable (r : Registry) (extra : Value) (allowed : Invocation → Bool) (refusal : Error)

/-- Invokes a mapping if the invocation is allowed, and fails with the refusal otherwise. -/
def restrict (inner : Invoker) : Invoker where
  create source target :=
    if allowed (.create source target) then r.createWith extra inner source target
    else .error refusal
  update source object :=
    if allowed (.update source object) then r.updateWith extra inner source object
    else (.error refusal, object)

/-- The invoker for sources of at most the given height that refuses what is not allowed. -/
def restricted : Nat → Invoker
  | 0 => r.invoker extra 0
  | height + 1 => r.restrict extra allowed refusal (restricted height)

end Registry

namespace Registry

/-- **The conversion invokes allowed mappings only**: it has the same outcome if all others are
refused, whatever the refusal is. -/
def ConvertsWithin (r : Registry) (allowed : Invocation → Bool) (source : Value)
    (target : ClassHandle) (extra : Extra) : Prop :=
  ∀ refusal, (r.restricted extra.value allowed refusal source.height).create source target
    = r.convert source target extra

/-- **The change invokes allowed mappings only.** -/
def UpdatesWithin (r : Registry) (allowed : Invocation → Bool) (source object : Value)
    (extra : Extra) : Prop :=
  ∀ refusal, (r.restricted extra.value allowed refusal source.height).update source object
    = r.update source object extra

variable {r : Registry} {extra : Value} {allowed : Invocation → Bool} {refusal : Error}

/-- If everything is allowed nothing is refused. -/
theorem restricted_eq_invoker (h : ∀ invocation, allowed invocation = true) (n : Nat) :
    r.restricted extra allowed refusal n = r.invoker extra n := by
  induction n with
  | zero => rfl
  | succ n ih =>
    rw [restricted, invoker, ih, restrict]
    simp only [h, if_true]

/-- Where all invocations are allowed, a conversion keeps within them. -/
theorem convertsWithin_of_all (h : ∀ invocation, allowed invocation = true) (source : Value)
    (target : ClassHandle) (extra : Extra) : r.ConvertsWithin allowed source target extra :=
  fun _ => by rw [restricted_eq_invoker h]; rfl

/-- Where all invocations are allowed, a change keeps within them. -/
theorem updatesWithin_of_all (h : ∀ invocation, allowed invocation = true) (source object : Value)
    (extra : Extra) : r.UpdatesWithin allowed source object extra :=
  fun _ => by rw [restricted_eq_invoker h]; rfl

/-- If all conversions are allowed, none is refused, for they invoke other conversions only. -/
theorem Reached.restricted_create_eq {log : List Registration} {extra : Extra}
    (h : Reached log r) (hallowed : ∀ v t, allowed (.create v t) = true) (n : Nat) :
    (r.restricted extra.value allowed refusal n).create = (r.invoker extra.value n).create := by
  induction n with
  | zero => rfl
  | succ n ih =>
    funext v t
    rw [restricted, restrict]
    dsimp only
    rw [if_pos (hallowed v t), invoker]
    refine h.createWith_congr ?_
    intro u _ target
    rw [ih]

end Registry

end ObjectMapping
