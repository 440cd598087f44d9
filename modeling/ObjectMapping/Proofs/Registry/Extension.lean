import ObjectMapping.Proofs.Execution.Extension
import ObjectMapping.Proofs.Registry.History

/-! # Further registrations are conservative

A mapping is looked up at the moment it is called, so a registration made later can be called by a
method made before. It can only be called where the call failed before, though: whatever is looked
up with success stays what it is, since a registry keeps what it has.

* **`Registry.Extends r r'`** — further registrations lead from `r` to `r'`.
* **`Extends.lookup`** — the mappings of a registry are still there in the larger ones.
* **`Extends.invoker`** — what a registry does at any depth persists in the larger ones.
* **`convert_update_of_extends`** — conversions and changes that do not miss a mapping end alike, and
  a change leaves its target alike. -/

namespace ObjectMapping

namespace Registry

/-- Further registrations that succeed lead from a registry to another one. -/
inductive Extends (r : Registry) : Registry → Prop
  | refl : Extends r r
  | enter {r' r'' : Registry} {registration : Registration} (hextends : Extends r r')
      (hentered : r'.enter registration = .ok r'') : Extends r r''

namespace Extends

variable {r r' r'' : Registry}

/-- Registries extend each other across one in between. -/
theorem trans (h : r.Extends r') (h' : r'.Extends r'') : r.Extends r'' := by
  induction h' with
  | refl => exact h
  | enter _ hentered ih => exact .enter ih hentered

/-- **A registry keeps what it has.** -/
theorem lookup {key : MappingKey} {registered : Registered} (h : r.Extends r')
    (hlookup : r.lookup? key = some registered) : r'.lookup? key = some registered := by
  induction h with
  | refl => exact hlookup
  | enter _ hentered ih => exact lookup_of_enter hentered ih

/-- The methods of a registry are methods of one that extends it. -/
theorem methodTable (h : r.Extends r') (s t : ClassHandle) (d : Direction)
    (hmethod : r.methodTable s t d = true) : r'.methodTable s t d = true := by
  obtain ⟨registered, hlookup⟩ := Option.isSome_iff_exists.mp hmethod
  exact Option.isSome_iff_exists.mpr ⟨registered, h.lookup hlookup⟩

variable {inner inner' : Invoker}

/-- A conversion persists if the ones that it asks for do. -/
theorem createWith (h : r.Extends r') (hinner : inner.Extends inner') (extra source : Value)
    (target : ClassHandle) :
    Persists (r.createWith extra inner source target)
      (r'.createWith extra inner' source target) := by
  rw [Registry.createWith, Registry.createWith]
  cases hhandle : source.handle? with
  | none => exact .refl _
  | some s =>
    rw [Option.bind_some, Option.bind_some]
    -- without a mapping here the outcome is the one failure that need not persist
    cases hlookup : r.lookup? (.of s target .create) with
    | none => exact .inl ⟨_, rfl, rfl⟩
    | some registered =>
      rw [h.lookup hlookup]
      cases registered with
      | method m => exact m.persists_create hinner source extra
      | enum m => exact .refl _

/-- A change persists if the conversions and changes that it asks for do. -/
theorem updateWith (h : r.Extends r') (hinner : inner.Extends inner')
    (extra source target : Value) :
    PersistsIn (r.updateWith extra inner source target)
      (r'.updateWith extra inner' source target) := by
  rw [Registry.updateWith, Registry.updateWith]
  cases hsource : source.handle? with
  | none => exact .refl _
  | some s =>
    cases htarget : target.handle? with
    | none => exact .refl _
    | some t =>
      rw [Option.bind_some, Option.bind_some, Option.bind_some, Option.bind_some]
      cases hlookup : r.lookup? (.of s t .update) with
      | none => exact .inl ⟨_, rfl, rfl⟩
      | some registered =>
        rw [h.lookup hlookup]
        cases registered with
        | method m => exact m.persistsIn_update hinner source target extra
        | enum m => exact .refl _

/-- **What a registry does persists in the larger ones**, at whatever depth it is invoked. -/
theorem invoker (h : r.Extends r') (extra : Value) (height : Nat) :
    (r.invoker extra height).Extends (r'.invoker extra height) := by
  induction height with
  | zero => exact .refl _
  | succ height ih =>
    exact ⟨fun source target => h.createWith ih extra source target,
      fun source target => h.updateWith ih extra source target⟩

end Extends

end Registry

/-- **Registration is a conservative extension.** Let further registrations lead from one registry to
another. If a conversion ends with the first one in anything but a failure for want of a mapping, it
ends in the same way with the second one; and if a change does, it ends in the same way and leaves
its target in the same state. -/
theorem convert_update_of_extends {r r' : Registry} (h : r.Extends r') (source : Value)
    (extra : Extra) :
    (∀ target, ¬ Unmapped (r.convert source target extra) →
      r'.convert source target extra = r.convert source target extra) ∧
    ∀ object, ¬ Unmapped (r.update source object extra).1 →
      r'.update source object extra = r.update source object extra := by
  have hinvoker := h.invoker extra.value source.height
  constructor
  · intro target hmapped
    exact (hinvoker.create source target).resolve_left hmapped
  · intro object hmapped
    exact (hinvoker.update source object).resolve_left hmapped

namespace Sample

/-- The registry before orders are registered. -/
def itemRegistry : Registry :=
  match Registry.replay (log.drop 1) with
  | .ok r => r
  | .error _ => .empty

/-- The sample registry extends the one for items. -/
theorem registry_extends : itemRegistry.Extends registry := by
  have hok : (Registry.replay (log.drop 1)).isOk = true := by decide +kernel
  have hreached := reached
  rw [Registry.reached_iff_replay, log, Registry.replay] at hreached
  obtain ⟨r, hitems, hentered⟩ := Outcome.bind_eq_ok.mp hreached
  have hr : itemRegistry = r := by
    rw [itemRegistry, log, List.drop_one, List.tail_cons, hitems]
  exact hr ▸ .enter .refl hentered

end Sample

/-- An item is viewed, and its view is brought up to date, as before orders were registered. -/
theorem convert_update_of_extends_item :
    Sample.registry.convert (Sample.named Sample.item "pen") Sample.itemView []
        = Sample.itemRegistry.convert (Sample.named Sample.item "pen") Sample.itemView [] ∧
      Sample.registry.update (Sample.named Sample.item "pen") (Sample.named Sample.itemView "ink") []
        = Sample.itemRegistry.update (Sample.named Sample.item "pen")
            (Sample.named Sample.itemView "ink") [] := by
  obtain ⟨hconvert, hupdate⟩ := convert_update_of_extends Sample.registry_extends
    (Sample.named Sample.item "pen") []
  have hmade : (Sample.itemRegistry.convert (Sample.named Sample.item "pen") Sample.itemView
      []).isOk = true := by decide +kernel
  have hchanged : (Sample.itemRegistry.update (Sample.named Sample.item "pen")
      (Sample.named Sample.itemView "ink") []).1.isOk = true := by decide +kernel
  refine ⟨hconvert _ ?_, hupdate _ ?_⟩
  · exact fun hunmapped => by simp [hunmapped.isOk] at hmade
  · exact fun hunmapped => by simp [hunmapped.isOk] at hchanged

end ObjectMapping
