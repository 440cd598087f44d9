import Mathlib.Data.List.Chain
import ObjectMapping.Proofs.Method.Descent
import ObjectMapping.Proofs.Registry.Nesting

/-! # Invocations descend

A conversion or a change enters a method, which enters further ones, each selected by the classes of
the values at hand. Nothing is known about these classes: two classes may call for each other, and
a value may be of another class than its field declares. But every method is entered for a proper
part of the source of the method that calls it, so invocations nest as deep as the source at most.

* `Registry.entered?`, `Registry.callsFrom`: the mapping that a call enters, and the calls that it
  makes in turn; `Registry.Invokes` is the step from one to the next.
* **`Reached.convert_eq_of_answers`**, **`Reached.update_eq_of_answers`** — there are no other calls
  than these, and no bound on their nesting is met.
* **`Reached.properPart_of_invokes`** — a step leads to a proper part of the source.
* **`Reached.length_le_height`** — so a stack of invocations is no longer than its first source is
  high, and **`Reached.wellFounded_invokes`** — no invocation goes on forever. -/

namespace ObjectMapping

open Outcome

/-- The object that a call is to change. -/
def Call.object? : Call → Option Value
  | .create .. => none
  | .update _ object => some object

namespace Registry

/-- The mapping that a call enters, if the classes of the values lead to one. -/
def entered? (r : Registry) : Call → Option Registered
  | .create source target =>
      source.handle?.bind fun s => r.lookup? (.of s target .create)
  | .update source object =>
      source.handle?.bind fun s => object.handle?.bind fun t => r.lookup? (.of s t .update)

/-- **The calls that are made by the method that a call enters**, all answered by the registry
itself. Mappings between enums make none. -/
def callsFrom (r : Registry) (extra : Extra) (call : Call) : List Call :=
  match r.entered? call with
  | some (.method m) => m.calls (r.unbounded extra) call.source extra.value call.object?
  | _ => []

/-- Whether the method that one call enters makes the other call. -/
def Invokes (r : Registry) (extra : Extra) (caller callee : Call) : Prop :=
  callee ∈ r.callsFrom extra caller

namespace Reached

variable {log : List Registration} {r : Registry} {extra : Extra} {inner : Invoker}

/-! ## All calls -/

/-- A conversion by a registry invokes the registry itself for parts of the source. -/
theorem convert_eq_createWith (h : Reached log r) (extra : Extra) (source : Value)
    (target : ClassHandle) :
    r.convert source target extra
      = r.createWith extra.value (r.unbounded extra) source target := by
  obtain ⟨n, hn⟩ := Nat.exists_eq_add_one.mpr source.height_pos
  rw [convert, hn]
  exact h.createWith_congr ((h.invoker_agree_unbounded extra n).create.mono (by omega))

/-- **A conversion depends on the answers to the calls of its method**, and on nothing else. -/
theorem convert_eq_of_answers (h : Reached log r) {source : Value} {target : ClassHandle}
    (hagree : (r.unbounded extra).Agree inner (r.callsFrom extra (.create source target))) :
    r.convert source target extra = r.createWith extra.value inner source target := by
  rw [callsFrom, entered?] at hagree
  rw [h.convert_eq_createWith, createWith, createWith]
  cases hfound : source.handle?.bind fun handle => r.lookup? (.of handle target .create) with
  | none => rfl
  | some registered =>
    rw [hfound] at hagree
    cases registered with
    | enum m => rfl
    | method m => exact MappingMethod.create_eq_of_answers hagree

/-- **A change depends on the answers to the calls of its method**, and on nothing else. -/
theorem update_eq_of_answers (h : Reached log r) {source object : Value}
    (hagree : (r.unbounded extra).Agree inner (r.callsFrom extra (.update source object))) :
    r.update source object extra = r.updateWith extra.value inner source object := by
  rw [callsFrom, entered?] at hagree
  rw [h.update_eq_updateWith, updateWith, updateWith]
  cases hfound : source.handle?.bind fun s => object.handle?.bind fun t =>
      r.lookup? (.of s t .update) with
  | none => rfl
  | some registered =>
    rw [hfound] at hagree
    cases registered with
    | enum m => rfl
    | method m => exact MappingMethod.update_eq_of_answers hagree

/-! ## One step -/

/-- A method that a call enters was made for a plan. -/
theorem exists_assemble (h : Reached log r) {call : Call} {m : MappingMethod}
    (hentered : r.entered? call = some (.method m)) :
    ∃ p target methods, MappingMethod.assemble p target methods = .ok m := by
  have hlookup : ∃ s t d, r.lookup? (.of s t d) = some (.method m) := by
    cases call with
    | create source target =>
      obtain ⟨s, -, hlookup⟩ := Option.bind_eq_some_iff.mp hentered
      exact ⟨s, target, .create, hlookup⟩
    | update source object =>
      obtain ⟨s, -, hobject⟩ := Option.bind_eq_some_iff.mp hentered
      obtain ⟨t, -, hlookup⟩ := Option.bind_eq_some_iff.mp hobject
      exact ⟨s, t, .update, hlookup⟩
  obtain ⟨s, t, d, hlookup⟩ := hlookup
  obtain ⟨_, target, _, _, p, methods, -, -, -, -, hmade⟩ := h.lookup_method hlookup
  exact ⟨p, target, methods, hmade.assemble⟩

/-- **A method is entered for a proper part of the source of its caller.** -/
theorem properPart_of_invokes (h : Reached log r) {caller callee : Call}
    (hinvokes : r.Invokes extra caller callee) : callee.source.ProperPart caller.source := by
  rw [Invokes, callsFrom] at hinvokes
  split at hinvokes
  · next m hentered =>
    obtain ⟨p, target, methods, hassemble⟩ := h.exists_assemble hentered
    exact MappingMethod.descends_of_assemble hassemble _ _ _ _ callee hinvokes
  · cases hinvokes

/-! ## All steps -/

/-- **A stack of invocations is no longer than its first source is high.** -/
theorem length_le_height (h : Reached log r) {first : Call} {nested : List Call}
    (hchain : (first :: nested).IsChain (r.Invokes extra)) :
    (first :: nested).length ≤ first.source.height := by
  induction nested generalizing first with
  | nil => exact first.source.height_pos
  | cons next nested ih =>
    obtain ⟨hinvokes, hrest⟩ := List.isChain_cons_cons.mp hchain
    have hlower := (h.properPart_of_invokes hinvokes).height_lt
    have hlength := ih hrest
    rw [List.length_cons]
    omega

/-- **No invocation goes on forever.** -/
theorem wellFounded_invokes (h : Reached log r) (extra : Extra) :
    WellFounded fun callee caller => r.Invokes extra caller callee :=
  Subrelation.wf (fun hinvokes => (h.properPart_of_invokes hinvokes).height_lt)
    (measure fun call : Call => call.source.height).wf

end Reached

/-- **Nested invocations descend.** What a conversion or a change does is decided by the answers to
the calls of the method that it enters, where the registry itself answers without any bound. Each
such call, and each one that is made on its behalf, is for a proper part of the source of the
method that makes it. So invocations never nest deeper than the source of the first one is high, and
none goes on forever, whatever the classes of the values are and however they call for each other. -/
theorem nested_invocations_descend {log : List Registration} {r : Registry} (h : Reached log r)
    (extra : Extra) :
    (∀ (source : Value) (target : ClassHandle) (inner : Invoker),
      (r.unbounded extra).Agree inner (r.callsFrom extra (.create source target)) →
        r.convert source target extra = r.createWith extra.value inner source target) ∧
    (∀ (source object : Value) (inner : Invoker),
      (r.unbounded extra).Agree inner (r.callsFrom extra (.update source object)) →
        r.update source object extra = r.updateWith extra.value inner source object) ∧
    (∀ caller callee : Call, r.Invokes extra caller callee →
      callee.source.ProperPart caller.source) ∧
    (∀ (first : Call) (nested : List Call), (first :: nested).IsChain (r.Invokes extra) →
      (first :: nested).length ≤ first.source.height) ∧
    WellFounded fun callee caller => r.Invokes extra caller callee := by
  refine ⟨?_, ?_, ?_, ?_, h.wellFounded_invokes extra⟩
  · intro source target inner hagree
    exact h.convert_eq_of_answers hagree
  · intro source object inner hagree
    exact h.update_eq_of_answers hagree
  · intro caller callee hinvokes
    exact h.properPart_of_invokes hinvokes
  · intro first nested hchain
    exact h.length_le_height hchain

/-- Viewing an order is one call, and in it viewing the item is another one. -/
theorem nested_invocations_descend_order :
    [Call.create (Sample.orderOf "pen") Sample.orderView,
        Call.create (Sample.named Sample.item "pen") Sample.itemView].IsChain
      (Sample.registry.Invokes Sample.extra) ∧
    (Sample.named Sample.item "pen").ProperPart (Sample.orderOf "pen") ∧
    2 ≤ (Sample.orderOf "pen").height := by
  have hcalls : Sample.registry.callsFrom Sample.extra
      (.create (Sample.orderOf "pen") Sample.orderView)
        = [.create (Sample.named Sample.item "pen") Sample.itemView] := by
    with_unfolding_all rfl
  have hinvokes : Sample.registry.Invokes Sample.extra
      (.create (Sample.orderOf "pen") Sample.orderView)
      (.create (Sample.named Sample.item "pen") Sample.itemView) := by
    rw [Invokes, hcalls]
    exact List.mem_singleton_self _
  have hchain := List.isChain_pair.mpr hinvokes
  obtain ⟨-, -, hpart, hlength, -⟩ := nested_invocations_descend Sample.reached Sample.extra
  exact ⟨hchain, hpart _ _ hinvokes, hlength _ _ hchain⟩

end Registry

end ObjectMapping
