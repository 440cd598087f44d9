import ObjectMapping.Proofs.Conversion.Direct
import ObjectMapping.Proofs.Conversion.Shapes
import ObjectMapping.Proofs.Execution.Calls
import ObjectMapping.Proofs.Value.Parts

/-! # Conversions call for parts of the source

The code of a conversion starts from a field of the source and goes on to elements, entries and
positions of what it finds there. So whatever it asks another method to read is a proper part of the
source, whatever the classes of the values at hand are.

* `Frame.LooksInside`: expressions that only look up proper parts of the source.
* **`Conversion.descends_of_expressed`** — the calls in the code of a conversion are for proper parts. -/

namespace ObjectMapping

open Outcome

/-- Whether a call is for a proper part of a source. -/
def Call.Descends (source : Value) (call : Call) : Prop := call.source.ProperPart source

namespace Call

variable {P : Call → Prop} {α β : Type}

/-- What holds for the calls that may follow an outcome holds for all that do. -/
theorem forall_mem_after {outcome : Except Error α} {next : α → List Call}
    (hnext : ∀ a, outcome = .ok a → ∀ call ∈ next a, P call) :
    ∀ call ∈ after outcome next, P call := by
  cases outcome with
  | error e => exact List.forall_mem_nil _
  | ok a => exact hnext a rfl

/-- What holds for the first calls, and for those that may follow, holds for all. -/
theorem forall_mem_append_after {first : List Call} {outcome : Except Error α}
    {next : α → List Call} (hfirst : ∀ call ∈ first, P call)
    (hnext : ∀ a, outcome = .ok a → ∀ call ∈ next a, P call) :
    ∀ call ∈ first ++ after outcome next, P call :=
  List.forall_mem_append.mpr ⟨hfirst, forall_mem_after hnext⟩

/-- What holds for the calls for each element holds for the calls for all of them. -/
theorem forall_mem_each {outcome : α → Except Error β} {calls : α → List Call} {items : List α}
    (h : ∀ a ∈ items, ∀ call ∈ calls a, P call) : ∀ call ∈ each outcome calls items, P call := by
  induction items with
  | nil => exact List.forall_mem_nil _
  | cons a rest ih =>
    obtain ⟨hfirst, hrest⟩ := List.forall_mem_cons.mp h
    exact forall_mem_append_after hfirst fun _ _ => ih hrest

end Call

/-- What holds for the calls in each expression holds for the calls in all of them. -/
theorem Frame.forall_mem_callsAll {P : Call → Prop} {invoker : Invoker} {f : Frame} {scope : Scope}
    {items : List Expr} (h : ∀ e ∈ items, ∀ call ∈ f.calls invoker scope e, P call) :
    ∀ call ∈ f.callsAll invoker scope items, P call := by
  induction items with
  | nil =>
    rw [callsAll]
    exact List.forall_mem_nil _
  | cons e rest ih =>
    obtain ⟨hfirst, hrest⟩ := List.forall_mem_cons.mp h
    rw [callsAll]
    exact Call.forall_mem_append_after hfirst fun _ _ => ih hrest

/-- **An expression that only looks up a proper part of the source.** -/
structure Frame.LooksInside (invoker : Invoker) (f : Frame) (scope : Scope) (e : Expr) : Prop where
  calls_eq_nil : f.calls invoker scope e = []
  properPart : ∀ v, f.eval invoker scope e = .ok v → v.ProperPart f.source

namespace Frame.LooksInside

variable {invoker : Invoker} {f : Frame} {scope : Scope} {e : Expr}

/-- A field of the source is inside the source. -/
theorem sourceField (name : String) : LooksInside invoker f [] (.attr .self name) where
  calls_eq_nil := by rw [calls, Expr.self, calls]
  properPart v hv := by
    have hfield : f.source.field name = .ok v := by
      simpa [Expr.self, eval, valueOf] using hv
    exact Value.properPart_of_mem_parts (Value.mem_parts_of_field hfield)

/-- An item of what is inside the source is inside as well. -/
theorem index (h : LooksInside invoker f scope e) (i : Int) :
    LooksInside invoker f scope (.index e (.int i)) where
  calls_eq_nil := by
    rw [calls, h.calls_eq_nil, Expr.int]
    cases f.eval invoker scope e with
    | error e => rfl
    | ok v => rw [Call.after, calls, List.nil_append]
  properPart v hv := by
    rw [eval] at hv
    obtain ⟨whole, hwhole, hv⟩ := bind_eq_ok.mp hv
    obtain ⟨key, -, hsubscript⟩ := bind_eq_ok.mp hv
    exact (h.properPart whole hwhole).part (Value.mem_parts_of_subscript hsubscript)

/-- A loop variable stands for a part of what is looped over. -/
theorem loopVar {name : String} {v : Value} (hv : f.eval invoker scope (.var name) = .ok v)
    (hpart : v.ProperPart f.source) : LooksInside invoker f scope (.var name) where
  calls_eq_nil := by rw [calls]
  properPart found hfound := by
    obtain rfl := Except.ok.inj (hv.symm.trans hfound)
    exact hpart

/-- The test for a missing value makes no calls. -/
theorem calls_isNone (h : LooksInside invoker f scope e) : f.calls invoker scope e.isNone = [] := by
  rw [Expr.isNone, calls, h.calls_eq_nil, Expr.none]
  cases f.eval invoker scope e with
  | error e => rfl
  | ok v => rw [Call.after, calls, List.nil_append]

end Frame.LooksInside

namespace Conversion

open ObjectMapping.Frame

variable {invoker : Invoker} {f : Frame}

/-- **The calls in the code of a conversion are for proper parts of the source**, if the value that
is converted is one. -/
theorem descends_of_expressed {depth : Nat} {value code : Expr} (h : Expressed depth value code)
    {scope : Scope} (hvalue : LooksInside invoker f scope value) :
    ∀ call ∈ f.calls invoker scope code, call.Descends f.source := by
  induction h generalizing scope with
  | same depth value =>
    rw [hvalue.calls_eq_nil]
    exact List.forall_mem_nil _
  | call depth value target =>
    -- the only call: on the value itself, which is a proper part
    rw [createCall, calls, hvalue.calls_eq_nil]
    refine Call.forall_mem_append_after (List.forall_mem_nil _) fun v hv call hcall => ?_
    obtain rfl := List.mem_singleton.mp hcall
    exact hvalue.properPart v hv
  | @listOf depth value element _ ih | @setOf depth value element _ ih =>
    rw [calls, hvalue.calls_eq_nil]
    refine Call.forall_mem_append_after (List.forall_mem_nil _) fun v hv => ?_
    refine Call.forall_mem_after fun items hitems => ?_
    -- an element of a proper part is one as well, and the loop variable stands for it
    refine Call.forall_mem_each fun item hitem => ih (.loopVar (eval_var_cons _ _ _ _ _) ?_)
    exact (hvalue.properPart v hv).part (Value.mem_parts_of_elements hitems hitem)
  | @dictOf depth value key element _ _ ihkey ihelement =>
    rw [calls, hvalue.calls_eq_nil]
    refine Call.forall_mem_append_after (List.forall_mem_nil _) fun d hd => ?_
    refine Call.forall_mem_after fun entries hentries => ?_
    refine Call.forall_mem_each fun entry hentry => ?_
    obtain ⟨hkey, helement⟩ := Value.mem_parts_of_entries hentries hentry
    have hpart := hvalue.properPart d hd
    refine Call.forall_mem_append_after ?_ fun _ _ => ?_
    · exact ihkey (.loopVar (eval_keyVar _ _ _ _ _) (hpart.part hkey))
    · exact ihelement (.loopVar (eval_var_cons _ _ _ _ _) (hpart.part helement))
  | @tuple depth value items _ ih =>
    rw [calls]
    refine Frame.forall_mem_callsAll fun item hmem => ?_
    obtain ⟨i, hitem⟩ := List.mem_iff_getElem?.mp hmem
    exact ih i item hitem (hvalue.index i)
  | choice hinner ih =>
    rw [calls, hvalue.calls_isNone]
    refine Call.forall_mem_append_after (List.forall_mem_nil _) fun c _ => ?_
    split
    · rw [Expr.none, calls]
      exact List.forall_mem_nil _
    · exact ih hvalue
  | deeper hcode ih => exact ih hvalue

end Conversion

end ObjectMapping
