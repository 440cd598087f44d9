import ObjectMapping.Proofs.Plan.Evaluation
import ObjectMapping.Proofs.Value.Change

/-! # What the fields of a plan contribute

Both phases of a plan for new objects are folds over its fields, of their contributions into the
arguments of the constructor, or into the new object. As the fields write under different keys, what
one contributes is still there at the end.

* **`Plan.contributed_of_foldlM`** — after a fold, everything contributed is found under its key. -/

namespace ObjectMapping.Plan

open Outcome

/-- A way to take contributions that writes each under the key of its field and nowhere else, where
`holds` says what a state has under a key. -/
def WritesUnder {σ : Type} (key : FieldDescriptor → String) (holds : σ → String → Value → Prop)
    (put : σ → FieldDescriptor → Value → Except Error σ) : Prop :=
  ∀ state goal u state', put state goal u = .ok state' →
    holds state' (key goal) u ∧
      ∀ other v, other ≠ key goal → holds state other v → holds state' other v

/-- An argument is found under the name for the constructor. -/
theorem writesUnder_asArgument :
    WritesUnder (·.param) (fun (args : Arguments) name u => args.lookup name = some u)
      asArgument := by
  intro args goal u args' hput
  obtain rfl := Except.ok.inj hput
  constructor
  · exact Keyed.lookup_insert_self args goal.param u
  · intro other v hne hother
    exact (Keyed.lookup_insert_of_ne hne args u).trans hother

/-- An assigned value is found in its field. -/
theorem writesUnder_asField :
    WritesUnder (·.name) (fun object name u => object.field name = .ok u) asField := by
  intro object goal u object' hput
  constructor
  · exact Value.field_assign hput
  · intro other v hne hother
    exact ((Value.changedAt_assign hput).field_eq other hne).trans hother

variable {p : Plan} {create : Value → ClassHandle → Except Error Value} {this : Value} {extra : Extra}

/-- **What was contributed is found under its key**, and what stood under other keys is still there. -/
theorem contributed_of_foldlM {σ : Type} {key : FieldDescriptor → String}
    {holds : σ → String → Value → Prop} {put : σ → FieldDescriptor → Value → Except Error σ}
    (hput : WritesUnder key holds put) {goals : List (FieldDescriptor × Resolution)}
    (hnodup : (goals.map fun entry => key entry.1).Nodup) {state state' : σ}
    (h : goals.foldlM (p.contribute create this extra put) state = .ok state') :
    (∀ entry ∈ goals, ∃ given, p.contribution create this extra entry.1 entry.2 = .ok given ∧
      ∀ u, given = some u → holds state' (key entry.1) u) ∧
    ∀ other v, other ∉ goals.map (fun entry => key entry.1) → holds state other v →
      holds state' other v := by
  induction goals generalizing state with
  | nil =>
    obtain rfl := Except.ok.inj h
    exact ⟨nofun, fun _ _ _ hholds => hholds⟩
  | cons entry rest ih =>
    rw [List.map_cons, List.nodup_cons] at hnodup
    rw [List.foldlM_cons] at h
    obtain ⟨next, hnext, hrest⟩ := bind_eq_ok.mp h
    obtain ⟨hgiven, hkept⟩ := ih hnodup.2 hrest
    obtain ⟨given, hcontribution, hcontributed⟩ := bind_eq_ok.mp hnext
    -- what the first field writes is kept by the rest, since no other field has its key
    have hwritten : (∀ u, given = some u → holds next (key entry.1) u) ∧
        ∀ other v, other ≠ key entry.1 → holds state other v → holds next other v := by
      cases given with
      | none =>
        obtain rfl := Except.ok.inj hcontributed
        exact ⟨nofun, fun _ _ _ hholds => hholds⟩
      | some value =>
        obtain ⟨hvalue, hothers⟩ := hput state entry.1 value next hcontributed
        exact ⟨fun u hu => Option.some.inj hu ▸ hvalue, hothers⟩
    constructor
    · intro other hother
      rcases List.mem_cons.mp hother with rfl | hmem
      · exact ⟨given, hcontribution, fun u hu => hkept _ u hnodup.1 (hwritten.1 u hu)⟩
      · exact hgiven other hmem
    · intro other v hother hholds
      rw [List.map_cons, List.mem_cons, not_or] at hother
      exact hkept other v hother.2 (hwritten.2 other v hother.1 hholds)

/-- Assignments to fields keep the class of an object and the names of its fields. -/
theorem kept_of_foldlM {goals : List (FieldDescriptor × Resolution)} {object w : Value}
    (h : goals.foldlM (p.contribute create this extra asField) object = .ok w) :
    w.owner? = object.owner? ∧ w.names = object.names := by
  induction goals generalizing object with
  | nil =>
    obtain rfl := Except.ok.inj h
    exact ⟨rfl, rfl⟩
  | cons entry rest ih =>
    rw [List.foldlM_cons] at h
    obtain ⟨next, hnext, hrest⟩ := bind_eq_ok.mp h
    obtain ⟨howner, hnames⟩ := ih hrest
    obtain ⟨given, -, hcontributed⟩ := bind_eq_ok.mp hnext
    cases given with
    | none =>
      obtain rfl := Except.ok.inj hcontributed
      exact ⟨howner, hnames⟩
    | some value =>
      have hchanged := Value.changedAt_assign hcontributed
      exact ⟨howner.trans hchanged.owner_eq, hnames.trans hchanged.names_eq⟩

end ObjectMapping.Plan
