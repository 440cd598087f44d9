import ObjectMapping.Proofs.Execution.Effect
import ObjectMapping.Proofs.Execution.Expressions
import ObjectMapping.Proofs.Method.Statements
import ObjectMapping.Proofs.Plan.Evaluation

/-! # The statements for one field

A method consists of one group of statements for each target field. In a frame that serves the plan
of the method, each group has the effect that the plan describes for its field.

* **`Frame.Serves`** — the frame holds the source, the caller's values and the factories of a plan.
* **`ends_guarded`** — the conditions around an assignment are those of the plan.
* **`Plan.Compiles`** — the statements are those for a field and its resolution; all groups of a
  method are (`forall₂_allStmts`), whatever fields come before them. -/

namespace ObjectMapping

open Outcome Stmt

/-- The frame of a method for the plan, invoked on a source with the caller's values. -/
structure Frame.Serves (f : Frame) (p : Plan) (source : Value) (extra : Extra) : Prop where
  source_eq : f.source = source
  extra_eq : f.extra = extra.value
  factories_eq : f.method.factories = p.factories

/-! ## Conditions -/

section Conditions

variable {invoker : Invoker} (p : Plan) {f : Frame} (goal field : FieldDescriptor) {s : Stmt}
  {x : Effect Frame}

/-- A hook around a statement makes a branch of its effect. -/
theorem ends_hooked (h : Ends invoker [s] f x) :
    Ends invoker [p.hooked field goal s] f
      (.branch f (p.intended f.source goal field) x (.ok (), f)) := by
  rw [Plan.hooked, Plan.intended]
  by_cases happlies : p.hookApplies field goal = true
  · rw [if_pos happlies, if_pos happlies]
    exact ends_when (eval_isSet field.name) h
  · rw [if_neg happlies, if_neg happlies]
    exact h

/-- **The conditions around an assignment are those of the plan.** -/
theorem ends_guarded (onlyIfSet : Bool) (h : Ends invoker [s] f x) :
    Ends invoker [Plan.guarded onlyIfSet (.attr .self field.name) (p.hooked field goal s)] f
      (.branch f (p.performs f.source goal field onlyIfSet) x (.ok (), f)) := by
  rw [Plan.performs, Effect.branch_bind, Plan.guarded, Plan.present]
  cases onlyIfSet with
  | false => exact ends_hooked p goal field h
  | true =>
    refine ends_when ?_ (ends_hooked p goal field h)
    rw [eval_isNotNone, eval_sourceField, if_pos rfl]

end Conditions

/-! ## Contributed values -/

/-- The frame in which a place has a contributed value, if there is one. -/
def Frame.settle (f : Frame) (place : Expr) : Option Value → Except Error Frame
  | some value => f.assigned value place
  | none => .ok f

section Contributions

variable {invoker : Invoker} {p : Plan} {source : Value} {extra : Extra} {f : Frame}
  {goal : FieldDescriptor} {place : Expr}
  {create : Value → ClassHandle → Except Error Value}

/-- The factory in its slot provides the value. -/
theorem ends_factory {slot : Nat} {factory : Factory}
    (hslot : f.method.factories[slot]? = some factory) (hplace : place ≠ .var "d") :
    Ends invoker [.assign place (Plan.factoryCall slot factory)] f
      (.ofExcept f (p.contribution create f.source extra goal (.factory factory) >>=
        f.settle place)) := by
  have hvalue : f.eval invoker [] (Plan.factoryCall slot factory) = .ok (factory.value f.source) := by
    cases factory with
    | constant value =>
      rw [Plan.factoryCall, Frame.eval, Frame.factoryAt, hslot]
      rfl
    | ofSource make =>
      rw [Plan.factoryCall, Frame.eval, Frame.factoryAt, hslot]
      simp only [ok_bind, Frame.evalFirst, eval_self]
      rfl
  have hassign := ends_assign invoker (Plan.factoryCall slot factory) hplace f
  rw [hvalue] at hassign
  exact hassign

/-- The caller's value is assigned, or its absence is raised. -/
theorem ends_extraStmts {key : String} (hextra : f.extra = extra.value) (hplace : place ≠ .var "d") :
    Ends invoker (p.extraStmts key place) f
      (.ofExcept f (p.contribution create source extra goal (.fromExtra key) >>= f.settle place)) := by
  have htest : f.eval invoker [] (.compare (.str key) .notIn .extra)
      = (Except.ok (extra.lookup key).isNone).map .bool := by
    rw [Frame.eval, eval_extra, hextra]
    simp only [Expr.str, Frame.eval, ok_bind, Frame.compared, contains_extra, pure_eq_ok]
    cases extra.lookup key <;> rfl
  have hraise := ends_when htest (ends_raise invoker (p.missingExtra key) f)
  have hboth := hraise.append
    (fun g => .ofExcept g
      (g.eval invoker [] (.index .extra (.str key)) >>= fun v => g.assigned v place))
    fun g _ => ends_assign invoker _ hplace g
  rw [Plan.extraStmts, ← List.singleton_append, Plan.contribution]
  cases hlookup : extra.lookup key with
  | none =>
    rw [hlookup] at hboth
    exact hboth
  | some v =>
    rw [hlookup] at hboth
    have hvalue : f.eval invoker [] (.index .extra (.str key)) = .ok v := by
      rw [Frame.eval, eval_extra, hextra]
      simp only [Expr.str, Frame.eval, ok_bind, subscript_extra hlookup]
    simp only [Option.isNone_some, Effect.branch, Effect.ok_andThen, hvalue] at hboth
    exact hboth

end Contributions

/-! ## All fields of a method -/

namespace Plan

variable {p : Plan} {methods : MethodTable} {overrides : Overrides}

/-- The statements of a group are those for a field and its resolution. A factory is called by a
slot that holds it. -/
def Compiles (p : Plan) (methods : MethodTable) (entry : FieldDescriptor × Resolution)
    (group : FieldDescriptor × List Stmt) : Prop :=
  group.1 = entry.1 ∧ ∃ slot,
    (∀ factory, entry.2 = .factory factory → p.factories[slot]? = some factory) ∧
      p.fieldStmts methods entry.1 slot entry.2 = .ok group.2

/-- The groups for a suffix of the entries, if the slots from the given one on belong to it. -/
theorem forall₂_allStmts_suffix {fields : List (String × FieldDescriptor)}
    {entries : List (String × Resolution)} {groups : List (FieldDescriptor × List Stmt)} {slot : Nat}
    (hnames : List.Forall₂ (fun (field : String × FieldDescriptor) (entry : String × Resolution) =>
      entry.1 = field.1) fields entries)
    (hfields : ∀ field ∈ fields, p.target.field? field.1 = some field.2)
    (hslots : p.factories.drop slot = ({ p with entries } : Plan).factories)
    (hgroups : p.allStmts methods slot entries = .ok groups) :
    List.Forall₂ (p.Compiles methods)
      (List.zipWith (fun field entry => (field.2, entry.2)) fields entries) groups := by
  induction hnames generalizing slot groups with
  | nil =>
    obtain rfl := Except.ok.inj hgroups
    exact List.Forall₂.nil
  | @cons field entry fields entries hname _ ih =>
    obtain ⟨name, resolution⟩ := entry
    obtain rfl : name = field.1 := hname
    unfold allStmts at hgroups
    rw [hfields field List.mem_cons_self] at hgroups
    obtain ⟨stmts, hstmts, hrest⟩ := bind_eq_ok.mp hgroups
    obtain ⟨others, hothers, hcons⟩ := bind_eq_ok.mp hrest
    obtain rfl := Except.ok.inj hcons
    have hfields' := fun other hmem => hfields other (List.mem_cons_of_mem field hmem)
    rw [List.zipWith_cons_cons]
    -- only a factory takes a slot, and it is the next one
    cases resolution with
    | factory factory =>
      have hfirst : p.factories.drop slot = factory :: ({ p with entries } : Plan).factories := hslots
      have hslot : p.factories[slot]? = some factory := by
        rw [← Nat.add_zero slot, ← List.getElem?_drop, hfirst]
        rfl
      have hnext : p.factories.drop (slot + 1) = ({ p with entries } : Plan).factories := by
        rw [← List.drop_drop, hfirst]
        rfl
      refine List.Forall₂.cons ⟨rfl, slot, ?_, hstmts⟩ (ih hfields' hnext hothers)
      rintro other hother
      obtain rfl := Resolution.factory.inj hother
      exact hslot
    | field source type onlyIfSet =>
      exact List.Forall₂.cons ⟨rfl, slot, nofun, hstmts⟩ (ih hfields' hslots hothers)
    | fromExtra key =>
      exact List.Forall₂.cons ⟨rfl, slot, nofun, hstmts⟩ (ih hfields' hslots hothers)
    | default =>
      exact List.Forall₂.cons ⟨rfl, slot, nofun, hstmts⟩ (ih hfields' hslots hothers)

/-- **Every group of a method is the one for its field.** -/
theorem forall₂_allStmts {groups : List (FieldDescriptor × List Stmt)}
    (hnodup : (p.target.fields.map (·.1)).Nodup) (hresolved : p.Resolved overrides)
    (hgroups : p.allStmts methods 0 p.entries = .ok groups) :
    List.Forall₂ (p.Compiles methods) p.goals groups := by
  rw [goals_eq_zipWith hnodup hresolved]
  refine forall₂_allStmts_suffix (hresolved.imp fun _ _ hentry => hentry.1) ?_ rfl hgroups
  exact fun field hmem => Keyed.lookup_of_mem hnodup hmem

end Plan

end ObjectMapping
