import ObjectMapping.Proofs.Method.Growth
import ObjectMapping.Proofs.Registry.History

/-! # What more methods change

Rules for conversions are tried in a fixed order, and an update method takes a second way when the
first one fails. Another method might therefore spoil what was possible without it. It cannot: every
conversion stays what it is, and so does every statement of a method, except that an update method
may now change a field in place that it had to replace before.

* **`Plan.Refined`** — how a statement of an update method changes.
* **`Plan.allStmts_refined`** — what happens to the statements of all fields.
* **`MappingMethod.Refined`** — how a method changes: in its body, statement by statement.
* **`assembly_monotone`** — nothing else happens when there are more methods. -/

namespace ObjectMapping

open Outcome

namespace Plan

/-- **How a statement changes** when there are the second methods in place of the first ones. -/
inductive Refined (p : Plan) (methods methods' : MethodTable) : Stmt → Stmt → Prop
  | same (s : Stmt) : Refined p methods methods' s s
  /-- A field was replaced, as it could not be changed in place; now it is changed in place. -/
  | inPlace {name : String} {goal field : FieldDescriptor} {type : FieldType} {onlyIfSet : Bool}
      {created : Expr} {change : Stmt} (hentry : (name, .field field type onlyIfSet) ∈ p.entries)
      (hgoal : p.target.field? name = some goal)
      (hbefore : ∀ change, Conversion.amend methods (.attr .self field.name) (updatePlace goal) 0
        type goal.type ≠ .ok change)
      (hcreated : Conversion.express methods type (.attr .self field.name) 0 goal.type
        = .ok created)
      (hchange : Conversion.amend methods' (.attr .self field.name) (updatePlace goal) 0 type
        goal.type = .ok change) :
      Refined p methods methods' (.assign (updatePlace goal) created) change
  /-- The conditions around a statement stay. -/
  | when {s s' : Stmt} (condition : Expr) (h : Refined p methods methods' s s') :
      Refined p methods methods' (.when condition [s]) (.when condition [s'])

variable {p : Plan} {methods methods' : MethodTable}

/-- The statements of an update method change one by one. -/
theorem forall₂_refined_refl (stmts : List Stmt) :
    List.Forall₂ (p.Refined methods methods') stmts stmts :=
  List.forall₂_same.mpr fun s _ => .same s

/-- The hook of the target class does not depend on the methods. -/
theorem Refined.hooked {goal field : FieldDescriptor} {s s' : Stmt}
    (h : p.Refined methods methods' s s') :
    p.Refined methods methods' (p.hooked field goal s) (p.hooked field goal s') := by
  rw [Plan.hooked, Plan.hooked]
  split
  · exact h.when _
  · exact h

/-- The guard of an assignment does not depend on the methods. -/
theorem Refined.guarded {onlyIfSet : Bool} {value : Expr} {s s' : Stmt}
    (h : p.Refined methods methods' s s') :
    p.Refined methods methods' (guarded onlyIfSet value s) (guarded onlyIfSet value s') := by
  rw [Plan.guarded, Plan.guarded]
  split
  · exact h.when _
  · exact h

section Fields

variable (hmethods : methods.Within methods')

include hmethods

/-- The change of a field stays what it is, or it takes the place of a replacement. -/
theorem updateField_refined {name : String} {goal field : FieldDescriptor} {type : FieldType}
    {onlyIfSet : Bool} {s s' : Stmt} (hentry : (name, .field field type onlyIfSet) ∈ p.entries)
    (hgoal : p.target.field? name = some goal)
    (h : p.updateField methods goal field type = .ok s)
    (h' : p.updateField methods' goal field type = .ok s') : p.Refined methods methods' s s' := by
  rcases updateField_eq_ok.mp h with hchange | ⟨hbefore, created, hcreated, rfl⟩
  · -- a change in place is still found first
    have hsame := updateField_eq_ok (p := p) |>.mpr (.inl (Conversion.amend_mono hmethods hchange))
    obtain rfl := Except.ok.inj (hsame.symm.trans h')
    exact .same s
  · rcases updateField_eq_ok.mp h' with hchange' | ⟨-, created', hcreated', rfl⟩
    · exact .inPlace hentry hgoal hbefore hcreated hchange'
    · -- without a change in place the field is replaced by the same value
      obtain rfl := Except.ok.inj ((Conversion.express_mono hmethods hcreated).symm.trans hcreated')
      exact .same _

/-- The statements for one field change one by one. -/
theorem fieldStmts_refined {name : String} {goal : FieldDescriptor} {slot : Nat}
    {resolution : Resolution} {stmts stmts' : List Stmt} (hdirection : p.direction = .update)
    (hentry : (name, resolution) ∈ p.entries) (hgoal : p.target.field? name = some goal)
    (h : p.fieldStmts methods goal slot resolution = .ok stmts)
    (h' : p.fieldStmts methods' goal slot resolution = .ok stmts') :
    List.Forall₂ (p.Refined methods methods') stmts stmts' := by
  cases resolution with
  | field field type onlyIfSet =>
    obtain ⟨s, hs, rfl⟩ := (fieldStmts_update_eq_ok hdirection).mp h
    obtain ⟨s', hs', rfl⟩ := (fieldStmts_update_eq_ok hdirection).mp h'
    have hrefined := updateField_refined hmethods hentry hgoal hs hs'
    exact .cons hrefined.hooked.guarded .nil
  | default =>
    -- no other resolution asks for methods
    obtain rfl := Except.ok.inj (h.symm.trans h')
    exact forall₂_refined_refl stmts
  | factory f =>
    obtain rfl := Except.ok.inj (h.symm.trans h')
    exact forall₂_refined_refl stmts
  | fromExtra key =>
    obtain rfl := Except.ok.inj (h.symm.trans h')
    exact forall₂_refined_refl stmts

/-- **The statements of all fields change one by one**, and there are groups for the same fields. -/
theorem allStmts_refined {slot : Nat} {entries : List (String × Resolution)}
    {groups groups' : List (FieldDescriptor × List Stmt)} (hdirection : p.direction = .update)
    (hentries : ∀ entry ∈ entries, entry ∈ p.entries)
    (h : p.allStmts methods slot entries = .ok groups)
    (h' : p.allStmts methods' slot entries = .ok groups') :
    List.Forall₂ (fun group group' => List.Forall₂ (p.Refined methods methods') group.2 group'.2)
      groups groups' := by
  induction entries generalizing slot groups groups' with
  | nil =>
    obtain rfl := Except.ok.inj h
    obtain rfl := Except.ok.inj h'
    exact .nil
  | cons entry rest ih =>
    obtain ⟨name, resolution⟩ := entry
    have hrest : ∀ entry ∈ rest, entry ∈ p.entries :=
      fun entry hmem => hentries entry (List.mem_cons_of_mem _ hmem)
    unfold allStmts at h h'
    cases hgoal : p.target.field? name with
    | none =>
      rw [hgoal] at h h'
      exact ih hrest h h'
    | some goal =>
      rw [hgoal] at h h'
      obtain ⟨stmts, hstmts, hcons⟩ := bind_eq_ok.mp h
      obtain ⟨stmts', hstmts', hcons'⟩ := bind_eq_ok.mp h'
      obtain ⟨others, hothers, hgroups⟩ := bind_eq_ok.mp hcons
      obtain ⟨others', hothers', hgroups'⟩ := bind_eq_ok.mp hcons'
      obtain rfl := Except.ok.inj hgroups
      obtain rfl := Except.ok.inj hgroups'
      have hentry := hentries _ List.mem_cons_self
      refine .cons ?_ (ih hrest hothers hothers')
      exact fieldStmts_refined hmethods hdirection hentry hgoal hstmts hstmts'

end Fields

/-- The groups in a row change one by one. -/
theorem forall₂_refined_flatMap {groups groups' : List (FieldDescriptor × List Stmt)}
    (h : List.Forall₂
      (fun group group' => List.Forall₂ (p.Refined methods methods') group.2 group'.2)
      groups groups') :
    List.Forall₂ (p.Refined methods methods') (groups.flatMap (·.2)) (groups'.flatMap (·.2)) := by
  induction h with
  | nil => exact .nil
  | cons hgroup _ ih =>
    rw [List.flatMap_cons, List.flatMap_cons]
    exact List.rel_append hgroup ih

/-- The statements of a body change one by one; an empty body stays one. -/
theorem updateBody_refined {groups groups' : List (FieldDescriptor × List Stmt)}
    (h : List.Forall₂
      (fun group group' => List.Forall₂ (p.Refined methods methods') group.2 group'.2)
      groups groups') :
    List.Forall₂ (p.Refined methods methods') (updateBody groups) (updateBody groups') := by
  have hstmts := forall₂_refined_flatMap h
  rw [updateBody, updateBody]
  generalize groups.flatMap (·.2) = stmts at hstmts
  generalize groups'.flatMap (·.2) = stmts' at hstmts
  cases hstmts with
  | nil => exact forall₂_refined_refl [.pass]
  | cons hs hrest => exact .cons hs hrest

end Plan

/-- **How an update method changes**: statement by statement in its body, and nowhere else. -/
def MappingMethod.Refined (p : Plan) (methods methods' : MethodTable) (m m' : MappingMethod) :
    Prop :=
  ∃ body, List.Forall₂ (p.Refined methods methods') m.function.body body ∧
    m' = { m with function := { m.function with body } }

/-- Two update methods for a plan differ in what more methods change. -/
theorem MappingMethod.assemble_refined {p : Plan} {target : Class} {methods methods' : MethodTable}
    {m m' : MappingMethod} (hmethods : methods.Within methods') (hdirection : p.direction = .update)
    (h : assemble p target methods = .ok m) (h' : assemble p target methods' = .ok m') :
    MappingMethod.Refined p methods methods' m m' := by
  obtain ⟨function, hfunction, hm⟩ := bind_eq_ok.mp h
  obtain ⟨function', hfunction', hm'⟩ := bind_eq_ok.mp h'
  obtain ⟨groups, hgroups, hbody⟩ := bind_eq_ok.mp hfunction
  obtain ⟨groups', hgroups', hbody'⟩ := bind_eq_ok.mp hfunction'
  rw [hdirection] at hbody hbody'
  obtain rfl := Except.ok.inj hbody
  obtain rfl := Except.ok.inj hbody'
  obtain rfl := Except.ok.inj hm
  obtain rfl := Except.ok.inj hm'
  have hrefined := Plan.allStmts_refined hmethods hdirection (fun _ hmem => hmem) hgroups hgroups'
  exact ⟨_, Plan.updateBody_refined hrefined, rfl⟩

/-- **More methods spoil nothing.** With all methods of a table and perhaps more, a conversion that
was possible is the same expression, and a change in place is the same statement. A create method is
the same, and an update method at most changes fields in place that it replaced before. -/
theorem assembly_monotone {methods methods' : MethodTable} (hmethods : methods.Within methods') :
    (∀ source value depth target code,
      Conversion.express methods source value depth target = .ok code →
        Conversion.express methods' source value depth target = .ok code) ∧
    (∀ source value place depth target change,
      Conversion.amend methods value place depth source target = .ok change →
        Conversion.amend methods' value place depth source target = .ok change) ∧
    ∀ p target m, MappingMethod.assemble p target methods = .ok m →
      ∃ m', MappingMethod.assemble p target methods' = .ok m' ∧
        (p.direction = .create → m' = m) ∧
        (p.direction = .update → MappingMethod.Refined p methods methods' m m') := by
  refine ⟨fun _ _ _ _ _ => Conversion.express_mono hmethods,
    fun _ _ _ _ _ _ => Conversion.amend_mono hmethods, fun p target m hm => ?_⟩
  obtain ⟨m', hm', hcreate⟩ := MappingMethod.assemble_grows hmethods p target m hm
  exact ⟨m', hm', hcreate, fun hupdate => MappingMethod.assemble_refined hmethods hupdate hm hm'⟩

namespace Sample

/-- Views of items can be made, but not changed. -/
def creating : MethodTable := fun s t d => s.same item && t.same itemView && d == .create

/-- Views of items can also be changed. -/
def changing : MethodTable := fun s t _ => s.same item && t.same itemView

/-- The plan by which the view of an order is brought up to date. -/
def orderPlan : Plan :=
  ⟨orderClass.describe, orderViewClass.describe, .update,
    [("item", .field ⟨"item", .named item, true, "item", true⟩ (.named item) false),
      ("owner", .fromExtra "owner")]⟩

end Sample

/-- With a method that changes views of items, the view of an order keeps the view of its item and
has it changed. -/
theorem assembly_monotone_order :
    Plan.build Sample.orderClass.describe Sample.orderViewClass.describe .update
        [("owner", .fromExtra "owner")] = .ok Sample.orderPlan ∧
      Sample.creating.Within Sample.changing ∧
      ∃ m m',
        MappingMethod.assemble Sample.orderPlan Sample.orderViewClass Sample.creating = .ok m ∧
        MappingMethod.assemble Sample.orderPlan Sample.orderViewClass Sample.changing = .ok m' ∧
        m.text ≠ m'.text ∧
        MappingMethod.Refined Sample.orderPlan Sample.creating Sample.changing m m' := by
  have hwithin : Sample.creating.Within Sample.changing :=
    fun s t d h => (Bool.and_eq_true_iff.mp h).1
  obtain ⟨m, hm⟩ := Outcome.isOk_iff_exists.mp (show (MappingMethod.assemble Sample.orderPlan
    Sample.orderViewClass Sample.creating).isOk = true by decide +kernel)
  obtain ⟨m', hm', -, hrefined⟩ := (assembly_monotone hwithin).2.2 _ _ m hm
  have htexts : (MappingMethod.assemble Sample.orderPlan Sample.orderViewClass Sample.creating).map
      MappingMethod.text ≠ (MappingMethod.assemble Sample.orderPlan Sample.orderViewClass
        Sample.changing).map MappingMethod.text := by
    decide +kernel
  rw [hm, hm'] at htexts
  exact ⟨rfl, hwithin, m, m', hm, hm', fun heq => htexts (congrArg Except.ok heq), hrefined rfl⟩

end ObjectMapping
