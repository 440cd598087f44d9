import ObjectMapping.Proofs.Conversion.Amendment
import ObjectMapping.Proofs.Conversion.Descent
import ObjectMapping.Proofs.Method.Statements

/-! # Methods call for parts of their source

A method that is made from a plan reads its fields off the source and never replaces the source. So
the calls that it makes are for proper parts of the source: those in conversions, and those in
changes in place, whatever object is to be changed.

* **`Stmt.keepsSource_runAll`** — no statement replaces the source.
* `Stmt.Descends`: statements that call for proper parts of the source only.
* **`Conversion.descends_of_amended`** — the calls in a change in place are for proper parts.
* **`MappingMethod.descends_of_assemble`** — all statements of a method do. -/

namespace ObjectMapping

open Outcome

/-! ## The source stays -/

/-- Writing to a place does not change the source. -/
theorem Frame.source_write (f : Frame) (value : Value) (place : Expr) :
    (f.write value place).source = f.source := by
  fun_induction Frame.write f value place with
  | case1 => rfl
  | case2 => rfl
  | case3 value object name owner hread ih => exact ih
  | case4 => rfl
  | case5 => rfl

/-- Assigning to a place does not change the source. -/
theorem Frame.source_assigned {f next : Frame} {value : Value} {place : Expr}
    (h : f.assigned value place = .ok next) : next.source = f.source := by
  unfold assigned at h
  split at h
  · split at h
    · obtain rfl := Except.ok.inj h
      rfl
    · cases h
  · obtain rfl := Except.ok.inj h
    rfl
  · obtain ⟨owner, -, h⟩ := bind_eq_ok.mp h
    obtain ⟨changed, -, h⟩ := bind_eq_ok.mp h
    obtain rfl := Except.ok.inj h
    exact source_write _ _ _
  · cases h

/-- A computation that leaves the source of its frame. -/
def Run.KeepsSource {α : Type} (x : Run α) : Prop := ∀ f, (x.run f).2.source = f.source

namespace Run.KeepsSource

variable {α β : Type}

/-- Doing nothing keeps the source. -/
theorem pure (a : α) : KeepsSource (Pure.pure a : Run α) := fun _ => rfl

/-- Failing keeps the source. -/
theorem throw (e : Error) : KeepsSource (MonadExcept.throw e : Run α) := fun _ => rfl

/-- Steps that keep the source do so one after another. -/
theorem bind {x : Run α} {next : α → Run β} (hx : KeepsSource x)
    (hnext : ∀ a, KeepsSource (next a)) : KeepsSource (x >>= next) := by
  intro f
  have hsource := hx f
  rw [Stmt.run_bind]
  cases hrun : x.run f with
  | mk outcome g =>
    rw [hrun] at hsource
    cases outcome with
    | error e => exact hsource
    | ok a => exact (hnext a g).trans hsource

/-- Evaluating an expression keeps the source. -/
theorem evaluate (invoker : Invoker) (e : Expr) : KeepsSource (Stmt.evaluate invoker e) :=
  fun _ => rfl

/-- An assignment keeps the source. -/
theorem assign (value : Value) (place : Expr) :
    KeepsSource (Stmt.replaceFrame fun f => f.assigned value place) := by
  intro f
  rw [Stmt.run_replaceFrame]
  cases hassigned : f.assigned value place with
  | error e => rfl
  | ok next => exact Frame.source_assigned hassigned

/-- A call that changes what is at a place keeps the source. -/
theorem updateAt (invoker : Invoker) (source : Value) (place : Expr) :
    KeepsSource (Stmt.updateAt invoker source place) := by
  intro f
  rw [Stmt.run_updateAt]
  cases f.read place with
  | error e => rfl
  | ok old => exact Frame.source_write _ _ _

end Run.KeepsSource

namespace Stmt

open Run

mutual

/-- Every statement keeps the source. -/
theorem keepsSource_run (invoker : Invoker) : (s : Stmt) → KeepsSource (run invoker s)
  | .assign place value => by
    by_cases hplace : place = .var "d"
    · subst hplace
      rw [run]
      exact fun f => rfl
    · rw [run]
      · exact (KeepsSource.evaluate invoker value).bind fun v =>
          (KeepsSource.assign v place).bind fun _ => .pure _
      · exact hplace
  | .perform e => by
    by_cases hcall : ∃ receiver target args, e = .method receiver ⟨.update, target⟩ args
    · obtain ⟨receiver, target, args, rfl⟩ := hcall
      rw [run]
      refine (KeepsSource.evaluate invoker receiver).bind fun source => ?_
      split
      · exact (KeepsSource.updateAt invoker source _).bind fun _ => .pure _
      · exact .throw _
    · rw [run]
      · exact ((KeepsSource.evaluate invoker e).bind fun _ => .pure _).bind fun _ => .pure _
      · exact fun receiver target args he => hcall ⟨receiver, target, args, he⟩
  | .branch condition whenTrue whenFalse => by
    rw [run]
    refine (KeepsSource.evaluate invoker condition).bind fun c => ?_
    split
    · exact keepsSource_runAll invoker whenTrue
    · exact keepsSource_runAll invoker whenFalse
  | .raise text => by
    rw [run]
    exact .throw _
  | .result e => by
    rw [run]
    exact (KeepsSource.evaluate invoker e).bind fun _ => .pure _
  | .pass => by
    rw [run]
    exact .pure _

/-- **No statement replaces the source.** -/
theorem keepsSource_runAll (invoker : Invoker) : (stmts : List Stmt) → KeepsSource (runAll invoker stmts)
  | [] => by
    rw [runAll]
    exact .pure _
  | s :: rest => by
    rw [runAll]
    refine (keepsSource_run invoker s).bind fun value? => ?_
    cases value? with
    | some value => exact .pure _
    | none => exact keepsSource_runAll invoker rest

end

/-! ## Statements -/

/-- **Whether a statement calls for proper parts of the source only**, in whatever frame it runs. -/
def Descends (s : Stmt) : Prop :=
  ∀ (invoker : Invoker) (f : Frame), ∀ call ∈ s.calls invoker f, call.Descends f.source

/-- The calls of statements are for proper parts of the source if those of each statement are. -/
theorem descends_callsAll {stmts : List Stmt} (h : ∀ s ∈ stmts, s.Descends) (invoker : Invoker)
    (f : Frame) : ∀ call ∈ callsAll invoker f stmts, call.Descends f.source := by
  induction stmts generalizing f with
  | nil =>
    rw [callsAll]
    exact List.forall_mem_nil _
  | cons s rest ih =>
    obtain ⟨hfirst, hrest⟩ := List.forall_mem_cons.mp h
    -- the rest runs in another frame, but with the same source
    have hsource := keepsSource_run invoker s f
    rw [callsAll]
    refine List.forall_mem_append.mpr ⟨hfirst invoker f, ?_⟩
    split
    · next next hrun =>
      rw [hrun] at hsource
      rw [← hsource]
      exact ih hrest next
    · exact List.forall_mem_nil _

end Stmt

/-- An expression in which no method is called. -/
def Expr.CallsNothing (e : Expr) : Prop :=
  ∀ (invoker : Invoker) (f : Frame), f.calls invoker [] e = []

namespace Expr.CallsNothing

/-- A variable calls nothing. -/
theorem var (name : String) : CallsNothing (.var name) := fun _ _ => by rw [Frame.calls]

/-- A constant calls nothing. -/
theorem const (value : Value) : CallsNothing (.const value) := fun _ _ => by rw [Frame.calls]

/-- A look-up of a field calls nothing beyond what the object calls. -/
theorem attr {e : Expr} (h : e.CallsNothing) (name : String) : CallsNothing (.attr e name) :=
  fun invoker f => by rw [Frame.calls, h invoker f]

/-- A test for an assignment calls nothing beyond what the object calls. -/
theorem isSet {e : Expr} (h : e.CallsNothing) (name : String) : CallsNothing (.isSet e name) :=
  fun invoker f => by rw [Frame.calls, h invoker f]

/-- A look-up under a key calls nothing beyond what container and key call. -/
theorem index {e key : Expr} (h : e.CallsNothing) (hkey : key.CallsNothing) :
    CallsNothing (.index e key) := fun invoker f => by
  rw [Frame.calls, h invoker f, hkey invoker f]
  cases f.eval invoker [] e <;> rfl

/-- A comparison calls nothing beyond what its two sides call. -/
theorem compare {left right : Expr} {comparison : Comparison} (hleft : left.CallsNothing)
    (hright : right.CallsNothing) : CallsNothing (.compare left comparison right) :=
  fun invoker f => by
    rw [Frame.calls, hleft invoker f, hright invoker f]
    cases f.eval invoker [] left <;> rfl

end Expr.CallsNothing

namespace Stmt

/-- Where nothing is called there is no call to look at. -/
theorem descends_of_callsNothing {e : Expr} (h : e.CallsNothing) {invoker : Invoker} {f : Frame} :
    ∀ call ∈ f.calls invoker [] e, call.Descends f.source := by
  rw [h invoker f]
  exact List.forall_mem_nil _

/-- An assignment calls what its value calls, if the place is no call. -/
theorem descends_assign {place value : Expr} (h : ∀ (invoker : Invoker) (f : Frame),
    ∀ call ∈ f.calls invoker [] value, call.Descends f.source) : (assign place value).Descends := by
  intro invoker f
  by_cases hplace : place = .var "d"
  · subst hplace
    rw [calls]
    exact List.forall_mem_nil _
  · rw [calls]
    · exact h invoker f
    · exact hplace

/-- An assignment of what calls nothing descends. -/
theorem descends_assign_of_callsNothing {place value : Expr} (h : value.CallsNothing) :
    (assign place value).Descends :=
  descends_assign fun _ _ => descends_of_callsNothing h

/-- A branch descends if its condition calls nothing and both ways descend. -/
theorem descends_branch {condition : Expr} {whenTrue whenFalse : List Stmt}
    (hcondition : condition.CallsNothing) (htrue : ∀ s ∈ whenTrue, s.Descends)
    (hfalse : ∀ s ∈ whenFalse, s.Descends) : (branch condition whenTrue whenFalse).Descends := by
  intro invoker f
  rw [calls, hcondition invoker f]
  refine Call.forall_mem_append_after (List.forall_mem_nil _) fun c _ => ?_
  split
  · exact descends_callsAll htrue invoker f
  · exact descends_callsAll hfalse invoker f

/-- A statement under a condition that calls nothing descends if it does so itself. -/
theorem descends_when {condition : Expr} {s : Stmt} (hcondition : condition.CallsNothing)
    (hs : s.Descends) : (when condition [s]).Descends :=
  descends_branch hcondition (List.forall_mem_singleton.mpr hs) (List.forall_mem_nil _)

/-- A change in place is asked for with the value that is read off the source. -/
theorem descends_updateCall {value place : Expr} {target : ClassHandle}
    (h : ∀ invoker f, Frame.LooksInside invoker f [] value) :
    (perform (Conversion.updateCall value target place)).Descends := by
  intro invoker f
  rw [Conversion.updateCall, calls, (h invoker f).calls_eq_nil]
  refine Call.forall_mem_append_after (List.forall_mem_nil _) fun source hsource => ?_
  refine Call.forall_mem_after fun object _ => List.forall_mem_singleton.mpr ?_
  exact (h invoker f).properPart source hsource

end Stmt

namespace Conversion

variable {methods : MethodTable} {value place : Expr}

/-- An assignment of converted code descends if what is converted is inside the source. -/
theorem descends_assign_of_express {source target : FieldType} {depth : Nat} {code : Expr}
    (hvalue : ∀ invoker f, Frame.LooksInside invoker f [] value)
    (h : express methods source value depth target = .ok code) : (Stmt.assign place code).Descends :=
  Stmt.descends_assign fun invoker f => descends_of_expressed (expressed_of_express h) (hvalue invoker f)

/-- **The calls in a change in place are for proper parts of the source.** -/
theorem descends_of_amended {source target : FieldType} {change : Stmt}
    (hvalue : ∀ invoker f, Frame.LooksInside invoker f [] value) (hplace : place.CallsNothing)
    (h : Amended methods value place source target change) : change.Descends := by
  induction h with
  | update hmethod => exact Stmt.descends_updateCall hvalue
  | clear hchange ih =>
    have habsent : value.isNone.CallsNothing := fun invoker f => (hvalue invoker f).calls_isNone
    refine Stmt.descends_branch habsent (List.forall_mem_singleton.mpr ?_)
      (List.forall_mem_singleton.mpr ih)
    exact Stmt.descends_assign_of_callsNothing (.const _)
  | renew hpresent hchange hcreated ih =>
    exact Stmt.descends_branch (hplace.compare (.const _))
      (List.forall_mem_singleton.mpr (descends_assign_of_express hvalue hcreated))
      (List.forall_mem_singleton.mpr ih)

end Conversion

/-! ## Methods -/

namespace Plan

variable {p : Plan} {methods : MethodTable} {goal field : FieldDescriptor}

/-- The statement for a field of a new object descends. -/
theorem descends_createField {type : FieldType} {s : Stmt}
    (h : p.createField methods goal field type = .ok s) : s.Descends := by
  obtain ⟨code, hcode, rfl⟩ := createField_eq_ok.mp h
  exact Conversion.descends_assign_of_express (fun _ _ => .sourceField field.name) hcode

/-- The statement for a field that is changed descends. -/
theorem descends_updateField {type : FieldType} {s : Stmt}
    (h : p.updateField methods goal field type = .ok s) : s.Descends := by
  rcases updateField_eq_ok.mp h with hchange | ⟨-, code, hcode, rfl⟩
  · exact Conversion.descends_of_amended (fun _ _ => .sourceField field.name) (.attr (.var _) _)
      (Conversion.amended_of_amend hchange)
  · exact Conversion.descends_assign_of_express (fun _ _ => .sourceField field.name) hcode

/-- The conditions around an assignment call no method. -/
theorem descends_guarded {onlyIfSet : Bool} {s : Stmt} (h : s.Descends) :
    (guarded onlyIfSet (.attr .self field.name) (p.hooked field goal s)).Descends := by
  have hhooked : (p.hooked field goal s).Descends := by
    rw [hooked]
    split
    · exact Stmt.descends_when (.isSet (.var _) _) h
    · exact h
  rw [guarded]
  split
  · exact Stmt.descends_when (.compare (.attr (.var _) _) (.const _)) hhooked
  · exact hhooked

/-- A factory may be called with the source, and is no method. -/
theorem callsNothing_factoryCall (slot : Nat) (factory : Factory) :
    (factoryCall slot factory).CallsNothing := by
  intro invoker f
  have hargs : ∀ args : List Expr, args = [] ∨ args = [.self] → f.callsFirst invoker [] args = [] := by
    rintro args (rfl | rfl)
    · rw [Frame.callsFirst]
    · rw [Frame.callsFirst, Expr.self, Frame.calls]
  have hslot : ∀ args : List Expr, args = [] ∨ args = [.self] →
      f.calls invoker [] (.factory slot args) = [] := by
    intro args h
    rw [Frame.calls, hargs args h]
    cases f.factoryAt slot with
    | error e => rfl
    | ok found => cases found <;> rfl
  cases factory with
  | constant value => exact hslot [] (.inl rfl)
  | ofSource make => exact hslot [.self] (.inr rfl)

/-- The statements for a field. -/
theorem descends_fieldStmts {slot : Nat} {resolution : Resolution} {stmts : List Stmt}
    (h : p.fieldStmts methods goal slot resolution = .ok stmts) : ∀ s ∈ stmts, s.Descends := by
  cases resolution with
  | default =>
    obtain rfl := Except.ok.inj h
    exact List.forall_mem_nil _
  | field field type onlyIfSet =>
    cases hdirection : p.direction with
    | create =>
      obtain ⟨s, hs, rfl⟩ := (fieldStmts_create_eq_ok hdirection).mp h
      exact List.forall_mem_singleton.mpr (descends_guarded (descends_createField hs))
    | update =>
      obtain ⟨s, hs, rfl⟩ := (fieldStmts_update_eq_ok hdirection).mp h
      exact List.forall_mem_singleton.mpr (descends_guarded (descends_updateField hs))
  | factory factory =>
    obtain rfl := Except.ok.inj h
    exact List.forall_mem_singleton.mpr
      (Stmt.descends_assign_of_callsNothing (callsNothing_factoryCall slot factory))
  | fromExtra key =>
    obtain rfl := Except.ok.inj h
    refine List.forall_mem_cons.mpr ⟨?_, List.forall_mem_singleton.mpr ?_⟩
    · refine Stmt.descends_when (.compare (.const _) (.var _)) fun invoker f => ?_
      rw [Stmt.calls]
      exact List.forall_mem_nil _
    · exact Stmt.descends_assign_of_callsNothing (.index (.var _) (.const _))

/-- The statements for all fields. -/
theorem descends_allStmts {slot : Nat} {entries : List (String × Resolution)}
    {groups : List (FieldDescriptor × List Stmt)}
    (h : p.allStmts methods slot entries = .ok groups) :
    ∀ group ∈ groups, ∀ s ∈ group.2, s.Descends := by
  induction entries generalizing slot groups with
  | nil =>
    obtain rfl := Except.ok.inj h
    exact List.forall_mem_nil _
  | cons entry rest ih =>
    obtain ⟨name, resolution⟩ := entry
    unfold allStmts at h
    split at h
    · exact ih h
    · obtain ⟨stmts, hstmts, h⟩ := bind_eq_ok.mp h
      obtain ⟨others, hothers, h⟩ := bind_eq_ok.mp h
      obtain rfl := Except.ok.inj h
      exact List.forall_mem_cons.mpr ⟨descends_fieldStmts hstmts, ih hothers⟩

/-- The body of a create method descends if the statements for all fields do. -/
theorem descends_createBody {groups : List (FieldDescriptor × List Stmt)}
    (h : ∀ group ∈ groups, ∀ s ∈ group.2, s.Descends) : ∀ s ∈ p.createBody groups, s.Descends := by
  have hfields : ∀ keep : FieldDescriptor × List Stmt → Bool,
      ∀ s ∈ (groups.filter keep).flatMap (·.2), s.Descends := by
    intro keep s hs
    obtain ⟨group, hgroup, hmem⟩ := List.mem_flatMap.mp hs
    exact h group (List.mem_of_mem_filter hgroup) s hmem
  have hconstruct : (Expr.construct p.target.handle p.target.strategy).CallsNothing :=
    fun _ _ => by rw [Frame.calls]
  have hresult : ∀ {e : Expr}, e.CallsNothing → (Stmt.result e).Descends := by
    intro e he invoker f
    rw [Stmt.calls]
    exact Stmt.descends_of_callsNothing he
  rw [createBody]
  refine List.forall_mem_append.mpr ⟨List.forall_mem_append.mpr ⟨?_, hfields _⟩, ?_⟩
  · exact List.forall_mem_singleton.mpr (Stmt.descends_assign_of_callsNothing (.const _))
  · split
    · exact List.forall_mem_singleton.mpr (hresult hconstruct)
    · refine List.forall_mem_append.mpr ⟨List.forall_mem_append.mpr ⟨?_, hfields _⟩, ?_⟩
      · exact List.forall_mem_singleton.mpr (Stmt.descends_assign_of_callsNothing hconstruct)
      · exact List.forall_mem_singleton.mpr (hresult (.var _))

/-- The body of an update method descends if the statements for all fields do. -/
theorem descends_updateBody {groups : List (FieldDescriptor × List Stmt)}
    (h : ∀ group ∈ groups, ∀ s ∈ group.2, s.Descends) : ∀ s ∈ updateBody groups, s.Descends := by
  rw [updateBody]
  split
  · refine List.forall_mem_singleton.mpr fun invoker f => ?_
    rw [Stmt.calls]
    exact List.forall_mem_nil _
  · intro s hs
    obtain ⟨group, hgroup, hmem⟩ := List.mem_flatMap.mp hs
    exact h group hgroup s hmem

end Plan

/-- **A method calls for proper parts of its source only**, whatever the source is. -/
theorem MappingMethod.descends_of_assemble {p : Plan} {target : Class} {methods : MethodTable}
    {m : MappingMethod} (h : MappingMethod.assemble p target methods = .ok m) (invoker : Invoker)
    (source extra : Value) (target? : Option Value) :
    ∀ call ∈ m.calls invoker source extra target?, call.Descends source := by
  obtain ⟨function, hfunction, hassembled⟩ := bind_eq_ok.mp h
  obtain rfl := Except.ok.inj hassembled
  obtain ⟨groups, hgroups, hbody⟩ := bind_eq_ok.mp hfunction
  have hfields := Plan.descends_allStmts hgroups
  have hstmts : ∀ s ∈ function.body, s.Descends := by
    cases hdirection : p.direction with
    | create =>
      rw [hdirection] at hbody
      obtain rfl := Except.ok.inj hbody
      exact Plan.descends_createBody hfields
    | update =>
      rw [hdirection] at hbody
      obtain rfl := Except.ok.inj hbody
      exact Plan.descends_updateBody hfields
  exact Stmt.descends_callsAll hstmts invoker _

end ObjectMapping
