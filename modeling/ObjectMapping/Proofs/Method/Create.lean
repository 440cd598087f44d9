import ObjectMapping.Proofs.Method.Fields

/-! # Create methods carry out their plans

The body of a create method has two phases, and between them the object is constructed. Each phase
is a list of groups of statements, so its effect on the frame is the effect of the plan on what the
phase works on: first the arguments, then the new object.

* **`ends_createGroup`** — the group for one field has the effect of its contribution.
* **`create_eq_evaluate_of_resolved`** — a create method gives what its plan gives. -/

namespace ObjectMapping

open Outcome Stmt

variable {invoker : Invoker} {p : Plan} {source : Value} {extra : Extra} {methods : MethodTable}
  {overrides : Overrides}

/-- A field of the new object is not written to the arguments as a whole. -/
theorem createPlace_ne_arguments (goal : FieldDescriptor) : Plan.createPlace goal ≠ .var "d" := by
  rw [Plan.createPlace]
  split <;> simp

/-- The group of statements for a field gives its place the contribution of the field. -/
theorem ends_createGroup (invoker : Invoker) {f : Frame} {entry : FieldDescriptor × Resolution}
    {group : FieldDescriptor × List Stmt} (hdirection : p.direction = .create)
    (hserves : f.Serves p source extra) (hcompiles : p.Compiles methods entry group) :
    Ends invoker group.2 f
      (.ofExcept f (p.contribution invoker.create source extra entry.1 entry.2 >>=
        f.settle (Plan.createPlace entry.1))) := by
  obtain ⟨goal, resolution⟩ := entry
  obtain ⟨_, stmts⟩ := group
  obtain ⟨-, slot, hslot, hstmts⟩ := hcompiles
  dsimp only at hslot hstmts ⊢
  have hplace : Plan.fieldStmts.place p goal = Plan.createPlace goal := by
    rw [Plan.fieldStmts.place, hdirection]
  cases resolution with
  | default =>
    obtain rfl := Except.ok.inj hstmts
    exact Ends.nil f
  | field field type onlyIfSet =>
    obtain ⟨s, hs, rfl⟩ := (Plan.fieldStmts_create_eq_ok hdirection).mp hstmts
    obtain ⟨code, hcode, rfl⟩ := Plan.createField_eq_ok.mp hs
    -- the guards decide on an assignment, and it assigns the conversion
    have hassign := ends_assign invoker code (createPlace_ne_arguments goal) f
    rw [Conversion.eval_express invoker f hcode, eval_sourceField, hserves.source_eq] at hassign
    have hguard := ends_guarded p goal field onlyIfSet hassign
    rw [hserves.source_eq] at hguard
    rw [Plan.contribution]
    generalize p.performs source goal field onlyIfSet = performs at hguard ⊢
    rcases performs with e | b
    · exact hguard
    · cases b with
      | false => exact hguard
      | true =>
        simp only [ok_bind, if_true, bind_assoc, pure_bind]
        exact hguard
  | factory factory =>
    obtain rfl := Except.ok.inj hstmts
    have hat : f.method.factories[slot]? = some factory := by
      rw [hserves.factories_eq]
      exact hslot factory rfl
    rw [hplace, ← hserves.source_eq]
    exact ends_factory hat (createPlace_ne_arguments goal)
  | fromExtra key =>
    obtain rfl := Except.ok.inj hstmts
    rw [hplace]
    exact ends_extraStmts hserves.extra_eq (createPlace_ne_arguments goal)

/-! ## The two phases -/

/-- The groups of one phase have the effects of the contributions on the state that the phase works
on, whatever part of the frame that state is. -/
theorem ends_createGroups (invoker : Invoker) {σ : Type} (embed : σ → Frame)
    (put : σ → FieldDescriptor → Value → Except Error σ)
    {goals : List (FieldDescriptor × Resolution)} {groups : List (FieldDescriptor × List Stmt)}
    (hdirection : p.direction = .create) (hserves : ∀ state, (embed state).Serves p source extra)
    (hput : ∀ entry ∈ goals, ∀ state value,
      (embed state).assigned value (Plan.createPlace entry.1) = (put state entry.1 value).map embed)
    (hcompiles : List.Forall₂ (p.Compiles methods) goals groups) (state : σ) :
    Ends invoker (groups.flatMap (·.2)) (embed state)
      ((effects (fun state entry => .ofExcept state
        (p.contribute invoker.create source extra put state entry)) goals state).within embed) := by
  refine ends_flatMap _ embed ?_ state
  refine ((List.forall₂_and_left _ _).mpr ⟨hput, hcompiles⟩).imp ?_
  rintro entry group ⟨hplace, hgroup⟩ state
  have hends := ends_createGroup invoker hdirection (hserves state) hgroup
  rw [Effect.within_ofExcept, Plan.contribute]
  cases hgiven : p.contribution invoker.create source extra entry.1 entry.2 with
  | error e =>
    rw [hgiven] at hends
    exact hends
  | ok given =>
    rw [hgiven, ok_bind] at hends
    cases given with
    | none => exact hends
    | some value =>
      rw [Frame.settle, hplace state value] at hends
      exact hends

/-- In the first phase an accepted field becomes an argument. -/
theorem assigned_argument {goal : FieldDescriptor} (haccepted : goal.accepted = true) (f : Frame)
    (args : Arguments) (value : Value) :
    ({ f with arguments := args } : Frame).assigned value (Plan.createPlace goal)
      = (Plan.asArgument args goal value).map fun args => { f with arguments := args } := by
  rw [Plan.createPlace, if_pos haccepted]
  rfl

/-- In the second phase any other field is assigned to the new object. -/
theorem assigned_created {goal : FieldDescriptor} (haccepted : goal.accepted = false) (f : Frame)
    (object value : Value) :
    ({ f with created? := some object } : Frame).assigned value (Plan.createPlace goal)
      = (Plan.asField object goal value).map fun object => { f with created? := some object } := by
  rw [Plan.createPlace, if_neg (by simp [haccepted]), Plan.asField]
  rw [Frame.assigned, Expr.created, Frame.read, Frame.part, ok_bind]
  cases object.assign goal.name value <;> rfl

/-- The groups for the fields that a test selects. -/
theorem forall₂_filter_groups {goals : List (FieldDescriptor × Resolution)}
    {groups : List (FieldDescriptor × List Stmt)}
    (hcompiles : List.Forall₂ (p.Compiles methods) goals groups) (test : FieldDescriptor → Bool) :
    List.Forall₂ (p.Compiles methods) (goals.filter (test ·.1)) (groups.filter (test ·.1)) := by
  refine List.rel_filter (R := p.Compiles methods) ?_ hcompiles
  rintro entry group ⟨hgoal, -⟩
  show test entry.1 = true ↔ test group.1 = true
  rw [hgoal]

/-! ## The whole method -/

section Completion

variable {f : Frame} {goals : List (FieldDescriptor × Resolution)}
  {groups : List (FieldDescriptor × List Stmt)}

/-- The second phase has the effect of the contributions on the new object. -/
theorem ends_completion (invoker : Invoker) (hdirection : p.direction = .create)
    (hserves : f.Serves p source extra) (hcompiles : List.Forall₂ (p.Compiles methods) goals groups)
    (hcompleting : ∀ entry ∈ goals, entry.1.accepted = false) (object : Value) :
    Ends invoker (groups.flatMap (·.2)) { f with created? := some object }
      ((effects (fun object entry => .ofExcept object
        (p.contribute invoker.create source extra Plan.asField object entry)) goals object).within
          fun object => { f with created? := some object }) :=
  ends_createGroups invoker (fun object => { f with created? := some object }) Plan.asField
    hdirection (fun _ => ⟨hserves.source_eq, hserves.extra_eq, hserves.factories_eq⟩)
    (fun entry hmem object value => assigned_created (hcompleting entry hmem) f object value)
    hcompiles object

/-- No statement at all changes nothing, so the contributions change nothing either. -/
theorem foldlM_contribute_of_no_stmts (invoker : Invoker) (hdirection : p.direction = .create)
    (hserves : f.Serves p source extra) (hcompiles : List.Forall₂ (p.Compiles methods) goals groups)
    (hcompleting : ∀ entry ∈ goals, entry.1.accepted = false) (hempty : groups.flatMap (·.2) = [])
    (object : Value) :
    goals.foldlM (p.contribute invoker.create source extra Plan.asField) object = .ok object := by
  have hends := ends_completion invoker hdirection hserves hcompiles hcompleting object
  rw [hempty] at hends
  have hfold := congrArg Effect.result hends.eq_of_nil
  rw [Effect.result_within, result_effects_ofExcept] at hfold
  obtain ⟨object', hobject, hframe⟩ := map_eq_ok.mp hfold
  rw [hobject, Option.some.inj (congrArg Frame.created? hframe)]

/-- The new object is returned as the contributions have left it. -/
theorem returns_created (invoker : Invoker) (hdirection : p.direction = .create)
    (hserves : f.Serves p source extra) (hcompiles : List.Forall₂ (p.Compiles methods) goals groups)
    (hcompleting : ∀ entry ∈ goals, entry.1.accepted = false) (object : Value) :
    Returns invoker (groups.flatMap (·.2) ++ [.result .created])
      { f with created? := some object }
      (goals.foldlM (p.contribute invoker.create source extra Plan.asField) object) := by
  have hends :=
    (ends_completion invoker hdirection hserves hcompiles hcompleting object).returns
      (fun g => g.eval invoker [] .created) fun g _ => returns_result invoker .created g
  rw [Effect.result_within, result_effects_ofExcept] at hends
  cases hobject : goals.foldlM (p.contribute invoker.create source extra Plan.asField) object with
  | error e =>
    rw [hobject] at hends
    exact hends
  | ok object' =>
    rw [hobject] at hends
    exact (eval_created invoker f object') ▸ hends

/-- What follows on the collected arguments: the object is constructed, completed and returned. If
there is nothing to complete it with, it is returned at once. -/
theorem returns_completion (invoker : Invoker) (hdirection : p.direction = .create)
    (hserves : f.Serves p source extra)
    (hhandle : f.method.target.handle.same p.target.handle = true)
    (hcompiles : List.Forall₂ (p.Compiles methods) goals groups)
    (hcompleting : ∀ entry ∈ goals, entry.1.accepted = false) :
    Returns invoker
      (if (groups.flatMap (·.2)).isEmpty then [.result (.construct p.target.handle p.target.strategy)]
        else [.assign .created (.construct p.target.handle p.target.strategy)] ++
          groups.flatMap (·.2) ++ [.result .created]) f
      (f.method.target.construct p.target.strategy f.arguments >>= fun object =>
        goals.foldlM (p.contribute invoker.create source extra Plan.asField) object) := by
  have hconstruct := eval_construct invoker p.target.strategy hhandle
  split
  · next hempty =>
    have hresult := returns_result invoker (.construct p.target.handle p.target.strategy) f
    rw [hconstruct] at hresult
    -- no statements: then the plan contributes nothing either
    have hnothing := foldlM_contribute_of_no_stmts invoker hdirection hserves hcompiles hcompleting
      (List.isEmpty_iff.mp hempty)
    rw [show (fun object => goals.foldlM _ object) = pure from funext hnothing, bind_pure]
    exact hresult
  · -- the new object gets a name, under which the remaining fields are assigned
    have hplace : Expr.created ≠ .var "d" := by simp [Expr.created]
    have hassign :=
      ends_assign invoker (.construct p.target.handle p.target.strategy) hplace f
    rw [hconstruct] at hassign
    rw [List.append_assoc]
    cases hobject : f.method.target.construct p.target.strategy f.arguments with
    | error e =>
      rw [hobject] at hassign
      refine hassign.returns (fun _ => .error e) ?_
      rintro g ⟨⟩
    | ok object =>
      rw [hobject] at hassign
      refine hassign.returns (fun _ => goals.foldlM _ object) ?_
      intro g hg
      obtain rfl := Except.ok.inj hg
      exact returns_created invoker hdirection hserves hcompiles hcompleting object

end Completion

/-- **A create method gives what its plan gives**, for a plan in which every target field is
resolved. -/
theorem create_eq_evaluate_of_resolved {target : Class} {m : MappingMethod}
    (hdirection : p.direction = .create) (hnodup : (p.target.fields.map (·.1)).Nodup)
    (hresolved : p.Resolved overrides) (hhandle : target.handle.same p.target.handle = true)
    (hm : MappingMethod.assemble p target methods = .ok m) :
    m.create invoker source extra.value = p.evaluate invoker.create source extra target := by
  obtain ⟨function, hfunction, hassembled⟩ := bind_eq_ok.mp hm
  obtain rfl := Except.ok.inj hassembled
  obtain ⟨groups, hgroups, hbody⟩ := bind_eq_ok.mp hfunction
  rw [hdirection] at hbody
  obtain rfl := Except.ok.inj hbody
  have hcompiles := Plan.forall₂_allStmts hnodup hresolved hgroups
  refine MappingMethod.create_eq ?_
  generalize hframe : MappingMethod.frame _ source extra.value none = f
  have hserves : ∀ args, ({ f with arguments := args } : Frame).Serves p source extra := by
    subst hframe
    exact fun _ => ⟨rfl, rfl, rfl⟩
  have htarget : f.method.target = target := by
    subst hframe
    rfl
  -- before the constructor is called, the arguments are collected; afterwards fields are assigned
  have hcollect := ends_createGroups invoker _ Plan.asArgument hdirection hserves
    (fun entry hmem args value => assigned_argument (List.mem_filter.mp hmem).2 f args value)
    (forall₂_filter_groups hcompiles (·.accepted)) []
  have hbefore := (ends_clearArguments invoker (.const (.dict [])) f).append
    (fun _ => _) fun g hg => by
      obtain rfl := (Prod.mk.inj hg).2
      exact hcollect
  have hafter := fun args => returns_completion invoker hdirection (hserves args)
    (by rw [htarget]; exact hhandle) (forall₂_filter_groups hcompiles (!·.accepted))
    fun entry hmem => by simpa using (List.mem_filter.mp hmem).2
  -- so the body returns what the plan makes of the arguments that were collected
  have hreturns := hbefore.returns
    (fun g => target.construct p.target.strategy g.arguments >>= fun object =>
      (p.goals.filter (!·.1.accepted)).foldlM
        (p.contribute invoker.create source extra Plan.asField) object)
    fun g hg => by
      rw [Effect.ok_andThen, Effect.result_within] at hg
      obtain ⟨args, -, hargs⟩ := bind_eq_ok.mp hg
      obtain rfl := Except.ok.inj hargs
      have htail := hafter args
      rw [htarget] at htail
      exact htail
  rw [Effect.ok_andThen, Effect.result_within, result_effects_ofExcept] at hreturns
  rw [Plan.evaluate]
  cases hargs : (p.goals.filter (·.1.accepted)).foldlM
      (p.contribute invoker.create source extra Plan.asArgument) [] with
  | error e =>
    rw [hargs] at hreturns
    exact hreturns
  | ok args =>
    rw [hargs] at hreturns
    exact hreturns

end ObjectMapping
