import ObjectMapping.Execution.Statements
import ObjectMapping.Proofs.Outcome

/-! # Effects of statements

What statements do to a frame is a change of state that may fail half way. The same shape of change
recurs one level up, where a plan works on constructor arguments, on a new object or on a target, and
no code is in sight.

* **`Effect σ`** — how a change of a state ended, with the state it left behind.
* **`effects step`** — one change for each element of a list, up to the first failure.
* `exists_of_effects_eq_error`: where such changes fail.
* **`Stmt.Ends invoker stmts f x`** — statements run from the frame `f` end with the effect `x` and
  return no value; one lemma for each form of statement that methods are made of. -/

namespace ObjectMapping

/-- How a change of a state ended, and the state it left behind. -/
abbrev Effect (σ : Type) := Except Error Unit × σ

namespace Effect

variable {σ τ α : Type}

/-- A change that leads to a new state, or fails and leaves the old one. -/
def ofExcept (state : σ) : Except Error σ → Effect σ
  | .ok next => (.ok (), next)
  | .error e => (.error e, state)

/-- One change after another; a failure is the end. -/
def andThen (x : Effect σ) (next : σ → Effect σ) : Effect σ :=
  match x with
  | (.ok (), state) => next state
  | (.error e, state) => (.error e, state)

/-- One of two changes, as a test decides that may itself fail. -/
def branch (state : σ) (test : Except Error Bool) (x y : Effect σ) : Effect σ :=
  match test with
  | .ok true => x
  | .ok false => y
  | .error e => (.error e, state)

/-- The state that a change leads to, if it does not fail. -/
def result : Effect σ → Except Error σ
  | (.ok (), state) => .ok state
  | (.error e, _) => .error e

/-- The same change of the state as part of a larger one. -/
def within (embed : σ → τ) (x : Effect σ) : Effect τ := (x.1, embed x.2)

/-- A successful outcome is the next state. -/
@[simp] theorem ofExcept_ok (state next : σ) : ofExcept state (.ok next) = (.ok (), next) := rfl

/-- A failed outcome leaves the state as it is. -/
@[simp] theorem ofExcept_error (state : σ) (e : Error) :
    ofExcept state (.error e) = (.error e, state) := rfl

/-- After a success the next effect is carried out. -/
@[simp] theorem ok_andThen (state : σ) (next : σ → Effect σ) :
    andThen (.ok (), state) next = next state := rfl

/-- After a failure nothing else is carried out. -/
@[simp] theorem error_andThen (e : Error) (state : σ) (next : σ → Effect σ) :
    andThen (.error e, state) next = (.error e, state) := rfl

/-- A change succeeds exactly if the new state could be made. -/
theorem ofExcept_eq_ok {state next : σ} {x : Except Error σ} :
    ofExcept state x = (.ok (), next) ↔ x = .ok next := by
  cases x <;> simp [ofExcept]

/-- One of two changes succeeds exactly if the test selects it. -/
theorem branch_eq_ok {state next : σ} {test : Except Error Bool} {x y : Effect σ} :
    branch state test x y = (.ok (), next) ↔
      test = .ok true ∧ x = (.ok (), next) ∨ test = .ok false ∧ y = (.ok (), next) := by
  rcases test with e | b
  · simp [branch]
  · cases b <;> simp [branch]

/-- One change after another succeeds exactly if both do. -/
theorem andThen_eq_ok {next : σ} {x : Effect σ} {f : σ → Effect σ} :
    x.andThen f = (.ok (), next) ↔ ∃ state, x = (.ok (), state) ∧ f state = (.ok (), next) := by
  obtain ⟨outcome, state⟩ := x
  cases outcome <;> simp [andThen]

/-- The result of an outcome is the outcome. -/
@[simp] theorem result_ofExcept (state : σ) (x : Except Error σ) :
    (ofExcept state x).result = x := by
  cases x <;> rfl

/-- The result of two effects is that of the second one on what the first one leaves. -/
theorem result_andThen (x : Effect σ) (next : σ → Effect σ) :
    (x.andThen next).result = x.result >>= fun state => (next state).result := by
  obtain ⟨outcome, state⟩ := x
  cases outcome <;> rfl

/-- The result of an effect within a larger state is embedded in it. -/
theorem result_within (embed : σ → τ) (x : Effect σ) :
    (x.within embed).result = x.result.map embed := by
  obtain ⟨outcome, state⟩ := x
  cases outcome <;> rfl

/-- A test in two steps, the second of which is made only after the first. -/
theorem branch_bind (state : σ) (test further : Except Error Bool) (x y : Effect σ) :
    branch state (test >>= fun b => if b then further else pure false) x y
      = branch state test (branch state further x y) y := by
  rcases test with e | b
  · rfl
  · cases b <;> rfl

/-- An outcome within a larger state is embedded in it. -/
theorem within_ofExcept (embed : σ → τ) (state : σ) (x : Except Error σ) :
    (ofExcept state x).within embed = ofExcept (embed state) (x.map embed) := by
  cases x <;> rfl

/-- A branch within a larger state is a branch between both ways there. -/
theorem within_branch (embed : σ → τ) (state : σ) (test : Except Error Bool) (x y : Effect σ) :
    (branch state test x y).within embed
      = branch (embed state) test (x.within embed) (y.within embed) := by
  rcases test with e | b
  · rfl
  · cases b <;> rfl

end Effect

variable {σ τ α : Type}

/-- One change for each element, in order, up to the first failure. -/
def effects (step : σ → α → Effect σ) : List α → σ → Effect σ
  | [], state => (.ok (), state)
  | item :: rest, state => (step state item).andThen (effects step rest)

/-- For no items nothing is carried out. -/
@[simp] theorem effects_nil (step : σ → α → Effect σ) (state : σ) :
    effects step [] state = (.ok (), state) := rfl

/-- For several items the first one is carried out, and then the others. -/
theorem effects_cons (step : σ → α → Effect σ) (item : α) (rest : List α) (state : σ) :
    effects step (item :: rest) state = (step state item).andThen (effects step rest) := rfl

/-- Without the states that failures leave behind, changes of a list are a fold. -/
theorem result_effects (step : σ → α → Effect σ) (items : List α) (state : σ) :
    (effects step items state).result
      = items.foldlM (fun state item => (step state item).result) state := by
  induction items generalizing state with
  | nil => rfl
  | cons item rest ih =>
    rw [effects_cons, Effect.result_andThen, List.foldlM_cons]
    simp only [ih]

/-- Two ways to change a state agree on a list if they agree on its elements. -/
theorem effects_congr {f g : σ → α → Effect σ} {items : List α}
    (h : ∀ item ∈ items, ∀ state, f state item = g state item) (state : σ) :
    effects f items state = effects g items state := by
  induction items generalizing state with
  | nil => rfl
  | cons item rest ih =>
    have hrest : effects f rest = effects g rest :=
      funext fun state => ih (fun other hmem => h other (List.mem_cons_of_mem _ hmem)) state
    rw [effects_cons, effects_cons, h item List.mem_cons_self, hrest]

/-- Changes of a list are those of its first part and then those of the rest. -/
theorem effects_append (step : σ → α → Effect σ) (before after : List α) (state : σ) :
    effects step (before ++ after) state
      = (effects step before state).andThen (effects step after) := by
  induction before generalizing state with
  | nil => rfl
  | cons item rest ih =>
    rw [List.cons_append, effects_cons, effects_cons]
    obtain ⟨outcome, next⟩ := step state item
    cases outcome with
    | error e => rfl
    | ok _ => exact ih next

/-- Changes of a list succeed exactly if one after the other does. -/
theorem effects_append_eq_ok {step : σ → α → Effect σ} {before after : List α} {state left : σ} :
    effects step (before ++ after) state = (.ok (), left) ↔
      ∃ mid, effects step before state = (.ok (), mid) ∧ effects step after mid = (.ok (), left) := by
  rw [effects_append, Effect.andThen_eq_ok]

/-- **Where changes of a list fail**: at one element, after those of the elements before it. -/
theorem exists_of_effects_eq_error {step : σ → α → Effect σ} {items : List α} {state left : σ}
    {e : Error} (h : effects step items state = (.error e, left)) :
    ∃ before item after mid, items = before ++ item :: after ∧
      effects step before state = (.ok (), mid) ∧ step mid item = (.error e, left) := by
  induction items generalizing state with
  | nil => cases h
  | cons item rest ih =>
    rw [effects_cons] at h
    cases hstep : step state item with
    | mk outcome next =>
      rw [hstep] at h
      cases outcome with
      | error e' => exact ⟨[], item, rest, state, rfl, rfl, hstep.trans h⟩
      | ok _ =>
        obtain ⟨before, other, after, mid, rfl, hbefore, hother⟩ := ih h
        refine ⟨item :: before, other, after, mid, rfl, ?_, hother⟩
        rw [effects_cons, hstep]
        exact hbefore

/-- Changes that keep the state where they fail are a fold of what they lead to. -/
theorem result_effects_ofExcept (step : σ → α → Except Error σ) (items : List α) (state : σ) :
    (effects (fun state item => .ofExcept state (step state item)) items state).result
      = items.foldlM step state := by
  rw [result_effects]
  simp only [Effect.result_ofExcept]

namespace Stmt

variable {invoker : Invoker}

/-- Statements run from the frame `f` end with the effect `x` and return no value. -/
def Ends (invoker : Invoker) (stmts : List Stmt) (f : Frame) (x : Effect Frame) : Prop :=
  (runAll invoker stmts).run f = (x.1.map fun _ => Option.none, x.2)

/-- No statements change nothing. -/
theorem Ends.nil (f : Frame) : Ends invoker [] f (.ok (), f) := by
  rw [Ends, runAll]
  rfl

/-- No statements have no other effect. -/
theorem Ends.eq_of_nil {f : Frame} {x : Effect Frame} (h : Ends invoker [] f x) :
    x = (.ok (), f) := by
  obtain ⟨outcome, g⟩ := x
  obtain ⟨houtcome, hframe⟩ := Prod.mk.inj (h.symm.trans (Ends.nil f))
  cases outcome with
  | error e => exact absurd houtcome (by simp [Except.map])
  | ok _ => exact congrArg _ hframe

/-- A sequence of computations on a frame runs the second one in the frame that the first leaves. -/
theorem run_bind {α β : Type} (x : Run α) (next : α → Run β) (f : Frame) :
    (x >>= next).run f = match x.run f with
      | (.ok a, g) => (next a).run g
      | (.error e, g) => (.error e, g) := by
  -- the two layers of a computation on a frame, taken apart once and for all
  show (ExceptT.bind x next).run f = _
  cases hx : x.run f with
  | mk outcome g =>
    have hstep : (ExceptT.bind x next).run f = (ExceptT.bindCont next outcome) g := by
      show (match x.run f with | (a, g) => ExceptT.bindCont next a g) = _
      rw [hx]
    rw [hstep]
    cases outcome <;> rfl

/-- Statements after one that returns nothing run in the frame that it leaves. -/
theorem run_runAll_cons (s : Stmt) (rest : List Stmt) (f : Frame) :
    (runAll invoker (s :: rest)).run f = match (run invoker s).run f with
      | (.ok (some value), g) => (.ok (some value), g)
      | (.ok Option.none, g) => (runAll invoker rest).run g
      | (.error e, g) => (.error e, g) := by
  rw [runAll, run_bind]
  cases (run invoker s).run f with
  | mk outcome g =>
    rcases outcome with e | value
    · rfl
    · cases value <;> rfl

/-- Statements after others are run where the others do not fail or return. -/
theorem run_runAll_append (before after : List Stmt) (f : Frame) :
    (runAll invoker (before ++ after)).run f = match (runAll invoker before).run f with
      | (.ok (some value), g) => (.ok (some value), g)
      | (.ok Option.none, g) => (runAll invoker after).run g
      | (.error e, g) => (.error e, g) := by
  induction before generalizing f with
  | nil => rfl
  | cons s rest ih =>
    rw [List.cons_append, run_runAll_cons, run_runAll_cons]
    cases (run invoker s).run f with
    | mk outcome g =>
      rcases outcome with e | value
      · rfl
      · cases value with
        | some value => rfl
        | none => exact ih g

/-- Statements that return nothing go before others as a change goes before another. -/
theorem Ends.append {before after : List Stmt} {f : Frame} {x : Effect Frame}
    (hbefore : Ends invoker before f x) (next : Frame → Effect Frame)
    (hafter : ∀ g, x = (.ok (), g) → Ends invoker after g (next g)) :
    Ends invoker (before ++ after) f (x.andThen next) := by
  rw [Ends, run_runAll_append, hbefore]
  obtain ⟨outcome, g⟩ := x
  cases outcome with
  | error e => rfl
  | ok _ => exact hafter g rfl

/-! ## The forms of statements -/

/-- The value of an expression, asked for in a frame. -/
theorem run_evaluate (e : Expr) (f : Frame) :
    (evaluate invoker e).run f = (f.eval invoker [] e, f) := rfl

/-- Replacing the frame is a change of it. -/
theorem run_replaceFrame (change : Frame → Except Error Frame) (f : Frame) :
    (replaceFrame change).run f = Effect.ofExcept f (change f) := by
  show replaceFrame change f = _
  unfold replaceFrame
  cases change f <;> rfl

/-- An update at a place that exists leaves there what the update method leaves. -/
theorem run_updateAt (source : Value) (place : Expr) (f : Frame) :
    (updateAt invoker source place).run f = match f.read place with
      | .error e => (.error e, f)
      | .ok old =>
          ((invoker.update source old).1, f.write (invoker.update source old).2 place) := by
  show updateAt invoker source place f = _
  unfold updateAt
  cases f.read place <;> rfl

/-- A single statement that returns nothing. -/
theorem ends_singleton {s : Stmt} {f : Frame} {x : Effect Frame}
    (h : (run invoker s).run f = (x.1.map fun _ => Option.none, x.2)) : Ends invoker [s] f x := by
  rw [Ends, run_runAll_cons, h]
  obtain ⟨outcome, g⟩ := x
  cases outcome <;> rfl

/-- An assignment evaluates its right side and changes the frame at its place. -/
theorem ends_assign (invoker : Invoker) {place : Expr} (value : Expr) (hplace : place ≠ .var "d")
    (f : Frame) :
    Ends invoker [.assign place value] f
      (.ofExcept f (f.eval invoker [] value >>= fun v => f.assigned v place)) := by
  refine ends_singleton ?_
  rw [run]
  · rw [run_bind, run_evaluate]
    cases f.eval invoker [] value with
    | error e => rfl
    | ok v =>
      show (replaceFrame (fun f => f.assigned v place) >>= fun _ => pure Option.none).run f = _
      rw [run_bind, run_replaceFrame, Outcome.ok_bind]
      cases f.assigned v place <;> rfl
  · exact hplace

/-- A statement with two branches takes the one that its condition selects. -/
theorem ends_branch {condition : Expr} {test : Except Error Bool} {whenTrue whenFalse : List Stmt}
    {f : Frame} {x y : Effect Frame}
    (hcondition : f.eval invoker [] condition = test.map .bool)
    (htrue : Ends invoker whenTrue f x) (hfalse : Ends invoker whenFalse f y) :
    Ends invoker [.branch condition whenTrue whenFalse] f (.branch f test x y) := by
  refine ends_singleton ?_
  rw [run, run_bind, run_evaluate, hcondition]
  cases test with
  | error e => rfl
  | ok b =>
    cases b with
    | true => exact htrue
    | false => exact hfalse

/-- A conditional statement does nothing if its condition does not hold. -/
theorem ends_when {condition : Expr} {test : Except Error Bool} {body : List Stmt} {f : Frame}
    {x : Effect Frame} (hcondition : f.eval invoker [] condition = test.map .bool)
    (hbody : Ends invoker body f x) :
    Ends invoker [.when condition body] f (.branch f test x (.ok (), f)) :=
  ends_branch hcondition hbody (Ends.nil f)

/-- A statement that raises fails with its text. -/
theorem ends_raise (invoker : Invoker) (text : String) (f : Frame) :
    Ends invoker [.raise text] f (.error (.raised text), f) :=
  ends_singleton (by rw [run]; rfl)

/-- The call of an update method leaves at the place what the method leaves. -/
theorem ends_updateCall (invoker : Invoker) (value place : Expr) (target : ClassHandle)
    (f : Frame) :
    Ends invoker [.perform (Conversion.updateCall value target place)] f
      (match f.eval invoker [] value, f.read place with
        | .error e, _ => (.error e, f)
        | .ok _, .error e => (.error e, f)
        | .ok v, .ok old =>
            ((invoker.update v old).1, f.write (invoker.update v old).2 place)) := by
  refine ends_singleton ?_
  rw [Conversion.updateCall, run, run_bind, run_evaluate]
  cases f.eval invoker [] value with
  | error e => rfl
  | ok v =>
    show (updateAt invoker v place >>= fun _ => pure Option.none).run f = _
    rw [run_bind, run_updateAt]
    cases f.read place with
    | error e => rfl
    | ok old => cases hupdate : (invoker.update v old).1 <;> simp only [hupdate] <;> rfl

/-! ## Groups of statements and results -/

/-- Groups of statements, one for each element, have the effects of the elements. -/
theorem ends_flatMap {β : Type} (step : σ → α → Effect σ) (embed : σ → Frame) {items : List α}
    {groups : List (β × List Stmt)}
    (h : List.Forall₂ (fun item (group : β × List Stmt) =>
      ∀ state, Ends invoker group.2 (embed state) ((step state item).within embed)) items groups)
    (state : σ) :
    Ends invoker (groups.flatMap (·.2)) (embed state)
      ((effects step items state).within embed) := by
  -- every group is run from the state that the ones before it left, hence for all states
  induction h generalizing state with
  | nil => exact Ends.nil (embed state)
  | @cons item group items groups hitem _ ih =>
    rw [effects_cons, List.flatMap_cons]
    have hfirst := hitem state
    generalize step state item = x at hfirst ⊢
    obtain ⟨outcome, next⟩ := x
    have hboth := hfirst.append (fun _ => (effects step items next).within embed) fun g hg => by
      obtain ⟨-, rfl⟩ := Prod.mk.inj hg
      exact ih next
    cases outcome <;> exact hboth

/-- Statements run from the frame `f` return a value, or fail, with the outcome `x`. -/
def Returns (invoker : Invoker) (stmts : List Stmt) (f : Frame) (x : Except Error Value) : Prop :=
  ((runAll invoker stmts).run f).1 = x.map some

/-- A result is the value of its expression. -/
theorem returns_result (invoker : Invoker) (e : Expr) (f : Frame) :
    Returns invoker [.result e] f (f.eval invoker [] e) := by
  rw [Returns, run_runAll_cons, run, run_bind, run_evaluate]
  cases f.eval invoker [] e <;> rfl

/-- Statements that return a value may follow statements that do not. -/
theorem Ends.returns {before after : List Stmt} {f : Frame} {x : Effect Frame}
    (hbefore : Ends invoker before f x) (y : Frame → Except Error Value)
    (hafter : ∀ g, x.result = .ok g → Returns invoker after g (y g)) :
    Returns invoker (before ++ after) f (x.result >>= y) := by
  rw [Returns, run_runAll_append, hbefore]
  obtain ⟨outcome, g⟩ := x
  cases outcome with
  | error e => rfl
  | ok _ =>
    have hreturns := hafter g rfl
    rw [Returns] at hreturns
    exact hreturns

/-- The arguments of the constructor are cleared before they are collected. -/
theorem ends_clearArguments (invoker : Invoker) (value : Expr) (f : Frame) :
    Ends invoker [.assign .arguments value] f (.ok (), { f with arguments := [] }) :=
  ends_singleton (by rw [Expr.arguments, run]; rfl)

end Stmt

/-- What the body of a create method returns is the new object. -/
theorem MappingMethod.create_eq {m : MappingMethod} {invoker : Invoker} {source extra : Value}
    {x : Except Error Value}
    (h : Stmt.Returns invoker m.function.body (m.frame source extra none) x) :
    m.create invoker source extra = x := by
  rw [Stmt.Returns] at h
  rw [MappingMethod.create]
  cases hrun : (Stmt.runAll invoker m.function.body).run (m.frame source extra none) with
  | mk outcome g =>
    rw [hrun] at h
    cases x with
    | error e =>
      obtain rfl : outcome = .error e := h
      rfl
    | ok value =>
      obtain rfl : outcome = .ok (some value) := h
      rfl

end ObjectMapping
