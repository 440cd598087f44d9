import ObjectMapping.Execution.Invocation
import ObjectMapping.Proofs.Execution.Effect

/-! # Runs with more mappings at hand

A run that does not fail for want of a mapping never notices further mappings. Two runs of the same
code are compared step by step, one with the mappings there are and one with more of them: as long
as the first goes on, or fails for another reason, the second does the same.

* **`Persists x y`** — the outcome `y` is `x`, unless `x` is a failure for want of a mapping.
* **`PersistsIn x y`** — the same of outcomes with the states that are left behind.
* **`Invoker.Extends`** — what one invoker does persists with another one.
* **`persists_eval`**, **`persistsIn_run`** — expressions and statements pass this on to methods. -/

namespace ObjectMapping

/-- Whether an error says that no mapping is registered. -/
def Error.isUnmapped : Error → Bool
  | .noMappingRegistered .. => true
  | _ => false

variable {α β σ : Type}

/-- A failure for want of a mapping. -/
def Unmapped (x : Except Error α) : Prop := ∃ e : Error, x = .error e ∧ e.isUnmapped = true

/-- The second outcome is the first one, unless that is a failure for want of a mapping. -/
def Persists (x y : Except Error α) : Prop := Unmapped x ∨ y = x

/-- The second outcome is the first one, and the states left behind are the same, unless the first
outcome is a failure for want of a mapping. -/
def PersistsIn (x y : Except Error α × σ) : Prop := Unmapped x.1 ∨ y = x

/-- What misses a mapping is no success. -/
theorem Unmapped.isOk {x : Except Error α} (h : Unmapped x) : x.isOk = false := by
  obtain ⟨e, rfl, -⟩ := h
  rfl

/-- A failure for want of a mapping is one of whatever it is a part of. -/
theorem Unmapped.bind {x : Except Error α} (h : Unmapped x) (f : α → Except Error β) :
    Unmapped (x >>= f) := by
  obtain ⟨e, rfl, he⟩ := h
  exact ⟨e, rfl, he⟩

/-- What misses a mapping does so after a change of the result. -/
theorem Unmapped.map {x : Except Error α} (h : Unmapped x) (f : α → β) : Unmapped (x.map f) := by
  obtain ⟨e, rfl, he⟩ := h
  exact ⟨e, rfl, he⟩

namespace Persists

/-- An outcome persists as itself. -/
theorem refl (x : Except Error α) : Persists x x := .inr rfl

/-- A sequence persists if its parts do. -/
theorem bind {x y : Except Error α} {f g : α → Except Error β} (hxy : Persists x y)
    (hfg : ∀ a, Persists (f a) (g a)) : Persists (x >>= f) (y >>= g) := by
  rcases hxy with hunmapped | rfl
  · exact .inl (hunmapped.bind f)
  · cases y with
    | error e => exact .refl _
    | ok a => exact hfg a

/-- Outcomes for elements that persist do so for all of them. -/
theorem mapM {f g : α → Except Error β} (h : ∀ a, Persists (f a) (g a)) (items : List α) :
    Persists (items.mapM f) (items.mapM g) := by
  induction items with
  | nil => exact .refl _
  | cons item rest ih =>
    rw [List.mapM_cons, List.mapM_cons]
    exact (h item).bind fun b => ih.bind fun bs => .refl _

end Persists

namespace PersistsIn

/-- An outcome and a state persist as themselves. -/
theorem refl (x : Except Error α × σ) : PersistsIn x x := .inr rfl

/-- What is made of an outcome and of the state that is left persists with them, as long as the
failures for want of a mapping are handed on. -/
theorem map {τ : Type} {x y : Except Error α × σ} (h : PersistsIn x y)
    (f : Except Error α × σ → Except Error β × τ)
    (hfail : ∀ x, Unmapped x.1 → Unmapped (f x).1) : PersistsIn (f x) (f y) := by
  rcases h with hunmapped | rfl
  · exact .inl (hfail x hunmapped)
  · exact .refl _

end PersistsIn

/-- An outcome persists together with a state that does not depend on it. -/
theorem Persists.withState {x y : Except Error α} (h : Persists x y) (state : σ) :
    PersistsIn (x, state) (y, state) := by
  rcases h with hunmapped | rfl
  · exact .inl hunmapped
  · exact .refl _

/-- What one invoker does persists with another one. -/
structure Invoker.Extends (i j : Invoker) : Prop where
  create : ∀ source target, Persists (i.create source target) (j.create source target)
  update : ∀ source target, PersistsIn (i.update source target) (j.update source target)

/-- An invoker extends itself. -/
theorem Invoker.Extends.refl (i : Invoker) : i.Extends i :=
  ⟨fun _ _ => .refl _, fun _ _ => .refl _⟩

section Runs

variable {i j : Invoker}

/-! ## Expressions -/

mutual

/-- **The value of an expression persists**: only its calls of create methods look for mappings. -/
theorem persists_eval (h : i.Extends j) (f : Frame) (scope : Scope) :
    (e : Expr) → Persists (f.eval i scope e) (f.eval j scope e)
  | .var name => by
    rw [Frame.eval, Frame.eval]
    exact .refl _
  | .const value => by
    rw [Frame.eval, Frame.eval]
    exact .refl _
  | .attr object name => by
    rw [Frame.eval, Frame.eval]
    exact (persists_eval h f scope object).bind fun v => .refl _
  | .index object key => by
    rw [Frame.eval, Frame.eval]
    refine (persists_eval h f scope object).bind fun v => ?_
    exact (persists_eval h f scope key).bind fun k => .refl _
  | .compare left comparison right => by
    rw [Frame.eval, Frame.eval]
    refine (persists_eval h f scope left).bind fun a => ?_
    exact (persists_eval h f scope right).bind fun b => .refl _
  | .ternary condition whenTrue whenFalse => by
    rw [Frame.eval, Frame.eval]
    refine (persists_eval h f scope condition).bind fun c => ?_
    split
    · exact persists_eval h f scope whenTrue
    · exact persists_eval h f scope whenFalse
  | .listOf element x iterable => by
    rw [Frame.eval, Frame.eval]
    refine (persists_eval h f scope iterable).bind fun v => (Persists.refl _).bind fun items => ?_
    exact (Persists.mapM (fun item => persists_eval h f _ element) items).bind fun _ => .refl _
  | .setOf element x iterable => by
    rw [Frame.eval, Frame.eval]
    refine (persists_eval h f scope iterable).bind fun v => (Persists.refl _).bind fun items => ?_
    exact (Persists.mapM (fun item => persists_eval h f _ element) items).bind fun _ => .refl _
  | .dictOf key value k v iterable => by
    rw [Frame.eval, Frame.eval]
    refine (persists_eval h f scope iterable).bind fun d => (Persists.refl _).bind fun entries => ?_
    refine (Persists.mapM (fun entry => ?_) entries).bind fun _ => .refl _
    refine (persists_eval h f _ key).bind fun newKey => ?_
    exact (persists_eval h f _ value).bind fun _ => .refl _
  | .tuple items => by
    rw [Frame.eval, Frame.eval]
    exact (persists_evalAll h f scope items).bind fun _ => .refl _
  | .method receiver key args => by
    rw [Frame.eval, Frame.eval]
    cases key.direction with
    | create => exact (persists_eval h f scope receiver).bind fun v => h.create v key.target
    | update => exact .refl _
  | .factory slot args => by
    rw [Frame.eval, Frame.eval]
    refine (Persists.refl _).bind fun factory => ?_
    cases factory with
    | constant value => exact .refl _
    | ofSource make => exact (persists_evalFirst h f scope args).bind fun _ => .refl _
  | .construct handle strategy => by
    rw [Frame.eval, Frame.eval]
    exact .refl _
  | .isSet object name => by
    rw [Frame.eval, Frame.eval]
    exact (persists_eval h f scope object).bind fun _ => .refl _

/-- The values of a list of expressions persist under a larger invoker. -/
theorem persists_evalAll (h : i.Extends j) (f : Frame) (scope : Scope) :
    (items : List Expr) → Persists (f.evalAll i scope items) (f.evalAll j scope items)
  | [] => by
    rw [Frame.evalAll, Frame.evalAll]
    exact .refl _
  | e :: rest => by
    rw [Frame.evalAll, Frame.evalAll]
    refine (persists_eval h f scope e).bind fun value => ?_
    exact (persists_evalAll h f scope rest).bind fun _ => .refl _

/-- The value of the first of some expressions persists under a larger invoker. -/
theorem persists_evalFirst (h : i.Extends j) (f : Frame) (scope : Scope) :
    (args : List Expr) → Persists (f.evalFirst i scope args) (f.evalFirst j scope args)
  | [] => by
    rw [Frame.evalFirst, Frame.evalFirst]
    exact .refl _
  | e :: _ => by
    rw [Frame.evalFirst, Frame.evalFirst]
    exact persists_eval h f scope e

end

/-! ## Statements -/

/-- Two computations on a frame persist in a sequence if they do one by one. -/
theorem PersistsIn.bind {x y : Run α} {next next' : α → Run β} {f : Frame}
    (hxy : PersistsIn (x.run f) (y.run f))
    (hnext : ∀ a g, PersistsIn ((next a).run g) ((next' a).run g)) :
    PersistsIn ((x >>= next).run f) ((y >>= next').run f) := by
  rw [Stmt.run_bind, Stmt.run_bind]
  rcases hxy with ⟨e, he, hunmapped⟩ | heq
  · refine .inl ⟨e, ?_, hunmapped⟩
    cases hx : x.run f with
    | mk outcome g =>
      rw [hx] at he
      obtain rfl : outcome = .error e := he
      rfl
  · rw [heq]
    cases x.run f with
    | mk outcome g =>
      cases outcome with
      | error e => exact .refl _
      | ok a => exact hnext a g

/-- Evaluating an expression in a statement persists under a larger invoker. -/
theorem persistsIn_evaluate (h : i.Extends j) (e : Expr) (f : Frame) :
    PersistsIn ((Stmt.evaluate i e).run f) ((Stmt.evaluate j e).run f) := by
  rw [Stmt.run_evaluate, Stmt.run_evaluate]
  exact (persists_eval h f [] e).withState f

/-- A change in place persists with what it leaves at the place. -/
theorem persistsIn_updateAt (h : i.Extends j) (source : Value) (place : Expr) (f : Frame) :
    PersistsIn ((Stmt.updateAt i source place).run f) ((Stmt.updateAt j source place).run f) := by
  rw [Stmt.run_updateAt, Stmt.run_updateAt]
  cases f.read place with
  | error e => exact .refl _
  | ok old =>
    exact (h.update source old).map (fun x => (x.1, f.write x.2 place)) fun _ hfail => hfail

mutual

/-- **The run of a statement persists**, with the frame that it leaves. -/
theorem persistsIn_run (h : i.Extends j) (f : Frame) :
    (s : Stmt) → PersistsIn ((Stmt.run i s).run f) ((Stmt.run j s).run f)
  | .assign place value => by
    by_cases hplace : place = .var "d"
    · subst hplace
      rw [Stmt.run, Stmt.run]
      exact .refl _
    · rw [Stmt.run, Stmt.run]
      · exact (persistsIn_evaluate h value f).bind fun v g => .refl _
      · exact hplace
      · exact hplace
  | .perform e => by
    -- an update call changes what is at its place; everything else is evaluated
    by_cases hcall : ∃ receiver target args, e = .method receiver ⟨.update, target⟩ args
    · obtain ⟨receiver, target, args, rfl⟩ := hcall
      rw [Stmt.run, Stmt.run]
      refine (persistsIn_evaluate h receiver f).bind fun source g => ?_
      split
      · exact (persistsIn_updateAt h source _ g).bind fun _ _ => .refl _
      · exact .refl _
    · have hother : ∀ receiver target args, e = .method receiver ⟨.update, target⟩ args → False :=
        fun receiver target args he => hcall ⟨receiver, target, args, he⟩
      rw [Stmt.run, Stmt.run]
      · exact ((persistsIn_evaluate h e f).bind fun _ _ => .refl _).bind fun _ _ => .refl _
      · exact hother
      · exact hother
  | .branch condition whenTrue whenFalse => by
    rw [Stmt.run, Stmt.run]
    refine (persistsIn_evaluate h condition f).bind fun c g => ?_
    split
    · exact persistsIn_runAll h g whenTrue
    · exact persistsIn_runAll h g whenFalse
  | .raise text => by
    rw [Stmt.run, Stmt.run]
    exact .refl _
  | .result e => by
    rw [Stmt.run, Stmt.run]
    exact (persistsIn_evaluate h e f).bind fun _ _ => .refl _
  | .pass => by
    rw [Stmt.run, Stmt.run]
    exact .refl _

/-- Running a list of statements persists under a larger invoker. -/
theorem persistsIn_runAll (h : i.Extends j) (f : Frame) :
    (stmts : List Stmt) → PersistsIn ((Stmt.runAll i stmts).run f) ((Stmt.runAll j stmts).run f)
  | [] => by
    rw [Stmt.runAll, Stmt.runAll]
    exact .refl _
  | s :: rest => by
    rw [Stmt.runAll, Stmt.runAll]
    refine (persistsIn_run h f s).bind fun value? g => ?_
    cases value? with
    | some value => exact .refl _
    | none => exact persistsIn_runAll h g rest

end

/-! ## Methods -/

/-- A create method persists: all that is kept of its run is the outcome. -/
theorem MappingMethod.persists_create (h : i.Extends j) (m : MappingMethod) (source extra : Value) :
    Persists (m.create i source extra) (m.create j source extra) := by
  rw [MappingMethod.create, MappingMethod.create]
  rcases persistsIn_runAll h (m.frame source extra none) m.function.body with
    ⟨e, he, hunmapped⟩ | heq
  · refine .inl ⟨e, ?_, hunmapped⟩
    cases hrun : (Stmt.runAll i m.function.body).run (m.frame source extra none) with
    | mk outcome g =>
      rw [hrun] at he
      obtain rfl : outcome = .error e := he
      rfl
  · rw [heq]
    exact .refl _

/-- An update method persists, with what it leaves of its target. -/
theorem MappingMethod.persistsIn_update (h : i.Extends j) (m : MappingMethod)
    (source target extra : Value) :
    PersistsIn (m.update i source target extra) (m.update j source target extra) := by
  have hrun := persistsIn_runAll h (m.frame source extra (some target)) m.function.body
  exact hrun.map (fun x => (x.1.map fun _ => (), x.2.target?.getD target))
    fun _ hfail => hfail.map _

end Runs

end ObjectMapping
