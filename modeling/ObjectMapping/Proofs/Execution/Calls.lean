import ObjectMapping.Proofs.Execution.Effect

/-! # The calls that a method makes

A method reaches other methods through its invoker only. The calls that it makes are listed here in
the order in which they are made, up to the first failure. Evaluation and running are followed for
this, but nothing is assumed about what the calls answer: that is up to the invoker.

* `Call` is a request to an invoker; `Frame.calls`, `Stmt.calls`, `MappingMethod.calls` list the
  requests of expressions, statements and methods.
* **`Frame.eval_eq_of_answers`**, **`Stmt.run_eq_of_answers`**, **`MappingMethod.create_eq_of_answers`**
  and **`MappingMethod.update_eq_of_answers`** — no call is missing: what becomes of a method depends
  on the answers to the calls that are listed and on nothing else of the invoker. -/

namespace ObjectMapping

open Outcome

/-- A request for a method: to make an object of a class, or to change an object. -/
inductive Call where
  | create (source : Value) (target : ClassHandle)
  | update (source object : Value)

/-- What the method reads. -/
def Call.source : Call → Value
  | create source _ => source
  | update source _ => source

/-- Whether two invokers give the same answer to a call. -/
def Invoker.SameAnswer (invoker invoker' : Invoker) : Call → Prop
  | .create source target => invoker.create source target = invoker'.create source target
  | .update source object => invoker.update source object = invoker'.update source object

namespace Call

variable {α β : Type}

/-- The calls that follow an outcome: none after a failure. -/
def after (outcome : Except Error α) (next : α → List Call) : List Call :=
  match outcome with
  | .ok a => next a
  | .error _ => []

/-- The calls for the elements of a list, up to the first one that fails. -/
def each (outcome : α → Except Error β) (calls : α → List Call) : List α → List Call
  | [] => []
  | a :: rest => calls a ++ after (outcome a) fun _ => each outcome calls rest

end Call

namespace Frame

open Call

mutual

/-- **The calls that evaluating an expression makes**, first to last. -/
def calls (invoker : Invoker) (f : Frame) (scope : Scope) : Expr → List Call
  | .var _ | .const _ | .construct .. => []
  | .attr object _ | .isSet object _ => calls invoker f scope object
  | .index object key =>
      calls invoker f scope object ++
        after (f.eval invoker scope object) fun _ => calls invoker f scope key
  | .compare left _ right =>
      calls invoker f scope left ++
        after (f.eval invoker scope left) fun _ => calls invoker f scope right
  | .ternary condition whenTrue whenFalse =>
      calls invoker f scope condition ++ after (f.eval invoker scope condition) fun c =>
        if c.truthy then calls invoker f scope whenTrue else calls invoker f scope whenFalse
  | .listOf element x iterable | .setOf element x iterable =>
      calls invoker f scope iterable ++
        after (f.eval invoker scope iterable) fun v => after v.elements fun items =>
          each (fun item => f.eval invoker ((x, item) :: scope) element)
            (fun item => calls invoker f ((x, item) :: scope) element) items
  | .dictOf key value k v iterable =>
      calls invoker f scope iterable ++
        after (f.eval invoker scope iterable) fun d => after d.entries fun entries =>
          each
            (fun entry => do
              let scope := (v, entry.2) :: (k, entry.1) :: scope
              let newKey ← f.eval invoker scope key
              return (newKey, ← f.eval invoker scope value))
            (fun entry =>
              calls invoker f ((v, entry.2) :: (k, entry.1) :: scope) key ++
                after (f.eval invoker ((v, entry.2) :: (k, entry.1) :: scope) key) fun _ =>
                  calls invoker f ((v, entry.2) :: (k, entry.1) :: scope) value) entries
  | .tuple items => callsAll invoker f scope items
  | .method receiver key _ =>
      match key.direction with
      | .create =>
          calls invoker f scope receiver ++
            after (f.eval invoker scope receiver) fun source => [.create source key.target]
      | .update => []
  | .factory slot args =>
      after (f.factoryAt slot) fun factory =>
        match factory with
        | .constant _ => []
        | .ofSource _ => callsFirst invoker f scope args

/-- The calls that evaluating the expressions of a list makes. -/
def callsAll (invoker : Invoker) (f : Frame) (scope : Scope) : List Expr → List Call
  | [] => []
  | e :: rest =>
      calls invoker f scope e ++ after (f.eval invoker scope e) fun _ => callsAll invoker f scope rest

/-- The calls that evaluating the first argument of a factory makes. -/
def callsFirst (invoker : Invoker) (f : Frame) (scope : Scope) : List Expr → List Call
  | [] => []
  | e :: _ => calls invoker f scope e

end

end Frame

namespace Stmt

open Call

mutual

/-- **The calls that running a statement makes**, first to last. -/
def calls (invoker : Invoker) (f : Frame) : Stmt → List Call
  | assign (.var "d") _ => []
  | assign _ value => f.calls invoker [] value
  | perform (.method receiver ⟨.update, _⟩ args) =>
      f.calls invoker [] receiver ++ after (f.eval invoker [] receiver) fun source =>
        match args with
        | [place, _] => after (f.read place) fun object => [.update source object]
        | _ => []
  | perform e => f.calls invoker [] e
  | branch condition whenTrue whenFalse =>
      f.calls invoker [] condition ++ after (f.eval invoker [] condition) fun c =>
        if c.truthy then callsAll invoker f whenTrue else callsAll invoker f whenFalse
  | raise _ => []
  | result e => f.calls invoker [] e
  | pass => []

/-- The calls that running statements makes, up to the first one that fails or returns a value. -/
def callsAll (invoker : Invoker) (f : Frame) : List Stmt → List Call
  | [] => []
  | s :: rest =>
      calls invoker f s ++
        match (run invoker s).run f with
        | (.ok none, next) => callsAll invoker next rest
        | _ => []

end

end Stmt

/-- **The calls that a method makes** for a source, and for a target if it changes one. -/
def MappingMethod.calls (m : MappingMethod) (invoker : Invoker) (source extra : Value)
    (target? : Option Value) : List Call :=
  Stmt.callsAll invoker (m.frame source extra target?) m.function.body

/-! ## No call is missing -/

/-- Two invokers give the same answers to all calls of a list. -/
def Invoker.Agree (invoker invoker' : Invoker) (calls : List Call) : Prop :=
  ∀ call ∈ calls, invoker.SameAnswer invoker' call

section Answers

variable {i j : Invoker} {α β : Type}

/-- Invokers agree on two lists of calls if they agree on each of them. -/
theorem Invoker.agree_append {calls others : List Call} :
    i.Agree j (calls ++ others) ↔ i.Agree j calls ∧ i.Agree j others :=
  List.forall_mem_append

/-- What is done after an outcome depends on the calls that follow this outcome. -/
theorem bind_eq_of_answers {x y : Except Error α} {f g : α → Except Error β}
    {next : α → List Call} (hxy : x = y) (hfg : ∀ a, x = .ok a → i.Agree j (next a) → f a = g a)
    (h : i.Agree j (Call.after x next)) : x >>= f = y >>= g := by
  subst hxy
  cases x with
  | error e => rfl
  | ok a => exact hfg a rfl h

/-- A list is computed in the same way, as far as it is. -/
theorem mapM_eq_of_answers {f g : α → Except Error β} {calls : α → List Call}
    (hfg : ∀ a, i.Agree j (calls a) → f a = g a) {items : List α}
    (h : i.Agree j (Call.each f calls items)) : items.mapM f = items.mapM g := by
  induction items with
  | nil => rfl
  | cons a rest ih =>
    obtain ⟨hfirst, hrest⟩ := Invoker.agree_append.mp h
    rw [List.mapM_cons, List.mapM_cons]
    refine bind_eq_of_answers (hfg a hfirst) (fun b _ hafter => ?_) hrest
    rw [ih hafter]

mutual

/-- **The value of an expression depends on the answers to its calls only.** -/
theorem Frame.eval_eq_of_answers (f : Frame) (scope : Scope) :
    (e : Expr) → i.Agree j (f.calls i scope e) → f.eval i scope e = f.eval j scope e
  | .var name, _ => by rw [eval, eval]
  | .const value, _ => by rw [eval, eval]
  | .attr object name, h => by
    rw [calls] at h
    rw [eval, eval, eval_eq_of_answers f scope object h]
  | .index object key, h => by
    rw [calls, Invoker.agree_append] at h
    rw [eval, eval]
    refine bind_eq_of_answers (eval_eq_of_answers f scope object h.1) (fun v _ hkey => ?_) h.2
    rw [eval_eq_of_answers f scope key hkey]
  | .compare left comparison right, h => by
    rw [calls, Invoker.agree_append] at h
    rw [eval, eval]
    refine bind_eq_of_answers (eval_eq_of_answers f scope left h.1) (fun v _ hright => ?_) h.2
    rw [eval_eq_of_answers f scope right hright]
  | .ternary condition whenTrue whenFalse, h => by
    rw [calls, Invoker.agree_append] at h
    rw [eval, eval]
    -- only the way that is taken makes calls, and it is the same one for both invokers
    refine bind_eq_of_answers (eval_eq_of_answers f scope condition h.1) (fun c _ hbranch => ?_) h.2
    by_cases htruthy : c.truthy = true
    · rw [if_pos htruthy] at hbranch
      rw [if_pos htruthy, if_pos htruthy, eval_eq_of_answers f scope whenTrue hbranch]
    · rw [if_neg htruthy] at hbranch
      rw [if_neg htruthy, if_neg htruthy, eval_eq_of_answers f scope whenFalse hbranch]
  | .listOf element x iterable, h => by
    rw [calls, Invoker.agree_append] at h
    rw [eval, eval]
    refine bind_eq_of_answers (eval_eq_of_answers f scope iterable h.1) (fun v _ hv => ?_) h.2
    -- the calls of the loop are those for the elements that there are
    refine bind_eq_of_answers rfl (fun items _ hitems => ?_) hv
    rw [mapM_eq_of_answers (fun item => eval_eq_of_answers f ((x, item) :: scope) element) hitems]
  | .setOf element x iterable, h => by
    rw [calls, Invoker.agree_append] at h
    rw [eval, eval]
    refine bind_eq_of_answers (eval_eq_of_answers f scope iterable h.1) (fun v _ hv => ?_) h.2
    refine bind_eq_of_answers rfl (fun items _ hitems => ?_) hv
    rw [mapM_eq_of_answers (fun item => eval_eq_of_answers f ((x, item) :: scope) element) hitems]
  | .dictOf key value k v iterable, h => by
    rw [calls, Invoker.agree_append] at h
    rw [eval, eval]
    refine bind_eq_of_answers (eval_eq_of_answers f scope iterable h.1) (fun d _ hd => ?_) h.2
    refine bind_eq_of_answers rfl (fun entries _ hentries => ?_) hd
    rw [mapM_eq_of_answers (fun entry hentry => ?_) hentries]
    rw [Invoker.agree_append] at hentry
    refine bind_eq_of_answers (eval_eq_of_answers f _ key hentry.1) (fun newKey _ hvalue => ?_) hentry.2
    rw [eval_eq_of_answers f _ value hvalue]
  | .tuple items, h => by
    rw [calls] at h
    rw [eval, eval, evalAll_eq_of_answers f scope items h]
  | .method receiver key args, h => by
    rw [calls] at h
    rw [eval, eval]
    -- only a create method is called for a value, after the calls of the receiver
    cases hdirection : key.direction with
    | create =>
      rw [hdirection] at h
      rw [Invoker.agree_append] at h
      refine bind_eq_of_answers (eval_eq_of_answers f scope receiver h.1) (fun v _ hcall => ?_) h.2
      exact hcall _ List.mem_cons_self
    | update => rfl
  | .factory slot args, h => by
    rw [calls] at h
    rw [eval, eval]
    refine bind_eq_of_answers rfl (fun factory _ hfirst => ?_) h
    cases factory with
    | constant value => rfl
    | ofSource make =>
      dsimp only
      rw [evalFirst_eq_of_answers f scope args hfirst]
  | .construct handle strategy, _ => by rw [eval, eval]
  | .isSet object name, h => by
    rw [calls] at h
    rw [eval, eval, eval_eq_of_answers f scope object h]

/-- Invokers that agree on the calls in a list of expressions evaluate it alike. -/
theorem Frame.evalAll_eq_of_answers (f : Frame) (scope : Scope) :
    (items : List Expr) → i.Agree j (f.callsAll i scope items) →
      f.evalAll i scope items = f.evalAll j scope items
  | [], _ => by rw [evalAll, evalAll]
  | e :: rest, h => by
    rw [callsAll, Invoker.agree_append] at h
    rw [evalAll, evalAll]
    refine bind_eq_of_answers (eval_eq_of_answers f scope e h.1) (fun v _ hrest => ?_) h.2
    rw [evalAll_eq_of_answers f scope rest hrest]

/-- Invokers that agree on the calls in the first of some expressions evaluate it alike. -/
theorem Frame.evalFirst_eq_of_answers (f : Frame) (scope : Scope) :
    (args : List Expr) → i.Agree j (f.callsFirst i scope args) →
      f.evalFirst i scope args = f.evalFirst j scope args
  | [], _ => by rw [evalFirst, evalFirst]
  | e :: _, h => by
    rw [callsFirst] at h
    rw [evalFirst, evalFirst, eval_eq_of_answers f scope e h]

end

/-- Two sequences of computations run alike if they do one by one. -/
theorem Stmt.run_bind_eq {x y : Run α} {next next' : α → Run β} {f : Frame}
    (hxy : x.run f = y.run f)
    (hnext : ∀ a g, x.run f = (.ok a, g) → (next a).run g = (next' a).run g) :
    (x >>= next).run f = (y >>= next').run f := by
  rw [run_bind, run_bind, ← hxy]
  cases hx : x.run f with
  | mk outcome g =>
    cases outcome with
    | error e => rfl
    | ok a => exact hnext a g hx

/-- Invokers that agree on the calls in an expression evaluate it alike in a statement. -/
theorem Stmt.run_evaluate_eq {e : Expr} {f : Frame} (h : i.Agree j (f.calls i [] e)) :
    (evaluate i e).run f = (evaluate j e).run f := by
  rw [run_evaluate, run_evaluate, Frame.eval_eq_of_answers f [] e h]

/-- What is done with the value of an expression depends on the calls that follow it. -/
theorem Stmt.evaluate_bind_eq {e : Expr} {next next' : Value → Run β} {f : Frame}
    {following : Value → List Call}
    (hnext : ∀ v, i.Agree j (following v) → (next v).run f = (next' v).run f)
    (h : i.Agree j (f.calls i [] e ++ Call.after (f.eval i [] e) following)) :
    (evaluate i e >>= next).run f = (evaluate j e >>= next').run f := by
  rw [Invoker.agree_append] at h
  refine run_bind_eq (run_evaluate_eq h.1) fun v g hv => ?_
  rw [run_evaluate] at hv
  obtain ⟨hok, rfl⟩ := Prod.mk.inj hv
  rw [hok] at h
  exact hnext v h.2

/-- A change at a place depends on the answer to its call, if there is something at the place. -/
theorem Stmt.updateAt_eq_of_answers {source : Value} {place : Expr} {f : Frame}
    (h : i.Agree j (Call.after (f.read place) fun object => [.update source object])) :
    (updateAt i source place).run f = (updateAt j source place).run f := by
  rw [run_updateAt, run_updateAt]
  cases hread : f.read place with
  | error e => rfl
  | ok object =>
    rw [hread] at h
    have hanswer : i.update source object = j.update source object := h _ List.mem_cons_self
    simp only [hanswer]

mutual

/-- **The run of a statement depends on the answers to its calls only.** -/
theorem Stmt.run_eq_of_answers (f : Frame) :
    (s : Stmt) → i.Agree j (calls i f s) → (run i s).run f = (run j s).run f
  | .assign place value, h => by
    by_cases hplace : place = .var "d"
    · subst hplace
      rw [run, run]
    · rw [calls] at h
      · rw [run, run]
        · exact run_bind_eq (run_evaluate_eq h) fun v g _ => rfl
        · exact hplace
        · exact hplace
      · exact hplace
  | .perform e, h => by
    -- an update call is carried out in place; everything else is evaluated for its calls alone
    by_cases hcall : ∃ receiver target args, e = .method receiver ⟨.update, target⟩ args
    · obtain ⟨receiver, target, args, rfl⟩ := hcall
      rw [calls] at h
      rw [run, run]
      refine evaluate_bind_eq (fun source hargs => ?_) h
      rcases args with _ | ⟨place, _ | ⟨extra, _ | ⟨other, rest⟩⟩⟩
      · rfl
      · rfl
      · exact run_bind_eq (updateAt_eq_of_answers hargs) fun _ g _ => rfl
      · rfl
    · have hother : ∀ receiver target args, e = .method receiver ⟨.update, target⟩ args → False :=
        fun receiver target args he => hcall ⟨receiver, target, args, he⟩
      rw [calls] at h
      · rw [run, run]
        · exact run_bind_eq (run_bind_eq (run_evaluate_eq h) fun _ g _ => rfl) fun _ g _ => rfl
        · exact hother
        · exact hother
      · exact hother
  | .branch condition whenTrue whenFalse, h => by
    rw [calls] at h
    rw [run, run]
    refine evaluate_bind_eq (fun c hbranch => ?_) h
    by_cases htruthy : c.truthy = true
    · rw [if_pos htruthy] at hbranch
      rw [if_pos htruthy, if_pos htruthy, runAll_eq_of_answers f whenTrue hbranch]
    · rw [if_neg htruthy] at hbranch
      rw [if_neg htruthy, if_neg htruthy, runAll_eq_of_answers f whenFalse hbranch]
  | .raise text, _ => by rw [run, run]
  | .result e, h => by
    rw [calls] at h
    rw [run, run]
    exact run_bind_eq (run_evaluate_eq h) fun v g _ => rfl
  | .pass, _ => by rw [run, run]

/-- Invokers that agree on the calls in a list of statements run it alike. -/
theorem Stmt.runAll_eq_of_answers (f : Frame) :
    (stmts : List Stmt) → i.Agree j (callsAll i f stmts) → (runAll i stmts).run f = (runAll j stmts).run f
  | [], _ => by rw [runAll, runAll]
  | s :: rest, h => by
    rw [callsAll, Invoker.agree_append] at h
    rw [runAll, runAll]
    refine run_bind_eq (run_eq_of_answers f s h.1) fun value? g hrun => ?_
    rw [hrun] at h
    cases value? with
    | some value => rfl
    | none => exact runAll_eq_of_answers g rest h.2

end

/-- **What a create method makes depends on the answers to its calls only.** -/
theorem MappingMethod.create_eq_of_answers {m : MappingMethod} {source extra : Value}
    (h : i.Agree j (m.calls i source extra none)) : m.create i source extra = m.create j source extra := by
  rw [create, create, Stmt.runAll_eq_of_answers _ _ h]

/-- **What an update method does depends on the answers to its calls only.** -/
theorem MappingMethod.update_eq_of_answers {m : MappingMethod} {source target extra : Value}
    (h : i.Agree j (m.calls i source extra (some target))) :
    m.update i source target extra = m.update j source target extra := by
  rw [update, update, Stmt.runAll_eq_of_answers _ _ h]

end Answers

end ObjectMapping
