import ObjectMapping.Execution.Evaluation

/-! # Names in code

Code refers to variables by name, and a comprehension binds names for the code inside. Names that are
made for code carry numbers in decimal digits.

* `toString_nat_inj`, `isDigit_of_mem_toString`: what a number at the end of a name tells.
* `Expr.freeVars`: the names that an expression takes from outside; **`Frame.eval_eq_of_freeVars`** —
  its value depends on these variables only.
* `Expr.occurrences`: the parts of an expression, each with the names bound on the way to it. -/

namespace ObjectMapping

/-! ## Numbers in names -/

/-- Different numbers have different decimal texts. -/
theorem toString_nat_inj {n m : Nat} (h : toString n = toString m) : n = m := by
  have hdigits : Nat.toDigits 10 n = Nat.toDigits 10 m := by
    rw [Nat.toString_eq_ofList_toDigits, Nat.toString_eq_ofList_toDigits] at h
    exact String.ofList_inj.mp h
  rw [← Nat.ofDigitChars_ten_toDigits (n := n), hdigits, Nat.ofDigitChars_ten_toDigits]

/-- A number is written in digits only. -/
theorem isDigit_of_mem_toString {n : Nat} {c : Char} (h : c ∈ (toString n).toList) :
    c.isDigit = true := by
  rw [Nat.toString_eq_ofList_toDigits, String.toList_ofList] at h
  exact Nat.isDigit_of_mem_toDigits (by omega) (by omega) h

namespace Expr

/-! ## Free variables -/

mutual

/-- **The variables that an expression takes from outside.** The code around a factory takes the
source, and a construction the collected arguments. -/
def freeVars : Expr → List String
  | var name => [name]
  | const _ => []
  | attr object _ | isSet object _ => freeVars object
  | index object key => freeVars object ++ freeVars key
  | compare left _ right => freeVars left ++ freeVars right
  | ternary condition whenTrue whenFalse =>
      freeVars whenTrue ++ freeVars condition ++ freeVars whenFalse
  | listOf element x iterable | setOf element x iterable =>
      (freeVars element).filter (· != x) ++ freeVars iterable
  | dictOf key value k v iterable =>
      (freeVars key ++ freeVars value).filter (fun name => name != k && name != v) ++
        freeVars iterable
  | tuple items => freeVarsAll items
  | method receiver _ args => freeVars receiver ++ freeVarsAll args
  | factory _ args => "self" :: freeVarsAll args
  | construct .. => ["d"]

/-- The variables that the expressions of a list take from outside. -/
def freeVarsAll : List Expr → List String
  | [] => []
  | e :: rest => freeVars e ++ freeVarsAll rest

end

/-! ## Parts -/

/-- Parts under bound names. -/
def under (names : List String) (parts : List (List String × Expr)) : List (List String × Expr) :=
  parts.map fun part => (names ++ part.1, part.2)

mutual

/-- **The parts of an expression, itself included, each with the names that are bound on the way to
it**, outermost first. The names of a comprehension count for all that stands inside of it. -/
def occurrences : Expr → List (List String × Expr)
  | var name => [([], var name)]
  | const value => [([], const value)]
  | attr object name => ([], attr object name) :: occurrences object
  | isSet object name => ([], isSet object name) :: occurrences object
  | index object key => ([], index object key) :: (occurrences object ++ occurrences key)
  | compare left comparison right =>
      ([], compare left comparison right) :: (occurrences left ++ occurrences right)
  | ternary condition whenTrue whenFalse =>
      ([], ternary condition whenTrue whenFalse) ::
        (occurrences whenTrue ++ occurrences condition ++ occurrences whenFalse)
  | listOf element x iterable =>
      ([], listOf element x iterable) :: under [x] (occurrences element ++ occurrences iterable)
  | setOf element x iterable =>
      ([], setOf element x iterable) :: under [x] (occurrences element ++ occurrences iterable)
  | dictOf key value k v iterable =>
      ([], dictOf key value k v iterable) ::
        under [k, v] (occurrences key ++ occurrences value ++ occurrences iterable)
  | tuple items => ([], tuple items) :: occurrencesAll items
  | method receiver key args =>
      ([], method receiver key args) :: (occurrences receiver ++ occurrencesAll args)
  | factory slot args => ([], factory slot args) :: occurrencesAll args
  | construct target strategy => [([], construct target strategy)]

/-- The parts of the expressions of a list. -/
def occurrencesAll : List Expr → List (List String × Expr)
  | [] => []
  | e :: rest => occurrences e ++ occurrencesAll rest

end

end Expr

/-! ## Evaluation under names -/

/-- Two scopes give the same values to all names of a list. -/
def Scope.AgreeOn (names : List String) (scope scope' : Scope) : Prop :=
  ∀ name ∈ names, scope.lookup name = scope'.lookup name

namespace Scope

variable {names : List String} {scope scope' : Scope}

/-- Scopes that agree on two lists of names agree on each of them. -/
theorem agreeOn_append {others : List String} :
    AgreeOn (names ++ others) scope scope' ↔
      AgreeOn names scope scope' ∧ AgreeOn others scope scope' :=
  List.forall_mem_append

/-- Inside of a comprehension the scopes have to agree on the other names only. -/
theorem AgreeOn.bind {x : String} (h : AgreeOn (names.filter (· != x)) scope scope')
    (item : Value) : AgreeOn names ((x, item) :: scope) ((x, item) :: scope') := by
  intro name hname
  rw [List.lookup_cons, List.lookup_cons]
  cases hx : name == x with
  | true => rfl
  | false => exact h name (List.mem_filter.mpr ⟨hname, by rw [bne, hx]; rfl⟩)

/-- Scopes that agree on all names but two agree on all when a key and a value are bound to these. -/
theorem AgreeOn.bindEntry {k v : String}
    (h : AgreeOn (names.filter fun name => name != k && name != v) scope scope')
    (entry : Value × Value) :
    AgreeOn names ((v, entry.2) :: (k, entry.1) :: scope) ((v, entry.2) :: (k, entry.1) :: scope') := by
  refine AgreeOn.bind (AgreeOn.bind ?_ entry.1) entry.2
  rwa [List.filter_filter]

end Scope

section Evaluation

variable {invoker : Invoker} (f : Frame)

mutual

/-- **The value of an expression depends on its free variables only.** -/
theorem Frame.eval_eq_of_freeVars : (e : Expr) → {scope scope' : Scope} →
    Scope.AgreeOn e.freeVars scope scope' → f.eval invoker scope e = f.eval invoker scope' e
  | .var name, scope, scope', h => by
    rw [eval, eval]
    unfold valueOf
    rw [h name List.mem_cons_self]
  | .const value, _, _, _ => by rw [eval, eval]
  | .attr object name, _, _, h => by rw [eval, eval, eval_eq_of_freeVars object h]
  | .isSet object name, _, _, h => by rw [eval, eval, eval_eq_of_freeVars object h]
  | .index object key, _, _, h => by
    obtain ⟨hobject, hkey⟩ := Scope.agreeOn_append.mp h
    rw [eval, eval, eval_eq_of_freeVars object hobject, eval_eq_of_freeVars key hkey]
  | .compare left comparison right, _, _, h => by
    obtain ⟨hleft, hright⟩ := Scope.agreeOn_append.mp h
    rw [eval, eval, eval_eq_of_freeVars left hleft, eval_eq_of_freeVars right hright]
  | .ternary condition whenTrue whenFalse, _, _, h => by
    obtain ⟨h, hfalse⟩ := Scope.agreeOn_append.mp h
    obtain ⟨htrue, hcondition⟩ := Scope.agreeOn_append.mp h
    rw [eval, eval, eval_eq_of_freeVars condition hcondition, eval_eq_of_freeVars whenTrue htrue,
      eval_eq_of_freeVars whenFalse hfalse]
  | .listOf element x iterable, _, _, h => by
    obtain ⟨helement, hiterable⟩ := Scope.agreeOn_append.mp h
    -- the loop binds its own name, on which the scopes agree from then on
    have hitems := fun item => eval_eq_of_freeVars element (helement.bind item)
    rw [eval, eval, eval_eq_of_freeVars iterable hiterable]
    simp only [hitems]
  | .setOf element x iterable, _, _, h => by
    obtain ⟨helement, hiterable⟩ := Scope.agreeOn_append.mp h
    have hitems := fun item => eval_eq_of_freeVars element (helement.bind item)
    rw [eval, eval, eval_eq_of_freeVars iterable hiterable]
    simp only [hitems]
  | .dictOf key value k v iterable, _, _, h => by
    obtain ⟨hentry, hiterable⟩ := Scope.agreeOn_append.mp h
    have hkeys := fun entry =>
      eval_eq_of_freeVars key (Scope.agreeOn_append.mp (hentry.bindEntry entry)).1
    have hvalues := fun entry =>
      eval_eq_of_freeVars value (Scope.agreeOn_append.mp (hentry.bindEntry entry)).2
    rw [eval, eval, eval_eq_of_freeVars iterable hiterable]
    simp only [hkeys, hvalues]
  | .tuple items, _, _, h => by rw [eval, eval, evalAll_eq_of_freeVars items h]
  | .method receiver key args, _, _, h => by
    obtain ⟨hreceiver, -⟩ := Scope.agreeOn_append.mp h
    rw [eval, eval, eval_eq_of_freeVars receiver hreceiver]
  | .factory slot args, _, _, h => by
    rw [eval, eval, evalFirst_eq_of_freeVars args fun name hmem => h name (List.mem_cons_of_mem _ hmem)]
  | .construct target strategy, _, _, _ => by rw [eval, eval]

/-- The values of a list of expressions depend on the names that are free in them. -/
theorem Frame.evalAll_eq_of_freeVars : (items : List Expr) → {scope scope' : Scope} →
    Scope.AgreeOn (Expr.freeVarsAll items) scope scope' →
      f.evalAll invoker scope items = f.evalAll invoker scope' items
  | [], _, _, _ => by rw [evalAll, evalAll]
  | e :: rest, _, _, h => by
    obtain ⟨he, hrest⟩ := Scope.agreeOn_append.mp h
    rw [evalAll, evalAll, eval_eq_of_freeVars e he, evalAll_eq_of_freeVars rest hrest]

/-- The value of the first of some expressions depends on the names that are free in them. -/
theorem Frame.evalFirst_eq_of_freeVars : (args : List Expr) → {scope scope' : Scope} →
    Scope.AgreeOn (Expr.freeVarsAll args) scope scope' →
      f.evalFirst invoker scope args = f.evalFirst invoker scope' args
  | [], _, _, _ => by rw [evalFirst, evalFirst]
  | e :: _, _, _, h => by
    obtain ⟨he, -⟩ := Scope.agreeOn_append.mp h
    rw [evalFirst, evalFirst, eval_eq_of_freeVars e he]

end

end Evaluation

end ObjectMapping
