import ObjectMapping.Proofs.Inquiry.Basic
import ObjectMapping.Proofs.Conversion.Amendment
import ObjectMapping.Proofs.Registry.Order

/-! # Conversions that ask for methods one by one

`Conversion.express` and `Conversion.amend` look methods up in a table. Here they ask for each method
at the moment they need it, in the same order.

* **`Conversion.askExpress`**, **`Conversion.askAmend`** — the inquiries.
* **`answeredBy_askExpress`**, **`answeredBy_askAmend`** — with answers from one registry they are the
  conversions by its table.
* **`strict_askExpress`** — there is no expression as soon as one method is missing.
* **`express_of_leads`**, **`amended_of_leads`** — while mappings are being registered, what is found
  is what the methods that are there in the end give. -/

namespace ObjectMapping.Conversion

open Outcome Inquiry

mutual

/-- The expression of type `target` for a `value` of type `source`, with questions for methods. -/
def askExpress (source : FieldType) (value : Expr) (depth : Nat) (target : FieldType) :
    Inquiry NoConversion Expr :=
  match target, source with
  | .any, _ => pure value
  | .named t, .named s =>
      if s.same t then pure value
      else do
        Inquiry.require (.of s t .create) ⟨source, target, depth⟩
        return createCall value t
  | .union members, .named _ =>
      if members.any fun member => member.same source then pure value
      else .failed ⟨source, target, depth⟩
  | .union members, .union arms =>
      if FieldType.included arms members then pure value else .failed ⟨source, target, depth⟩
  | .list t, .list s => do
      let x := loopVar "x" depth
      return .listOf (← askExpress s (.var x) (depth + 1) t) x value
  | .set t, .set s => do
      let x := loopVar "x" depth
      return .setOf (← askExpress s (.var x) (depth + 1) t) x value
  | .dict tk tv, .dict sk sv => do
      let k := loopVar "k" depth
      let v := loopVar "v" depth
      let key ← askExpress sk (.var k) (depth + 1) tk
      return .dictOf key (← askExpress sv (.var v) (depth + 1) tv) k v value
  | .tuple ts, .tuple ss =>
      if ss.length == ts.length then do
        return .tuple (← askExpressAll ss value 0 (depth + 1) ts)
      else .failed ⟨source, target, depth⟩
  | .optional t, .optional s => do
      return .ternary value.isNone .none (← askExpress s value (depth + 1) t)
  | .optional t, _ => askExpress source value (depth + 1) t
  | _, _ => .failed ⟨source, target, depth⟩

/-- The expressions for the positions of a tuple from `position` on, with questions for methods. -/
def askExpressAll (sources : List FieldType) (value : Expr) (position depth : Nat)
    (targets : List FieldType) : Inquiry NoConversion (List Expr) :=
  match targets, sources with
  | target :: targets, source :: sources => do
      let item ← askExpress source (.index value (.int position)) depth target
      return item :: (← askExpressAll sources value (position + 1) depth targets)
  | _, _ => pure []

end

/-- The statement that brings the value at `place` up to date, with questions for methods. -/
def askAmend (value place : Expr) (depth : Nat) :
    FieldType → FieldType → Inquiry NoConversion Stmt
  | .named s, .named t => do
      Inquiry.require (.of s t .update) ⟨.named s, .named t, depth⟩
      return .perform (updateCall value t place)
  | .optional s, .optional t => do
      let change ← askAmend value place (depth + 1) s (.optional t)
      return .branch value.isNone [.assign place .none] [change]
  | source, .optional t => do
      let change ← askAmend value place (depth + 1) source t
      match ← (askExpress source value (depth + 1) t).attempt with
      | .ok create => return .branch place.isNone [.assign place create] [change]
      | .error _ => .failed ⟨source, .optional t, depth⟩
  | source, target => .failed ⟨source, target, depth⟩
termination_by source target => sizeOf source + sizeOf target

/-! ## Answers from one registry -/

section Answers

variable {present : MappingKey → Bool}

/-- Answered at once, the questions for the positions of a tuple give the code for them. -/
theorem answeredBy_askExpressAll {targets : List FieldType}
    (hitems : ∀ target ∈ targets, ∀ source value depth,
      (askExpress source value depth target).answeredBy present
        = express (tableOf present) source value depth target)
    (sources : List FieldType) (value : Expr) (position depth : Nat) :
    (askExpressAll sources value position depth targets).answeredBy present
      = expressAll (tableOf present) sources value position depth targets := by
  induction targets generalizing sources position with
  | nil =>
    rw [askExpressAll, expressAll_nil]
    · rfl
    · simp
  | cons target targets ih =>
    cases sources with
    | nil =>
      rw [askExpressAll, expressAll]
      · rfl
      all_goals simp
    | cons source sources =>
      have hrest := ih (fun other hmem => hitems other (List.mem_cons_of_mem _ hmem)) sources
        (position + 1)
      rw [askExpressAll, expressAll, answeredBy_bind, hitems target List.mem_cons_self]
      simp only [answeredBy_bind, hrest, answeredBy_pure, pure_eq_ok]

/-- **With answers from one registry**, the expression is the one by its table. -/
theorem answeredBy_askExpress (source : FieldType) (value : Expr) (depth : Nat)
    (target : FieldType) :
    (askExpress source value depth target).answeredBy present
      = express (tableOf present) source value depth target := by
  induction target generalizing source value depth with
  | any =>
    rw [askExpress, express]
    rfl
  | named t =>
    cases source with
    | named s =>
      rw [askExpress, express]
      by_cases hsame : s.same t = true
      · rw [if_pos hsame, if_pos hsame]
        rfl
      · -- the only question: whether there is a create method
        rw [if_neg hsame, if_neg hsame, answeredBy_bind, answeredBy_require, tableOf]
        by_cases hpresent : present (.of s t .create) = true
        · rw [if_pos hpresent, if_pos hpresent]
          rfl
        · rw [if_neg hpresent, if_neg hpresent]
          rfl
    | _ => simp [askExpress, express]
  | union members _ =>
    cases source with
    | named s =>
      rw [askExpress, express]
      split <;> rfl
    | union arms =>
      rw [askExpress, express]
      split <;> rfl
    | _ => simp [askExpress, express]
  | list t ih =>
    cases source with
    | list s => simp only [askExpress, express, answeredBy_bind, ih, answeredBy_pure, pure_eq_ok]
    | _ => simp [askExpress, express]
  | set t ih =>
    cases source with
    | set s => simp only [askExpress, express, answeredBy_bind, ih, answeredBy_pure, pure_eq_ok]
    | _ => simp [askExpress, express]
  | dict tk tv ihkey ihvalue =>
    cases source with
    | dict sk sv =>
      simp only [askExpress, express, answeredBy_bind, ihkey, ihvalue, answeredBy_pure, pure_eq_ok]
    | _ => simp [askExpress, express]
  | tuple ts ih =>
    cases source with
    | tuple ss =>
      have hitems : (askExpressAll ss value 0 (depth + 1) ts).answeredBy present
          = expressAll (tableOf present) ss value 0 (depth + 1) ts :=
        answeredBy_askExpressAll
          (fun target hmem source value depth => ih target hmem source value depth) _ _ _ _
      rw [askExpress, express]
      split
      · simp only [answeredBy_bind, hitems, answeredBy_pure, pure_eq_ok]
      · rfl
    | _ => simp [askExpress, express]
  | optional t ih =>
    cases source with
    | optional s => simp only [askExpress, express, answeredBy_bind, ih, answeredBy_pure, pure_eq_ok]
    | _ => simp only [askExpress, express, ih]

/-- **With answers from one registry**, the statement is the one by its table. -/
theorem answeredBy_askAmend (value place : Expr) (depth : Nat) (source target : FieldType) :
    (askAmend value place depth source target).answeredBy present
      = amend (tableOf present) value place depth source target := by
  induction depth, source, target using askAmend.induct with
  | case1 depth s t =>
    rw [askAmend, amend, answeredBy_bind, answeredBy_require, tableOf]
    by_cases hpresent : present (.of s t .update) = true
    · rw [if_pos hpresent, if_pos hpresent]
      rfl
    · rw [if_neg hpresent, if_neg hpresent]
      rfl
  | case2 depth s t ih =>
    rw [askAmend, amend, answeredBy_bind, ih]
    rfl
  | case3 depth source t hsource ih =>
    rw [askAmend.eq_3 _ _ _ _ _ hsource, amend.eq_3 _ _ _ _ _ _ hsource, answeredBy_bind, ih]
    refine congrArg (Bind.bind _) (funext fun change => ?_)
    rw [answeredBy_bind, answeredBy_attempt, ok_bind, answeredBy_askExpress]
    cases express (tableOf present) source value (depth + 1) t <;> rfl
  | case4 depth source target hnamed hoptional htarget =>
    rw [askAmend.eq_4 _ _ _ _ _ htarget hnamed hoptional,
      amend.eq_4 _ _ _ _ _ _ htarget hnamed hoptional]
    rfl

end Answers

/-! ## Missing methods -/

/-- The questions for the positions of a tuple are strict if those for each of them are. -/
theorem strict_askExpressAll {targets : List FieldType}
    (hitems : ∀ target ∈ targets, ∀ source value depth,
      (askExpress source value depth target).Strict)
    (sources : List FieldType) (value : Expr) (position depth : Nat) :
    (askExpressAll sources value position depth targets).Strict := by
  induction targets generalizing sources position with
  | nil =>
    rw [askExpressAll]
    · exact trivial
    · simp
  | cons target targets ih =>
    cases sources with
    | nil =>
      rw [askExpressAll]
      · exact trivial
      · simp
    | cons source sources =>
      rw [askExpressAll]
      refine (hitems target List.mem_cons_self _ _ _).bind fun item => ?_
      exact (ih (fun other hmem => hitems other (List.mem_cons_of_mem _ hmem)) _ _).bind
        fun rest => trivial

/-- **There is no expression as soon as one method is missing.** -/
theorem strict_askExpress (source : FieldType) (value : Expr) (depth : Nat) (target : FieldType) :
    (askExpress source value depth target).Strict := by
  induction target generalizing source value depth with
  | any =>
    rw [askExpress]
    exact trivial
  | named t =>
    cases source with
    | named s =>
      rw [askExpress]
      split
      · exact trivial
      · exact (strict_require _ _).bind fun _ => trivial
    | _ => simp [askExpress, Strict]
  | union members _ =>
    cases source with
    | named s =>
      rw [askExpress]
      split <;> exact trivial
    | union arms =>
      rw [askExpress]
      split <;> exact trivial
    | _ => simp [askExpress, Strict]
  | list t ih =>
    cases source with
    | list s =>
      rw [askExpress]
      exact (ih _ _ _).bind fun _ => trivial
    | _ => simp [askExpress, Strict]
  | set t ih =>
    cases source with
    | set s =>
      rw [askExpress]
      exact (ih _ _ _).bind fun _ => trivial
    | _ => simp [askExpress, Strict]
  | dict tk tv ihkey ihvalue =>
    cases source with
    | dict sk sv =>
      rw [askExpress]
      exact (ihkey _ _ _).bind fun _ => (ihvalue _ _ _).bind fun _ => trivial
    | _ => simp [askExpress, Strict]
  | tuple ts ih =>
    cases source with
    | tuple ss =>
      rw [askExpress]
      split
      · refine (strict_askExpressAll ?_ _ _ _ _).bind fun _ => trivial
        exact fun target hmem source value depth => ih target hmem source value depth
      · exact trivial
    | _ => simp [askExpress, Strict]
  | optional t ih =>
    cases source with
    | optional s =>
      rw [askExpress]
      exact (ih _ _ _).bind fun _ => trivial
    | _ =>
      rw [askExpress]
      · exact ih _ _ _
      · simp

/-- **What a conversion becomes, whatever is registered meanwhile**, is what it is by the methods that
are there in the end. -/
theorem express_of_leads {known : MappingKey → Bool} {source target : FieldType} {value code : Expr}
    {depth : Nat} (h : (askExpress source value depth target).Leads known (.ok code)) :
    express (tableOf known) source value depth target = .ok code := by
  rw [← answeredBy_askExpress]
  exact (strict_askExpress source value depth target).answeredBy_eq_ok h

/-- **What a change in place becomes, whatever is registered meanwhile**, follows the rules for the
methods that are there in the end. -/
theorem amended_of_leads {known : MappingKey → Bool} {source target : FieldType} {value place : Expr}
    {depth : Nat} {change : Stmt}
    (h : (askAmend value place depth source target).Leads known (.ok change)) :
    Amended (tableOf known) value place source target change := by
  induction depth, source, target using askAmend.induct generalizing change with
  | case1 depth s t =>
    rw [askAmend] at h
    obtain ⟨_, hrequire, hchange⟩ := h.of_bind
    obtain rfl := hchange.of_pure
    refine .update ?_
    cases hrequire with
    | yes hknown hnext => exact hknown
    | no hnext => cases hnext
  | case2 depth s t ih =>
    rw [askAmend] at h
    obtain ⟨inner, hinner, hchange⟩ := h.of_bind
    obtain rfl := hchange.of_pure
    exact .clear (ih hinner)
  | case3 depth source t hsource ih =>
    rw [askAmend.eq_3 _ _ _ _ _ hsource] at h
    obtain ⟨inner, hinner, hrest⟩ := h.of_bind
    obtain ⟨created?, hcreated, hchange⟩ := hrest.of_bind
    cases created? with
    | error e => cases hchange
    | ok created =>
      obtain rfl := hchange.of_pure
      exact .renew (isOptional_eq_false hsource) (ih hinner) (express_of_leads hcreated.of_attempt)
  | case4 depth source target hnamed hoptional htarget =>
    rw [askAmend.eq_4 _ _ _ _ _ htarget hnamed hoptional] at h
    cases h

end ObjectMapping.Conversion
