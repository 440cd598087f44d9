import ObjectMapping.Conversion
import ObjectMapping.Proofs.FieldType.Induction
import ObjectMapping.Proofs.Outcome

/-! # The rules of conversions, read backwards

What is known when `Conversion.express` gives an expression: one equivalence for each shape of the
target type, with the shape of the source type, the parts that were converted and the expression
that was made of them. Proofs about conversions follow the target type and use these instead of the
definition. -/

namespace ObjectMapping.Conversion

open Outcome

variable {methods : MethodTable} {source : FieldType} {value code : Expr} {depth : Nat}

attribute [local simp] express expressAll

/-- Everything is converted to `any` as it is. -/
@[simp] theorem express_any_iff :
    express methods source value depth .any = .ok code ↔ value = code := by
  rw [express, Except.ok.injEq]

/-- An object becomes an object of a class: as it is, or by the create method for the class. -/
theorem express_named_iff {t : ClassHandle} :
    express methods source value depth (.named t) = .ok code ↔
      ∃ s, source = .named s ∧
        (s.same t = true ∧ value = code ∨
          s.same t = false ∧ methods s t .create = true ∧ createCall value t = code) := by
  cases source with
  | named s =>
    rw [express]
    by_cases hsame : s.same t = true
    · simp [hsame]
    · by_cases hmethod : methods s t .create = true
      · simp [hsame, hmethod]
      · simp [hsame, hmethod]
  | _ => simp

/-- A union takes its members and the unions of some of its members, as they are. -/
theorem express_union_iff {members : List FieldType} :
    express methods source value depth (.union members) = .ok code ↔
      value = code ∧
        ((∃ s, source = .named s ∧ members.any (·.same source) = true) ∨
          ∃ arms, source = .union arms ∧ FieldType.included arms members = true) := by
  cases source with
  | named s =>
    rw [express]
    by_cases hmember : (members.any fun member => member.same (.named s)) = true
    · simp [hmember]
    · simp [hmember]
  | union arms =>
    rw [express]
    by_cases hincluded : FieldType.included arms members = true
    · simp [hincluded]
    · simp [hincluded]
  | _ => simp

/-- A list is converted element by element. -/
theorem express_list_iff {t : FieldType} :
    express methods source value depth (.list t) = .ok code ↔
      ∃ s element, source = .list s ∧
        express methods s (.var (loopVar "x" depth)) (depth + 1) t = .ok element ∧
        .listOf element (loopVar "x" depth) value = code := by
  cases source with
  | list s => simp [bind_eq_ok]
  | _ => simp

/-- A set is converted element by element. -/
theorem express_set_iff {t : FieldType} :
    express methods source value depth (.set t) = .ok code ↔
      ∃ s element, source = .set s ∧
        express methods s (.var (loopVar "x" depth)) (depth + 1) t = .ok element ∧
        .setOf element (loopVar "x" depth) value = code := by
  cases source with
  | set s => simp [bind_eq_ok]
  | _ => simp

/-- A dictionary is converted entry by entry, key and value apart. -/
theorem express_dict_iff {tk tv : FieldType} :
    express methods source value depth (.dict tk tv) = .ok code ↔
      ∃ sk sv key element, source = .dict sk sv ∧
        express methods sk (.var (loopVar "k" depth)) (depth + 1) tk = .ok key ∧
        express methods sv (.var (loopVar "v" depth)) (depth + 1) tv = .ok element ∧
        .dictOf key element (loopVar "k" depth) (loopVar "v" depth) value = code := by
  cases source with
  | dict sk sv => simp [bind_eq_ok, and_assoc]
  | _ => simp

/-- A tuple is converted position by position, into one of the same length. -/
theorem express_tuple_iff {ts : List FieldType} :
    express methods source value depth (.tuple ts) = .ok code ↔
      ∃ ss items, source = .tuple ss ∧ ss.length = ts.length ∧
        expressAll methods ss value 0 (depth + 1) ts = .ok items ∧ .tuple items = code := by
  cases source with
  | tuple ss =>
    rw [express]
    by_cases hlength : ss.length = ts.length
    · simp [hlength, bind_eq_ok]
    · simp [hlength]
  | _ => simp

/-- An optional type takes optional values, and all values that its inner type takes. -/
theorem express_optional_iff {t : FieldType} :
    express methods source value depth (.optional t) = .ok code ↔
      (∃ s inner, source = .optional s ∧
          express methods s value (depth + 1) t = .ok inner ∧
          .ternary value.isNone .none inner = code) ∨
        source.isOptional = false ∧ express methods source value (depth + 1) t = .ok code := by
  cases source with
  | optional s => simp [bind_eq_ok, FieldType.isOptional]
  | _ => simp [FieldType.isOptional]

/-- The positions of a tuple are converted one after another. -/
theorem expressAll_cons_iff {s t : FieldType} {ss ts : List FieldType} {position : Nat}
    {items : List Expr} :
    expressAll methods (s :: ss) value position depth (t :: ts) = .ok items ↔
      ∃ item rest, express methods s (.index value (.int position)) depth t = .ok item ∧
        expressAll methods ss value (position + 1) depth ts = .ok rest ∧ item :: rest = items := by
  simp [bind_eq_ok]

/-- For no target types there are no positions to write. -/
@[simp] theorem expressAll_nil {ss : List FieldType} {position : Nat} :
    expressAll methods ss value position depth [] = .ok [] := by
  cases ss <;> rfl

end ObjectMapping.Conversion
