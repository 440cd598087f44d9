import ObjectMapping.Proofs.Conversion.Rules

/-! # What the code of a conversion looks like

The rules of conversions decide by types. What they leave behind does not show the types any more,
only what is done with the value and how deep: `Conversion.Expressed` lists the shapes, so that
proofs about the code need not look at the types.

* **`Conversion.expressed_of_express`** — all code of conversions has these shapes. -/

namespace ObjectMapping.Conversion

open Outcome

/-- **The shapes of code for a value** from a depth on. -/
inductive Expressed : Nat → Expr → Expr → Prop
  /-- The value as it is. -/
  | same (depth : Nat) (value : Expr) : Expressed depth value value
  /-- A new object made of the value. -/
  | call (depth : Nat) (value : Expr) (target : ClassHandle) :
      Expressed depth value (createCall value target)
  | listOf {depth : Nat} {value element : Expr}
      (helement : Expressed (depth + 1) (.var (loopVar "x" depth)) element) :
      Expressed depth value (.listOf element (loopVar "x" depth) value)
  | setOf {depth : Nat} {value element : Expr}
      (helement : Expressed (depth + 1) (.var (loopVar "x" depth)) element) :
      Expressed depth value (.setOf element (loopVar "x" depth) value)
  | dictOf {depth : Nat} {value key element : Expr}
      (hkey : Expressed (depth + 1) (.var (loopVar "k" depth)) key)
      (helement : Expressed (depth + 1) (.var (loopVar "v" depth)) element) :
      Expressed depth value (.dictOf key element (loopVar "k" depth) (loopVar "v" depth) value)
  | tuple {depth : Nat} {value : Expr} {items : List Expr}
      (hitems : ∀ (i : Nat) (item : Expr), items[i]? = some item →
        Expressed (depth + 1) (.index value (.int i)) item) : Expressed depth value (.tuple items)
  /-- The absent value, or code for a value that is there. -/
  | choice {depth : Nat} {value inner : Expr} (hinner : Expressed (depth + 1) value inner) :
      Expressed depth value (.ternary value.isNone .none inner)
  /-- An optional target takes up a level, whether the source is optional or not. -/
  | deeper {depth : Nat} {value code : Expr} (hcode : Expressed (depth + 1) value code) :
      Expressed depth value code

variable {methods : MethodTable}

/-- Each position of a tuple is converted. -/
theorem exists_express_of_expressAll {ss ts : List FieldType} {value : Expr} {position depth : Nat}
    {items : List Expr} (h : expressAll methods ss value position depth ts = .ok items) {i : Nat}
    {item : Expr} (hitem : items[i]? = some item) :
    ∃ s, ∃ t ∈ ts, express methods s (.index value (.int (position + i : Nat))) depth t = .ok item := by
  induction ts generalizing ss position items i with
  | nil =>
    rw [expressAll_nil] at h
    obtain rfl := Except.ok.inj h
    cases hitem
  | cons t ts ih =>
    cases ss with
    | nil =>
      rw [expressAll] at h
      · obtain rfl := Except.ok.inj h
        cases hitem
      · simp
    | cons s ss =>
      obtain ⟨first, rest, hfirst, hrest, rfl⟩ := expressAll_cons_iff.mp h
      cases i with
      | zero =>
        obtain rfl : first = item := by simpa using hitem
        exact ⟨s, t, List.mem_cons_self, hfirst⟩
      | succ i =>
        obtain ⟨s', t', ht', hcode⟩ := ih hrest hitem
        refine ⟨s', t', List.mem_cons_of_mem _ ht', ?_⟩
        rwa [Nat.add_right_comm] at hcode

/-- **The code of every conversion has one of the shapes.** -/
theorem expressed_of_express {source target : FieldType} {value code : Expr} {depth : Nat}
    (h : express methods source value depth target = .ok code) : Expressed depth value code := by
  induction target generalizing source value code depth with
  | any =>
    obtain rfl := express_any_iff.mp h
    exact .same depth value
  | named t =>
    obtain ⟨s, -, ⟨-, rfl⟩ | ⟨-, -, rfl⟩⟩ := express_named_iff.mp h
    · exact .same depth value
    · exact .call depth value t
  | union members =>
    obtain ⟨rfl, -⟩ := express_union_iff.mp h
    exact .same depth value
  | list t ih =>
    obtain ⟨s, element, -, helement, rfl⟩ := express_list_iff.mp h
    exact .listOf (ih helement)
  | set t ih =>
    obtain ⟨s, element, -, helement, rfl⟩ := express_set_iff.mp h
    exact .setOf (ih helement)
  | dict tk tv ihk ihv =>
    obtain ⟨sk, sv, key, element, -, hkey, helement, rfl⟩ := express_dict_iff.mp h
    exact .dictOf (ihk hkey) (ihv helement)
  | tuple ts ih =>
    obtain ⟨ss, items, -, -, hitems, rfl⟩ := express_tuple_iff.mp h
    -- each item is the code for one position, read from there
    refine .tuple fun i item hitem => ?_
    obtain ⟨s, t, ht, hcode⟩ := exists_express_of_expressAll hitems hitem
    rw [Nat.zero_add] at hcode
    exact ih t ht hcode
  | optional t ih =>
    obtain ⟨s, inner, -, hinner, rfl⟩ | ⟨-, hcode⟩ := express_optional_iff.mp h
    · exact .choice (ih hinner)
    · exact .deeper (ih hcode)

end ObjectMapping.Conversion
