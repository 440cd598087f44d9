import Mathlib.Data.List.Nodup
import ObjectMapping.Proofs.Code.Grouping
import ObjectMapping.Proofs.Code.Names
import ObjectMapping.Proofs.Conversion.Shapes

/-! # Names and parentheses in the code of conversions

The comprehensions of a conversion bind names that carry their depth, and the depth grows along every
way into the code. So no name is bound twice on the way to a part, and none is bound that the value
was already written with. What is looked into, called or looped over is a variable or was looked up,
so the code needs no parentheses.

* `Conversion.LoopName`: the names for loop variables from a depth on.
* `Conversion.PlainOperands`: what is looked into, called, looped over or tested only looks into
  values.
* **`Conversion.hygienic_of_expressed`**, **`Conversion.freeVars_of_expressed`**,
  **`Conversion.groupedText_of_expressed`** — the invariant of all shapes: bound names, free names
  and parentheses. -/

namespace ObjectMapping

namespace Conversion

open ObjectMapping.Expr

/-! ## Loop variables -/

/-- **The names for loop variables from a depth on.** -/
def LoopName (depth : Nat) (name : String) : Prop :=
  ∃ letter ∈ ["x", "k", "v"], ∃ i ≥ depth, name = loopVar letter i

/-- The letter and the depth of a loop variable are read off its name. -/
theorem loopVar_inj {letter letter' : String} (h : letter ∈ ["x", "k", "v"])
    (h' : letter' ∈ ["x", "k", "v"]) {i i' : Nat} (heq : loopVar letter i = loopVar letter' i') :
    letter = letter' ∧ i = i' := by
  have hlength : ∀ letter ∈ ["x", "k", "v"], letter.toList.length = 1 := by decide
  have hlist : letter.toList ++ (toString i).toList = letter'.toList ++ (toString i').toList := by
    rw [← String.toList_append, ← String.toList_append]
    exact congrArg String.toList heq
  obtain ⟨hletter, hdigits⟩ :=
    List.append_inj hlist ((hlength letter h).trans (hlength letter' h').symm)
  exact ⟨String.toList_inj.mp hletter, toString_nat_inj (String.toList_inj.mp hdigits)⟩

/-- A name for deeper loops is one for the loops here. -/
theorem LoopName.mono {depth : Nat} {name : String} (h : LoopName (depth + 1) name) :
    LoopName depth name := by
  obtain ⟨letter, hletter, i, hi, rfl⟩ := h
  exact ⟨letter, hletter, i, Nat.le_of_succ_le hi, rfl⟩

/-- A loop variable at a depth is a name for loops from this depth on. -/
theorem loopName_loopVar {letter : String} (h : letter ∈ ["x", "k", "v"]) (depth : Nat) :
    LoopName depth (loopVar letter depth) :=
  ⟨letter, h, depth, Nat.le_refl depth, rfl⟩

/-- The names of one depth are none of those of the next. -/
theorem not_loopName_succ {letter : String} (h : letter ∈ ["x", "k", "v"]) (depth : Nat) :
    ¬ LoopName (depth + 1) (loopVar letter depth) := by
  rintro ⟨letter', hletter', i, hi, heq⟩
  obtain ⟨-, rfl⟩ := loopVar_inj h hletter' heq
  omega

/-- Loop variables are known by their first letter. -/
theorem LoopName.head {depth : Nat} {name : String} (h : LoopName depth name) :
    name.toList.head? ∈ [some 'x', some 'k', some 'v'] := by
  obtain ⟨letter, hletter, i, -, rfl⟩ := h
  rw [loopVar, String.toList_append]
  simp only [List.mem_cons, List.not_mem_nil, or_false] at hletter
  rcases hletter with rfl | rfl | rfl
  · exact List.mem_cons_self
  · exact List.mem_cons_of_mem _ List.mem_cons_self
  · exact List.mem_cons_of_mem _ (List.mem_cons_of_mem _ List.mem_cons_self)

/-! ## Operands -/

/-- **What an expression looks into, calls, loops over or tests only looks into values.** -/
def PlainOperands : Expr → Prop
  | .attr object _ | .isSet object _ | .index object _ => object.isChain = true
  | .method receiver _ _ => receiver.isChain = true
  | .listOf _ _ iterable | .setOf _ _ iterable | .dictOf _ _ _ _ iterable => iterable.isChain = true
  | .compare left _ _ => left.isChain = true
  | .var _ | .const _ | .ternary .. | .tuple _ | .factory .. | .construct .. => True

/-- What is required of a part, with the names that are bound on the way to it. -/
structure Hygienic (depth : Nat) (part : List String × Expr) : Prop where
  nodup : part.1.Nodup
  loopNames : ∀ name ∈ part.1, LoopName depth name
  plain : PlainOperands part.2

variable {depth : Nat}

/-- A part in which no names are bound is hygienic if its operands are plain. -/
theorem Hygienic.of_plain {e : Expr} (h : PlainOperands e) : Hygienic depth ([], e) :=
  ⟨List.nodup_nil, nofun, h⟩

/-- What is hygienic deeper down is so here. -/
theorem Hygienic.mono {part : List String × Expr} (h : Hygienic (depth + 1) part) :
    Hygienic depth part :=
  ⟨h.nodup, fun name hname => (h.loopNames name hname).mono, h.plain⟩

/-- A comprehension binds names of its own depth around parts that bind names of further depths. -/
theorem Hygienic.under (letters : List String) (hletters : letters ⊆ ["x", "k", "v"])
    (hnodup : letters.Nodup) {parts : List (List String × Expr)}
    (hparts : ∀ part ∈ parts, Hygienic (depth + 1) part) :
    ∀ part ∈ Expr.under (letters.map (loopVar · depth)) parts, Hygienic depth part := by
  intro part hpart
  obtain ⟨inner, hinner, rfl⟩ := List.mem_map.mp hpart
  obtain ⟨hnames, hloop, hplain⟩ := hparts inner hinner
  refine ⟨List.nodup_append.mpr ⟨?_, hnames, ?_⟩, ?_, hplain⟩
  · refine List.Nodup.map_on (fun letter hletter other hother heq => ?_) hnodup
    exact (loopVar_inj (hletters hletter) (hletters hother) heq).1
  · intro name hname other hother heq
    obtain ⟨letter, hletter, rfl⟩ := List.mem_map.mp hname
    exact not_loopName_succ (hletters hletter) depth (heq ▸ hloop other hother)
  · intro name hname
    rcases List.mem_append.mp hname with hhere | hthere
    · obtain ⟨letter, hletter, rfl⟩ := List.mem_map.mp hhere
      exact loopName_loopVar (hletters hletter) depth
    · exact (hloop name hthere).mono

/-- What only looks into values binds no names. -/
theorem hygienic_of_isChain {e : Expr} (h : e.isChain = true) :
    ∀ part ∈ e.occurrences, Hygienic depth part := by
  refine isChain_induction (motive := fun e => ∀ part ∈ e.occurrences, Hygienic depth part)
    ?_ ?_ ?_ ?_ h
  · intro name
    rw [occurrences]
    exact List.forall_mem_singleton.mpr (.of_plain trivial)
  · intro object name hobject ih
    rw [occurrences]
    exact List.forall_mem_cons.mpr ⟨.of_plain hobject, ih⟩
  · intro object value hobject ih
    rw [occurrences, occurrences]
    refine List.forall_mem_cons.mpr ⟨.of_plain hobject, List.forall_mem_append.mpr ⟨ih, ?_⟩⟩
    exact List.forall_mem_singleton.mpr (.of_plain trivial)
  · intro object key hobject hkey ihobject ihkey
    rw [occurrences]
    exact List.forall_mem_cons.mpr
      ⟨.of_plain hobject, List.forall_mem_append.mpr ⟨ihobject, ihkey⟩⟩

/-! ## All shapes -/

/-- An item of a chain is a chain. -/
theorem isChain_index {value : Expr} (h : value.isChain = true) (i : Int) :
    (Expr.index value (.int i)).isChain = true := by
  rw [Expr.int, isChain, h]

/-- What holds for all parts of each expression holds for all parts of the list. -/
theorem forall_mem_occurrencesAll {P : List String × Expr → Prop} {items : List Expr}
    (h : ∀ item ∈ items, ∀ part ∈ item.occurrences, P part) : ∀ part ∈ occurrencesAll items, P part := by
  induction items with
  | nil =>
    rw [occurrencesAll]
    exact nofun
  | cons item rest ih =>
    obtain ⟨hfirst, hrest⟩ := List.forall_mem_cons.mp h
    rw [occurrencesAll]
    exact List.forall_mem_append.mpr ⟨hfirst, ih hrest⟩

/-- The test for a missing value is hygienic. -/
theorem hygienic_isNone {value : Expr} (h : value.isChain = true) :
    ∀ part ∈ value.isNone.occurrences, Hygienic depth part := by
  rw [Expr.isNone, occurrences, Expr.none, occurrences]
  refine List.forall_mem_cons.mpr ⟨.of_plain h, List.forall_mem_append.mpr ⟨?_, ?_⟩⟩
  · exact hygienic_of_isChain h
  · exact List.forall_mem_singleton.mpr (.of_plain trivial)

/-- **The names on every way into the code of a conversion are different loop variables** from its
depth on, and operands are plain. -/
theorem hygienic_of_expressed {value code : Expr} (h : Expressed depth value code)
    (hvalue : value.isChain = true) : ∀ part ∈ code.occurrences, Hygienic depth part := by
  induction h with
  | same depth value => exact hygienic_of_isChain hvalue
  | call depth value target =>
    rw [createCall, occurrences, occurrencesAll, occurrencesAll, Expr.extra, occurrences]
    refine List.forall_mem_cons.mpr ⟨.of_plain hvalue, List.forall_mem_append.mpr ⟨?_, ?_⟩⟩
    · exact hygienic_of_isChain hvalue
    · exact List.forall_mem_singleton.mpr (.of_plain trivial)
  | @listOf depth value element _ ih | @setOf depth value element _ ih =>
    rw [occurrences]
    refine List.forall_mem_cons.mpr ⟨.of_plain hvalue, ?_⟩
    -- the names inside are of greater depth, so the variable of this loop is none of them
    refine Hygienic.under ["x"] (by decide) (by decide) (List.forall_mem_append.mpr ⟨ih rfl, ?_⟩)
    exact hygienic_of_isChain hvalue
  | @dictOf depth value key element _ _ ihkey ihelement =>
    rw [occurrences]
    refine List.forall_mem_cons.mpr ⟨.of_plain hvalue, ?_⟩
    refine Hygienic.under ["k", "v"] (by decide) (by decide) (List.forall_mem_append.mpr
      ⟨List.forall_mem_append.mpr ⟨ihkey rfl, ihelement rfl⟩, ?_⟩)
    exact hygienic_of_isChain hvalue
  | @tuple depth value items _ ih =>
    rw [occurrences]
    refine List.forall_mem_cons.mpr ⟨.of_plain trivial, ?_⟩
    refine forall_mem_occurrencesAll fun item hmem => ?_
    obtain ⟨i, hitem⟩ := List.mem_iff_getElem?.mp hmem
    exact fun part hpart => (ih i item hitem (isChain_index hvalue i) part hpart).mono
  | @choice depth value inner _ ih =>
    rw [occurrences, Expr.none, occurrences]
    refine List.forall_mem_cons.mpr ⟨.of_plain trivial, List.forall_mem_append.mpr
      ⟨List.forall_mem_append.mpr ⟨?_, hygienic_isNone hvalue⟩, ?_⟩⟩
    · exact List.forall_mem_singleton.mpr (.of_plain trivial)
    · exact fun part hpart => (ih hvalue part hpart).mono
  | deeper _ ih => exact fun part hpart => (ih hvalue part hpart).mono

/-- Names that are free in some expression of a list are within those of all of them. -/
theorem freeVarsAll_subset {names : List String} {items : List Expr}
    (h : ∀ item ∈ items, item.freeVars ⊆ names) : freeVarsAll items ⊆ names := by
  induction items with
  | nil =>
    rw [freeVarsAll]
    exact List.nil_subset names
  | cons item rest ih =>
    obtain ⟨hfirst, hrest⟩ := List.forall_mem_cons.mp h
    rw [freeVarsAll]
    exact List.append_subset.mpr ⟨hfirst, ih hrest⟩

/-- A variable has its own name free. -/
theorem freeVars_var (name : String) : (Expr.var name).freeVars = [name] := by rw [freeVars]

/-- What is left of the names of an element outside of its comprehension. -/
theorem filter_subset_extra {names bound : List String} {keep : String → Bool}
    (h : names ⊆ "extra" :: bound) (hkeep : ∀ name ∈ bound, keep name = false) :
    names.filter keep ⊆ ["extra"] := by
  intro name hname
  obtain ⟨hmem, hkept⟩ := List.mem_filter.mp hname
  rcases List.mem_cons.mp (h hmem) with rfl | hbound
  · exact List.mem_singleton_self _
  · rw [hkeep name hbound] at hkept
    cases hkept

/-- **The code of a conversion takes its value's variables from outside, and the caller's values.** -/
theorem freeVars_of_expressed {value code : Expr} (h : Expressed depth value code) :
    code.freeVars ⊆ "extra" :: value.freeVars := by
  induction h with
  | same depth value => exact List.subset_cons_self _ _
  | call depth value target =>
    rw [createCall, freeVars, freeVarsAll, freeVarsAll, Expr.extra, freeVars]
    refine List.append_subset.mpr ⟨List.subset_cons_self _ _, ?_⟩
    exact List.cons_subset_cons _ (List.nil_subset _)
  | @listOf depth value element _ ih | @setOf depth value element _ ih =>
    rw [freeVars_var] at ih
    rw [freeVars]
    -- the element has the loop variable free only, and the loop binds it
    refine List.append_subset.mpr ⟨?_, List.subset_cons_self _ _⟩
    refine List.Subset.trans (filter_subset_extra ih ?_) (List.cons_subset_cons _ (List.nil_subset _))
    exact List.forall_mem_singleton.mpr (bne_self_eq_false _)
  | @dictOf depth value key element _ _ ihkey ihelement =>
    rw [freeVars_var] at ihkey ihelement
    rw [freeVars]
    refine List.append_subset.mpr ⟨?_, List.subset_cons_self _ _⟩
    rw [List.filter_append]
    refine List.Subset.trans (List.append_subset.mpr ⟨?_, ?_⟩)
      (List.cons_subset_cons "extra" (List.nil_subset value.freeVars))
    · exact filter_subset_extra ihkey (List.forall_mem_singleton.mpr (by simp))
    · exact filter_subset_extra ihelement (List.forall_mem_singleton.mpr (by simp))
  | @tuple depth value items _ ih =>
    rw [freeVars]
    refine freeVarsAll_subset fun item hmem => ?_
    obtain ⟨i, hitem⟩ := List.mem_iff_getElem?.mp hmem
    have hfree := ih i item hitem
    rwa [freeVars, Expr.int, freeVars, List.append_nil] at hfree
  | @choice depth value inner _ ih =>
    rw [freeVars, Expr.none, freeVars, Expr.isNone, freeVars, Expr.none, freeVars]
    refine List.append_subset.mpr ⟨?_, ih⟩
    rw [List.nil_append, List.append_nil]
    exact List.subset_cons_self _ _
  | deeper _ ih => exact ih

/-- Expressions that need no parentheses, one by one, need none as a list. -/
theorem groupedTexts_eq_texts {items : List Expr} (h : ∀ item ∈ items, item.groupedText = item.text) :
    groupedTexts items = texts items := by
  induction items with
  | nil => rfl
  | cons item rest ih =>
    obtain ⟨hfirst, hrest⟩ := List.forall_mem_cons.mp h
    show item.groupedText :: groupedTexts rest = item.text :: texts rest
    rw [hfirst, ih hrest]

/-- A chain needs no parentheses as an operand. -/
theorem operandText_groupedText {e : Expr} {needed : Nat} (h : e.isChain = true)
    (hneeded : needed ≤ 3) : operandText needed e e.groupedText = e.text := by
  rw [operandText_of_isChain h hneeded, groupedText_of_isChain h]

/-- The test for a missing value of a chain needs no parentheses. -/
theorem groupedText_isNone {value : Expr} (h : value.isChain = true) :
    value.isNone.groupedText = value.isNone.text := by
  show operandText 2 value value.groupedText ++ " " ++ Comparison.is.text ++ " "
      ++ Expr.none.text = value.text ++ " " ++ Comparison.is.text ++ " " ++ Expr.none.text
  rw [operandText_groupedText h (by decide)]

/-- **The code of a conversion needs no parentheses.** -/
theorem groupedText_of_expressed {value code : Expr} (h : Expressed depth value code)
    (hvalue : value.isChain = true) : code.groupedText = code.text := by
  induction h with
  | same depth value => exact groupedText_of_isChain hvalue
  | call depth value target =>
    have hargs : groupedTexts [Expr.extra] = texts [Expr.extra] := rfl
    show operandText 3 value value.groupedText ++ "." ++ _ ++ "(" ++
        Text.commas (groupedTexts [Expr.extra]) ++ ")"
      = value.text ++ "." ++ _ ++ "(" ++ Text.commas (texts [Expr.extra]) ++ ")"
    rw [operandText_groupedText hvalue (Nat.le_refl 3), hargs]
  | @listOf depth value element _ ih =>
    show "[" ++ forText element.groupedText _ (operandText 1 value value.groupedText) ++ "]"
      = "[" ++ forText element.text _ value.text ++ "]"
    rw [operandText_groupedText hvalue (by decide), ih rfl]
  | @setOf depth value element _ ih =>
    show "\x7b" ++ forText element.groupedText _ (operandText 1 value value.groupedText) ++ "\x7d"
      = "\x7b" ++ forText element.text _ value.text ++ "\x7d"
    rw [operandText_groupedText hvalue (by decide), ih rfl]
  | @dictOf depth value key element _ _ ihkey ihelement =>
    show "\x7b" ++ forText (key.groupedText ++ ": " ++ element.groupedText) _
        (operandText 3 value value.groupedText ++ ".items()") ++ "\x7d"
      = "\x7b" ++ forText (key.text ++ ": " ++ element.text) _ (value.text ++ ".items()") ++ "\x7d"
    rw [operandText_groupedText hvalue (Nat.le_refl 3), ihkey rfl, ihelement rfl]
  | @tuple depth value items _ ih =>
    have hitems : groupedTexts items = texts items := by
      refine groupedTexts_eq_texts fun item hmem => ?_
      obtain ⟨i, hitem⟩ := List.mem_iff_getElem?.mp hmem
      exact ih i item hitem (isChain_index hvalue i)
    show Value.parenthesized (groupedTexts items) = Value.parenthesized (texts items)
    rw [hitems]
  | @choice depth value inner _ ih =>
    show Expr.none.text ++ " if " ++ value.isNone.groupedText ++ " else " ++ inner.groupedText
      = Expr.none.text ++ " if " ++ value.isNone.text ++ " else " ++ inner.text
    rw [groupedText_isNone hvalue, ih hvalue]
  | deeper _ ih => exact ih hvalue

/-- **The code of a conversion captures no variables and reads as it is meant.** Let it be made for a
value that only looks into values, under variables that are no loop variables of its depth or of a
further one. On the way to any of its parts no name is bound twice, none of those of the value and
not the caller's values; it takes no other variables from outside than these; all that is looked
into, called, looped over or tested for absence only looks into values again; and no operand needs
parentheses. -/
theorem express_hygienic {methods : MethodTable} {source target : FieldType} {value code : Expr}
    (h : express methods source value depth target = .ok code) (hvalue : value.isChain = true)
    (hnames : ∀ name ∈ value.freeVars, ¬ LoopName depth name) :
    (∀ part ∈ code.occurrences, part.1.Nodup ∧
      (∀ name ∈ part.1, name ∉ value.freeVars ∧ name ≠ "extra") ∧ PlainOperands part.2) ∧
    code.freeVars ⊆ "extra" :: value.freeVars ∧ code.groupedText = code.text := by
  have hshape := expressed_of_express h
  refine ⟨?_, freeVars_of_expressed hshape, groupedText_of_expressed hshape hvalue⟩
  intro part hpart
  obtain ⟨hnodup, hloop, hplain⟩ := hygienic_of_expressed hshape hvalue part hpart
  refine ⟨hnodup, fun name hname => ⟨?_, ?_⟩, hplain⟩
  · exact fun hfree => hnames name hfree (hloop name hname)
  · rintro rfl
    exact absurd (hloop "extra" hname).head (by decide)

end Conversion

/-- Lists of objects that may be absent, under names. -/
def Sample.shelves (object : ClassHandle) : FieldType :=
  .dict (.builtin .str) (.list (.optional (.named object)))

/-- The code for stocked shelves binds a name for each loop, and needs no parentheses. -/
theorem Conversion.express_hygienic_shelves : ∃ code,
    express (fun _ _ _ => true) (Sample.shelves ⟨9, "Item"⟩) (.attr .self "stock") 0
        (Sample.shelves ⟨10, "ItemView"⟩) = .ok code ∧
      code.text = "\x7bk0: [None if x1 is None else x1._map_to_ItemView_10(extra) for x1 in v0] " ++
        "for k0, v0 in self.stock.items()\x7d" ∧
      (∀ part ∈ code.occurrences, part.1.Nodup ∧
        (∀ name ∈ part.1, name ∉ (Expr.attr .self "stock").freeVars ∧ name ≠ "extra") ∧
          PlainOperands part.2) ∧
      code.freeVars ⊆ "extra" :: (Expr.attr .self "stock").freeVars ∧
        code.groupedText = code.text := by
  have hnames : ∀ name ∈ (Expr.attr .self "stock").freeVars, ¬ LoopName 0 name := by
    intro name hname hloop
    obtain rfl := List.mem_singleton.mp hname
    exact absurd hloop.head (by decide)
  have hcode : ∃ code, express (fun _ _ _ => true) (Sample.shelves ⟨9, "Item"⟩)
      (.attr .self "stock") 0 (Sample.shelves ⟨10, "ItemView"⟩) = .ok code ∧
      code.text = "\x7bk0: [None if x1 is None else x1._map_to_ItemView_10(extra) for x1 in v0] " ++
        "for k0, v0 in self.stock.items()\x7d" := ⟨_, rfl, by decide⟩
  obtain ⟨code, hcode, htext⟩ := hcode
  exact ⟨code, hcode, htext, express_hygienic hcode rfl hnames⟩

end ObjectMapping
