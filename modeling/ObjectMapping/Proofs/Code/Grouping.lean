import ObjectMapping.Code.Printer

/-! # How the text of code groups

The text of an expression shows no parentheses around its operands. A reader of the text groups it by
how tightly the parts hold together: a choice holds least tightly, a comparison more, and names,
calls and whatever stands between brackets most.

* `Expr.tightness`: how tightly an expression holds together.
* **`Expr.groupedText`** — the text with parentheses around every operand that would fall apart
  without them. Code for which it is `Expr.text` is read as it is.
* **`Expr.groupedText_of_isChain`** — what only looks into values needs no parentheses. -/

namespace ObjectMapping.Expr

/-- **How tightly an expression holds together.** A constant may start with a sign, which holds less
tightly than what follows a name. -/
def tightness : Expr → Nat
  | ternary .. => 0
  | compare .. | isSet .. => 1
  | const _ => 2
  | var _ | attr .. | index .. | listOf .. | setOf .. | dictOf .. | tuple _ | method .. | factory .. |
    construct .. => 3

/-- The text of an operand, in parentheses if it holds together less tightly than its place needs. -/
def operandText (needed : Nat) (operand : Expr) (text : String) : String :=
  if operand.tightness < needed then "(" ++ text ++ ")" else text

/-- An operand that binds tightly enough is written without parentheses. -/
theorem operandText_of_le {needed : Nat} {operand : Expr} (h : needed ≤ operand.tightness)
    (text : String) : operandText needed operand text = text := by
  rw [operandText, if_neg (Nat.not_lt.mpr h)]

mutual

/-- **The text of an expression with the parentheses that its operands need.** What is looked into or
called holds together most tightly; the sides of a comparison are no comparisons or choices; the
first two parts of a choice and what is looped over are no choices. Brackets and commas keep apart
all the rest. -/
def groupedText : Expr → String
  | var name => name
  | const value => value.text
  | attr object name => operandText 3 object (groupedText object) ++ "." ++ name
  | index object key => operandText 3 object (groupedText object) ++ "[" ++ groupedText key ++ "]"
  | compare left comparison right =>
      operandText 2 left (groupedText left) ++ " " ++ comparison.text ++ " " ++
        operandText 2 right (groupedText right)
  | ternary condition whenTrue whenFalse =>
      operandText 1 whenTrue (groupedText whenTrue) ++ " if " ++
        operandText 1 condition (groupedText condition) ++ " else " ++ groupedText whenFalse
  | listOf element x iterable =>
      "[" ++ forText (groupedText element) x (operandText 1 iterable (groupedText iterable)) ++ "]"
  | setOf element x iterable =>
      "\x7b" ++ forText (groupedText element) x (operandText 1 iterable (groupedText iterable)) ++
        "\x7d"
  | dictOf key value k v iterable =>
      "\x7b" ++ forText (groupedText key ++ ": " ++ groupedText value) (Text.commas [k, v])
        (operandText 3 iterable (groupedText iterable) ++ ".items()") ++ "\x7d"
  | tuple items => Value.parenthesized (groupedTexts items)
  | method receiver key args =>
      operandText 3 receiver (groupedText receiver) ++ "." ++ key.methodName ++ "(" ++
        Text.commas (groupedTexts args) ++ ")"
  | factory slot args =>
      "self._factory_" ++ toString slot ++ "(" ++ Text.commas (groupedTexts args) ++ ")"
  | construct target strategy => constructText target strategy
  | isSet object field =>
      "'" ++ field ++ "' in " ++ operandText 3 object (groupedText object) ++ ".model_fields_set"

/-- The texts of the expressions of a list with the parentheses that their operands need. -/
def groupedTexts : List Expr → List String
  | [] => []
  | e :: rest => groupedText e :: groupedTexts rest

end

example : (attr (ternary (var "c") (var "a") (var "b")) "n").groupedText = "(a if c else b).n" := by
  decide

/-- A chain of look-ups binds as tightly as anything can. -/
theorem tightness_of_isChain {e : Expr} (h : e.isChain = true) : e.tightness = 3 := by
  cases e with
  | var name => rfl
  | attr object name => rfl
  | index object key => rfl
  | _ => cases h

/-- What only looks into values can stand wherever an operand can. -/
theorem operandText_of_isChain {e : Expr} (h : e.isChain = true) {needed : Nat} (hneeded : needed ≤ 3)
    (text : String) : operandText needed e text = text :=
  operandText_of_le ((tightness_of_isChain h).symm ▸ hneeded) text

/-- Induction on the expressions that only look into values. -/
theorem isChain_induction {motive : Expr → Prop} (hvar : ∀ name, motive (var name))
    (hattr : ∀ object name, object.isChain = true → motive object → motive (attr object name))
    (hconst : ∀ object value, object.isChain = true → motive object →
      motive (index object (const value)))
    (hindex : ∀ object key, object.isChain = true → key.isChain = true → motive object →
      motive key → motive (index object key)) {e : Expr} (h : e.isChain = true) : motive e := by
  fun_induction isChain e with
  | case1 name => exact hvar name
  | case2 object name ih => exact hattr object name h (ih h)
  | case3 object value ih => exact hconst object value h (ih h)
  | case4 object key _ ihobject ihkey =>
    obtain ⟨hobject, hkey⟩ := Bool.and_eq_true_iff.mp h
    exact hindex object key hobject hkey (ihobject hobject) (ihkey hkey)
  | case5 => cases h

/-- **What only looks into values is read as it is.** -/
theorem groupedText_of_isChain {e : Expr} (h : e.isChain = true) : e.groupedText = e.text := by
  refine isChain_induction (motive := fun e => e.groupedText = e.text) ?_ ?_ ?_ ?_ h
  · exact fun name => rfl
  · intro object name hobject ih
    show operandText 3 object object.groupedText ++ "." ++ name = object.text ++ "." ++ name
    rw [operandText_of_isChain hobject (Nat.le_refl 3), ih]
  · intro object value hobject ih
    show operandText 3 object object.groupedText ++ "[" ++ value.text ++ "]"
      = object.text ++ "[" ++ value.text ++ "]"
    rw [operandText_of_isChain hobject (Nat.le_refl 3), ih]
  · intro object key hobject hkey ihobject ihkey
    show operandText 3 object object.groupedText ++ "[" ++ key.groupedText ++ "]"
      = object.text ++ "[" ++ key.text ++ "]"
    rw [operandText_of_isChain hobject (Nat.le_refl 3), ihobject, ihkey]

end ObjectMapping.Expr
