import ObjectMapping.Text

/-! # Tokens of written types

Blanks may stand in front of every token and at the end. A name may be quoted, with either kind of
quote on either side, and the first `typing.` in front of it is dropped.

* `TypeTree.Token.read?` reads one token; it uses up text (`read?_length`).
* `TypeTree.Token.scan` reads a whole text, or returns the rest that starts with no token. -/

namespace ObjectMapping.TypeTree

/-- A token of a written type. -/
inductive Token where
  | ident (name : String)
  | opening
  | closing
  | comma
  | bar
  | ellipsis
  | unit
deriving DecidableEq, Repr

namespace Token

/-- A character with which a name may start. -/
def isFirst (c : Char) : Bool := c.isAlpha || c == '_'

/-- A character that a name may contain. -/
def isInner (c : Char) : Bool := c.isAlphanum || c == '_' || c == '.'

/-- Whether a character opens or closes a name in quotes. -/
def isQuote (c : Char) : Bool := c == '\'' || c == '"'

/-- The token of a name, without `typing.` in front. -/
def ofName (name : List Char) : Token :=
  let marker := "typing.".toList
  if marker.isPrefixOf name then ident (String.ofList (name.drop marker.length))
  else ident (String.ofList name)

/-- The name that starts with `first`, and the text after it. -/
def splitName (first : Char) (rest : List Char) : List Char × List Char :=
  (first :: rest.takeWhile isInner, rest.dropWhile isInner)

/-- The name in quotes, after the opening quote, and the text after the closing one. -/
def readQuoted : List Char → Option (Token × List Char)
  | [] => none
  | c :: rest =>
      if isFirst c then
        match splitName c rest with
        | (word, q :: tail) => if isQuote q then some (ofName word, tail) else none
        | (_, []) => none
      else none

/-- The token that a text starts with, and the text after it. -/
def read? : List Char → Option (Token × List Char)
  | [] => none
  | '.' :: '.' :: '.' :: rest => some (ellipsis, rest)
  | '(' :: rest =>
      match Text.dropBlanks rest with
      | ')' :: tail => some (unit, tail)
      | _ => none
  | '[' :: rest => some (opening, rest)
  | ']' :: rest => some (closing, rest)
  | ',' :: rest => some (comma, rest)
  | '|' :: rest => some (bar, rest)
  | c :: rest =>
      if isQuote c then readQuoted rest
      else if isFirst c then
        match splitName c rest with
        | (word, tail) => some (ofName word, tail)
      else none

/-- Reading a name in quotes takes characters away. -/
theorem readQuoted_length {text rest : List Char} {t : Token}
    (h : readQuoted text = some (t, rest)) : rest.length < text.length := by
  unfold readQuoted at h
  split at h
  · simp at h
  · rename_i c tail
    split at h
    · simp only [splitName] at h
      split at h
      · rename_i heq
        split at h
        · simp only [Option.some.injEq, Prod.mk.injEq] at h
          obtain ⟨_, rfl⟩ := h
          simp only [Prod.mk.injEq] at heq
          have := (List.dropWhile_sublist (l := tail) isInner).length_le
          rw [heq.2] at this
          simp only [List.length_cons] at this ⊢
          omega
        · simp at h
      · simp at h
    · simp at h

/-- Reading a token uses up text. -/
theorem read?_length {text rest : List Char} {t : Token}
    (h : read? text = some (t, rest)) : rest.length < text.length := by
  unfold read? at h
  split at h
  · simp at h
  · simp only [Option.some.injEq, Prod.mk.injEq] at h
    obtain ⟨_, rfl⟩ := h
    simp only [List.length_cons]; omega
  · rename_i tail
    split at h
    · rename_i r heq
      simp only [Option.some.injEq, Prod.mk.injEq] at h
      obtain ⟨_, rfl⟩ := h
      have := (List.dropWhile_sublist (l := tail) Text.isBlank).length_le
      rw [show tail.dropWhile Text.isBlank = _ from heq] at this
      simp only [List.length_cons] at this ⊢
      omega
    · simp at h
  all_goals try
    (simp only [Option.some.injEq, Prod.mk.injEq] at h
     obtain ⟨_, rfl⟩ := h
     simp only [List.length_cons]; omega)
  rename_i c tail _ _ _ _ _ _
  split at h
  · have := readQuoted_length h
    simp only [List.length_cons]; omega
  · split at h
    · simp only [splitName, Option.some.injEq, Prod.mk.injEq] at h
      obtain ⟨_, rfl⟩ := h
      have := (List.dropWhile_sublist (l := tail) isInner).length_le
      simp only [List.length_cons]; omega
    · simp at h

/-- The tokens of a text, or what is left of it where no token starts. -/
def scan (text : List Char) : Except (List Char) (List Token) :=
  match _used : read? (Text.dropBlanks text) with
  | some (t, rest) =>
      match scan rest with
      | .ok ts => .ok (t :: ts)
      | .error stop => .error stop
  | none => if Text.allBlank text then .ok [] else .error text
termination_by text.length
decreasing_by
  have := read?_length _used
  have := (List.dropWhile_sublist (l := text) Text.isBlank).length_le
  simp only [Text.dropBlanks] at *
  omega

end Token

end ObjectMapping.TypeTree
