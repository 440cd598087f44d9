/-! # Patterns with wildcards

A pattern for one name: `?` stands for any character, `*` for any characters, and brackets for one
character out of a set, or out of everything else with an exclamation mark. Two asterisks alone
stand for any folders.

* `Wildcard.parse` reads a pattern, `Wildcard.accepts` compares a name with it.
* `Wildcard.check` looks for mistakes in a pattern for a whole path. -/

namespace ObjectMapping

/-- The characters from one to another one. -/
structure CharRange where
  first : Char
  last : Char
deriving DecidableEq, Repr

/-- A part of a pattern. -/
inductive Wildcard.Token where
  | char (c : Char)
  | anyChar
  | anyChars
  /-- Any folders. -/
  | folders
  | oneOf (ranges : List CharRange)
  | noneOf (ranges : List CharRange)
deriving DecidableEq, Repr

/-- A pattern for a name. -/
structure Wildcard where
  tokens : List Wildcard.Token
deriving DecidableEq, Repr

/-- A mistake in a pattern, and the number of characters in front of it. -/
inductive WildcardFault where
  | range (place : Nat)
  | asterisks (place : Nat)
  | folders (place : Nat)
deriving DecidableEq, Repr

/-- The text of a fault. -/
def WildcardFault.message : WildcardFault → String
  | .range place => text place "invalid range pattern"
  | .asterisks place => text place "wildcards are either regular `*` or recursive `**`"
  | .folders place => text place "recursive wildcards must form a single path component"
where
  /-- A reason with its place. -/
  text (place : Nat) (reason : String) : String :=
    s!"Pattern syntax error near position {place}: {reason}"

namespace Wildcard

/-! ## Reading -/

/-- The ranges between brackets; a hyphen between two characters joins them. -/
def rangesOf : List Char → List CharRange
  | first :: '-' :: last :: rest => ⟨first, last⟩ :: rangesOf rest
  | c :: rest => ⟨c, c⟩ :: rangesOf rest
  | [] => []

/-- The set that starts behind a bracket, the number of characters up to its end, and what follows
it. A closing bracket at the start belongs to the set. -/
def bracket? : List Char → Option (Token × Nat × List Char)
  | '!' :: first :: rest => (closed? first rest).map fun (set, after) =>
      (.noneOf (rangesOf set), set.length + 2, after)
  | '!' :: [] => none
  | first :: rest => (closed? first rest).map fun (set, after) =>
      (.oneOf (rangesOf set), set.length + 1, after)
  | [] => none
where
  /-- The characters of a set, and what follows its closing bracket. -/
  closed? (first : Char) (rest : List Char) : Option (List Char × List Char) :=
    match rest.span (· != ']') with
    | (others, _ :: after) => some (first :: others, after)
    | (_, []) => none

/-- Whether a path ends, or goes on with a further name. -/
def atNameEnd : List Char → Bool
  | [] => true
  | c :: _ => c == '/'

/-- Reads the parts of a pattern; `previous?` and `place` are the character in front of the rest and
the number of characters. Every part uses up text, so the length of the text bounds `steps`. -/
def readTokens (previous? : Option Char) (place : Nat) (text : List Char) :
    Nat → Except WildcardFault (List Token)
  | 0 => .ok []
  | steps + 1 =>
      match text with
      | [] => .ok []
      | '?' :: rest => do return .anyChar :: (← readTokens (some '?') (place + 1) rest steps)
      | '*' :: '*' :: '*' :: _ => .error (.asterisks (place + 2))
      | '*' :: '*' :: rest =>
          if previous? == none || previous? == some '/' then
            if atNameEnd rest then do
              return .folders ::
                (← readTokens (some '/') (place + 2 + (rest.take 1).length) (rest.drop 1) steps)
            else .error (.folders (place + 2))
          else .error (.folders (place - 1))
      | '*' :: rest => do return .anyChars :: (← readTokens (some '*') (place + 1) rest steps)
      | '[' :: rest =>
          match bracket? rest with
          | some (token, width, after) => do
              return token :: (← readTokens (some ']') (place + 1 + width) after steps)
          | none => .error (.range place)
      | c :: rest => do return .char c :: (← readTokens (some c) (place + 1) rest steps)

/-- Looks for mistakes in a pattern for a whole path. -/
def check (path : String) : Except WildcardFault Unit :=
  (readTokens none 0 path.toList (path.toList.length + 1)).map fun _ => ()

/-- The pattern for a name. -/
def parse (text : String) : Except WildcardFault Wildcard := do
  return ⟨← readTokens none 0 text.toList (text.toList.length + 1)⟩

/-! ## Comparing -/

/-- Whether one of the ranges has a character. -/
def inRanges (ranges : List CharRange) (c : Char) : Bool :=
  ranges.any fun range => range.first ≤ c && c ≤ range.last

/-- Whether a part of a pattern that stands for one character stands for this one. -/
def Token.acceptsChar (token : Token) (c : Char) : Bool :=
  match token with
  | .char d => c == d
  | .anyChar => true
  | .oneOf ranges => inRanges ranges c
  | .noneOf ranges => !inRanges ranges c
  | .anyChars | .folders => false

/-- For each of a list of answers, whether it or one behind it is positive. -/
def orLater : List Bool → List Bool
  | [] => []
  | answer :: rest =>
      let later := orLater rest
      (answer || later.headD false) :: later

/-- For each end of a name, the longest first, whether the pattern from a part on accepts it. The
answers for the pattern behind that part are known, so that no end is looked at twice. -/
def Token.acceptsEnds (token : Token) (name : List Char) (behind : List Bool) : List Bool :=
  match token with
  | .anyChars | .folders => orLater behind
  | _ => (name.zipWith (token.acceptsChar · && ·) (behind.drop 1)) ++ [false]

/-- Whether a pattern accepts a name. -/
def accepts (w : Wildcard) (name : String) : Bool :=
  let atEnd := name.toList.map (fun _ => false) ++ [true]
  (w.tokens.foldr (·.acceptsEnds name.toList ·) atEnd).headD false

/-- The name that a pattern without wildcards stands for. -/
def literal? (w : Wildcard) : Option String :=
  (w.tokens.mapM fun token =>
    match token with
    | Token.char c => some c
    | _ => none).map String.ofList

/-- Whether a pattern stands for any folders. -/
def isFolders (w : Wildcard) : Bool := w.tokens.contains .folders

/-- Whether a pattern starts with a dot, as the names of the folder itself and of the one around it
do. -/
def startsWithDot (w : Wildcard) : Bool := w.tokens.head? == some (.char '.')

end Wildcard

end ObjectMapping
