import ObjectMapping.TypeTree.Basic
import ObjectMapping.TypeTree.Token
import ObjectMapping.Error

/-! # Reading written types

The grammar of written types over tokens, in which a trailing comma is allowed after arguments:

    union ::= term ("|" term)*
    term  ::= ident | ident "[" args "]" | "..." | "()"
    args  ::= union ("," union)* [","]

Terms with bars between them are the arguments of a `Union`. `TypeTree.parse` reads a text; an
error quotes the whole text and says what was expected. -/

namespace ObjectMapping.TypeTree

namespace Parser

/-- What is wrong with a list of tokens. -/
inductive Complaint where
  | unexpectedEnd
  | expectedName
  | expectedSeparator
  | noArguments
  | trailingTokens
deriving DecidableEq, Repr

/-- The text of a complaint. -/
def Complaint.message : Complaint → String
  | unexpectedEnd => "unexpected end of annotation"
  | expectedName => "expected a type name"
  | expectedSeparator => "expected ',' or ']'"
  | noArguments => "empty type argument list"
  | trailingTokens => "trailing input after annotation"

/-- What a rule reads off a list of tokens: a result and the tokens after it, or a complaint. -/
abbrev Outcome (α : Type) := Except Complaint (α × List Token)

mutual

/-- A union of terms. A rule uses up tokens at least on every other step, so a multiple of their
number bounds `steps`. -/
def readUnion (tokens : List Token) : Nat → Outcome TypeTree
  | 0 => .error .unexpectedEnd
  | steps + 1 =>
      match readTerm tokens steps with
      | .error complaint => .error complaint
      | .ok (first, rest) =>
          match readArms rest steps with
          | .error complaint => .error complaint
          | .ok ([], rest) => .ok (first, rest)
          | .ok (arms, rest) => .ok (.generic "Union" (first :: arms), rest)

/-- The further terms of a union, each with a bar in front. -/
def readArms (tokens : List Token) : Nat → Outcome (List TypeTree)
  | 0 => .error .unexpectedEnd
  | steps + 1 =>
      match tokens with
      | .bar :: rest =>
          match readTerm rest steps with
          | .error complaint => .error complaint
          | .ok (arm, rest) =>
              match readArms rest steps with
              | .error complaint => .error complaint
              | .ok (arms, rest) => .ok (arm :: arms, rest)
      | _ => .ok ([], tokens)

/-- One term: a name with or without arguments, an ellipsis or an empty pair of parentheses. -/
def readTerm (tokens : List Token) : Nat → Outcome TypeTree
  | 0 => .error .unexpectedEnd
  | steps + 1 =>
      match tokens with
      | .ident head :: .opening :: rest =>
          match readArgs rest steps with
          | .error complaint => .error complaint
          | .ok ([], _) => .error .noArguments
          | .ok (args, rest) => .ok (.generic head args, rest)
      | .ident head :: rest => .ok (.name head, rest)
      | .ellipsis :: rest => .ok (.name "...", rest)
      | .unit :: rest => .ok (.name "()", rest)
      | [] => .error .unexpectedEnd
      | _ :: _ => .error .expectedName

/-- Arguments up to the closing bracket. -/
def readArgs (tokens : List Token) : Nat → Outcome (List TypeTree)
  | 0 => .error .unexpectedEnd
  | steps + 1 =>
      match tokens with
      | .closing :: rest => .ok ([], rest)
      | _ =>
          match readUnion tokens steps with
          | .error complaint => .error complaint
          | .ok (arg, .closing :: rest) => .ok ([arg], rest)
          | .ok (arg, .comma :: rest) =>
              match readArgs rest steps with
              | .error complaint => .error complaint
              | .ok (args, rest) => .ok (arg :: args, rest)
          | .ok _ => .error .expectedSeparator

end

/-- The tree that all the tokens together write. -/
def read (tokens : List Token) : Except Complaint TypeTree :=
  match readUnion tokens (4 * tokens.length + 4) with
  | .error complaint => .error complaint
  | .ok (tree, []) => .ok tree
  | .ok _ => .error .trailingTokens

end Parser

/-- The tree that a text writes. The place of a character that starts no token is told in
bytes. -/
def parse (text : String) : Except Error TypeTree :=
  match Token.scan text.toList with
  | .error rest =>
      let offset := Text.byteCount text.toList - Text.byteCount rest
      .error (.unsupportedType text s!"unexpected character at offset {offset}")
  | .ok tokens =>
      match Parser.read tokens with
      | .ok tree => .ok tree
      | .error complaint => .error (.unsupportedType text complaint.message)

end ObjectMapping.TypeTree
