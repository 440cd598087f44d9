import ObjectMapping.Schema.Shape

/-! # Reading one of several variants

A variant is written as its name, or as an object whose only member has that name; the value of the
member is what the variant holds. A variant that holds nothing may stand beside null.

* `Outline.readTagged` takes the name and the content apart, in a document that has been kept in
  memory.
* `Outline.readChoice` and `Outline.readChoiceFromSource` read variants that hold nothing, from
  memory and from the source. -/

namespace ObjectMapping.Outline

/-- Reports an object that does not have exactly one member. -/
def notSingle {α : Type} : Reading α :=
  .error (.here (.invalidValue "map" "map with a single key") .unknown)

/-- The name of a variant, and what it holds if that is written. -/
def readTagged : Outline → Reading (String × Option Outline)
  | .scalar (.string name) _ _ => .ok (name, none)
  | .object _ (.member name _ _ value _ (.close _)) => .ok (name, some value)
  | .object .. => notSingle
  | other => other.wrongType "string or map"

/-- Reads nothing, where a variant holds nothing. -/
def readUnit : Option Outline → Reading Unit
  | none => .ok ()
  | some (.scalar .null _ _) => .ok ()
  | some (.object _ (.close _)) => .ok ()
  | some other => other.wrongType "unit"

/-- Reads what a variant holds. -/
def readContent {α : Type} (read : Outline → Reading α) : Option Outline → Reading α
  | none => .error (.here (.invalidType "unit variant" "newtype variant") .unknown)
  | some content => read content

/-- The variant of a name. -/
def chosen {α : Type} (choices : List (String × α)) (name : String) (stop : Position) : Reading α :=
  match choices.lookup name with
  | some a => .ok a
  | none => .error (.here (.unknownVariant name (choices.map (·.1))) stop)

/-- Reads the name of a variant. -/
def readName {α : Type} (choices : List (String × α)) : Outline → Reading α
  | .scalar (.string name) _ stop => chosen choices name stop
  | other => other.wrongType "variant identifier"

/-- Reads a variant that holds nothing from memory. -/
def readChoice {α : Type} (choices : List (String × α)) (o : Outline) : Reading α := do
  let (name, content?) ← o.readTagged
  let a ← chosen choices name .unknown
  readUnit content?
  return a

/-- Reads what stands beside the name of a variant in the source, which has to be null. -/
def readNull : Outline → Reading Unit
  | .scalar .null _ _ => .ok ()
  | other => other.wrongType "unit"

/-- Reads a variant from the only member of an object in a text. -/
def readMemberChoice {α : Type} (choices : List (String × α)) : Members → Reading α
  | .close stop => .error (.here (.text .expectedValue) stop)
  | .broken found _ => found.wrongType "variant identifier"
  | .unpaired name nameEnd _ fault => do
      let _ ← chosen choices name nameEnd
      .error (.ofFault fault)
  | .member name nameEnd _ value closing rest => do
      let a ← chosen choices name nameEnd
      Reading.part (.name name) closing (readNull value)
      match rest with
      | .close _ => .ok a
      | .broken _ ⟨.endInObject, position⟩ => .error (.here (.text .endInObject) position)
      | _ => .error (.here (.text .expectedValue) closing)

/-- Reports a document in a text that cannot be a variant. -/
def expectedChoice {α : Type} (start : Position) : Reading α :=
  .error (.here (.text .expectedValue) ⟨start.line, start.column + 1⟩)

/-- Reads a variant that holds nothing from the source. A text has been read no further than the
place where it goes wrong, so a word or a number is wrong from its first character on, while the
members of a document without a text are known beforehand. -/
def readChoiceFromSource {α : Type} (choices : List (String × α)) : Outline → Reading α
  | .scalar (.string name) _ stop => chosen choices name stop
  | .broken start fault =>
      if fault.problem.isInString || fault == ⟨.endInValue, start⟩ then .error (.ofFault fault)
      else expectedChoice start
  | .object start members =>
      if start != .unknown then readMemberChoice choices members
      else
        match members with
        | .member name _ _ value _ (.close _) => do
            let a ← chosen choices name .unknown
            Reading.part (.name name) .unknown (readNull value)
            return a
        | _ => notSingle
  | .scalar document start stop =>
      if start != .unknown then expectedChoice start
      else (Outline.scalar document start stop).wrongType "string or map"
  | .array start items =>
      if start != .unknown then expectedChoice start
      else (Outline.array start items).wrongType "string or map"

end ObjectMapping.Outline
