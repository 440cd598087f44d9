import ObjectMapping.Json.Scalar

/-! # Outlines of JSON texts

An outline is a JSON text as far as it can be read: the document with the place where each part
ends and, where the text goes wrong, the fault instead of the part. Whoever walks an outline in the
order of the text meets exactly what a reader of the text meets, so a wrong type early in a text
wins over a missing bracket at its end.

* `Outline.ofText` reads a text, up to 127 levels deep. It does not look at what follows the
  document.
* `Outline.ofJson` is the outline of a document that has no text; its positions are unknown.
* `Outline.toJson` forgets the positions: the document, or the first fault. Of members with equal
  names the last value counts, in the place of the first. -/

namespace ObjectMapping

mutual

/-- A JSON text as far as it can be read. -/
inductive Outline where
  /-- A document without parts, and the places in front of it and behind it. -/
  | scalar (document : Json) (start stop : Position)
  /-- An array, and the place in front of it. -/
  | array (start : Position) (items : Items)
  /-- An object, and the place in front of it. -/
  | object (start : Position) (members : Members)
  /-- The text goes wrong here, in something that starts at a place. -/
  | broken (start : Position) (fault : Fault)

/-- What follows the opening bracket or an item of an array. -/
inductive Items where
  /-- The closing bracket, and the place behind it. -/
  | close (stop : Position)
  /-- The text goes wrong before an item. -/
  | broken (fault : Fault)
  /-- An item. A reader that wants no further item stops at `closing`, and finds `surplus` wrong
  unless the array ends there. -/
  | item (value : Outline) (closing : Position) (surplus : Option Fault) (rest : Items)

/-- What follows the opening brace or a member of an object. -/
inductive Members where
  /-- The closing brace, and the place behind it. -/
  | close (stop : Position)
  /-- The text goes wrong where a name is to stand. What stands there is kept for a reader that takes
  it for a document. -/
  | broken (found : Outline) (fault : Fault)
  /-- A name, as in a member, behind which the text goes wrong before the value. -/
  | unpaired (name : String) (nameEnd nameStop : Position) (fault : Fault)
  /-- A member, and the place behind its name. A reader that closes the object there stops at
  `nameStop`, one that closes it behind the value at `closing`. -/
  | member (name : String) (nameEnd nameStop : Position) (value : Outline) (closing : Position)
      (rest : Members)

end

namespace Outline

/-! ## Reading -/

/-- The place where a reader ends up that closes an array here. -/
def arrayClosing (c : Cursor) : Position :=
  let c := c.skipSpaces
  match c.peek? with
  | some ']' => c.advance.position
  | some ',' => c.advance.skipSpaces.position
  | _ => c.position

/-- What is wrong for a reader that closes an array here. -/
def arraySurplus (c : Cursor) : Option Fault :=
  let c := c.skipSpaces
  match c.peek? with
  | some ']' => none
  | some ',' =>
      let c := c.advance.skipSpaces
      some ⟨if c.peek? == some ']' then .trailingComma else .trailingCharacters, c.nextPosition⟩
  | some _ => some ⟨.trailingCharacters, c.nextPosition⟩
  | none => some ⟨.endInList, c.nextPosition⟩

/-- The place where a reader ends up that closes an object here. -/
def objectClosing (c : Cursor) : Position :=
  let c := c.skipSpaces
  if c.peek? == some '}' then c.advance.position else c.position

/-- Where an item starts, or the closing bracket; `first` in front of the first item. -/
def itemStart (first : Bool) (c : Cursor) : Except Fault (Option Cursor × Cursor) :=
  let c := c.skipSpaces
  match c.peek? with
  | none => c.nextFault .endInList
  | some ']' => .ok (none, c.advance)
  | some char =>
      if first then .ok (some c, c)
      else if char == ',' then
        let c := c.advance.skipSpaces
        match c.peek? with
        | none => c.nextFault .endInValue
        | some ']' => c.nextFault .trailingComma
        | some _ => .ok (some c, c)
      else c.nextFault .expectedItemEnd

/-- Where a name starts, behind its quote, or the closing brace; `first` in front of the first
name. -/
def nameStart (first : Bool) (c : Cursor) : Except Fault (Option Cursor × Cursor) :=
  let c := c.skipSpaces
  match c.peek? with
  | none => c.nextFault .endInObject
  | some '}' => .ok (none, c.advance)
  | some char =>
      if first then
        if char == '"' then .ok (some c.advance, c) else c.nextFault .nameNotString
      else if char == ',' then
        let c := c.advance.skipSpaces
        match c.peek? with
        | none => c.nextFault .endInValue
        | some '"' => .ok (some c.advance, c)
        | some '}' => c.nextFault .trailingComma
        | some _ => c.nextFault .nameNotString
      else c.nextFault .expectedMemberEnd

/-- The place behind the colon after a name. -/
def afterColon (c : Cursor) : Except Fault Cursor :=
  let c := c.skipSpaces
  match c.peek? with
  | none => c.nextFault .endInObject
  | some ':' => .ok c.advance
  | some _ => c.nextFault .expectedColon

/-- A document without parts that was read from a place up to a cursor. -/
def ofScalar (start : Position) : Except Fault (Json × Cursor) → Outline × Option Cursor
  | .ok (document, after) => (.scalar document start after.position, some after)
  | .error fault => (.broken start fault, none)

/-- A document without parts, recognised by its first character. -/
def readScalar (first : Char) (c : Cursor) : Except Fault (Json × Cursor) :=
  match first with
  | 'n' => (c.advance.readWord ['u', 'l', 'l']).map fun after => (.null, after)
  | 't' => (c.advance.readWord ['r', 'u', 'e']).map fun after => (.bool true, after)
  | 'f' => (c.advance.readWord ['a', 'l', 's', 'e']).map fun after => (.bool false, after)
  | '"' => c.advance.readString.map fun (s, after) => (.string s, after)
  | '-' => (c.advance.readNumber true).map fun (n, after) => (.number n, after)
  | _ =>
      if first.isDigit then (c.readNumber false).map fun (n, after) => (.number n, after)
      else c.nextFault .expectedValue

mutual

/-- The outline of the document at a cursor and the cursor behind it, for at most `levels` levels.
Every step but those between the brackets uses up text, so twice the length of the text bounds
`steps`. -/
def read (levels : Nat) (c : Cursor) : Nat → Outline × Option Cursor
  | 0 => (.broken c.position ⟨.endInValue, c.position⟩, none)
  | steps + 1 =>
      let c := c.skipSpaces
      match c.peek? with
      | none => (.broken c.position ⟨.endInValue, c.nextPosition⟩, none)
      | some '[' =>
          if levels ≤ 1 then (.broken c.position ⟨.tooDeep, c.nextPosition⟩, none)
          else
            let (items, after) := readItems (levels - 1) true c.advance steps
            (.array c.position items, after)
      | some '{' =>
          if levels ≤ 1 then (.broken c.position ⟨.tooDeep, c.nextPosition⟩, none)
          else
            let (members, after) := readMembers (levels - 1) true c.advance steps
            (.object c.position members, after)
      | some first => ofScalar c.position (readScalar first c)

/-- The items of an array from a cursor on. -/
def readItems (levels : Nat) (first : Bool) (c : Cursor) : Nat → Items × Option Cursor
  | 0 => (.broken ⟨.endInList, c.position⟩, none)
  | steps + 1 =>
      match itemStart first c with
      | .error fault => (.broken fault, none)
      | .ok (none, after) => (.close after.position, some after)
      | .ok (some start, _) =>
          match read levels start steps with
          | (value, none) => (.item value .unknown none (.close .unknown), none)
          | (value, some after) =>
              let (rest, stop) := readItems levels false after steps
              (.item value (arrayClosing after) (arraySurplus after) rest, stop)

/-- The members of an object from a cursor on. -/
def readMembers (levels : Nat) (first : Bool) (c : Cursor) : Nat → Members × Option Cursor
  | 0 => (.broken (.broken c.position ⟨.endInObject, c.position⟩) ⟨.endInObject, c.position⟩, none)
  | steps + 1 =>
      match nameStart first c with
      | .error fault => (.broken (read levels c steps).1 fault, none)
      | .ok (none, after) => (.close after.position, some after)
      | .ok (some start, _) =>
          match start.readString with
          | .error fault => (.broken (.broken c.position fault) fault, none)
          | .ok (name, afterName) =>
              let nameEnd := afterName.position
              let nameStop := objectClosing afterName
              match afterColon afterName with
              | .error fault => (.unpaired name nameEnd nameStop fault, none)
              | .ok colon =>
                  match read levels colon steps with
                  | (value, none) =>
                      (.member name nameEnd nameStop value .unknown (.close .unknown), none)
                  | (value, some after) =>
                      let (rest, stop) := readMembers levels false after steps
                      (.member name nameEnd nameStop value (objectClosing after) rest, stop)

end

/-- The outline of the document that a text starts with, and the place behind it. -/
def ofText (text : String) : Outline × Option Cursor :=
  let c := Cursor.ofText text
  read 128 c (2 * c.rest.length + 2)

/-! ## Documents without a text -/

mutual

/-- The outline of a document that has no text. -/
def ofJson : Json → Outline
  | .array items => .array .unknown (ofItems items)
  | .object members => .object .unknown (ofMembers members)
  | .null => .scalar .null .unknown .unknown
  | .bool b => .scalar (.bool b) .unknown .unknown
  | .number n => .scalar (.number n) .unknown .unknown
  | .string s => .scalar (.string s) .unknown .unknown

/-- The items of an array that has no text. -/
def ofItems : List Json → Items
  | [] => .close .unknown
  | item :: rest => .item (ofJson item) .unknown none (ofItems rest)

/-- The members of an object that has no text. -/
def ofMembers : List (String × Json) → Members
  | [] => .close .unknown
  | (name, value) :: rest =>
      .member name .unknown .unknown (ofJson value) .unknown (ofMembers rest)

end

mutual

/-- The document of an outline, or its first fault. -/
def toJson : Outline → Except Fault Json
  | .scalar document _ _ => .ok document
  | .broken _ fault => .error fault
  | .array _ items => do return .array (← itemsToJson items)
  | .object _ members => do return .object (Keyed.ofList (← membersToJson members))

/-- The documents of the items. -/
def itemsToJson : Items → Except Fault (List Json)
  | .close _ => .ok []
  | .broken fault => .error fault
  | .item value _ _ rest => do
      let document ← toJson value
      return document :: (← itemsToJson rest)

/-- The names and documents of the members, repeated names included. -/
def membersToJson : Members → Except Fault (List (String × Json))
  | .close _ => .ok []
  | .broken _ fault => .error fault
  | .unpaired _ _ _ fault => .error fault
  | .member name _ _ value _ rest => do
      let document ← toJson value
      return (name, document) :: (← membersToJson rest)

end

end Outline

/-- The document that the whole text writes, or what is wrong with the text. -/
def Json.ofText (text : String) : Except Fault Json := do
  let (outline, after) := Outline.ofText text
  let document ← outline.toJson
  match after with
  | none => .ok document
  | some after =>
      let stop := after.skipSpaces
      if stop.rest.isEmpty then .ok document else stop.nextFault .trailingCharacters

end ObjectMapping
