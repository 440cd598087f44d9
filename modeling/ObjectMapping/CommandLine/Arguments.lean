/-! # Arguments of the command line

There are two commands: `plan` prints the methods of mappings, `map` maps a document. Both take
options, which may stand in any order. An option takes the argument behind it as its value, or a
value attached to it; the option for schemas takes every argument up to the next option.

The values of an option are looked at when the next option or the end of the arguments is reached,
so a mistake in them is found only then.

* `Command.ofArguments` reads the arguments. -/

namespace ObjectMapping

/-- What is wrong with the arguments, or that help is asked for. -/
inductive UsageFault where
  | displayHelp
  /-- Nothing is asked for at all. -/
  | displayHelpOnMissing
  | missingCommand
  | invalidCommand
  | unknownArgument
  /-- An option without a value, or with an empty one where that makes no sense. -/
  | invalidValue
  /-- A value for an option that takes none. -/
  | tooManyValues
  /-- An option that is given twice. -/
  | argumentConflict
  | missingArgument
deriving DecidableEq, Repr

/-- The name of a fault. -/
def UsageFault.name : UsageFault → String
  | .displayHelp => "DisplayHelp"
  | .displayHelpOnMissing => "DisplayHelpOnMissingArgumentOrSubcommand"
  | .missingCommand => "MissingSubcommand"
  | .invalidCommand => "InvalidSubcommand"
  | .unknownArgument => "UnknownArgument"
  | .invalidValue => "InvalidValue"
  | .tooManyValues => "TooManyValues"
  | .argumentConflict => "ArgumentConflict"
  | .missingArgument => "MissingRequiredArgument"

/-- What to print methods of. -/
structure PlanCommand where
  schemas : List String
  /-- The source and the target class; without them, all mappings. -/
  pair? : Option (String × String)
  out? : Option String
deriving DecidableEq, Repr

/-- What to map. -/
structure MapCommand where
  schemas : List String
  source : String
  target : String
  input : String
  pointer? : Option String
  extra? : Option String
  updateTarget? : Option String
  out? : Option String
deriving DecidableEq, Repr

/-- A command with its options. -/
inductive Command where
  | plan (c : PlanCommand)
  | map (c : MapCommand)
deriving DecidableEq, Repr

namespace CommandLine

/-- An option with values. -/
inductive Key where
  | schema
  | source
  | target
  | out
  | input
  | jsonPointer
  | extra
  | updateTarget
deriving DecidableEq, Repr

namespace Key

/-- The long name of an option. -/
def long : Key → String
  | schema => "schema"
  | source => "source"
  | target => "target"
  | out => "out"
  | input => "input"
  | jsonPointer => "json-pointer"
  | extra => "extra"
  | updateTarget => "update-target"

/-- The short name of an option. -/
def short? : Key → Option Char
  | schema => some 's'
  | out => some 'o'
  | input => some 'i'
  | _ => none

/-- Whether an option may be given again, and takes more than one value. -/
def isRepeated (k : Key) : Bool := k == schema

/-- Whether the value of an option names a file, which an empty value does not. -/
def isFile : Key → Bool
  | out | input | extra | updateTarget => true
  | _ => false

/-- The options of `plan`. -/
def ofPlan : List Key := [schema, source, target, out]

/-- The options of `map`. -/
def ofMap : List Key := [schema, source, target, input, jsonPointer, extra, updateTarget, out]

end Key

/-- The values of the options given so far. -/
abbrev Given := List (Key × List String)

/-- The options read so far. -/
structure State where
  given : Given
  /-- The last option, as long as its values have not been looked at. -/
  pending? : Option (Key × List String)

/-- A step in the reading of arguments. -/
abbrev Usage (α : Type) := Except UsageFault α

namespace State

/-- Nothing has been read. -/
def start : State := ⟨[], none⟩

/-- The options with another one and its values. -/
def add (s : State) (key : Key) (values : List String) : Usage State :=
  if !key.isRepeated && s.given.any (·.1 == key) then .error .argumentConflict
  else if key.isFile && values.any (·.isEmpty) then .error .invalidValue
  else .ok ⟨s.given ++ [(key, values)], none⟩

/-- Looks at the values of the last option. -/
def settle (s : State) : Usage State :=
  match s.pending? with
  | none => .ok s
  | some (_, []) => .error .invalidValue
  | some (key, values) => s.add key values

/-- Starts another option, with a value if one is attached to it. -/
def startOption (s : State) (key : Key) (attached? : Option String) : Usage State := do
  let s ← s.settle
  match attached? with
  | some value => s.add key [value]
  | none => return { s with pending? := some (key, []) }

/-- An argument that is no option: a value for the last option, if that takes one more. -/
def takeValue (s : State) (value : String) : Usage State :=
  match s.pending? with
  | some (key, values) =>
      if key.isRepeated || values.isEmpty then
        .ok { s with pending? := some (key, values ++ [value]) }
      else .error .unknownArgument
  | none => .error .unknownArgument

end State

/-- An argument by its form. -/
inductive Argument where
  /-- The mark behind which no options follow. -/
  | mark
  /-- A long name, and the value attached to it. -/
  | long (name : String) (value? : Option String)
  /-- Short names, of which the last one may have a value attached. -/
  | short (names : List Char)
  | plain (text : String)

/-- The form of an argument. -/
def Argument.ofString (text : String) : Argument :=
  match text.toList with
  | ['-', '-'] => .mark
  | '-' :: '-' :: rest =>
      match rest.span (· != '=') with
      | (name, _ :: value) => .long (String.ofList name) (some (String.ofList value))
      | (name, []) => .long (String.ofList name) none
  | '-' :: first :: rest => .short (first :: rest)
  | _ => .plain text

/-- The value attached behind a short name; a sign of equality in front of it is left out. -/
def attached? : List Char → Option String
  | [] => none
  | '=' :: value => some (String.ofList value)
  | value => some (String.ofList value)

/-- Reads short names. -/
def readShort (keys : List Key) (s : State) : List Char → Usage State
  | [] => .ok s
  | 'h' :: _ => do
      let _ ← s.settle
      .error .displayHelp
  | 'v' :: rest => do readShort keys (← s.settle) rest
  | c :: rest =>
      match keys.find? (·.short? == some c) with
      | some key => s.startOption key (attached? rest)
      | none => .error .unknownArgument

/-- Reads a long name. -/
def readLong (keys : List Key) (s : State) (name : String) (value? : Option String) :
    Usage State :=
  match keys.find? (·.long == name) with
  | some key => s.startOption key value?
  | none =>
      if name == "help" || name == "verbose" then
        if value?.isSome then .error .tooManyValues
        else do
          let s ← s.settle
          if name == "help" then .error .displayHelp else return s
      else .error .unknownArgument

/-- Reads the options of a command. -/
def readOptions (keys : List Key) (s : State) : List String → Usage Given
  | [] => do return (← s.settle).given
  | argument :: rest =>
      match Argument.ofString argument with
      | .mark => if rest.isEmpty then do return (← s.settle).given else .error .unknownArgument
      | .long name value? => do readOptions keys (← readLong keys s name value?) rest
      | .short names => do readOptions keys (← readShort keys s names) rest
      | .plain value => do readOptions keys (← s.takeValue value) rest

namespace Given

/-- The values of an option. -/
def values (g : Given) (key : Key) : List String :=
  (g.filter (·.1 == key)).flatMap (·.2)

/-- The value of an option. -/
def value? (g : Given) (key : Key) : Option String := (g.values key).head?

/-- The value of an option that has to be given. -/
def required (g : Given) (key : Key) : Usage String :=
  match g.value? key with
  | some value => .ok value
  | none => .error .missingArgument

/-- The schemas, of which there has to be one. -/
def schemas (g : Given) : Usage (List String) :=
  match g.values .schema with
  | [] => .error .missingArgument
  | found => .ok found

/-- The command to print methods. -/
def plan (g : Given) : Usage Command := do
  let schemas ← g.schemas
  match g.value? .source, g.value? .target with
  | some source, some target => return .plan ⟨schemas, some (source, target), g.value? .out⟩
  | none, none => return .plan ⟨schemas, none, g.value? .out⟩
  | _, _ => .error .missingArgument

/-- The command to map a document. -/
def map (g : Given) : Usage Command := do
  return .map {
    schemas := ← g.schemas
    source := ← g.required .source
    target := ← g.required .target
    input := ← g.required .input
    pointer? := g.value? .jsonPointer
    extra? := g.value? .extra
    updateTarget? := g.value? .updateTarget
    out? := g.value? .out }

end Given

/-- The names of the commands; the last one explains the others. -/
def commandNames : List String := ["plan", "map", "help"]

/-- What is asked for behind `help`. -/
def readHelp : List String → UsageFault
  | [] => .displayHelp
  | [name] => if commandNames.contains name then .displayHelp else .invalidCommand
  | _ => .invalidCommand

/-- What the lack of a command means; `empty` if nothing else is given either. -/
def noCommand (empty : Bool) : UsageFault :=
  if empty then .displayHelpOnMissing else .missingCommand

/-- Reads the arguments up to the command, and then its options; `empty` as long as nothing has been
given. -/
def readCommand (empty : Bool) : List String → Usage Command
  | [] => .error (noCommand empty)
  | argument :: rest =>
      match Argument.ofString argument with
      | .plain "plan" => readOptions Key.ofPlan .start rest >>= Given.plan
      | .plain "map" => readOptions Key.ofMap .start rest >>= Given.map
      | .plain "help" => .error (readHelp rest)
      | .plain _ => .error .invalidCommand
      | .mark =>
          match rest with
          | [] => .error (noCommand empty)
          | next :: _ =>
              .error (if commandNames.contains next then .unknownArgument else .invalidCommand)
      | .long name value? => do
          let _ ← readLong [] .start name value?
          readCommand false rest
      | .short names => do
          let _ ← readShort [] .start names
          readCommand false rest

end CommandLine

/-- The command that arguments ask for. -/
def Command.ofArguments (arguments : List String) : CommandLine.Usage Command :=
  CommandLine.readCommand true arguments

end ObjectMapping
