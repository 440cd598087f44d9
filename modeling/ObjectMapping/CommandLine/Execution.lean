import ObjectMapping.CommandLine.Arguments
import ObjectMapping.CommandLine.Search
import ObjectMapping.Execution.Invocation
import ObjectMapping.Json.Printer
import ObjectMapping.Schema.Catalog
import ObjectMapping.Schema.Reader

/-! # Running commands

A command loads schemas, prints methods or maps a document, and writes its result to a file or to
the output. Nothing is written unless everything before has succeeded.

* `Catalog.listing` is the text of the methods of mappings.
* `CommandLine.run` runs the command that arguments ask for. -/

namespace ObjectMapping

/-- The text of an error with its causes. -/
def Error.chain (e : Error) : String :=
  match e with
  | .json _ reason => e.message ++ ": " ++ reason
  | _ => e.message

/-- The methods between a source and a target class, under their names. -/
def Catalog.pairText (c : Catalog) (pair : String × String) : Except Error String := do
  return "# " ++ pair.1 ++ " -> " ++ pair.2 ++ "\n" ++ (← c.render pair.1 pair.2)

/-- The methods of mappings, with an empty line in front of each but the first. -/
def Catalog.listing (c : Catalog) (pairs : List (String × String)) : Except Error String := do
  return "\n".intercalate (← pairs.mapM c.pairText)

/-- The output of the command that prints methods. -/
def PlanCommand.text (p : PlanCommand) (c : Catalog) : Except Error String :=
  match p.pair? with
  | some pair => c.listing [pair]
  | none => c.listing c.mappings

namespace CommandLine

variable {m : Type → Type} [Monad m] (files : Files m)

/-- An outcome of the library as a step of a command. -/
def ofExcept {α : Type} : Except Error α → Task m α
  | .ok a => return a
  | .error e => throw e.chain

/-- An outcome of the library, whose error is told with what was being done. -/
def within {α : Type} (doing : String) : Except Error α → Task m α
  | .ok a => return a
  | .error e => throw (doing ++ ": " ++ e.chain)

/-! ## Reading -/

/-- The schema in a file. -/
def readSchema (path : String) : Task m Schema := do
  match ← (files.read path : m (Except FileFault String)) with
  | .ok text => ofExcept (Schema.ofText text)
  | .error fault => ofExcept (.error (.schema (.unreadable path fault.message)))

/-- The catalog of all schemas in the files that patterns stand for. -/
def readCatalog (patterns : List String) : Task m Catalog := do
  let schemas ← (← Search.resolve files patterns).mapM (readSchema files)
  ofExcept (Catalog.load (schemas.foldl Schema.merge .empty) .empty ClassHandle.firstFree)

/-- The document in a file. -/
def readDocument (path : String) : Task m Json := do
  match ← (files.read path : m (Except FileFault String)) with
  | .error fault => throw s!"failed to read {path}: {fault.message}"
  | .ok text =>
      match Json.ofText text with
      | .ok document => return document
      | .error fault => throw s!"failed to parse JSON file {path}: {fault.message}"

/-- The part of a document that a pointer selects. -/
def selectPart (document : Json) (path : String) : Option String → Task m Json
  | none => return document
  | some pointer =>
      match document.pointer? pointer with
      | some part => return part
      | none => throw s!"JSON pointer {pointer} selects nothing in {path}"

/-- The caller's values in a file. -/
def readExtra : Option String → Task m Extra
  | none => return []
  | some path => do
      match ← readDocument files path with
      | .object members => return members.map fun (name, value) => (name, Value.ofJson value)
      | _ => throw s!"{path} must hold a JSON object"

/-! ## Writing -/

/-- Makes a folder and the folders around it, unless they are there. Every step goes one name back,
so the length of the path bounds `steps`. -/
def makeFolders : Nat → String → m (Except FileFault Unit)
  | 0, _ => return .ok ()
  | steps + 1, path => do
      match Path.parent? path with
      | none => return .ok ()
      | some parent =>
          match ← files.makeFolder path with
          | .ok () => return .ok ()
          | .error .missing =>
              match ← makeFolders steps parent with
              | .error fault => return .error fault
              | .ok () => orFolder path (← files.makeFolder path)
          | .error fault => orFolder path (.error fault)
where
  /-- Forgives that something is there already if it is a folder. -/
  orFolder (path : String) : Except FileFault Unit → m (Except FileFault Unit)
    | .error .exists => do
        if ← Search.isFolder files path then return .ok () else return .error .exists
    | other => return other

/-- Makes the folders around a file. -/
def makeFoldersAround (path : String) : m (Except FileFault Unit) :=
  match Path.parent? path with
  | some parent => makeFolders files (Path.segments parent).length parent
  | none => return .ok ()

/-- Writes a text to a file, or to the output, which is the result. -/
def emit (out? : Option String) (text : String) : Task m String := do
  match out? with
  | none => return text ++ "\n"
  | some path =>
      match ← (makeFoldersAround files path : m _) with
      | .error fault => throw fault.message
      | .ok () =>
          match ← (files.write path text : m (Except FileFault Unit)) with
          | .ok () => return ""
          | .error fault => throw s!"failed to write {path}: {fault.message}"

/-! ## Commands -/

/-- Prints methods. -/
def runPlan (p : PlanCommand) : Task m String := do
  let catalog ← readCatalog files p.schemas
  emit files p.out? (← ofExcept (p.text catalog))

/-- The target object that a source object is mapped to: a new one, or the one in a file, changed.
-/
def mapObject (c : MapCommand) (catalog : Catalog) (source : Value) (extra : Extra) :
    Task m Value := do
  match c.updateTarget? with
  | some path => do
      let document ← readDocument files path
      let target ← within s!"decoding the update target as '{c.target}'"
        (catalog.decode c.target document)
      match catalog.registry.update source target extra with
      | (.ok (), changed) => return changed
      | (.error e, _) => throw e.chain
  | none => do
      let target ← ofExcept (catalog.classNamed c.target)
      ofExcept (catalog.registry.convert source target.handle extra)

/-- Maps a document. -/
def runMap (c : MapCommand) : Task m String := do
  let catalog ← readCatalog files c.schemas
  let document ← selectPart (← readDocument files c.input) c.input c.pointer?
  let source ← within s!"decoding the input as '{c.source}'" (catalog.decode c.source document)
  let extra ← readExtra files c.extra?
  let result ← mapObject files c catalog source extra
  emit files c.out? result.toJson.pretty

/-- Runs a command; the result is what it prints. -/
def runCommand : Command → Task m String
  | .plan p => runPlan files p
  | .map c => runMap files c

end CommandLine

/-- Why a run has failed. -/
inductive RunFault where
  | usage (fault : UsageFault)
  | failed (message : String)
deriving DecidableEq, Repr

/-- The message of a failed run. -/
def RunFault.message : RunFault → String
  | .usage fault => fault.name
  | .failed message => message

/-- Runs the command that arguments ask for; the result is what it prints. -/
def CommandLine.run {m : Type → Type} [Monad m] (files : Files m) (arguments : List String) :
    m (Except RunFault String) := do
  match Command.ofArguments arguments with
  | .error fault => return .error (.usage fault)
  | .ok command =>
      match ← (runCommand files command).run with
      | .ok printed => return .ok printed
      | .error message => return .error (.failed message)

end ObjectMapping
