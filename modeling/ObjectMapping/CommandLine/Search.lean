import ObjectMapping.CommandLine.Files
import ObjectMapping.CommandLine.Path
import ObjectMapping.CommandLine.Wildcard

/-! # Searching files

The files that a pattern for a path stands for. The pattern is taken apart at its slashes, and each
part is compared with the names in the folders found so far. Names are visited in ascending order, a
folder in front of what is in it.

* `Search.resolve` finds the files of several patterns. A pattern without wildcards is the path of a
  file, whether that is there or not. -/

namespace ObjectMapping

/-- A computation with files that may fail with a message. -/
abbrev Task (m : Type → Type) := ExceptT String m

namespace Search

variable {m : Type → Type} [Monad m] (files : Files m)

/-- Whether a folder stands at a path. -/
def isFolder (path : String) : m Bool := do return (← files.kind? path) == some .folder

/-- A path inside of a folder; a folder that leads nowhere is left out. -/
def inside (folder name : String) : String :=
  if Path.isHere folder then name else Path.join folder name

/-- The paths that are found at a path whose name is to match the first part; `search` searches a
folder. -/
def matchName (search : List Wildcard → String → m (List String)) (path name : String) :
    List Wildcard → m (List String)
  | [] => return []
  | [part] => return if part.accepts name then [path] else []
  | part :: rest => if part.accepts name then search rest path else return []

/-- The paths that are found at a path in a folder. Parts that stand for any folders search the path
itself and, if it is a folder, everything inside of it. -/
def visit (search : List Wildcard → String → m (List String)) (path name : String)
    (parts : List Wildcard) : m (List String) := do
  match parts.span Wildcard.isFolders with
  | ([], parts) => matchName search path name parts
  | (any :: _, parts) =>
      let folder ← isFolder files path
      let deeper ← if folder then search (any :: parts) path else pure []
      if parts.isEmpty then return (if folder then path :: deeper else [])
      else return (← matchName search path name parts) ++ deeper

/-- The paths that are found for the folder itself and the one around it, which no listing of names
has. -/
def visitDots (search : List Wildcard → String → m (List String)) (folder : String)
    (part : Wildcard) (rest : List Wildcard) : m (List String) := do
  if part.startsWithDot then
    let found ← ["..", "."].mapM fun name => do
      if !part.accepts name then return []
      else if rest.isEmpty then return [Path.join folder name]
      else search rest (Path.join folder name)
    return found.flatten
  else return []

/-- The paths in a folder that match the parts of a pattern. Every step uses up a part or enters a
folder. -/
def search : Nat → List Wildcard → String → m (List String)
  | 0, _, _ => return []
  | _ + 1, [], _ => return []
  | steps + 1, part :: rest, folder => do
      match part.literal? with
      | some name =>
          let path := inside folder name
          let found ←
            if name == "." || name == ".." then isFolder files folder
            else do pure (← files.kind? path).isSome
          if !found then return []
          else if rest.isEmpty then return [path]
          else search steps rest path
      | none =>
          if !(← isFolder files folder) then return []
          else
            let names := (← files.names folder).mergeSort (· ≤ ·)
            let dots ← visitDots (search steps) folder part rest
            let found ← names.mapM fun name =>
              visit files (search steps) (inside folder name) name (part :: rest)
            return dots ++ found.flatten

/-- Where the search for a pattern starts, and the text of its parts: the root of all files, or the
current folder. -/
def start (pattern : String) : String × String :=
  if Path.isAbsolute pattern then ("/", String.ofList (pattern.toList.drop 1)) else (".", pattern)

/-- The texts between slashes; nothing follows a slash at the end. -/
def partTexts (text : String) : List String :=
  let texts := Path.segments text
  if texts.getLast? == some "" then texts.dropLast else texts

/-- The files that a pattern stands for. -/
def matching (pattern : String) : Task m (List String) := do
  let (folder, text) := start pattern
  match Wildcard.check pattern, (partTexts text).mapM Wildcard.parse with
  | .error fault, _ | .ok _, .error fault => throw fault.message
  | .ok _, .ok parts =>
      let steps := (files.depth + 2) * (parts.length + 1)
      let found ← (search files steps parts folder : m (List String))
      if pattern.endsWith "/" then found.filterM fun path => (isFolder files path : m Bool)
      else return found

/-- Whether a text is a pattern and not a path. -/
def hasWildcard (text : String) : Bool :=
  text.toList.any fun c => c == '*' || c == '?' || c == '[' || c == '\x7b'

/-- The files that patterns stand for. -/
def resolve (patterns : List String) : Task m (List String) := do
  let found ← patterns.mapM fun pattern => do
    if !hasWildcard pattern then return [pattern]
    else
      let paths ← matching files pattern
      if paths.isEmpty then throw s!"glob pattern matched no files: {pattern}"
      else return paths
  return found.flatten

end Search

end ObjectMapping
