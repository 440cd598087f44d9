import ObjectMapping.CommandLine.Files
import ObjectMapping.CommandLine.Path
import ObjectMapping.Text

/-! # Files in memory

A tree of files and folders, and what reading, writing and looking into folders does with it. A path
is followed name by name: every step starts in a folder that is there, and only the last one may
lead to nothing.

* `FileTree.ofFiles` is a tree with files in a folder, the home, where relative paths start;
  `FileTree.homeFiles` are the files in the home.
* `FileTree.files` reaches the files of a tree. -/

namespace ObjectMapping

/-- The names on the way from the root of all files. -/
abbrev Place := List String

/-- A file that keeps nothing of what is written to it. -/
inductive Device where
  /-- Forgets what is written. -/
  | sink
  /-- Never has room for anything. -/
  | full
deriving DecidableEq, Repr

/-- Files and folders in memory. -/
structure FileTree where
  /-- Where relative paths start. -/
  home : Place
  texts : List (Place × String)
  /-- Folders, in addition to those around the files. -/
  folders : List Place
  devices : List (Place × Device)

namespace FileTree

/-- The places of files and of the folders that have been named. -/
def places (t : FileTree) : List Place :=
  t.texts.map (·.1) ++ t.devices.map (·.1) ++ t.folders

/-! ## Following paths -/

/-- What stands at a place. -/
def kindAt? (t : FileTree) (place : Place) : Option NodeKind :=
  if (t.texts.lookup place).isSome || (t.devices.lookup place).isSome then some .file
  else if place.isEmpty || t.places.any (place.isPrefixOf ·) then some .folder
  else none

/-- The number of bytes that a name has at most. -/
def maxName : Nat := 255

/-- The number of bytes that a path has at most. -/
def maxPath : Nat := 4095

/-- Follows a name from a place, which has to be a folder. Above the root there is the root. -/
def step (t : FileTree) (place : Place) (name : String) : Except FileFault Place :=
  match t.kindAt? place with
  | none => .error .missing
  | some .file => .error .notFolder
  | some .folder =>
      if Path.isIdle name then .ok place
      else if name == ".." then .ok place.dropLast
      else if maxName < Text.byteCount name.toList then .error .tooLong
      else .ok (place ++ [name])

/-- Follows names from the place where a path starts. -/
def walk (t : FileTree) (path : String) (names : List String) : Except FileFault Place :=
  if path.toList.contains '\x00' then .error .zeroInPath
  else if path.isEmpty then .error .missing
  else if maxPath < Text.byteCount path.toList then .error .tooLong
  else names.foldlM t.step (if Path.isAbsolute path then [] else t.home)

/-- The place that a path leads to, whether something stands there or not. -/
def locate (t : FileTree) (path : String) : Except FileFault Place :=
  t.walk path (Path.segments path)

/-- The folder that the last name of a path is looked up in, and that name. There is no name if the
path ends with dots or leads to the root. -/
def holder (t : FileTree) (path : String) : Except FileFault (Place × Option String) := do
  let names := (Path.segments path).filter (· != "")
  let folder ← t.walk path (names.dropLast ++ ["."])
  return (folder, names.getLast?.filter fun name => name != "." && name != "..")

/-! ## Reading -/

/-- The text of a file; devices have none. -/
def read (t : FileTree) (path : String) : Except FileFault String := do
  let place ← t.locate path
  match t.texts.lookup place, t.kindAt? place with
  | some text, _ => return text
  | none, some .file => return ""
  | none, some .folder => .error .isFolder
  | none, none => .error .missing

/-- What stands at a path. -/
def kind? (t : FileTree) (path : String) : Option NodeKind :=
  match t.locate path with
  | .ok place => t.kindAt? place
  | .error _ => none

/-- The names in a folder. -/
def names (t : FileTree) (path : String) : List String :=
  match t.locate path with
  | .ok place =>
      let inside := t.places.filterMap fun p =>
        if place.isPrefixOf p then (p.drop place.length).head? else none
      inside.eraseDups
  | .error _ => []

/-- How many folders are nested. -/
def depth (t : FileTree) : Nat := (t.places.map List.length).foldl max 0

/-! ## Writing -/

/-- Writes an entry in place, or behind the others. -/
def insertText : List (Place × String) → Place → String → List (Place × String)
  | [], place, text => [(place, text)]
  | (p, s) :: rest, place, text =>
      if place == p then (p, text) :: rest else (p, s) :: insertText rest place text

/-- The tree with the text of a file. A slash at the end of the path promises a folder. -/
def write (t : FileTree) (path text : String) : Except FileFault FileTree := do
  match ← t.holder path with
  | (_, none) => .error .isFolder
  | (folder, some name) =>
      if path.endsWith "/" then .error .isFolder
      else
        let place ← t.step folder name
        match t.devices.lookup place, t.kindAt? place with
        | some .sink, _ => return t
        | some .full, _ => if text.isEmpty then return t else .error .full
        | none, some .folder => .error .isFolder
        | none, _ => return { t with texts := insertText t.texts place text }

/-- The tree with a folder. -/
def makeFolder (t : FileTree) (path : String) : Except FileFault FileTree := do
  match ← t.holder path with
  | (_, none) => .error .exists
  | (folder, some name) =>
      let place ← t.step folder name
      match t.kindAt? place with
      | some _ => .error .exists
      | none => return { t with folders := t.folders ++ [place] }

/-! ## The whole tree -/

/-- The folders of a computer that stand beside the home. -/
def usualFolders : List Place :=
  [["bin"], ["boot"], ["dev"], ["etc"], ["home"], ["lib"], ["media"], ["mnt"], ["opt"], ["proc"],
    ["root"], ["run"], ["sbin"], ["srv"], ["sys"], ["tmp"], ["usr", "bin"], ["usr", "lib"],
    ["usr", "local"], ["usr", "share"], ["var", "lib"], ["var", "log"], ["var", "tmp"]]

/-- The tree of a computer whose home holds files, given by their paths from there. -/
def ofFiles (files : List (String × String)) : FileTree :=
  let home := ["tmp", "work"]
  ⟨home, files.map fun (path, text) => (home ++ Path.parts path, text), home :: usualFolders,
    [(["dev", "null"], .sink), (["dev", "full"], .full)]⟩

/-- The files in the home, by the names on the way from there. -/
def homeFiles (t : FileTree) : List (Place × String) :=
  t.texts.filterMap fun (place, text) =>
    if t.home.isPrefixOf place then some (place.drop t.home.length, text) else none

/-- A change of the tree as a step of a program. -/
def change (f : FileTree → Except FileFault FileTree) : StateM FileTree (Except FileFault Unit) :=
  fun t =>
    match f t with
    | .ok changed => (.ok (), changed)
    | .error fault => (.error fault, t)

/-- The files of a tree; `depth` folders are nested. -/
def files (depth : Nat) : Files (StateM FileTree) where
  read path := do return (← get).read path
  write path text := change (·.write path text)
  makeFolder path := change (·.makeFolder path)
  kind? path := do return (← get).kind? path
  names path := do return (← get).names path
  depth := depth

end FileTree

end ObjectMapping
