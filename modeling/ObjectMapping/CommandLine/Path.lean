/-! # Paths

A path is a text that leads from one folder to a file: names with slashes between them. A dot stands
for the folder itself and two dots for the one around it. A path that starts with a slash leads from
the root of all files.

* `Path.parts` are the names on the way.
* `Path.join` and `Path.parent?` go one name further and one name back; both leave the rest of the
  text as it is. -/

namespace ObjectMapping.Path

/-- The texts between the slashes. -/
def segments (path : String) : List String := path.splitOn "/"

/-- Whether a segment leads to where one is already. -/
def isIdle (segment : String) : Bool := segment == "" || segment == "."

/-- Whether a path starts at the root of all files. -/
def isAbsolute (path : String) : Bool := path.startsWith "/"

/-- What a path starts with if that is idle, and the other segments. -/
def splitStart (path : String) : List String × List String :=
  match segments path with
  | first :: rest => if isIdle first then ([first], rest) else ([], first :: rest)
  | [] => ([], [])

/-- The names on the way to a file; the folder itself does not count, except at the start. -/
def parts (path : String) : List String :=
  let (start, rest) := splitStart path
  start.filter (· != "") ++ rest.filter fun segment => !isIdle segment

/-- Whether a path leads nowhere, though it is not empty. -/
def isHere (path : String) : Bool := parts path == ["."]

/-- The path of a file inside of a folder. -/
def join (folder name : String) : String :=
  if folder.isEmpty || folder.endsWith "/" then folder ++ name else folder ++ "/" ++ name

/-- The path of segments; the root has an empty one. -/
def ofSegments : List String → String
  | [""] => "/"
  | segments => "/".intercalate segments

/-- The segments without idle ones at the end. -/
def trimmed (segments : List String) : List String :=
  (segments.reverse.dropWhile isIdle).reverse

/-- The path of the folder around a file, empty for a single name. There is none around the root. -/
def parent? (path : String) : Option String :=
  let (start, rest) := splitStart path
  match trimmed rest with
  | [] => if start == ["."] then some "" else none
  | names => some (ofSegments (start ++ trimmed names.dropLast))

end ObjectMapping.Path
