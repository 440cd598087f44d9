/-! # Files

What a command does with files, without saying where they are: `Files` is a way to reach files, and
`FileFault` why one cannot be reached. -/

namespace ObjectMapping

/-- Why a file cannot be reached. -/
inductive FileFault where
  | missing
  /-- Something is there already. -/
  | exists
  /-- A file on the way to a file. -/
  | notFolder
  | isFolder
  /-- A path with the character zero, which ends the paths of the system. -/
  | zeroInPath
  /-- A path or a name in it that is longer than the system takes. -/
  | tooLong
  /-- No room for what is written. -/
  | full
  | other (reason : String)
deriving DecidableEq, Repr

/-- The text of a fault. -/
def FileFault.message : FileFault → String
  | .missing => "No such file or directory (os error 2)"
  | .exists => "File exists (os error 17)"
  | .notFolder => "Not a directory (os error 20)"
  | .isFolder => "Is a directory (os error 21)"
  | .zeroInPath => "file name contained an unexpected NUL byte"
  | .tooLong => "File name too long (os error 36)"
  | .full => "No space left on device (os error 28)"
  | .other reason => reason

/-- What stands at a path. -/
inductive NodeKind where
  | file
  | folder
deriving DecidableEq, Repr

/-- A way to reach files by the text of their paths. -/
structure Files (m : Type → Type) where
  read : String → m (Except FileFault String)
  write : String → String → m (Except FileFault Unit)
  /-- Makes a folder inside of one that is there. -/
  makeFolder : String → m (Except FileFault Unit)
  /-- What stands at a path, if anything does. -/
  kind? : String → m (Option NodeKind)
  /-- The names in a folder. -/
  names : String → m (List String)
  /-- How many folders can be nested. -/
  depth : Nat

end ObjectMapping
