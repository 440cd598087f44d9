import ObjectMapping.CommandLine.Execution

/-! # The program

Runs the command line on the files of the computer. Results go to the output, messages to the error
output; the exit code is one for a failed command and two for arguments that make no sense. -/

namespace ObjectMapping

/-- The reason behind an error of the operating system. -/
def FileFault.ofError : IO.Error → FileFault
  | .noFileOrDirectory .. => .missing
  | .alreadyExists .. => .exists
  | .inappropriateType _ code _ => if code == 20 then .notFolder else .isFolder
  | .invalidArgument _ code _ => if code == 36 then .tooLong else .zeroInPath
  | .resourceExhausted .. => .full
  | e => .other (toString e)

/-- An action on files and its outcome. -/
def attempt {α : Type} (action : IO α) : IO (Except FileFault α) := do
  match ← action.toBaseIO with
  | .ok a => return .ok a
  | .error e => return .error (.ofError e)

/-- The files of the computer. No path is longer than 4096 bytes. -/
def computerFiles : Files IO where
  read path := attempt (IO.FS.readFile path)
  write path text := attempt (IO.FS.writeFile path text)
  makeFolder path := attempt (IO.FS.createDir path)
  kind? path := do
    let place := (← IO.currentDir) / path
    if ← place.isDir then return some .folder
    else return if ← place.pathExists then some .file else none
  names path := do
    let place := (← IO.currentDir) / path
    return (← place.readDir).toList.map (·.fileName)
  depth := 4096

/-- How to call the program. -/
def helpText : String :=
  "Usage: plan --schema FILE... [--source CLASS --target CLASS] [--out FILE]\n" ++
  "       map --schema FILE... --source CLASS --target CLASS --input FILE\n" ++
  "           [--json-pointer POINTER] [--extra FILE] [--update-target FILE] [--out FILE]"

end ObjectMapping

open ObjectMapping in
/-- Runs the command that the arguments ask for. -/
def main (arguments : List String) : IO UInt32 := do
  match ← CommandLine.run computerFiles arguments with
  | .ok printed =>
      IO.print printed
      return 0
  | .error (.usage .displayHelp) =>
      IO.println helpText
      return 0
  | .error (.usage fault) =>
      IO.eprintln ("error: " ++ fault.name ++ "\n" ++ helpText)
      return 2
  | .error (.failed message) =>
      IO.eprintln ("error: " ++ message)
      return 1
