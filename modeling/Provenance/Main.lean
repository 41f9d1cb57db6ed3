import Provenance.Job

/-!
# The program

The program hands its arguments to `Provenance.Job.respond` together with access to the files of the
machine, prints what comes back and ends with its status.
-/

namespace Provenance

/-- A fault that the operating system reports by a number, which may come negated, and in words. -/
def FileFault.ofReport (number : UInt32) (words : String) : FileFault :=
  match (min number (-number)).toNat with
  | 2 => .missing
  | 17 => .alreadyExists
  | 20 => .notDirectory
  | 21 => .isDirectory
  | 36 => .nameTooLong
  | n => .other (words.capitalize ++ " (os error " ++ decimal n ++ ")")

/-- A failed operation as a fault. -/
def FileFault.ofError : IO.Error → FileFault
  | .noFileOrDirectory _ number words | .noSuchThing _ number words
  | .alreadyExists _ number words | .inappropriateType _ number words
  | .permissionDenied _ number words | .invalidArgument _ number words
  | .resourceExhausted _ number words | .resourceBusy number words
  | .illegalOperation number words | .hardwareFault number words
  | .unsupportedOperation number words | .otherError number words => ofReport number words
  | e => .other (toString e)

/-- Carries out an operation and turns its failure into a fault. -/
def attempt {α : Type} (operation : IO α) : IO (Except FileFault α) := do
  match ← operation.toBaseIO with
  | .ok a => return .ok a
  | .error e => return .error (.ofError e)

/-- Carries out an operation on a path, unless there is no such path on any machine. -/
def attemptAt {α : Type} (path : String) (operation : IO α) : IO (Except FileFault α) :=
  match Path.fault? path with
  | some fault => return .error fault
  | none => attempt operation

/-- Access to the directories of the machine, from the root or from the current one. A directory is
there exactly if its own entry for itself is. -/
def machineDirectories (isAbsolute : Bool) : DirectoryAccess IO where
  make names := attempt (IO.FS.createDir (Path.ofNames isAbsolute names))
  stands names := do
    match ← attempt (IO.FS.createDir (Path.ofNames isAbsolute (names ++ ["."]))) with
    | .error .alreadyExists => return true
    | _ => return false

/-- Access to the files of the machine. -/
def machineAccess : FileAccess IO where
  read path := do
    match ← attemptAt path (IO.FS.readBinFile path) with
    | .error fault => return .error fault
    | .ok content => return FileSystem.decode content
  perform
    | .makeDirectories path => (machineDirectories (Path.isAbsolute path)).makeAll path
    | .writeFile path content => attemptAt path (IO.FS.writeFile path content)

end Provenance

/-- Runs the program. -/
def main (arguments : List String) : IO UInt32 := do
  let outcome ← Provenance.Job.respond Provenance.machineAccess arguments
  IO.print outcome.out
  IO.eprint outcome.err
  return UInt32.ofNat outcome.status
