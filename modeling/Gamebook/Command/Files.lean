/-
# Gamebook.Command.Files — what commands need of a file system

Commands read and write whole files by path. Where the files are is left open: `FileAccess` is what a
command gets, over any monad.
-/

namespace Gamebook

/-- Why a file cannot be read or written. -/
inductive FileError where
  /-- The operating system refuses, with the number and text of its error. -/
  | system (code : Nat) (text : String)
  /-- The file holds no text. -/
  | undecodable
  deriving DecidableEq, Inhabited

namespace FileError

/-- Nothing has the path. -/
def missing : FileError := system 2 "No such file or directory"

/-- The path leads through something that is no directory. -/
def notDirectory : FileError := system 20 "Not a directory"

/-- A directory has the path. -/
def isDirectory : FileError := system 21 "Is a directory"

/-- The wording. -/
def message : FileError → String
  | system code text => text ++ " (os error " ++ toString code ++ ")"
  | undecodable => "stream did not contain valid UTF-8"

/-- The wording when a file cannot be read. -/
def readMessage (e : FileError) (path : String) : String :=
  "failed to read " ++ path ++ ": " ++ e.message

/-- The wording when a file cannot be written. -/
def writeMessage (e : FileError) (path : String) : String :=
  "failed to write " ++ path ++ ": " ++ e.message

end FileError

/-- Access to files. -/
structure FileAccess (m : Type → Type) where
  /-- Reads a text. -/
  read : String → m (Except FileError String)
  /-- Writes a text, in the place of what was there. -/
  write : String → String → m (Except FileError Unit)
  /-- Whether there is something at the path. -/
  present : String → m Bool

/-- The directory that a path is in. -/
def directoryOf (path : String) : String :=
  let isEmptyStep (step : String) : Bool := step = "" || step = "."
  let steps := (path.splitOn "/").reverse.dropWhile isEmptyStep
  match (steps.drop 1).reverse with
  | [] => "."
  | [""] => "/"
  | above => "/".intercalate above

end Gamebook
