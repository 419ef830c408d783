/-
# Gamebook.Main — the command line

The only module that touches the world: it hands the files and the arguments over, prints what comes
back and, for a watched file, looks at it again and again.
-/
import Gamebook.Command.Run

namespace Gamebook.Command

/-- The number of an error, which may come with its sign turned. -/
def errorNumber (code : UInt32) : Nat :=
  if code.toNat < 0x80000000 then code.toNat else 0x100000000 - code.toNat

/-- The error of the operating system behind a failed action. -/
def fileError : IO.Error → FileError
  | .noFileOrDirectory .. => .missing
  | .inappropriateType _ code details | .permissionDenied _ code details =>
    match errorNumber code with
    | 20 => .notDirectory
    | 21 => .isDirectory
    | n => .system n details
  | e => .system 5 (toString e)

/-- Carries out an action on a file. -/
def attempt {α : Type} (action : IO α) : IO (Except FileError α) := do
  try
    return .ok (← action)
  catch e =>
    return .error (fileError e)

/-- Access to the files of the system. -/
def systemFiles : FileAccess IO where
  read path := do
    match ← attempt (IO.FS.readBinFile path) with
    | .error e => return .error e
    | .ok bytes =>
      match String.fromUTF8? bytes with
      | some text => return .ok text
      | none => return .error .undecodable
  write path text := attempt (IO.FS.writeFile path text)
  present path := do
    match ← attempt (IO.FS.Handle.mk path .read) with
    | .ok _ => return true
    | .error _ => return false

/-- The text of a file, if it can be read. -/
def textOf? (path : String) : IO (Option String) := do return (← systemFiles.read path).toOption

/-- Looks at the input again and again and compiles it when it has changed. -/
partial def keepWatching (input output : String) (interval : Nat) (optimize : Bool)
    (verbosity : Verbosity) (last : Option String) : IO Unit := do
  IO.sleep interval.toUInt32
  let now ← textOf? input
  if now ≠ last then
    IO.eprint (← rebuild systemFiles input output optimize verbosity)
  keepWatching input output interval optimize verbosity now

end Gamebook.Command

open Gamebook in
/-- Runs the command line. -/
def main (args : List String) : IO UInt32 := do
  let invocation := Invocation.ofArgs args
  let outcome ← invocation.run Command.systemFiles
  IO.print outcome.stdout
  IO.eprint outcome.stderr
  match invocation, outcome.exit with
  | .command (.watch input output polling optimize verbosity), .watching =>
    let interval := polling.getD Command.defaultInterval
    let now ← Command.textOf? input
    Command.keepWatching input output interval optimize verbosity now
    return 0
  | _, exit => return exit.code.toUInt32
