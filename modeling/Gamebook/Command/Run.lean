/-
# Gamebook.Command.Run — carrying out commands

What a command does to files it does through a `FileAccess`; what it says is collected in an `Outcome`.
A command reads its input once and writes at most one file, after everything else has gone well.
-/
import Gamebook.Command.Arguments
import Gamebook.Command.Files
import Gamebook.Command.Help
import Gamebook.Diagnostic.Json
import Gamebook.Story.Render

namespace Gamebook

/-- How a command ends. -/
inductive Exit where
  | success
  | failure
  | misuse
  /-- The command goes on watching its input. -/
  | watching
  deriving DecidableEq, Inhabited

namespace Exit

/-- Success or failure. -/
def ofBool (b : Bool) : Exit := if b then success else failure

/-- The exit status. -/
def code : Exit → Nat
  | success | watching => 0
  | failure => 1
  | misuse => 2

end Exit

/-- What a command said and how it ended. -/
structure Outcome where
  stdout : String
  stderr : String
  exit : Exit
  deriving DecidableEq, Inhabited

namespace Outcome

/-- The end of a command that has said `said` and failed. -/
def failed (said message : String) : Outcome := ⟨"", said ++ "error: " ++ message ++ "\n", .failure⟩

end Outcome

namespace Command

/-! ## Saying -/

/-- The lines of the log that are shown. -/
def shownLog (v : Verbosity) (log : List LogLine) : String :=
  String.join ((log.filter v.shows).map fun l => l.text ++ "\n")

/-- Diagnostics as shown: with their source lines and a summary, or as JSON. `quiet` leaves out
warnings and the summary. -/
def report (ds : List Diagnostic) (source input : String) (format : ReportFormat) (quiet : Bool) :
    String :=
  let shown := if quiet then ds.filter Diagnostic.isError else ds
  match format with
  | .json => (Json.arr (shown.map Diagnostic.json)).render ++ "\n"
  | .text =>
    String.join (shown.map fun d => d.format source input ++ "\n\n") ++
      if quiet then "" else input ++ ": " ++ Diagnostic.summarize ds ++ "\n"

/-! ## Commands -/

variable {m : Type → Type} [Monad m]

/-- Writes to a file, or to the standard output without one. -/
def deliver (files : FileAccess m) (output : Option String) (text said : String) (exit : Exit) :
    m Outcome := do
  match output with
  | none => return ⟨text, said, exit⟩
  | some path =>
    match ← files.write path text with
    | .ok () => return ⟨"", said, exit⟩
    | .error e => return .failed said (e.writeMessage path)

/-- Compiles a file. -/
def runCompile (files : FileAccess m) (input : String) (output : Option String)
    (options : CompileOptions) (format : ReportFormat) (verbosity : Verbosity) : m Outcome := do
  match ← files.read input with
  | .error e => return .failed "" (e.readMessage input)
  | .ok source =>
    let c := Gamebook.compile source input options
    let said := shownLog verbosity c.log ++
      report c.diagnostics source input format (verbosity = .quiet)
    let exit := Exit.ofBool (c.succeeded || (options.force && c.output.isSome))
    match c.output with
    | none => return ⟨"", said, exit⟩
    | some text => deliver files output text said exit

/-- Checks a file. -/
def runCheck (files : FileAccess m) (input : String) (format : ReportFormat)
    (verbosity : Verbosity) : m Outcome := do
  match ← files.read input with
  | .error e => return .failed "" (e.readMessage input)
  | .ok source =>
    let a := analyze source input true
    let log := shownLog verbosity a.log
    let shown := report a.diagnostics source input format (verbosity = .quiet)
    let exit := Exit.ofBool (!Diagnostic.hasErrors a.diagnostics)
    match format with
    | .json => return ⟨shown, log, exit⟩
    | .text => return ⟨"", log ++ shown, exit⟩

/-- Compiles a watched file and tells how it went. The output is written only if there are no
errors. -/
def rebuild (files : FileAccess m) (input output : String) (optimize : Bool)
    (verbosity : Verbosity) : m String := do
  match ← files.read input with
  | .error e => return "build failed: " ++ e.readMessage input ++ "\n"
  | .ok source =>
    let c := Gamebook.compile source input ⟨optimize, false, true⟩
    let said := shownLog verbosity c.log ++ report c.diagnostics source input .text false
    match c.output, c.succeeded with
    | some text, true =>
      match ← files.write output text with
      | .ok () => return said ++ "compiled " ++ input ++ " -> " ++ output ++ "\n"
      | .error e => return said ++ "build failed: " ++ e.writeMessage output ++ "\n"
    | _, _ => return said ++ input ++ " has errors, " ++ output ++ " left unchanged\n"

/-- Compiles a file for the first time and starts to watch it. Without polling its directory has to be
there. -/
def runWatch (files : FileAccess m) (input output : String) (polling : Option Nat) (optimize : Bool)
    (verbosity : Verbosity) : m Outcome := do
  let said ← rebuild files input output optimize verbosity
  let directory := directoryOf input
  if polling.isSome || (← files.present directory) then
    return ⟨"", said ++ "watching " ++ input ++ " for changes (press Ctrl+C to stop)...\n", .watching⟩
  else
    return .failed said
      ("failed to watch " ++ directory ++ ": No path was found. about [\"" ++ directory ++ "\"]")

/-- Writes a file in its canonical text, or tells whether it is in it. -/
def runFormat (files : FileAccess m) (input : String) (output : Option String) (check : Bool) :
    m Outcome := do
  match ← files.read input with
  | .error e => return .failed "" (e.readMessage input)
  | .ok source =>
    match Story.ofSource source with
    | .error e => return ⟨"", input ++ ": " ++ e.message ++ "\n", .failure⟩
    | .ok story =>
      let text := story.render
      if check then
        if text = Text.normalize source then return ⟨"", input ++ ": formatted\n", .success⟩
        else return ⟨"", input ++ ": not formatted\n", .failure⟩
      else deliver files output text "" .success

/-- Carries out a command. -/
def run (files : FileAccess m) : Command → m Outcome
  | .compile input output options style verbosity =>
    runCompile files input output options style verbosity
  | .check input style verbosity => runCheck files input style verbosity
  | .watch input output polling optimize verbosity =>
    runWatch files input output polling optimize verbosity
  | .format input output checking => runFormat files input output checking

end Command

namespace Invocation

/-- Carries out what a command line asks for. -/
def run {m : Type → Type} [Monad m] (files : FileAccess m) : Invocation → m Outcome
  | command c => c.run files
  | version => return ⟨Command.versionText, "", .success⟩
  | help topic => return ⟨Command.helpText topic, "", .success⟩
  | misuse => return ⟨"", Command.misuseText, .misuse⟩

end Invocation

end Gamebook
