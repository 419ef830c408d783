/-
# Gamebook.Command — what can be asked for on the command line
-/
import Gamebook.Compile

namespace Gamebook

/-- How diagnostics are shown. -/
inductive ReportFormat where
  | text
  | json
  deriving DecidableEq, Inhabited

/-- The format of a name. -/
def ReportFormat.ofName? (name : String) : Option ReportFormat :=
  if name = "text" then some .text else if name = "json" then some .json else none

/-- How much is shown. -/
inductive Verbosity where
  | quiet
  | normal
  | verbose
  deriving DecidableEq, Inhabited

namespace Verbosity

/-- The least level of the log that is shown. -/
def threshold : Verbosity → LogLevel
  | quiet => .error
  | normal => .warn
  | verbose => .debug

/-- Whether a line of the log is shown. -/
def shows (v : Verbosity) (l : LogLine) : Bool := v.threshold.weight ≤ l.level.weight

end Verbosity

/-- A command. -/
inductive Command where
  /-- Writes the Lua module of a story. -/
  | compile (input : String) (output : Option String) (options : CompileOptions)
      (format : ReportFormat) (verbosity : Verbosity)
  /-- Reports on a story. -/
  | check (input : String) (format : ReportFormat) (verbosity : Verbosity)
  /-- Compiles a story now and again whenever it changes. `polling` is the time between two looks in
  milliseconds, `none` when the system tells of changes. -/
  | watch (input output : String) (polling : Option Nat) (optimize : Bool) (verbosity : Verbosity)
  /-- Writes a story in its canonical text, or tells whether it is in it. -/
  | format (input : String) (output : Option String) (check : Bool)
  deriving DecidableEq, Inhabited

/-- What a command line asks for. -/
inductive Invocation where
  | command (requested : Command)
  | version
  /-- Help, on one of the commands or in general. -/
  | help (topic : Option String)
  | misuse
  deriving DecidableEq, Inhabited

end Gamebook
