/-
# Gamebook.Compile — from source text to Lua

A source text is cut into tokens, read and checked; all three report. Unless there are errors, or in
spite of them when asked to, the story is simplified, if that is wanted, and written in Lua.
-/
import Gamebook.Log
import Gamebook.Diagnostic.Validate
import Gamebook.Diagnostic.Suggest

namespace Gamebook

/-- How to compile. -/
structure CompileOptions where
  /-- Simplify the story first. -/
  optimize : Bool := false
  /-- Go on in spite of errors. -/
  force : Bool := false
  /-- Give hints. -/
  suggest : Bool := true
  deriving DecidableEq, Inhabited

/-- A story read from a source text and everything there is to report about it. -/
structure Analysis where
  story : Story
  diagnostics : List Diagnostic
  log : List LogLine

/-- Reads and checks a source text. -/
def analyze (source name : String) (suggest : Bool) : Analysis :=
  let lexed := Lexed.ofSource source
  let reading := Story.ofTokens lexed.tokens
  let story := reading.story
  let checks := story.validate
  let found :=
    lexed.errors.map Diagnostic.ofLexical ++ (reading.errors.map Diagnostic.ofSyntactic ++ checks)
  let hinted := if suggest then Diagnostic.suggest found story else found
  let diagnostics := Diagnostic.attachSnippets hinted source
  { story
    diagnostics
    log := lexed.log name ++ (reading.log name ++ (story.validateLog checks ++
      [⟨.info, displayName name ++ ": " ++ Diagnostic.summarize diagnostics⟩])) }

/-- Everything there is to report about a source text. -/
def check (source name : String) : List Diagnostic := (analyze source name true).diagnostics

/-- The result of compiling. -/
structure Compilation where
  story : Story
  diagnostics : List Diagnostic
  /-- Whether there is a module and there are no errors. -/
  succeeded : Bool
  /-- The Lua module, if one was written. -/
  output : Option String
  log : List LogLine

/-- Writes an analysed story in Lua. -/
def generate (a : Analysis) (name : String) (optimize : Bool) : Compilation :=
  let story := if optimize then a.story.simplify else a.story
  let log := a.log ++ if optimize then a.story.simplifyLog else []
  let (output, line) : Option String × LogLine :=
    match Lua.ofStory story with
    | .ok text => (some text, Lua.log story text)
    | .error u => (none, ⟨.error, displayName name ++ ": " ++ u.message⟩)
  { story
    diagnostics := a.diagnostics
    succeeded := output.isSome && !Diagnostic.hasErrors a.diagnostics
    output
    log := log ++ [line] }

/-- Compiles a source text. -/
def compile (source name : String) (options : CompileOptions) : Compilation :=
  let a := analyze source name options.suggest
  if Diagnostic.hasErrors a.diagnostics && !options.force then
    ⟨a.story, a.diagnostics, false, none, a.log⟩
  else generate a name options.optimize

end Gamebook
