/-
# Gamebook.Command.Help — the texts for those who ask
-/

namespace Gamebook.Command

/-- The name and version of the program. -/
def versionText : String := "storyc 0.1.0\n"

/-- The text for a command line that cannot be read. -/
def misuseText : String :=
  "error: unexpected or missing arguments\n\nFor more information, try 'storyc --help'.\n"

/-- The lines on options about how much is shown, and on help. -/
def commonHelp : String :=
  "  -v, --verbose          Log progress to stderr\n" ++
  "  -q, --quiet            Print errors only\n" ++
  "  -h, --help             Print help\n"

/-- The help in general. -/
def generalHelp : String :=
  "Story script compiler\n\n" ++
  "Usage: storyc <COMMAND>\n\n" ++
  "Commands:\n" ++
  "  compile  Compile a story to a Lua module\n" ++
  "  check    Report diagnostics without writing anything\n" ++
  "  watch    Recompile whenever the input changes\n" ++
  "  fmt      Write a story in canonical form\n" ++
  "  help     Print this message or the help of the given command\n\n" ++
  "Options:\n" ++
  "  -h, --help     Print help\n" ++
  "  -V, --version  Print version\n"

/-- The help on a command. -/
def helpOn (name : String) : String :=
  match name with
  | "compile" =>
    "Compile a story to a Lua module\n\n" ++
    "Usage: storyc compile [OPTIONS] <INPUT>\n\n" ++
    "Options:\n" ++
    "  -o, --output <OUTPUT>  Write Lua here instead of stdout\n" ++
    "      --force            Generate output even when there are errors\n" ++
    "      --optimize         Fold constants and drop dead branches first\n" ++
    "      --format <FORMAT>  text or json [default: text]\n" ++ commonHelp
  | "check" =>
    "Report diagnostics without writing anything\n\n" ++
    "Usage: storyc check [OPTIONS] <INPUT>\n\n" ++
    "Options:\n" ++
    "      --format <FORMAT>  text or json [default: text]\n" ++ commonHelp
  | "watch" =>
    "Recompile whenever the input changes\n\n" ++
    "Usage: storyc watch [OPTIONS] --output <OUTPUT> <INPUT>\n\n" ++
    "Options:\n" ++
    "  -o, --output <OUTPUT>  Where to write the Lua module\n" ++
    "      --poll             Look at the input again and again\n" ++
    "      --interval <MS>    Milliseconds between two looks [default: 500]\n" ++
    "      --optimize         Fold constants and drop dead branches first\n" ++ commonHelp
  | "fmt" =>
    "Write a story in canonical form\n\n" ++
    "Usage: storyc fmt [OPTIONS] <INPUT>\n\n" ++
    "Options:\n" ++
    "  -o, --output <OUTPUT>  Write here instead of stdout\n" ++
    "      --check            Only report whether the file is already canonical\n" ++
    "  -h, --help             Print help\n"
  | _ => "Print help on a command\n\nUsage: storyc help [COMMAND]\n"

/-- The help on a topic. -/
def helpText : Option String → String
  | none => generalHelp
  | some name => helpOn name

end Gamebook.Command
