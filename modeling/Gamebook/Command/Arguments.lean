/-
# Gamebook.Command.Arguments — reading the command line

A command takes one path and options. An option has a long name, `--output`, and perhaps a letter,
`-o`; its value stands in the same argument, with or without an equals sign after a letter, or is the
next argument, unless that starts with a dash. Letters of options without value may be put together.
After `--` everything is a path, and a single dash is a path as well.

Arguments are read from left to right. The first mistake or request for help ends the reading; what
concerns all arguments together, such as a missing path, is found last.
-/
import Gamebook.Command

namespace Gamebook

namespace Command

/-! ## Options -/

/-- What an option takes. -/
inductive OptionValue where
  | nothing
  | path
  | format
  | count
  deriving DecidableEq, Inhabited

/-- The largest number that an option takes, `2 ^ 64 - 1`. -/
def maxCount : Nat := 18446744073709551615

/-- A number in decimal digits, perhaps after a plus sign, if it is not too large. -/
def readCount? (text : String) : Option Nat :=
  let ds :=
    match text.toList with
    | '+' :: cs => cs
    | cs => cs
  if !ds.isEmpty && ds.all Char.isDigit then
    let n := Decimal.value ds
    if n ≤ maxCount then some n else none
  else none

namespace OptionValue

/-- Whether a text is a value of the kind. No path is empty. -/
def accepts : OptionValue → String → Bool
  | nothing, _ => false
  | path, text => text ≠ ""
  | format, text => (ReportFormat.ofName? text).isSome
  | count, text => (readCount? text).isSome

end OptionValue

/-- An option of a command. -/
structure Switch where
  name : String
  letter : Option Char
  value : OptionValue
  deriving DecidableEq, Inhabited

/-! ## Arguments one by one -/

/-- What one argument, or one letter of it, says. -/
inductive Item where
  | path (text : String)
  | option (switch : Switch) (value : Option String)
  | help
  | mistake
  deriving DecidableEq, Inhabited

/-- Whether an argument is read as options. -/
def isDashed (arg : String) : Bool :=
  match arg.toList with
  | ['-'] => false
  | '-' :: _ => true
  | _ => false

/-- The items of letters put together, and the option that still needs a value. -/
def readLetters (switches : List Switch) : List Char → List Item × Option Switch
  | [] => ([], none)
  | c :: cs =>
    if c = 'h' then ([.help], none)
    else
      match switches.find? fun s => s.letter = some c with
      | none => ([.mistake], none)
      | some s =>
        if s.value = .nothing then
          let (items, waiting) := readLetters switches cs
          (.option s none :: items, waiting)
        else
          match cs with
          | [] => ([], some s)
          | '=' :: v => ([.option s (some (String.ofList v))], none)
          | v => ([.option s (some (String.ofList v))], none)

/-- The items of a long name with perhaps a value, and the option that still needs a value. -/
def readLong (switches : List Switch) (cs : List Char) : List Item × Option Switch :=
  let name := String.ofList (cs.takeWhile (· ≠ '='))
  let value :=
    match cs.dropWhile (· ≠ '=') with
    | [] => none
    | _ :: v => some (String.ofList v)
  if name = "help" then (if value.isNone then [.help] else [.mistake], none)
  else
    match switches.find? fun s => s.name = name with
    | none => ([.mistake], none)
    | some s =>
      match s.value, value with
      | .nothing, none => ([.option s none], none)
      | .nothing, some _ => ([.mistake], none)
      | _, some v => ([.option s (some v)], none)
      | _, none => ([], some s)

/-- The items of an argument that is read as options, and the option that still needs a value. -/
def readDashed (switches : List Switch) (arg : String) : List Item × Option Switch :=
  match arg.toList with
  | '-' :: '-' :: cs => readLong switches cs
  | _ :: cs => readLetters switches cs
  | [] => ([], none)

/-- The items of all arguments, when an option may still need a value. -/
def readItems (switches : List Switch) : Option Switch → List String → List Item
  | none, [] => []
  | some _, [] => [.mistake]
  | none, arg :: rest =>
    if arg = "--" then rest.map .path
    else if isDashed arg then
      let (items, waiting) := readDashed switches arg
      items ++ readItems switches waiting rest
    else .path arg :: readItems switches none rest
  | some s, arg :: rest =>
    if isDashed arg then [.mistake] else .option s (some arg) :: readItems switches none rest

/-! ## Arguments together -/

/-- Why reading the arguments ended early. -/
inductive Stop where
  | help
  | mistake
  deriving DecidableEq, Inhabited

/-- The arguments of a command. -/
structure Arguments where
  input : Option String
  options : List (String × Option String)
  deriving DecidableEq, Inhabited

namespace Arguments

/-- No arguments. -/
def empty : Arguments := ⟨none, []⟩

/-- Whether an option is given. -/
def has (a : Arguments) (name : String) : Bool := (a.options.lookup name).isSome

/-- The value of an option. -/
def value? (a : Arguments) (name : String) : Option String := (a.options.lookup name).join

/-- Adds an item. Everything may be given once. -/
def add (a : Arguments) : Item → Except Stop Arguments
  | .help => .error .help
  | .mistake => .error .mistake
  | .path text =>
    if a.input.isSome || text = "" then .error .mistake else .ok { a with input := some text }
  | .option s value =>
    if a.has s.name || !value.all s.value.accepts then .error .mistake
    else .ok { a with options := (s.name, value) :: a.options }

/-- Reads the arguments of a command with the given options. -/
def read (switches : List Switch) (args : List String) : Except Stop Arguments :=
  (readItems switches none args).foldlM add empty

/-- How much to show; an error if more and less are asked for. -/
def verbosity (a : Arguments) : Except Stop Verbosity :=
  match a.has "verbose", a.has "quiet" with
  | true, true => .error .mistake
  | true, false => .ok .verbose
  | false, true => .ok .quiet
  | false, false => .ok .normal

/-- How to show diagnostics. -/
def reportFormat (a : Arguments) : ReportFormat :=
  ((a.value? "format").bind ReportFormat.ofName?).getD .text

/-- Something that must be given. -/
def require (value : Option String) : Except Stop String :=
  match value with
  | some text => .ok text
  | none => .error .mistake

end Arguments

/-! ## Commands -/

/-- An option without value and letter. -/
def flag (name : String) : Switch := ⟨name, none, .nothing⟩

/-- The path to write to. -/
def outputSwitch : Switch := ⟨"output", some 'o', .path⟩

/-- The format of diagnostics. -/
def formatSwitch : Switch := ⟨"format", none, .format⟩

/-- The options on how much is shown. -/
def verbositySwitches : List Switch :=
  [⟨"verbose", some 'v', .nothing⟩, ⟨"quiet", some 'q', .nothing⟩]

/-- The time between two looks at the input unless another is given. -/
def defaultInterval : Nat := 500

/-- Reads the arguments of `compile`. -/
def readCompile (args : List String) : Except Stop Command := do
  let a ← Arguments.read
    (outputSwitch :: flag "force" :: flag "optimize" :: formatSwitch :: verbositySwitches) args
  let verbosity ← a.verbosity
  let input ← Arguments.require a.input
  return .compile input (a.value? "output") ⟨a.has "optimize", a.has "force", true⟩ a.reportFormat
    verbosity

/-- Reads the arguments of `check`. -/
def readCheck (args : List String) : Except Stop Command := do
  let a ← Arguments.read (formatSwitch :: verbositySwitches) args
  let verbosity ← a.verbosity
  let input ← Arguments.require a.input
  return .check input a.reportFormat verbosity

/-- Reads the arguments of `watch`. -/
def readWatch (args : List String) : Except Stop Command := do
  let a ← Arguments.read
    (outputSwitch :: flag "poll" :: ⟨"interval", none, .count⟩ :: flag "optimize" ::
      verbositySwitches) args
  let verbosity ← a.verbosity
  let input ← Arguments.require a.input
  let output ← Arguments.require (a.value? "output")
  let interval := ((a.value? "interval").bind readCount?).getD defaultInterval
  return .watch input output (if a.has "poll" then some interval else none) (a.has "optimize")
    verbosity

/-- Reads the arguments of `fmt`. -/
def readFormat (args : List String) : Except Stop Command := do
  let a ← Arguments.read [outputSwitch, flag "check"] args
  let input ← Arguments.require a.input
  return .format input (a.value? "output") (a.has "check")

/-- The commands by name. -/
def readers : List (String × (List String → Except Stop Command)) :=
  [("compile", readCompile), ("check", readCheck), ("watch", readWatch), ("fmt", readFormat)]

/-- The names that help can be asked about. -/
def topics : List String := readers.map Prod.fst ++ ["help"]

end Command

namespace Invocation

/-- Reads the name of a command and its arguments. -/
def ofCommand (name : String) (args : List String) : Invocation :=
  match Command.readers.lookup name with
  | none => .misuse
  | some reader =>
    match reader args with
    | .ok c => .command c
    | .error .help => .help (some name)
    | .error .mistake => .misuse

/-- Reads what help is asked about. -/
def ofHelp : List String → Invocation
  | [] => .help none
  | [name] => if Command.topics.contains name then .help (some name) else .misuse
  | _ => .misuse

/-- Reads a command line. -/
def ofArgs : List String → Invocation
  | [] => .misuse
  | arg :: rest =>
    match arg.toList with
    | '-' :: 'V' :: _ => .version
    | '-' :: 'h' :: _ => .help none
    | _ =>
      if arg = "--version" then .version
      else if arg = "--help" then .help none
      else if arg = "help" then ofHelp rest
      else ofCommand arg rest

end Invocation

end Gamebook
