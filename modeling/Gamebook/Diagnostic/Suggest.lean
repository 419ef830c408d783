/-
# Gamebook.Diagnostic.Suggest — hints

A hint says what to do about a diagnostic. Where a name is unknown it offers the closest name there is,
capitals aside: of the names at most a third of the name's length away, two characters at least, the
nearest, and the first of several such. A hint that is there already stays.
-/
import Gamebook.Diagnostic
import Gamebook.Story
import Gamebook.Text.EditDistance
import Gamebook.Text.Lowercase

namespace Gamebook

namespace Suggest

/-- How far apart two names are, capitals aside. -/
def distance (a b : String) : Nat :=
  Text.editDistance (Text.lower a.toList) (Text.lower b.toList)

/-- How far a name may be from the one that was meant. -/
def reach (name : String) : Nat := max (name.length / 3) 2

/-- The first pair with the least distance. -/
def nearest : List (String × Nat) → Option (String × Nat)
  | [] => none
  | c :: cs =>
    match nearest cs with
    | none => some c
    | some d => if d.2 < c.2 then some d else some c

/-- The candidates in reach, with their distances. -/
def inReach (name : String) (candidates : List String) : List (String × Nat) :=
  ((candidates.filter fun c => c ≠ name).map fun c => (c, distance name c)).filter
    fun c => c.2 ≤ reach name

/-- The closest of the candidates other than the name itself. -/
def closest? (name : String) (candidates : List String) : Option String :=
  (nearest (inReach name candidates)).map Prod.fst

/-- The hint for a lexical fault. -/
def lexicalHint? : LexicalFault → Option String
  | .unterminatedString => some "close the string with '\"' before the end of the line"
  | .unterminatedComment => some "close the comment with '*/'"
  | .unterminatedScript => some "close the script block with '>>'"
  | .invalidNumber _ => none

/-- The hint for a stray marker. -/
def markerHint : Marker → String
  | .close => "remove this '\x7b/\x7d' or open a conditional above it"
  | .otherwise => "'\x7belse\x7d' belongs between a '\x7bcondition\x7d' line and its '\x7b/\x7d'"

/-- The hint for a diagnostic about a story with the given passages and assigned variables. -/
def hint? (passages assigned : List String) : Code → Option String
  | .unknownPassage name =>
    (closest? name passages).map fun c => "did you mean '" ++ c ++ "'?"
  | .unassignedVariable name =>
    match closest? name assigned with
    | some c => some ("did you mean '$" ++ c ++ "'?")
    | none => some ("assign it before reading it, e.g. '$" ++ name ++ " = 0'")
  | .duplicatePassage name => some ("rename one of the passages called '" ++ name ++ "'")
  | .missingEntry name =>
    some ("add a passage named '" ++ name ++ "' or point '@start' at an existing one")
  | .unterminatedConditional => some "close the conditional with '\x7b/\x7d'"
  | .unmatched marker => some (markerHint marker)
  | .emptyChoiceText => some "write the text the player sees between '[' and ']'"
  | .lexical fault => lexicalHint? fault
  | .syntactic | .unreachablePassage _ => none

end Suggest

namespace Diagnostic

/-- The diagnostics with hints where there are none yet. -/
def suggest (ds : List Diagnostic) (s : Story) : List Diagnostic :=
  let passages := s.names
  let assigned := s.assigned.names
  ds.map fun d =>
    match d.suggestion with
    | some _ => d
    | none => { d with suggestion := Suggest.hint? passages assigned d.code }

end Diagnostic

end Gamebook
