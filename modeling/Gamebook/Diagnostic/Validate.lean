/-
# Gamebook.Diagnostic.Validate — checking a story

One checker goes over a story, and remembers what it has met and what there is to report. The reports come in
this order:

* a name that an earlier passage has;
* statement by statement, variables that are read and never assigned, each reported at its first
  reading only, choices without text, targets that are no passage, conditionals that are not closed,
  and markers without a conditional;
* an entry that is no passage;
* passages that nothing leads to. Of passages with one name only the first is reported; it is known by
  its place.
-/
import Gamebook.Diagnostic
import Gamebook.Story
import Gamebook.Text.Blank

namespace Gamebook

namespace Validate

/-! ## Reports -/

/-- The report of a passage whose name another one at `first` has already. -/
def duplicate (first : Position) (p : Passage) : Diagnostic :=
  .error (.duplicatePassage p.name) p.pos
    ("duplicate passage '" ++ p.name ++ "' (first defined at line " ++ toString first.line ++ ")")

/-- The report of a variable that no statement assigns. -/
def unassigned (name : String) (pos : Position) : Diagnostic :=
  .warning (.unassignedVariable name) pos
    ("variable '$" ++ name ++ "' is read but never assigned")

/-- The report of a target that is no passage. -/
def unknown (target : String) (pos : Position) : Diagnostic :=
  .error (.unknownPassage target) pos ("unknown passage '" ++ target ++ "'")

/-- The report of a choice without text. -/
def untitled (pos : Position) : Diagnostic :=
  .warning .emptyChoiceText pos "choice has no display text"

/-- The report of a conditional without a closing marker. -/
def unterminated (opening : Position) : Diagnostic :=
  .error .unterminatedConditional opening "conditional is never closed"

/-- The report of a marker without a conditional. -/
def unmatched (marker : Marker) (pos : Position) : Diagnostic :=
  .error (.unmatched marker) pos ("'" ++ marker.spelling ++ "' has no open conditional")

/-- The report of an entry that is no passage. -/
def missing (name : String) (pos : Position) : Diagnostic :=
  .warning (.missingEntry name) pos ("story has no entry passage '" ++ name ++ "'")

/-- The report of a passage that nothing leads to. -/
def unreferenced (p : Passage) : Diagnostic :=
  .warning (.unreachablePassage p.name) p.pos ("passage '" ++ p.name ++ "' is never referenced")

/-! ## The checker -/

/-- What a checker has met in a story, and what there is to report. -/
structure Checker where
  /-- The names of passages, each with the place of the first one that has it. -/
  defined : List (String × Position)
  /-- The variables that some statement of the story assigns. -/
  assigned : NameSet
  /-- The names that a statement leads to. -/
  referenced : NameSet
  /-- The variables that have been reported. -/
  reported : NameSet
  diagnostics : Array Diagnostic

namespace Checker

/-- A checker that has met nothing. -/
def start (s : Story) : Checker := ⟨[], s.assigned, .empty, .empty, #[]⟩

/-- Adds a report. -/
def report (c : Checker) (d : Diagnostic) : Checker := { c with diagnostics := c.diagnostics.push d }

/-- Meets the name of a passage. -/
def define (c : Checker) (p : Passage) : Checker :=
  match c.defined.lookup p.name with
  | some first => c.report (duplicate first p)
  | none => { c with defined := (p.name, p.pos) :: c.defined }

/-- Meets a reading of a variable. -/
def reading (c : Checker) (r : String × Position) : Checker :=
  if c.assigned.contains r.1 || c.reported.contains r.1 then c
  else { c with reported := c.reported.insert r.1 }.report (unassigned r.1 r.2)

/-- Meets the readings of an expression. -/
def reads (c : Checker) (e : Expr) : Checker := e.reads.foldl reading c

/-- Meets a target. -/
def reference (c : Checker) (target : String) (pos : Position) : Checker :=
  let c := { c with referenced := c.referenced.insert target }
  if (c.defined.lookup target).isSome then c else c.report (unknown target pos)

/-- Checks a choice. -/
def choice (c : Checker) (offer : Choice) : Checker :=
  let c :=
    match offer.guard with
    | none => c
    | some guard => c.reads guard
  let c := if (Text.trim offer.text.toList).isEmpty then c.report (untitled offer.pos) else c
  match offer.target with
  | none => c
  | some target => c.reference target offer.pos

mutual

/-- Checks a statement and the statements inside it. -/
def node (c : Checker) : Node → Checker
  | .text _ _ | .script _ _ => c
  | .choice offer => c.choice offer
  | .assignment a => c.reads a.value
  | .conditional guard body otherwise opening closing =>
    let c := c.reads guard
    let c := if closing.isNone then c.report (unterminated opening) else c
    let c := nodes c body
    match otherwise with
    | none => c
    | some branch => nodes c branch
  | .divert target pos => c.reference target pos
  | .stray marker pos => c.report (unmatched marker pos)

/-- Checks the statements of a body. -/
def nodes (c : Checker) : List Node → Checker
  | [] => c
  | n :: ns => nodes (node c n) ns

end

/-- Checks that the story has its entry. A missing one is reported at the first passage. -/
def entry (c : Checker) (s : Story) : Checker :=
  match s.passages with
  | [] => c
  | first :: _ => if (s.find? s.entryName).isNone then c.report (missing s.entryName first.pos) else c

/-- Checks that something leads to a passage, if it is the first of its name. -/
def reached (s : Story) (c : Checker) (p : Passage) : Checker :=
  if c.defined.lookup p.name = some p.pos && p.name ≠ s.entryName && !c.referenced.contains p.name then
    c.report (unreferenced p)
  else c

end Checker

end Validate

namespace Story

/-- Everything there is to report about a story. -/
def validate (s : Story) : List Diagnostic :=
  let c := s.passages.foldl Validate.Checker.define (.start s)
  let c := s.passages.foldl (fun c p => c.nodes p.body) c
  (s.passages.foldl (.reached s) (c.entry s)).diagnostics.toList

end Story

end Gamebook
