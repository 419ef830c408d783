/-
# Gamebook.Story.Assembly — from lines to the body of a passage

The body of a passage is put together line by line. An assembly holds the statements of the innermost
open block and a frame for each conditional around it. Opening a conditional pushes a frame, its
closing marker pops one, and the end of the passage closes what is still open, without a place. So
the nesting of conditionals is the number of frames, and what a line does depends on the assembly
alone.

A conditional inside `maxNesting` others is reported and skipped through its closing marker. While
skipping, only braces at the start of a line and closing markers count; what follows the last closing
marker on its line is read as a line of its own.
-/
import Gamebook.Story.Statement
import Gamebook.Story.Incident

namespace Gamebook

/-- A conditional that is not closed yet. -/
structure Frame where
  guard : Expr
  pos : Position
  /-- The statements before the conditional in its block. -/
  before : Array Node
  /-- The finished first branch, once the dividing marker has been read. -/
  first : Option (Array Node)

/-- The conditional of a frame, when its last branch holds `nodes`. -/
def Frame.toNode (f : Frame) (nodes : Array Node) (closing : Option Position) : Node :=
  match f.first with
  | none => .conditional f.guard nodes.toList none f.pos closing
  | some body => .conditional f.guard body.toList (some nodes.toList) f.pos closing

/-- The state of reading the body of a passage. -/
structure Assembly where
  /-- The statements of the innermost open block so far. -/
  nodes : Array Node
  /-- The open conditionals, innermost first. -/
  frames : List Frame
  /-- While a conditional is skipped: how many braces wait for their closing marker. -/
  skipping : Option Nat
  incidents : Array Incident

namespace Assembly

/-- Nothing read yet. -/
def empty : Assembly := ⟨#[], [], none, #[]⟩

/-- Appends a statement to the innermost block. -/
def push (a : Assembly) (n : Node) : Assembly := { a with nodes := a.nodes.push n }

/-- Notes an incident. -/
def note (a : Assembly) (i : Incident) : Assembly := { a with incidents := a.incidents.push i }

/-- Opens a conditional. -/
def openBlock (a : Assembly) (guard : Expr) (pos : Position) : Assembly :=
  { a with nodes := #[], frames := ⟨guard, pos, a.nodes, none⟩ :: a.frames }

/-- Closes the innermost conditional, if one is open. -/
def closeBlock (a : Assembly) (closing : Option Position) : Assembly :=
  match a.frames with
  | [] => a
  | f :: fs => { a with nodes := f.before.push (f.toNode a.nodes closing), frames := fs }

/-- What a closing or dividing marker does. A marker without a conditional, and a second dividing
marker in one conditional, are statements of their own. -/
def mark (a : Assembly) (marker : Marker) (pos : Position) : Assembly :=
  match a.frames, marker with
  | [], _ => a.push (.stray marker pos)
  | _ :: _, .close => a.closeBlock (some pos)
  | f :: fs, .otherwise =>
    match f.first with
    | none => { a with nodes := #[], frames := { f with first := some a.nodes } :: fs }
    | some _ => a.push (.stray .otherwise pos)

/-! ## Skipping -/

/-- Passes over tokens while `waiting` braces wait for their closing marker: how many wait at the end of
the line, or what is left of it after the last closing marker. -/
def skip (waiting : Nat) (atStart : Bool) : List Token → Nat ⊕ List Token
  | [] => .inl waiting
  | t :: ts =>
    match t.kind with
    | .opening .brace => skip (if atStart then waiting + 1 else waiting) false ts
    | .marker .close => if waiting ≤ 1 then .inr ts else skip (waiting - 1) false ts
    | _ => skip waiting false ts

/-- What is left of a line after skipping is shorter than the line. -/
theorem length_lt_of_skip {waiting : Nat} {atStart : Bool} {ts rest : List Token}
    (h : skip waiting atStart ts = .inr rest) : rest.length < ts.length := by
  induction ts generalizing waiting atStart with
  | nil => simp [skip] at h
  | cons t ts ih =>
    simp only [skip] at h
    split at h
    · exact Nat.lt_succ_of_lt (ih h)
    · split at h
      · cases h
        exact Nat.lt_succ_self _
      · exact Nat.lt_succ_of_lt (ih h)
    · exact Nat.lt_succ_of_lt (ih h)

/-! ## Lines -/

/-- Reads the line that starts with the marker token `t`. What follows the marker is reported, and the
marker counts all the same. -/
def markerLine (a : Assembly) (stop : LineEnd) (marker : Marker) (t : Token) (ts : List Token) :
    Assembly :=
  match stop.expectEnd ts with
  | .ok _ => a.mark marker t.pos
  | .error e => (a.note (.ofLine (t :: ts) e)).mark marker t.pos

/-- Reads the line that opens a conditional. A guard that cannot be read is reported and replaced by
`false`, so that the body and its closing marker still belong together. -/
def conditionLine (a : Assembly) (stop : LineEnd) (t : Token) (ts : List Token) : Assembly :=
  match Node.readCondition stop ts with
  | .ok guard => a.openBlock guard t.pos
  | .error e => (a.note (.ofLine (t :: ts) e)).openBlock (.literal (.bool false)) t.pos

/-- Reads a line with any other statement. -/
def statementLine (a : Assembly) (stop : LineEnd) (t : Token) (ts : List Token) : Assembly :=
  match Node.read stop t ts with
  | .ok n => a.push n
  | .error e => a.note (.ofLine (t :: ts) e)

/-- Reads a line while nothing is skipped. -/
def readLine (a : Assembly) (stop : LineEnd) : List Token → Assembly
  | [] => a
  | t :: ts =>
    match t.kind with
    | .marker marker => a.markerLine stop marker t ts
    | .opening .brace =>
      if maxNesting ≤ a.frames.length then
        let a := a.note ⟨⟨.nestingTooDeep, t.pos⟩, .structural⟩
        match _h : skip 0 true (t :: ts) with
        | .inl waiting => { a with skipping := some waiting }
        | .inr rest => readLine a stop rest
      else a.conditionLine stop t ts
    | _ => a.statementLine stop t ts
termination_by ts => ts.length
decreasing_by exact length_lt_of_skip _h

/-- Reads the next line of the passage. -/
def line (a : Assembly) (l : Line) : Assembly :=
  match a.skipping with
  | none => a.readLine l.stop l.tokens
  | some waiting =>
    match skip waiting true l.tokens with
    | .inl waiting => { a with skipping := some waiting }
    | .inr rest => readLine { a with skipping := none } l.stop rest

/-- Closes every open conditional without a place. -/
def closeAll (nodes : Array Node) : List Frame → Array Node
  | [] => nodes
  | f :: fs => closeAll (f.before.push (f.toNode nodes none)) fs

/-- The body that has been put together when the passage ends. -/
def body (a : Assembly) : List Node := (closeAll a.nodes a.frames).toList

/-- Reads the lines of a passage. -/
def ofLines (lines : List Line) : Assembly := lines.foldl line empty

end Assembly

end Gamebook
