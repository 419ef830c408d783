/-
# Gamebook.Position — places in a source text

A place is a line and a column, both counted from one. Columns count characters since the last line
feed, so a place is a function of the text before it: `Position.advance` computes it.
-/

namespace Gamebook

/-- A line and a column, both counted from one. What is built in code and was never read from a text
stands at `Position.unplaced`, line and column zero. -/
structure Position where
  line : Nat
  column : Nat
  deriving DecidableEq, Inhabited

namespace Position

/-- Where every source text begins. -/
def start : Position := ⟨1, 1⟩

/-- The place of what was built in code. -/
def unplaced : Position := ⟨0, 0⟩

/-- The place after one more character: a line feed opens the next line. -/
def step (p : Position) (c : Char) : Position :=
  if c = '\n' then ⟨p.line + 1, 1⟩ else ⟨p.line, p.column + 1⟩

/-- The place after the characters `cs`. -/
def advance (p : Position) (cs : List Char) : Position :=
  cs.foldl step p

@[simp] theorem advance_nil (p : Position) : p.advance [] = p := rfl

@[simp] theorem advance_cons (p : Position) (c : Char) (cs : List Char) :
    p.advance (c :: cs) = (p.step c).advance cs := rfl

/-- Advancing over a text is advancing over its parts in turn. -/
theorem advance_append (p : Position) (a b : List Char) :
    p.advance (a ++ b) = (p.advance a).advance b := by
  simp [advance]

/-- The wording that closes every message about a place. -/
def suffix (p : Position) : String :=
  s!" at line {p.line}, column {p.column}"

end Position

end Gamebook
