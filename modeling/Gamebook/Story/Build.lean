/-
# Gamebook.Story.Build — building stories in code

Everything built here stands at `Position.unplaced`.
-/
import Gamebook.Story

namespace Gamebook

namespace Choice

/-- A choice with a text and nothing else. -/
def ofText (text : String) : Choice := ⟨text, none, none, .unplaced⟩

/-- The choice leading to a passage. -/
def leadingTo (c : Choice) (target : String) : Choice := { c with target := some target }

/-- The choice under a condition. -/
def guarded (c : Choice) (guard : Expr) : Choice := { c with guard := some guard }

end Choice

/-- A conditional under construction. -/
structure Branching where
  guard : Expr
  body : List Node
  otherwise : Option (List Node)
  deriving Inhabited

namespace Branching

/-- A conditional with an empty body. -/
def ofGuard (guard : Expr) : Branching := ⟨guard, [], none⟩

/-- Appends a statement to the first branch. -/
def addThen (b : Branching) (n : Node) : Branching := { b with body := b.body ++ [n] }

/-- Appends a statement to the other branch. -/
def addOtherwise (b : Branching) (n : Node) : Branching :=
  { b with otherwise := some (b.otherwise.getD [] ++ [n]) }

/-- The conditional, closed. -/
def toNode (b : Branching) : Node :=
  .conditional b.guard b.body b.otherwise .unplaced (some .unplaced)

end Branching

namespace Passage

/-- A passage with a name and nothing else. -/
def named (name : String) : Passage := ⟨name, .empty, [], .unplaced⟩

/-- Adds a tag. -/
def addTag (p : Passage) (tag : String) : Passage := { p with tags := p.tags.insert tag }

/-- Appends a statement. -/
def add (p : Passage) (n : Node) : Passage := { p with body := p.body ++ [n] }

/-- Appends prose. -/
def addText (p : Passage) (content : String) : Passage := p.add (.text content .unplaced)

/-- Appends an assignment. -/
def addAssignment (p : Passage) (name : String) (op : AssignOp) (value : Expr) : Passage :=
  p.add (.assignment ⟨name, op, value, .unplaced⟩)

/-- Appends a script. -/
def addScript (p : Passage) (code : String) : Passage := p.add (.script code .unplaced)

/-- Appends a divert. -/
def addDivert (p : Passage) (target : String) : Passage := p.add (.divert target .unplaced)

end Passage

namespace Story

/-- A story without anything. -/
def empty : Story := ⟨none, none, .empty, []⟩

/-- Sets the title. -/
def withTitle (s : Story) (title : String) : Story := { s with title := some title }

/-- Sets the author. -/
def withAuthor (s : Story) (author : String) : Story := { s with author := some author }

/-- Sets the value of a metadata key. -/
def withMeta (s : Story) (key value : String) : Story :=
  { s with metadata := s.metadata.insert key value }

/-- Sets the passage the story starts in. -/
def withStart (s : Story) (name : String) : Story := s.withMeta "start" name

/-- Appends a passage. -/
def add (s : Story) (p : Passage) : Story := { s with passages := s.passages ++ [p] }

end Story

end Gamebook
