/-
# Gamebook.Story — stories

A story is metadata and passages; a passage is a name, tags and a body of statements. Conditionals
hold bodies of their own, so statements form trees. `Node.walk` lists a tree in the order in which
everything later looks at it: a conditional, then its body, then its other branch.
-/
import Gamebook.Expr
import Gamebook.Metadata

namespace Gamebook

/-- An offer to the player: shown when the guard holds, leading to the target if there is one. -/
structure Choice where
  text : String
  guard : Option Expr
  target : Option String
  pos : Position
  deriving DecidableEq, Inhabited

/-- A change of one variable. -/
structure Assignment where
  name : String
  op : AssignOp
  value : Expr
  pos : Position
  deriving DecidableEq, Inhabited

/-- A statement. -/
inductive Node where
  /-- A line of prose. -/
  | text (content : String) (pos : Position)
  | choice (choice : Choice)
  | assignment (assignment : Assignment)
  /-- A body for when the guard holds and perhaps one for when it does not. `closing` is the place of
  the closing marker, `none` when the passage ended without one. -/
  | conditional (guard : Expr) (body : List Node) (otherwise : Option (List Node))
      (opening : Position) (closing : Option Position)
  /-- Code for the host, passed through as it is. -/
  | script (code : String) (pos : Position)
  /-- A jump to another passage. -/
  | divert (target : String) (pos : Position)
  /-- A closing or dividing marker with no conditional to belong to. -/
  | stray (marker : Marker) (pos : Position)
  deriving Inhabited

/-- A named unit of a story. -/
structure Passage where
  name : String
  tags : NameSet
  body : List Node
  pos : Position
  deriving Inhabited

/-- A story. -/
structure Story where
  title : Option String
  author : Option String
  metadata : Metadata
  passages : List Passage
  deriving Inhabited

/-! ## Walking over statements -/

mutual

/-- A statement and all statements inside it, outer ones before inner ones. -/
def Node.walk : Node → List Node
  | .conditional guard body otherwise opening closing =>
    .conditional guard body otherwise opening closing ::
      (Node.walkAll body ++
        match otherwise with
        | none => []
        | some branch => Node.walkAll branch)
  | .text content pos => [.text content pos]
  | .choice c => [.choice c]
  | .assignment a => [.assignment a]
  | .script code pos => [.script code pos]
  | .divert target pos => [.divert target pos]
  | .stray marker pos => [.stray marker pos]

/-- The statements of a body and all statements inside them. -/
def Node.walkAll : List Node → List Node
  | [] => []
  | n :: ns => n.walk ++ Node.walkAll ns

end

namespace Node

/-- The passage a statement leads to. -/
def target? : Node → Option String
  | choice c => c.target
  | divert target _ => some target
  | _ => none

/-- The variable a statement assigns. -/
def assigned? : Node → Option String
  | assignment a => some a.name
  | _ => none

end Node

namespace Story

/-- The passage a story starts in unless its metadata name another. -/
def defaultEntry : String := "Start"

/-- The name of the passage the story starts in. -/
def entryName (s : Story) : String := (s.metadata.get? "start").getD defaultEntry

/-- The first passage of a name. -/
def find? (s : Story) (name : String) : Option Passage :=
  s.passages.find? fun p => p.name = name

/-- The names of the passages, in order. -/
def names (s : Story) : List String := s.passages.map Passage.name

/-- Whether a passage has the name. -/
def defines (s : Story) (name : String) : Bool := s.names.contains name

/-- All statements of a story, passage by passage. -/
def walk (s : Story) : List Node := s.passages.flatMap fun p => Node.walkAll p.body

/-- The variables that some statement assigns. -/
def assigned (s : Story) : NameSet := NameSet.ofList (s.walk.filterMap Node.assigned?)

/-- The names that some choice or divert leads to. -/
def targets (s : Story) : List String := s.walk.filterMap Node.target?

end Story

/-! ## Equality up to `Literal.agrees` -/

namespace Choice

/-- Equality of choices up to what `Literal.agrees` identifies. -/
def agrees (a b : Choice) : Bool :=
  a.text = b.text && a.target = b.target && a.pos = b.pos &&
    match a.guard, b.guard with
    | none, none => true
    | some x, some y => x.agrees y
    | _, _ => false

end Choice

namespace Assignment

/-- Equality of assignments up to what `Literal.agrees` identifies. -/
def agrees (a b : Assignment) : Bool :=
  a.name = b.name && a.op = b.op && a.pos = b.pos && a.value.agrees b.value

end Assignment

mutual

/-- Equality of statements up to what `Literal.agrees` identifies. -/
def Node.agrees : Node → Node → Bool
  | .text a p, .text b q => a = b && p = q
  | .choice a, .choice b => a.agrees b
  | .assignment a, .assignment b => a.agrees b
  | .conditional g body none opening closing, .conditional g' body' none opening' closing' =>
    g.agrees g' && Node.agreeAll body body' && opening = opening' && closing = closing'
  | .conditional g body (some branch) opening closing,
    .conditional g' body' (some branch') opening' closing' =>
    g.agrees g' && Node.agreeAll body body' && Node.agreeAll branch branch' &&
      opening = opening' && closing = closing'
  | .script a p, .script b q => a = b && p = q
  | .divert a p, .divert b q => a = b && p = q
  | .stray a p, .stray b q => a = b && p = q
  | _, _ => false

/-- Equality of bodies up to what `Literal.agrees` identifies. -/
def Node.agreeAll : List Node → List Node → Bool
  | [], [] => true
  | a :: as, b :: bs => a.agrees b && Node.agreeAll as bs
  | _, _ => false

end

namespace Passage

/-- Equality of passages up to what `Literal.agrees` identifies. -/
def agrees (a b : Passage) : Bool :=
  a.name = b.name && a.tags = b.tags && a.pos = b.pos && Node.agreeAll a.body b.body

/-- Equality of lists of passages up to what `Literal.agrees` identifies. -/
def agreeAll : List Passage → List Passage → Bool
  | [], [] => true
  | a :: as, b :: bs => a.agrees b && agreeAll as bs
  | _, _ => false

end Passage

namespace Story

/-- Equality of stories up to what `Literal.agrees` identifies. -/
def agrees (a b : Story) : Bool :=
  a.title = b.title && a.author = b.author && a.metadata = b.metadata &&
    Passage.agreeAll a.passages b.passages

end Story

end Gamebook
