/-
# Gamebook.Story.Simplify — constant folding and dead branches

Every expression is folded. A closed conditional whose guard is then a truth value is replaced by the
branch that value selects, and a choice whose guard is one loses the guard or goes. Conditionals
without a closing marker are kept, as their end is not known. `Node.removals` tells what goes, in the
order in which it is found: a conditional after what goes inside it.
-/
import Gamebook.Story
import Gamebook.Expr.Fold

namespace Gamebook

/-- Something that simplifying a story removes, with its place. -/
inductive Removal where
  | constantBranch (guard : Bool) (pos : Position)
  | deadChoice (pos : Position)
  deriving DecidableEq, Inhabited

namespace Choice

/-- A choice with its guard folded, if it can still be offered. -/
def simplify? (c : Choice) : Option Choice :=
  match c.guard.map Expr.fold with
  | some (.literal (.bool true)) => some { c with guard := none }
  | some (.literal (.bool false)) => none
  | guard => some { c with guard := guard }

end Choice

namespace Node

/-- A conditional with simplified parts, or the branch that its guard selects. -/
def select (guard : Expr) (body : List Node) (otherwise : Option (List Node)) (opening : Position)
    (closing : Option Position) : List Node :=
  match guard, closing with
  | .literal (.bool true), some _ => body
  | .literal (.bool false), some _ => otherwise.getD []
  | guard, closing => [conditional guard body otherwise opening closing]

/-- Whether a conditional with a folded guard is replaced by a branch. -/
def selected? (guard : Expr) (closing : Option Position) : Option Bool :=
  match guard, closing with
  | .literal (.bool b), some _ => some b
  | _, _ => none

end Node

mutual

/-- What a statement is replaced by. -/
def Node.simplify : Node → List Node
  | .choice c =>
    match c.simplify? with
    | some c => [.choice c]
    | none => []
  | .assignment a => [.assignment { a with value := a.value.fold }]
  | .conditional guard body otherwise opening closing =>
    Node.select guard.fold (Node.simplifyAll body)
      (match otherwise with
        | none => none
        | some branch => some (Node.simplifyAll branch))
      opening closing
  | .text content pos => [.text content pos]
  | .script code pos => [.script code pos]
  | .divert target pos => [.divert target pos]
  | .stray marker pos => [.stray marker pos]

/-- What a body is replaced by. -/
def Node.simplifyAll : List Node → List Node
  | [] => []
  | n :: ns => n.simplify ++ Node.simplifyAll ns

end

mutual

/-- What goes when a statement is simplified. -/
def Node.removals : Node → List Removal
  | .choice c =>
    match c.simplify? with
    | some _ => []
    | none => [.deadChoice c.pos]
  | .conditional guard body otherwise opening closing =>
    Node.removalsAll body ++
      (match otherwise with
        | none => []
        | some branch => Node.removalsAll branch) ++
      (match Node.selected? guard.fold closing with
        | some b => [.constantBranch b opening]
        | none => [])
  | _ => []

/-- What goes when a body is simplified. -/
def Node.removalsAll : List Node → List Removal
  | [] => []
  | n :: ns => n.removals ++ Node.removalsAll ns

end

namespace Passage

/-- The passage with its body simplified. -/
def simplify (p : Passage) : Passage := { p with body := Node.simplifyAll p.body }

end Passage

namespace Story

/-- The story with every passage simplified. -/
def simplify (s : Story) : Story := { s with passages := s.passages.map Passage.simplify }

/-- What goes when the story is simplified. -/
def removals (s : Story) : List Removal := s.passages.flatMap fun p => Node.removalsAll p.body

end Story

end Gamebook
