/-
# Gamebook.Story.Statement — reading one statement from its line

Every statement but a conditional takes exactly one line, and a conditional is opened by one. The
first token decides which statement it is; the line must then be used up.
-/
import Gamebook.Story
import Gamebook.Expr.Read

namespace Gamebook

namespace Choice

/-- Reads the guard between braces, if there is one. -/
def readGuard (stop : LineEnd) : LineReader (Option Expr)
  | t :: ts =>
    if t.kind = .opening .brace then do
      let (guard, rest) ← Expr.read stop ts
      let ((), rest) ← stop.expect (.closing .brace) .choiceGuardEnd rest
      return (some guard, rest)
    else .ok (none, t :: ts)
  | [] => .ok (none, [])

/-- Reads the text between square brackets; there may be none. -/
def readText (stop : LineEnd) : LineReader String := fun ts => do
  let ((), rest) ← stop.expect (.opening .square) .choiceTextStart ts
  let (text, rest) := takeText rest
  let ((), rest) ← stop.expect (.closing .square) .choiceTextEnd rest
  return (text, rest)
where
  takeText : List Token → String × List Token
    | t :: ts => if t.kind = .text then (t.content, ts) else ("", t :: ts)
    | [] => ("", [])

/-- Reads the target after an arrow, if there is one. -/
def readTarget (stop : LineEnd) : LineReader (Option String)
  | t :: ts =>
    if t.kind = .arrow then do
      let (target, rest) ← stop.expectName .expectedPassageName ts
      return (some target, rest)
    else .ok (none, t :: ts)
  | [] => .ok (none, [])

/-- Reads a choice after its marker, which stands at `pos`. -/
def read (stop : LineEnd) (pos : Position) (ts : List Token) : Except SyntaxError Choice := do
  let (guard, rest) ← readGuard stop ts
  let (text, rest) ← readText stop rest
  let (target, rest) ← readTarget stop rest
  stop.expectEnd rest
  return ⟨text, guard, target, pos⟩

end Choice

namespace Assignment

/-- Reads an assignment operator. -/
def readOp (stop : LineEnd) : LineReader AssignOp
  | t :: ts =>
    match t.kind with
    | .assign op => .ok (op, ts)
    | _ => stop.missing (t :: ts) .expectedAssignOp
  | [] => stop.missing [] .expectedAssignOp

/-- Reads an assignment after its `$`, which stands at `pos`. -/
def read (stop : LineEnd) (pos : Position) (ts : List Token) : Except SyntaxError Assignment := do
  let (name, rest) ← stop.expectName .expectedVariableName ts
  let (op, rest) ← readOp stop rest
  let (value, rest) ← Expr.read stop rest
  stop.expectEnd rest
  return ⟨name, op, value, pos⟩

end Assignment

namespace Node

/-- Reads the guard of a conditional after its opening brace. -/
def readCondition (stop : LineEnd) (ts : List Token) : Except SyntaxError Expr := do
  let (guard, rest) ← Expr.read stop ts
  let ((), rest) ← stop.expect (.closing .brace) .conditionEnd rest
  stop.expectEnd rest
  return guard

/-- Reads the target of a divert after its arrow, which stands at `pos`. -/
def readDivert (stop : LineEnd) (pos : Position) (ts : List Token) : Except SyntaxError Node := do
  let (target, rest) ← stop.expectName .expectedPassageName ts
  stop.expectEnd rest
  return divert target pos

/-- Reads a statement that takes one line and starts with the token `t`. -/
def read (stop : LineEnd) (t : Token) (ts : List Token) : Except SyntaxError Node :=
  match t.kind with
  | .text => do
    stop.expectEnd ts
    return text t.content t.pos
  | .script => do
    stop.expectEnd ts
    return script t.content t.pos
  | .dollar => return assignment (← Assignment.read stop t.pos ts)
  | .choiceMarker => return choice (← Choice.read stop t.pos ts)
  | .arrow => readDivert stop t.pos ts
  | .metaKey => stop.fail (t :: ts) (.metadataAfterPassage t.content)
  | _ => stop.fail (t :: ts) (.unexpectedToken t.describe)

end Node

end Gamebook
