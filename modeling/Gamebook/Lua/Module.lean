/-
# Gamebook.Lua.Module — the Lua module of a story

A story becomes a Lua table with its metadata and one routine per passage. A routine talks to its host
`rt`: it shows text, offers choices, sets and asks for variables, and diverts. A divert returns from
the routine, inside a block of its own so that statements may follow it. Scripts are copied as they
are.

A marker that belongs to no conditional has no meaning in Lua. Writing stops at the first one, so a story
that holds one has no module.
-/
import Gamebook.Story
import Gamebook.Lua.Expr

namespace Gamebook.Lua

/-- A marker that belongs to no conditional, found while a story is written. -/
structure Unsupported where
  marker : Marker
  pos : Position
  deriving DecidableEq, Inhabited

/-- The wording. -/
def Unsupported.message (u : Unsupported) : String :=
  "cannot generate code for unmatched " ++ u.marker.word ++ " marker" ++ u.pos.suffix

/-! ## Text -/

/-- A line with its line feed, inside `depth` blocks. -/
def line (depth : Nat) (chars : List Char) : List Char :=
  List.replicate (2 * depth) ' ' ++ (chars ++ ['\n'])

/-- A string, or nothing. -/
def optional : Option String → List Char
  | none => "nil".toList
  | some s => quoted s

/-! ## Statements -/

/-- An offer to the player. The guard is a function, asked when the choices are shown. -/
def choice (c : Choice) : List Char :=
  let guard :=
    match c.guard with
    | none => "nil".toList
    | some g => "function() return ".toList ++ (expr g ++ " end".toList)
  "rt:choice(".toList ++ (quoted c.text ++ (", ".toList ++ (guard ++ (", ".toList ++
    (optional c.target ++ [')'])))))

/-- The value a variable gets; a compound assignment reads the variable first. -/
def assigned (a : Assignment) : Expr :=
  match a.op.binary? with
  | none => a.value
  | some op => .binary op (.var a.name a.pos) a.value

/-- A change of a variable. -/
def assignment (a : Assignment) : List Char :=
  "rt:set(".toList ++ (quoted a.name ++ (", ".toList ++ (expr (assigned a) ++ [')'])))

mutual

/-- The lines of a statement inside `depth` blocks. -/
def node (depth : Nat) : Node → Except Unsupported (List Char)
  | .text content _ => .ok (line depth ("rt:text(".toList ++ (quoted content ++ [')'])))
  | .choice c => .ok (line depth (choice c))
  | .assignment a => .ok (line depth (assignment a))
  | .conditional guard body otherwise _ _ => do
    let first ← nodes (depth + 1) body
    let second ← (match otherwise with
      | none => .ok []
      | some branch => do
        let lines ← nodes (depth + 1) branch
        return line depth "else".toList ++ lines)
    return line depth ("if ".toList ++ (expr guard ++ " then".toList)) ++
      (first ++ (second ++ line depth "end".toList))
  | .script code _ => .ok (line depth code.toList)
  | .divert target _ =>
    .ok (line depth ("do return rt:divert(".toList ++ (quoted target ++ ") end".toList)))
  | .stray marker pos => .error ⟨marker, pos⟩

/-- The lines of a body inside `depth` blocks. -/
def nodes (depth : Nat) : List Node → Except Unsupported (List Char)
  | [] => .ok []
  | n :: ns => do
    let lines ← node depth n
    let rest ← nodes depth ns
    return lines ++ rest

end

/-! ## The module -/

/-- A field of the story table. -/
def field (name : String) (value : List Char) : List Char :=
  line 0 ("story.".toList ++ (name.toList ++ (" = ".toList ++ value)))

/-- An entry of a table. -/
def entry (key : String) (value : List Char) : List Char :=
  line 1 ('[' :: (quoted key ++ ("] = ".toList ++ (value ++ [',']))))

/-- A field that holds a table with the given entries. -/
def table (name : String) (entries : List (List Char)) : List Char :=
  if entries.isEmpty then field name ['{', '}']
  else field name ['{'] ++ (entries.flatten ++ line 0 ['}'])

/-- The tags of a passage as a table. -/
def tags (p : Passage) : List Char :=
  '{' :: ' ' :: ((", ".toList).intercalate (p.tags.names.map quoted) ++ [' ', '}'])

/-- The fields of the story table but for the routines. -/
def header (s : Story) : List Char :=
  line 0 "-- Generated by storyc. Do not edit.".toList ++
    (line 0 "local story = \x7b\x7d".toList ++ (line 0 [] ++
    (field "title" (optional s.title) ++
    (field "author" (optional s.author) ++
    (table "meta" (s.metadata.entries.map fun e => entry e.1 (quoted e.2)) ++
    (field "start" (quoted s.entryName) ++
    (table "tags" ((s.passages.filter fun p => !p.tags.isEmpty).map fun p => entry p.name (tags p)) ++
    field "passages" ['{', '}'])))))))

/-- The routine of a passage. -/
def routine (p : Passage) : Except Unsupported (List Char) := do
  let body ← nodes 1 p.body
  return line 0 [] ++ (line 0 ("story.passages[".toList ++ (quoted p.name ++ "] = function(rt)".toList)) ++
    (body ++ line 0 "end".toList))

/-- The routines of passages, one after another. -/
def routines : List Passage → Except Unsupported (List Char)
  | [] => .ok []
  | p :: ps => do
    let first ← routine p
    let rest ← routines ps
    return first ++ rest

/-- The module of a story. -/
def ofStory (s : Story) : Except Unsupported String := do
  let body ← routines s.passages
  return String.ofList (header s ++ (body ++ (line 0 [] ++ line 0 "return story".toList)))

end Gamebook.Lua
