/-
# Gamebook.Story.Read — reading a story from tokens

Every list of tokens yields a story, as complete as can be, together with the incidents on the way.
Lines before the first passage hold metadata; anything else there is reported once, and the rest of
the preamble is passed over. A passage whose header has no name is read for its incidents and dropped.
-/
import Gamebook.Story.Outline
import Gamebook.Story.Assembly
import Gamebook.Lexed

namespace Gamebook

/-- A story read from tokens and the incidents on the way, in order. -/
structure Reading where
  story : Story
  incidents : List Incident

namespace Reading

/-- The syntax errors that are reported. -/
def errors (r : Reading) : List SyntaxError := r.incidents.filterMap Incident.reported?

end Reading

/-! ## Metadata -/

/-- The state of reading the lines before the first passage. -/
structure Preamble where
  title : Option String
  author : Option String
  metadata : Metadata
  incidents : Array Incident
  /-- Something other than metadata has been found. -/
  closed : Bool

namespace Preamble

/-- Nothing read yet. -/
def empty : Preamble := ⟨none, none, .empty, #[], false⟩

/-- Sets the value of a key; title and author have places of their own. -/
def set (p : Preamble) (key value : String) : Preamble :=
  if key = "title" then { p with title := some value }
  else if key = "author" then { p with author := some value }
  else { p with metadata := p.metadata.insert key value }

/-- Reads the value after the key token `t`; a missing value is empty. -/
def readEntry (stop : LineEnd) (t : Token) (ts : List Token) : Except SyntaxError (String × String) :=
  if t.content = "" then stop.fail (t :: ts) .emptyMetadataKey
  else
    match ts with
    | v :: rest =>
      if v.kind = .text then do
        stop.expectEnd rest
        return (t.content, v.content)
      else stop.missing (v :: rest) (.expected .lineEnd)
    | [] => return (t.content, "")

/-- Reads a line that is not empty. -/
def readLine (p : Preamble) (stop : LineEnd) (t : Token) (ts : List Token) : Preamble :=
  match t.kind with
  | .metaKey =>
    match readEntry stop t ts with
    | .ok (key, value) => p.set key value
    | .error e => { p with incidents := p.incidents.push (.ofLine (t :: ts) e) }
  | .invalid _ => p
  | _ =>
    { p with
      incidents := p.incidents.push ⟨⟨.contentOutsidePassage, t.pos⟩, .structural⟩
      closed := true }

/-- Reads the next line. -/
def line (p : Preamble) (l : Line) : Preamble :=
  if p.closed then p
  else
    match l.tokens with
    | [] => p
    | t :: ts => p.readLine l.stop t ts

/-- Reads the lines before the first passage. -/
def ofLines (lines : List Line) : Preamble := lines.foldl line empty

end Preamble

/-! ## Passages -/

/-- What the line of a passage marker says. A header without a name has no tags. -/
structure Header where
  name : Option String
  tags : NameSet
  incidents : List Incident

namespace Header

/-- The tags of a header, and what is wrong after them. Tags before a mistake count. -/
def readTags (stop : LineEnd) : List Token → NameSet × Except SyntaxError Unit
  | t :: ts =>
    if t.kind = .opening .square then
      let words := ts.takeWhile fun w => w.kind = .identifier
      let rest := ts.dropWhile fun w => w.kind = .identifier
      (NameSet.ofList (words.map Token.raw), do
        let ((), rest) ← stop.expect (.closing .square) .tagsEnd rest
        stop.expectEnd rest)
    else (.empty, stop.expectEnd (t :: ts))
  | [] => (.empty, .ok ())

/-- Reads a header. -/
def ofLine (l : Line) : Header :=
  match l.stop.expectName .expectedPassageName l.tokens with
  | .error e => ⟨none, .empty, [.ofLine l.tokens e]⟩
  | .ok (name, rest) =>
    match readTags l.stop rest with
    | (tags, .ok ()) => ⟨some name, tags, []⟩
    | (tags, .error e) => ⟨some name, tags, [.ofLine l.tokens e]⟩

end Header

namespace Section

/-- The passage of a section, if its header has a name. -/
def passage? (s : Section) : Option Passage :=
  let header := Header.ofLine s.header
  header.name.map fun name => ⟨name, header.tags, (Assembly.ofLines s.body).body, s.pos⟩

/-- The incidents of a section. -/
def incidents (s : Section) : List Incident :=
  (Header.ofLine s.header).incidents ++ (Assembly.ofLines s.body).incidents.toList

end Section

/-! ## Stories -/

namespace Outline

/-- The story that an outline lays out. -/
def read (o : Outline) : Reading :=
  let preamble := Preamble.ofLines o.preamble
  { story :=
      { title := preamble.title
        author := preamble.author
        metadata := preamble.metadata
        passages := o.sections.filterMap Section.passage? }
    incidents := preamble.incidents.toList ++ o.sections.flatMap Section.incidents }

end Outline

namespace Story

/-- Reads a story from tokens. -/
def ofTokens (tokens : List Token) : Reading := (Outline.ofTokens tokens).read

end Story

/-- What keeps a source text from being a story: its first lexical error or else its first syntax
error. -/
inductive SourceError where
  | lexical (error : LexicalError)
  | syntactic (error : SyntaxError)
  deriving DecidableEq, Inhabited

namespace SourceError

/-- The wording. -/
def message : SourceError → String
  | lexical e => e.message
  | syntactic e => e.message

end SourceError

namespace Story

/-- Reads a story from a source text without errors. -/
def ofSource (source : String) : Except SourceError Story :=
  let lexed := Lexed.ofSource source
  match lexed.errors with
  | e :: _ => .error (.lexical e)
  | [] =>
    let reading := ofTokens lexed.tokens
    match reading.errors with
    | e :: _ => .error (.syntactic e)
    | [] => .ok reading.story

end Story

end Gamebook
