/-
# Gamebook.Proofs.Loop.Story — scanning and reading never stand still

A story is read here from the tokens ahead, as far as the first end of input, in a loop over metadata, passages and
what does not belong anywhere (`Trail.overStory`). With the loops of the other modules this makes a reader
(`Story.ofTokens?`), as `Lexeme.Cut.overText` makes a scanner. Each loop may go on as often as there are tokens or
characters left when it is entered, and a loop that would go on for longer has no result.

They always have one: every loop passes something each time around or leaves, and the results are the lexemes and the
story (`Story.ofTokens?_eq`). This holds of every source and of every list of tokens, also of one without an end of
input, with one in the middle, or with values that no scanner gives.
-/
import Gamebook.Proofs.Loop.Block
import Gamebook.Proofs.Loop.Scan
import Gamebook.Proofs.Reading.Incident

namespace Gamebook

open Cursor (kindAt past pastBreak advance Inner Stops Follows Finishes)
open Loop (again leave)

/-! ## Loops -/

namespace Cursor

/-- The tags ahead. -/
def tagsAt (rest : List Token) : NameSet :=
  if kindAt rest = .opening .square then
    NameSet.ofList (((past rest).takeWhile fun w => w.kind = .identifier).map Token.raw)
  else .empty

/-- Passes over tags, if there are any, to the end of the line. -/
def tags (ending : Position) : Cursor Unit := do
  if kindAt (← get) = .opening .square then do
    advance
    modify fun rest => rest.dropWhile fun w => w.kind = .identifier
    expect ending (.closing .square) .tagsEnd
    expectEnd ending
  else expectEnd ending

end Cursor

/-- Sets the value of a key; title and author have places of their own. -/
def Story.set (story : Story) (key value : String) : Story :=
  if key = "title" then { story with title := some value }
  else if key = "author" then { story with author := some value }
  else { story with metadata := story.metadata.insert key value }

namespace Trail

/-- The story with an entry, if there is one. -/
def withEntry (story : Story) (entry : Option (String × String)) : Story :=
  entry.elim story fun (key, value) => story.set key value

section

variable (ending : Position)

/-- Reads a header from its marker on: the name and the tags. Tags before a mistake count. -/
def header? (t : Trail) : Option (Option (String × NameSet) × Trail) :=
  match (do advance; Cursor.expectName ending .expectedPassageName : Cursor String).run.run t.rest with
  | (.error e, rest) => do
    return (none, ← recover? t.rest e { t with rest := rest })
  | (.ok name, rest) => do
    let (_, t) ← finish? t.rest (Cursor.tags ending) { t with rest := rest }
    return (some (name, Cursor.tagsAt rest), t)

/-- Reads a passage from its marker on. A passage without a name is read and dropped. -/
def passage? (t : Trail) : Option (Option Passage × Trail) := do
  let pos := (LineEnd.ahead ending t.rest).pos
  let (header, t) ← header? ending t
  let (body, _, t) ← Loop.run (overBlock ending (conditional? ending maxNesting) false) t.left (#[], t)
  return (header.map fun (name, tags) => ⟨name, tags, body.toList, pos⟩, t)

/-- Whether a token of the kind neither begins a passage nor ends the input. -/
def isContent (kind : TokenKind) : Bool := !(kind = .passageMarker || kind = .endOfInput)

/-- One time around the content outside of passages. -/
def overContent : Loop (List Token) (List Token) := overKinds isContent

/-- Reads a part of a story: an entry, a passage, or what has to be passed over. -/
def storyPart (story : Story) (t : Trail) : Option ((Story × Trail) ⊕ Reading) :=
  match kindAt t.rest with
  | .endOfInput => leave ⟨story, t.incidents.toList⟩
  | .passageMarker => do
    let (passage, t) ← passage? ending t
    again ({ story with passages := story.passages ++ passage.toList }, t)
  | .metaKey => do
    let (entry, t) ← t.attempt? (Cursor.entry ending)
    again (withEntry story entry, t)
  | .invalid _ => do
    let (rest, _) ← Loop.run overLine t.left (t.rest, false)
    again (story, { t with rest := rest })
  | _ => do
    let pos := (LineEnd.ahead ending t.rest).pos
    let rest ← Loop.run overContent t.left t.rest
    let incident := ⟨⟨.contentOutsidePassage, pos⟩, .structural⟩
    again (story, { t with rest := rest, incidents := t.incidents.push incident })

/-- One time around the parts of a story. -/
def overStory : Loop (Story × Trail) Reading := fun (story, t) => do
  storyPart ending story (← t.skipBreaks?)

end

/-- The state in which the loop over a story is entered. -/
def start (words : List Token) : Story × Trail := (⟨none, none, .empty, []⟩, ⟨words, #[], 0⟩)

end Trail

/-- Reads a story from tokens in loops. -/
def Story.ofTokens? (tokens : List Token) : Option Reading :=
  let words := tokens.filter fun t => !t.kind.isTrivia
  Loop.run (Trail.overStory (Outline.ending words)) words.length (Trail.start words)

/-! ## Headers -/

namespace Cursor

section

variable (ending : Position) {line rest : List Token} (hrest : Stops rest)

include hrest

theorem span_names (ts : List Token) :
    (ts ++ rest).takeWhile (fun w => w.kind = .identifier) = ts.takeWhile (fun w => w.kind = .identifier) ∧
      (ts ++ rest).dropWhile (fun w => w.kind = .identifier)
        = ts.dropWhile (fun w => w.kind = .identifier) ++ rest := by
  induction ts with
  | nil =>
    cases rest with
    | nil => exact ⟨rfl, rfl⟩
    | cons u us =>
      have hu : u.kind ≠ .identifier := hrest.kindAt_ne rfl
      simp [hu]
  | cons t ts ih =>
    by_cases ht : t.kind = .identifier
    · simp [ht, ih]
    · simp [ht]

theorem tagsAt_append (line : List Token) :
    tagsAt (line ++ rest) = (Header.readTags (LineEnd.ahead ending rest) line).1 := by
  cases line with
  | nil => exact if_neg (hrest.kindAt_ne rfl)
  | cons t ts =>
    by_cases ht : t.kind = .opening .square
    · rw [tagsAt, Header.readTags, if_pos ht, if_pos (by exact ht), List.cons_append, past, if_neg (by simp [ht]),
        (span_names hrest ts).1]
    · rw [tagsAt, Header.readTags, if_neg ht, if_neg (by exact ht)]

theorem finishes_tags (hline : Inner line) :
    Finishes rest line (tags ending) (Header.readTags (LineEnd.ahead ending rest) line).2 := by
  refine finishes_get ?_
  cases line with
  | nil =>
    rw [List.nil_append, if_neg (hrest.kindAt_ne rfl)]
    exact finishes_expectEnd hrest hline
  | cons t ts =>
    by_cases ht : t.kind = .opening .square
    · rw [Header.readTags, if_pos ht, if_pos (by exact ht)]
      have hnames : Follows rest ts (modify fun rest => rest.dropWhile fun w => w.kind = .identifier : Cursor Unit)
          (.ok ((), ts.dropWhile fun w => w.kind = .identifier)) :=
        ⟨List.dropWhile_suffix _, congrArg (Except.ok (), ·) (span_names hrest ts).2⟩
      refine Finishes.cons hline.head (hnames.last (k := fun p =>
        (LineEnd.ahead ending rest).expect (.closing .square) .tagsEnd p.2 >>= fun q =>
          (LineEnd.ahead ending rest).expectEnd q.2) fun _ more hmore => ?_)
      have hmore := hline.tail.of_suffix hmore
      refine (follows_expect hrest rfl _ hmore).last fun _ more' hmore' => ?_
      exact finishes_expectEnd hrest (hmore.of_suffix hmore')
    · rw [Header.readTags, if_neg ht, if_neg (by exact ht)]
      exact finishes_expectEnd hrest hline

end

end Cursor

namespace Trail

section

variable (ending : Position) {m : Token} {line rest : List Token} (hm : m.kind = .passageMarker) (hline : Inner line)
  (hrest : Stops rest)

include hm in
theorem ofLine_marker (e : SyntaxError) (ts : List Token) : Incident.ofLine (m :: ts) e = .ofLine ts e := by
  simp [Incident.ofLine, hm, TokenKind.isInvalid]

include hm hline hrest

/-- A header is read as its line says, and what follows is read from the next line on. -/
theorem header?_eq (incidents : Array Incident) (blocks : Nat) :
    header? ending ⟨m :: (line ++ rest), incidents, blocks⟩
      = some ((Header.ofLine ⟨line, LineEnd.ahead ending rest⟩).name.map
            (·, (Header.ofLine ⟨line, LineEnd.ahead ending rest⟩).tags),
          ⟨pastBreak rest, incidents ++ (Header.ofLine ⟨line, LineEnd.ahead ending rest⟩).incidents, blocks⟩) := by
  have hpast : (do advance; Cursor.expectName ending .expectedPassageName : Cursor String).run.run (m :: (line ++ rest))
      = (Cursor.expectName ending .expectedPassageName).run.run (line ++ rest) := by
    show (Cursor.expectName ending _).run.run (past (m :: (line ++ rest))) = _
    rw [past, if_neg (by simp [hm])]
  have hname : Follows rest line (Cursor.expectName ending .expectedPassageName) _ :=
    Cursor.follows_expectName hrest _ hline
  rw [header?, Header.ofLine]
  dsimp only
  rw [hpast]
  cases hx : (LineEnd.ahead ending rest).expectName .expectedPassageName line with
  | error e =>
    rw [hx] at hname
    obtain ⟨left, ⟨front, rfl⟩, hrun⟩ := hname
    have hleft := hline.of_suffix (List.suffix_append front left)
    have hrecover := recover?_eq hleft hrest (m :: front) e incidents blocks
    rw [List.cons_append, List.cons_append, ofLine_marker hm] at hrecover
    simp only [hrun, hrecover]
    rfl
  | ok p =>
    obtain ⟨name, left⟩ := p
    rw [hx] at hname
    obtain ⟨⟨front, rfl⟩, hrun⟩ := hname
    have hleft := hline.of_suffix (List.suffix_append front left)
    have hfinish := finish?_eq (Cursor.finishes_tags ending hrest hleft) hleft hrest (m :: front) incidents blocks
    rw [List.cons_append, List.cons_append] at hfinish
    simp only [hrun, hfinish, Cursor.tagsAt_append ending hrest left]
    obtain ⟨tags, e | ⟨⟩⟩ := Header.readTags (LineEnd.ahead ending rest) left
    · simp only [noted, ofLine_marker hm]
      rfl
    · rfl

end

/-! ## Passages -/

section

variable {ending : Position}

/-- An assembly that starts after some incidents keeps them in front. -/
theorem outcome_after (incidents : Array Incident) (rest : List Token) :
    outcome ending ⟨#[], [], none, incidents⟩ rest
      = ((Assembly.ofLines (linesAt ending rest)).body,
          incidents ++ (Assembly.ofLines (linesAt ending rest)).incidents) := by
  have hafter : (⟨#[], [], none, incidents⟩ : Assembly) = Assembly.empty.after incidents := by
    simp [Assembly.empty, Assembly.after]
  rw [outcome, hafter, Assembly.foldl_line_after]
  rfl

/-- The body of a passage ends with the passage and leaves the counter where it was. With the counter at zero it is what
its lines come to. -/
theorem exists_body (ending : Position) (t : Trail) :
    ∃ body t', Loop.run (overBlock ending (conditional? ending maxNesting) false) t.left (#[], t)
        = some (body, .passage, t') ∧ Passes t.rest t'.rest ∧ AtEnd t'.rest ∧ t'.blocks = t.blocks ∧
      (EndsAt ending t.rest → t.blocks = 0 → body.toList = (Assembly.ofLines (linesAt ending t.rest)).body ∧
        t'.incidents = t.incidents ++ (Assembly.ofLines (linesAt ending t.rest)).incidents) := by
  obtain ⟨⟨body, ended, t'⟩, hrun, hblock⟩ :=
    (overBlock_achieves (conditional?_reads ending maxNesting) false).exists_run (s := (#[], t)) (Nat.le_refl t.left)
  cases ended with
  | marker m pos => cases (hblock.atMarker m pos rfl).1
  | passage =>
    obtain ⟨hend, hreads⟩ := hblock.atEnd rfl
    refine ⟨body, t', hrun, hblock.passes, hend, hblock.blocks, fun hends hzero => ?_⟩
    have hfits : Fits maxNesting false t.blocks [] := ⟨hzero.symm, by rw [hzero, Nat.zero_add], rfl⟩
    have houtcome := (outcome_after t.incidents t.rest).symm.trans (hreads [] hfits hends)
    obtain ⟨hbody, hincidents⟩ := Prod.mk.inj houtcome
    exact ⟨hbody.symm, hincidents.symm⟩

/-- The section that belongs to the passage marker `m`. -/
def sectionAt (ending : Position) (m : Token) (rest : List Token) : Section :=
  ⟨m.pos, (tailAt ending rest).line, (tailAt ending rest).more⟩

/-- **Reading a passage.** -/
theorem passage?_reads {m : Token} (hm : m.kind = .passageMarker) (rest : List Token) (incidents : Array Incident)
    (blocks : Nat) :
    ∃ passage t', passage? ending ⟨m :: rest, incidents, blocks⟩ = some (passage, t') ∧ Passes rest t'.rest ∧
      AtEnd t'.rest ∧ t'.blocks = blocks ∧
      (EndsAt ending rest → blocks = 0 → passage = (sectionAt ending m rest).passage? ∧
        t'.incidents.toList = incidents.toList ++ (sectionAt ending m rest).incidents) := by
  obtain ⟨line, rest, rfl, hline, hrest⟩ := exists_line rest
  obtain ⟨header, hheader⟩ : ∃ header, Header.ofLine ⟨line, LineEnd.ahead ending rest⟩ = header := ⟨_, rfl⟩
  have hread := header?_eq ending hm hline hrest incidents blocks
  rw [hheader] at hread
  obtain ⟨body, t', hrun, hpasses, hend, hblocks, hbody⟩ :=
    exists_body ending ⟨pastBreak rest, incidents ++ header.incidents, blocks⟩
  refine ⟨header.name.map fun name => ⟨name, header.tags, body.toList, m.pos⟩, t', ?_,
    (passes_line hline rest).trans hpasses, hend, hblocks, fun hends hzero => ?_⟩
  · rw [passage?, hread]
    simp only [Option.bind_eq_bind, Option.bind_some, hrun]
    cases header.name <;> rfl
  · have hends := (passes_inner hline rest).endsAt hends
    obtain ⟨hbody, hincidents⟩ := hbody ((passes_pastBreak rest).endsAt hends) hzero
    have hlines : Assembly.ofLines (tailAt ending rest).more = Assembly.ofLines (linesAt ending (pastBreak rest)) :=
      foldl_more (fun b _ => Assembly.line_of_not_holds b) hrest hends Assembly.empty
    rw [sectionAt, tailAt_append hline, tailAt_line hrest hends, List.append_nil]
    constructor
    · simp only [Section.passage?, hheader, hlines, hbody]
    · rw [Section.incidents, hheader, hlines, hincidents, Array.toList_append, Array.toList_appendList,
        List.append_assoc]

end

/-! ## Stories -/

/-- What has been read of a story, as far as it stands before the first passage. -/
def preamble (story : Story) (incidents : Array Incident) : Preamble :=
  ⟨story.title, story.author, story.metadata, incidents, false⟩

/-- The whole reading, when a preamble has been read before the first of some sections. -/
def reading (p : Preamble) (passages : List Passage) (sections : List Section) : Reading :=
  ⟨⟨p.title, p.author, p.metadata, passages ++ sections.filterMap Section.passage?⟩,
    p.incidents.toList ++ sections.flatMap Section.incidents⟩

/-- What comes of a story that is read as far as `t`. -/
def told (ending : Position) (story : Story) (t : Trail) : Reading :=
  reading ((linesAt ending t.rest).foldl Preamble.line (preamble story t.incidents)) story.passages
    (tailAt ending t.rest).sections

section

variable {ending : Position} {story story' : Story} {incidents incidents' : Array Incident} {blocks : Nat}
  {line rest : List Token}

theorem told_dropBreaks (story : Story) (t : Trail) :
    told ending story { t with rest := dropKinds (· = .newline) t.rest } = told ending story t := by
  rw [told, told, foldl_dropBreaks fun p _ => Preamble.line_of_not_holds p, (passes_dropBreaks t.rest).sections]

theorem told_line (hline : Inner line) (hrest : Stops rest) (hends : EndsAt ending rest)
    (h : (preamble story incidents).line ⟨line, LineEnd.ahead ending rest⟩ = preamble story' incidents')
    (hpassages : story'.passages = story.passages) :
    told ending story ⟨line ++ rest, incidents, blocks⟩ = told ending story' ⟨pastBreak rest, incidents', blocks⟩ := by
  rw [told, told, foldl_linesAt (fun p _ => Preamble.line_of_not_holds p) hline hrest hends, h, hpassages,
    (passes_line hline rest).sections]

theorem told_atEnd (h : AtEnd rest) (story : Story) (incidents : Array Incident) :
    told ending story ⟨rest, incidents, blocks⟩
      = reading (preamble story incidents) story.passages (tailAt ending rest).sections := by
  obtain ⟨stop, hstop⟩ := h.linesAt ending
  rw [told, hstop, List.foldl_cons, List.foldl_nil, Preamble.line_of_not_holds _ rfl]

theorem atEnd_dropContent (rest : List Token) : AtEnd (dropKinds isContent rest) := by
  have h : isContent (kindAt (dropKinds isContent rest)) = false := kindAt_dropKinds rfl rest
  rw [isContent, Bool.not_eq_false', Bool.or_eq_true, decide_eq_true_iff, decide_eq_true_iff] at h
  exact h

theorem isContent_of_isInner {kind : TokenKind} (h : kind.isInner = true) : isContent kind = true := by
  cases kind with
  | passageMarker | endOfInput => cases h
  | _ => rfl

theorem foldl_line_closed (ls : List Line) {p : Preamble} (hp : p.closed = true) : ls.foldl Preamble.line p = p := by
  induction ls with
  | nil => rfl
  | cons l ls ih => rw [List.foldl_cons, Preamble.line, if_pos hp, ih]

theorem sections_marker {m : Token} {rest' : List Token} (hm : m.kind = .passageMarker) (h : Passes rest rest') :
    (tailAt ending (m :: rest)).sections = sectionAt ending m rest :: (tailAt ending rest').sections := by
  rw [tailAt_cons (by simp [hm]), Outline.Tail.push_marker _ hm, ← h.sections]
  rfl

theorem kindAt_ne_marker {u : Token} (hline : Inner (u :: line)) : kindAt (u :: line ++ rest) ≠ .passageMarker := by
  intro hmarker
  have hu : u.kind = .passageMarker := hmarker
  simpa [hu, TokenKind.isInner] using hline.head

theorem Passes.length_sections {rest' : List Token} (h : Passes rest rest') (hmarker : kindAt rest ≠ .passageMarker) :
    (tailAt ending rest).sections.length
      = (tailAt ending rest').sections.length + if kindAt rest = .passageMarker then 1 else 0 := by
  rw [h.sections, if_neg hmarker, Nat.add_zero]

theorem told_passage {m : Token} {t : Trail} {passage : Option Passage} (hm : m.kind = .passageMarker)
    (rest : List Token) (hpasses : Passes rest t.rest) (hend : AtEnd t.rest)
    (hpassage : passage = (sectionAt ending m rest).passage?)
    (hincidents : t.incidents.toList = incidents.toList ++ (sectionAt ending m rest).incidents) :
    told ending story ⟨m :: rest, incidents, blocks⟩
      = told ending { story with passages := story.passages ++ passage.toList } t := by
  have hmarker : AtEnd (m :: rest) := .inl hm
  rw [told_atEnd hmarker, told_atEnd hend, sections_marker hm hpasses]
  simp only [reading, preamble, hincidents, List.flatMap_cons, List.append_assoc]
  cases hsome : (sectionAt ending m rest).passage? with
  | none => rw [hpassage, hsome, List.filterMap_cons_none hsome, Option.toList_none, List.nil_append]
  | some q => rw [hpassage, hsome, List.filterMap_cons_some hsome, Option.toList_some, List.singleton_append]

theorem preamble_set (story : Story) (incidents : Array Incident) (key value : String) :
    (preamble story incidents).set key value = preamble (story.set key value) incidents := by
  rw [Preamble.set, Story.set]
  split
  · rfl
  · split
    · rfl
    · rfl

theorem passages_withEntry (story : Story) (entry : Option (String × String)) :
    (withEntry story entry).passages = story.passages := by
  rcases entry with _ | ⟨key, value⟩
  · rfl
  · show (story.set key value).passages = _
    rw [Story.set]
    split
    · rfl
    · split
      · rfl
      · rfl

section

variable {u : Token}

theorem line_entry (hu : u.kind = .metaKey) (stop : LineEnd) (line : List Token) :
    (preamble story incidents).line ⟨u :: line, stop⟩
      = preamble (withEntry story (Preamble.readEntry stop u line).toOption)
          (noted incidents (u :: line) (Preamble.readEntry stop u line)) := by
  rw [Preamble.line, if_neg (by simp [preamble])]
  simp only [Preamble.readLine, hu]
  rcases Preamble.readEntry stop u line with e | ⟨key, value⟩
  · rfl
  · exact preamble_set story incidents key value

theorem line_invalid {text : String} (hu : u.kind = .invalid text) (stop : LineEnd) (line : List Token) :
    (preamble story incidents).line ⟨u :: line, stop⟩ = preamble story incidents := by
  rw [Preamble.line, if_neg (by simp [preamble])]
  simp only [Preamble.readLine, hu]

theorem line_content (hentry : u.kind ≠ .metaKey) (hinvalid : ∀ text, u.kind ≠ .invalid text) (stop : LineEnd)
    (line : List Token) :
    (preamble story incidents).line ⟨u :: line, stop⟩
      = { preamble story (incidents.push ⟨⟨.contentOutsidePassage, u.pos⟩, .structural⟩) with closed := true } := by
  rw [Preamble.line, if_neg (by simp [preamble])]
  simp only [Preamble.readLine]
  rfl

end

/-! ## The loop over a story -/

/-- Reading has come from `s` to `s'`: it has passed a token, with a section if a passage marker was ahead, the counter
is where it was, and with the counter at zero both come to the same. -/
structure StoryMoves (ending : Position) (s s' : Story × Trail) : Prop where
  shorter : s'.2.left < s.2.left
  endsAt : EndsAt ending s.2.rest → EndsAt ending s'.2.rest
  blocks : s'.2.blocks = s.2.blocks
  sections : (tailAt ending s.2.rest).sections.length
    = (tailAt ending s'.2.rest).sections.length + if kindAt s.2.rest = .passageMarker then 1 else 0
  told : EndsAt ending s.2.rest → s.2.blocks = 0 → told ending s.1 s.2 = told ending s'.1 s'.2

/-- What reading a story from `s` comes to, with the counter at zero. -/
def StoryReads (ending : Position) (s : Story × Trail) (r : Reading) : Prop :=
  EndsAt ending s.2.rest → s.2.blocks = 0 → r = told ending s.1 s.2

/-- The story ends here, or its next part is read. -/
def StorySteps (ending : Position) (story : Story) (t : Trail) : Prop :=
  (kindAt t.rest = .endOfInput ∧ storyPart ending story t = leave ⟨story, t.incidents.toList⟩) ∨
    ∃ s', storyPart ending story t = again s' ∧ StoryMoves ending (story, t) s'

theorem storySteps_passage {m : Token} (hm : m.kind = .passageMarker) (rest : List Token) :
    StorySteps ending story ⟨m :: rest, incidents, blocks⟩ := by
  obtain ⟨passage, t', hread, hpasses, hend, hblocks, hreads⟩ := passage?_reads hm rest incidents blocks
  have hmarker : EndsAt ending (m :: rest) → EndsAt ending rest := fun hends v hv =>
    hends v (by rw [List.find?_cons_of_neg (by simp [Outline.isEnd, hm]), hv])
  refine .inr ⟨({ story with passages := story.passages ++ passage.toList }, t'), ?_, ?_⟩
  · rw [storyPart, hread]
    simp only [kindAt, hm]
    rfl
  · refine ⟨Nat.lt_succ_of_le hpasses.length_le, fun hends => hpasses.endsAt (hmarker hends), hblocks, ?_,
      fun hends hzero => ?_⟩
    · rw [sections_marker hm hpasses, if_pos (by exact hm), List.length_cons]
    · obtain ⟨hpassage, hincidents⟩ := hreads (hmarker hends) hzero
      exact told_passage hm rest hpasses hend hpassage hincidents

section

variable {u : Token} (hline : Inner (u :: line)) (hrest : Stops rest)

include hline hrest

theorem storyMoves_line
    (h : (preamble story incidents).line ⟨u :: line, LineEnd.ahead ending rest⟩ = preamble story' incidents')
    (hpassages : story'.passages = story.passages) :
    StoryMoves ending (story, ⟨u :: line ++ rest, incidents, blocks⟩)
      (story', ⟨pastBreak rest, incidents', blocks⟩) where
  shorter := length_pastBreak_lt u line rest
  endsAt := (passes_line hline rest).endsAt
  blocks := rfl
  sections := (passes_line hline rest).length_sections (kindAt_ne_marker hline)
  told hends _ := told_line hline hrest ((passes_inner hline rest).endsAt hends) h hpassages

theorem storySteps_entry (hu : u.kind = .metaKey) :
    StorySteps ending story ⟨u :: line ++ rest, incidents, blocks⟩ := by
  have hfinishes : Finishes rest (u :: line) (Cursor.entry ending) _ := Cursor.finishes_entry hrest hline
  have hattempt := attempt?_eq hfinishes hline hrest incidents blocks
  refine .inr ⟨_, ?_, storyMoves_line hline hrest (line_entry hu _ line) (passages_withEntry story _)⟩
  rw [storyPart, hattempt]
  simp only [List.cons_append, kindAt, hu]
  rfl

theorem storySteps_invalid {text : String} (hu : u.kind = .invalid text) :
    StorySteps ending story ⟨u :: line ++ rest, incidents, blocks⟩ := by
  obtain ⟨r, hrun, hr⟩ :=
    overLine_achieves.exists_run (s := (u :: line ++ rest, false)) (Nat.le_refl (u :: line ++ rest).length)
  refine .inr ⟨_, ?_, storyMoves_line hline hrest (line_invalid hu _ line) rfl⟩
  rw [storyPart, left, hrun, hr _ _ hline hrest rfl]
  simp only [List.cons_append, kindAt, hu]
  rfl

/-- Content outside of passages closes the preamble, and all of it is passed over. -/
theorem storySteps_content (hentry : u.kind ≠ .metaKey) (hinvalid : ∀ text, u.kind ≠ .invalid text) :
    StorySteps ending story ⟨u :: line ++ rest, incidents, blocks⟩ := by
  have hpasses : Passes (u :: line ++ rest) (dropKinds isContent (u :: line ++ rest)) := passes_dropKinds rfl rfl _
  have hdrop : dropKinds isContent (u :: line ++ rest) = dropKinds isContent (line ++ rest) := by
    rw [List.cons_append, dropKinds_cons, if_pos (isContent_of_isInner hline.head)]
  have hmoves : StoryMoves ending (story, ⟨u :: line ++ rest, incidents, blocks⟩)
      (story, ⟨dropKinds isContent (u :: line ++ rest),
        incidents.push ⟨⟨.contentOutsidePassage, u.pos⟩, .structural⟩, blocks⟩) := by
    refine ⟨?_, hpasses.endsAt, rfl, hpasses.length_sections (kindAt_ne_marker hline), fun hends _ => ?_⟩
    · show (dropKinds isContent (u :: line ++ rest)).length < (u :: line ++ rest).length
      rw [hdrop]
      exact Nat.lt_succ_of_le (passes_dropKinds rfl rfl (line ++ rest)).length_le
    · rw [told_atEnd (atEnd_dropContent _), told, foldl_linesAt (fun p _ => Preamble.line_of_not_holds p) hline hrest
        ((passes_inner hline rest).endsAt hends), line_content hentry hinvalid, foldl_line_closed _ rfl,
        hpasses.sections]
      rfl
  refine .inr ⟨_, ?_, hmoves⟩
  have hinner := hline.head
  rw [storyPart, left, overContent, run_overKinds rfl]
  simp only [List.cons_append, kindAt]
  split
  · next hk => simp [hk, TokenKind.isInner] at hinner
  · next hk => simp [hk, TokenKind.isInner] at hinner
  · next hk => exact absurd hk hentry
  · next text hk => exact absurd hk (hinvalid text)
  · rfl

end

theorem storySteps {t : Trail} (hbreak : kindAt t.rest ≠ .newline) : StorySteps ending story t := by
  obtain ⟨rest, incidents, blocks⟩ := t
  by_cases hend : AtEnd rest
  · rcases hend with hk | hk
    · obtain ⟨m, rest, rfl, hm⟩ := exists_cons hk (by simp)
      exact storySteps_passage hm rest
    · refine .inl ⟨hk, ?_⟩
      rw [storyPart, hk]
  obtain ⟨u, line, rest, rfl, hline, hrest⟩ := exists_line_of_not_atEnd hbreak hend
  by_cases hentry : u.kind = .metaKey
  · exact storySteps_entry hline hrest hentry
  by_cases hinvalid : ∃ text, u.kind = .invalid text
  · obtain ⟨text, htext⟩ := hinvalid
    exact storySteps_invalid hline hrest htext
  exact storySteps_content hline hrest hentry (not_exists.1 hinvalid)

/-- One time around passes empty lines, and then the story ends or its next part is read. -/
theorem overStory_steps (ending : Position) (story : Story) (t : Trail) :
    let next := { t with rest := dropKinds (· = .newline) t.rest }
    (kindAt next.rest = .endOfInput ∧ overStory ending (story, t) = leave ⟨story, t.incidents.toList⟩) ∨
      (kindAt next.rest ≠ .endOfInput ∧
        ∃ s', overStory ending (story, t) = again s' ∧ StoryMoves ending (story, next) s') := by
  intro next
  have hpart : overStory ending (story, t) = storyPart ending story next := by
    rw [overStory, skipBreaks?_eq]
    rfl
  rw [hpart]
  have hsteps : StorySteps ending story next := storySteps (kindAt_dropBreaks t.rest)
  rcases hsteps with hleave | ⟨s', hagain, hmoves⟩
  · exact .inl hleave
  · refine .inr ⟨fun hend => ?_, s', hagain, hmoves⟩
    rw [storyPart, hend] at hagain
    cases hagain

/-- **Reading a story.** -/
theorem overStory_achieves (ending : Position) :
    (overStory ending).Achieves ahead (StoryReads ending) := by
  rintro ⟨story, t⟩
  have hpasses := passes_dropBreaks t.rest
  have hreads : ∀ r, StoryReads ending (story, { t with rest := dropKinds (· = .newline) t.rest }) r →
      StoryReads ending (story, t) r := fun r hr hends hzero =>
    (hr (hpasses.endsAt hends) hzero).trans (told_dropBreaks story t)
  rcases overStory_steps ending story t with ⟨hend, hleave⟩ | ⟨-, s', hagain, hmoves⟩
  · refine Loop.leads_of_leave _ hleave (hreads _ fun _ _ => ?_)
    rw [told_atEnd (.inr hend), tailAt_of_end hend]
    simp [reading, preamble, Outline.Tail.atEnd]
  · refine Loop.leads_of_again s' hagain (Nat.lt_of_lt_of_le hmoves.shorter hpasses.length_le)
      fun r hr => hreads r fun hends hzero => ?_
    exact (hr (hmoves.endsAt hends) (hmoves.blocks.trans hzero)).trans (hmoves.told hends hzero).symm

end

end Trail

namespace Story

theorem endsAt_ending (words : List Token) : Trail.EndsAt (Outline.ending words) words := by
  intro t ht
  rw [Outline.ending, ht]

/-- Reading in loops always comes to the story. -/
theorem ofTokens?_eq (tokens : List Token) : ofTokens? tokens = some (ofTokens tokens) := by
  obtain ⟨words, hwords⟩ : ∃ words, (tokens.filter fun t => !t.kind.isTrivia) = words := ⟨_, rfl⟩
  obtain ⟨r, hrun, hr⟩ := (Trail.overStory_achieves (Outline.ending words)).exists_run
    (s := Trail.start words) (Nat.le_refl words.length)
  rw [ofTokens?, hwords, hrun, hr (endsAt_ending words) rfl, ofTokens, Outline.ofTokens, hwords]
  rfl

/-- **Scanning and reading never stand still.** Every loop of the scanner takes a character and every loop of the reader
passes a token each time around, or it leaves, in whatever state it is entered; what is left then is budget enough. On
such budgets the loops cut every source into its lexemes and read every list of tokens as the story that it holds. -/
theorem loops_advance :
    (Loop.Bounded Lexeme.Cut.overText Lexeme.Cut.left ∧
      Loop.Bounded Lexeme.Cut.overCode (fun s => s.2.left) ∧
      Loop.Bounded Lexeme.Cut.overTags Lexeme.Cut.left ∧
      Loop.Bounded Lexeme.overString (fun q => q.rest.length) ∧
      ∀ a b, Loop.Bounded (Lexeme.overPair a b) fun s => s.2.length) ∧
    (∀ source, Loop.run Lexeme.Cut.overText (Text.normalChars source).length ⟨[], Text.normalChars source⟩
      = some (Lexed.lexemes source)) ∧
    (∀ ending, Loop.Bounded (Trail.overStory ending) Trail.ahead ∧
      ∀ room, (∀ nested, Loop.Bounded (Trail.overBlock ending (Trail.conditional? ending room) nested) Trail.ahead) ∧
        Loop.Bounded (Trail.overBranch ending (Trail.conditional? ending room)) Trail.ahead) ∧
    (Loop.Bounded Trail.overLine (fun s => s.1.length) ∧
      Loop.Bounded Trail.overSkipped (fun s => s.rest.length) ∧
      Loop.Bounded Trail.overContent List.length ∧
      Loop.Bounded (Trail.overKinds (· = .newline)) List.length) ∧
    ∀ tokens, ofTokens? tokens = some (ofTokens tokens) := by
  refine ⟨⟨?_, ?_, ?_, ?_, fun a b => ?_⟩, fun source => ?_, fun ending => ⟨?_, fun room => ⟨fun nested => ?_, ?_⟩⟩,
    ⟨?_, ?_, ?_, ?_⟩, ofTokens?_eq⟩
  · exact Lexeme.Cut.overText_achieves.bounded
  · exact Lexeme.Cut.overCode_achieves.bounded
  · exact Lexeme.Cut.overTags_achieves.bounded
  · exact Lexeme.overString_achieves.bounded
  · exact (Lexeme.overPair_achieves a b).bounded
  · exact Lexeme.Cut.run_overText (Text.normalChars source)
  · exact (Trail.overStory_achieves ending).bounded
  · exact (Trail.overBlock_achieves (Trail.conditional?_reads ending room) nested).bounded
  · exact (Trail.overBranch_achieves (Trail.conditional?_reads ending room)).bounded
  · exact Trail.overLine_achieves.bounded
  · exact Trail.overSkipped_achieves.bounded
  · exact (Trail.overKinds_achieves rfl).bounded
  · exact (Trail.overKinds_achieves rfl).bounded

end Story

end Gamebook
