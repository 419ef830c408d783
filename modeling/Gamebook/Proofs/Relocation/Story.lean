/-
# Gamebook.Proofs.Relocation.Story — reading a story does not look at places

Moving every token by a map `f` of places moves the passages and the incidents that are read from them
by the same map. The main statements are `Story.ofTokens_relocate_story` and
`Story.ofTokens_relocate_incidents`, for every `f` and every list of tokens that holds more than comments.
-/
import Gamebook.Story.Read
import Gamebook.Proofs.Reading.Line
import Gamebook.Proofs.Relocation

namespace Gamebook

/-! ## Moving layouts and stories -/

/-- A passage, moved. -/
def Passage.relocate (f : Position → Position) (p : Passage) : Passage :=
  { p with body := Node.relocateAll f p.body, pos := f p.pos }

/-- A story, moved. -/
def Story.relocate (f : Position → Position) (s : Story) : Story :=
  { s with passages := s.passages.map (Passage.relocate f) }

/-- A section with its marker and its lines moved. -/
def Section.relocate (f : Position → Position) (s : Section) : Section :=
  ⟨f s.pos, s.header.relocate f, s.body.map (Line.relocate f)⟩

/-- An outline, moved. -/
def Outline.relocate (f : Position → Position) (o : Outline) : Outline :=
  ⟨o.preamble.map (Line.relocate f), o.sections.map (Section.relocate f)⟩

/-- An open conditional, moved. -/
def Frame.relocate (f : Position → Position) (fr : Frame) : Frame :=
  { guard := fr.guard.relocate f
    pos := f fr.pos
    before := fr.before.map (Node.relocate f)
    first := fr.first.map (Array.map (Node.relocate f)) }

/-- A body under construction, moved. -/
def Assembly.relocate (f : Position → Position) (a : Assembly) : Assembly :=
  { nodes := a.nodes.map (Node.relocate f)
    frames := a.frames.map (Frame.relocate f)
    skipping := a.skipping
    incidents := a.incidents.map (Incident.relocate f) }

/-- The metadata under construction, moved. -/
def Preamble.relocate (f : Position → Position) (p : Preamble) : Preamble :=
  { p with incidents := p.incidents.map (Incident.relocate f) }

section

variable (f : Position → Position)

/-! ## Bodies -/

theorem Incident.ofLine_relocate (ts : List Token) (e : SyntaxError) :
    Incident.ofLine (ts.map (Token.relocate f)) (e.relocate f) = (Incident.ofLine ts e).relocate f := by
  have hany : (ts.map (Token.relocate f)).any (fun t => t.kind.isInvalid)
      = ts.any fun t => t.kind.isInvalid := by
    rw [List.any_map]
    rfl
  rw [Incident.ofLine, Incident.ofLine, hany]
  rfl

theorem Frame.toNode_relocate (fr : Frame) (nodes : Array Node) (closing : Option Position) :
    (fr.relocate f).toNode (nodes.map (Node.relocate f)) (closing.map f)
      = (fr.toNode nodes closing).relocate f := by
  obtain ⟨guard, pos, before, first⟩ := fr
  cases first <;> simp [Frame.toNode, Frame.relocate, Node.relocate]

theorem Assembly.push_relocate (a : Assembly) (n : Node) :
    (a.relocate f).push (n.relocate f) = (a.push n).relocate f := by
  simp [Assembly.push, Assembly.relocate]

theorem Assembly.note_relocate (a : Assembly) (i : Incident) :
    (a.relocate f).note (i.relocate f) = (a.note i).relocate f := by
  simp [Assembly.note, Assembly.relocate]

theorem Assembly.openBlock_relocate (a : Assembly) (guard : Expr) (pos : Position) :
    (a.relocate f).openBlock (guard.relocate f) (f pos) = (a.openBlock guard pos).relocate f := by
  simp [Assembly.openBlock, Assembly.relocate, Frame.relocate]

theorem Assembly.closeBlock_relocate (a : Assembly) (closing : Option Position) :
    (a.relocate f).closeBlock (closing.map f) = (a.closeBlock closing).relocate f := by
  obtain ⟨nodes, frames, skipping, incidents⟩ := a
  cases frames with
  | nil => rfl
  | cons fr frs =>
    have h := Frame.toNode_relocate f fr nodes closing
    simp only [Assembly.closeBlock, Assembly.relocate, List.map_cons, h]
    simp [Frame.relocate]

theorem Assembly.mark_relocate (a : Assembly) (marker : Marker) (pos : Position) :
    (a.relocate f).mark marker (f pos) = (a.mark marker pos).relocate f := by
  obtain ⟨nodes, frames, skipping, incidents⟩ := a
  cases frames with
  | nil => exact Assembly.push_relocate f ⟨nodes, [], skipping, incidents⟩ (.stray marker pos)
  | cons fr frs =>
    cases marker with
    | close =>
      exact Assembly.closeBlock_relocate f ⟨nodes, fr :: frs, skipping, incidents⟩ (some pos)
    | otherwise =>
      obtain ⟨guard, opening, before, first⟩ := fr
      cases first with
      | none => simp [Assembly.mark, Assembly.relocate, Frame.relocate]
      | some body =>
        exact Assembly.push_relocate f
          ⟨nodes, ⟨guard, opening, before, some body⟩ :: frs, skipping, incidents⟩
          (.stray .otherwise pos)

theorem Assembly.skip_relocate (waiting : Nat) (atStart : Bool) (ts : List Token) :
    Assembly.skip waiting atStart (ts.map (Token.relocate f))
      = (Assembly.skip waiting atStart ts).map id (List.map (Token.relocate f)) := by
  induction ts generalizing waiting atStart with
  | nil => rfl
  | cons t ts ih =>
    simp only [List.map_cons, Assembly.skip, Token.relocate_kind]
    split
    · exact ih _ _
    · split
      · rfl
      · exact ih _ _
    · exact ih _ _

theorem Assembly.markerLine_relocate (a : Assembly) (stop : LineEnd) (marker : Marker) (t : Token)
    (ts : List Token) :
    (a.relocate f).markerLine (stop.relocate f) marker (t.relocate f) (ts.map (Token.relocate f))
      = (a.markerLine stop marker t ts).relocate f := by
  have hnote := Incident.ofLine_relocate f (t :: ts)
  rw [Assembly.markerLine, Assembly.markerLine, LineEnd.expectEnd_relocate]
  cases stop.expectEnd ts with
  | ok u => exact Assembly.mark_relocate f a marker t.pos
  | error e =>
    simp only [relocateOutcome_error, Token.relocate_pos]
    rw [← List.map_cons, hnote, Assembly.note_relocate, Assembly.mark_relocate]

theorem Assembly.conditionLine_relocate (a : Assembly) (stop : LineEnd) (t : Token)
    (ts : List Token) :
    (a.relocate f).conditionLine (stop.relocate f) (t.relocate f) (ts.map (Token.relocate f))
      = (a.conditionLine stop t ts).relocate f := by
  have hnote := Incident.ofLine_relocate f (t :: ts)
  rw [Assembly.conditionLine, Assembly.conditionLine, Node.readCondition_relocate]
  cases Node.readCondition stop ts with
  | ok guard => exact Assembly.openBlock_relocate f a guard t.pos
  | error e =>
    simp only [relocateOutcome_error, Token.relocate_pos]
    rw [← List.map_cons, hnote, Assembly.note_relocate]
    exact Assembly.openBlock_relocate f _ (.literal (.bool false)) t.pos

theorem Assembly.statementLine_relocate (a : Assembly) (stop : LineEnd) (t : Token)
    (ts : List Token) :
    (a.relocate f).statementLine (stop.relocate f) (t.relocate f) (ts.map (Token.relocate f))
      = (a.statementLine stop t ts).relocate f := by
  have hnote := Incident.ofLine_relocate f (t :: ts)
  rw [Assembly.statementLine, Assembly.statementLine, Node.read_relocate]
  cases Node.read stop t ts with
  | ok n => exact Assembly.push_relocate f a n
  | error e =>
    simp only [relocateOutcome_error]
    rw [← List.map_cons, hnote, Assembly.note_relocate]

/-- A line does the same to a moved body. -/
theorem Assembly.readLine_relocate (a : Assembly) (stop : LineEnd) (ts : List Token) :
    (a.relocate f).readLine (stop.relocate f) (ts.map (Token.relocate f))
      = (a.readLine stop ts).relocate f := by
  have hframes : ∀ a : Assembly, (a.relocate f).frames.length = a.frames.length := by
    simp [Assembly.relocate]
  have hnote : ∀ (a : Assembly) (t : Token),
      (a.relocate f).note (.tooDeep (t.relocate f)) = (a.note (.tooDeep t)).relocate f :=
    fun a t => Assembly.note_relocate f a (.tooDeep t)
  refine readLine_induction (motive := fun a ts r =>
      (a.relocate f).readLine (stop.relocate f) (ts.map (Token.relocate f)) = r.relocate f)
    ?nil ?marker ?condition ?statement ?skipped ?resumed a ts
  case nil => exact fun a => readLine_nil _ _
  case marker =>
    intro a t ts m hm
    rw [List.map_cons, readLine_marker (t := t.relocate f) hm]
    exact Assembly.markerLine_relocate f a stop m t ts
  case condition =>
    intro a t ts hbrace hdepth
    rw [← hframes a] at hdepth
    rw [List.map_cons, readLine_condition (t := t.relocate f) hbrace hdepth]
    exact Assembly.conditionLine_relocate f a stop t ts
  case statement =>
    intro a t ts hmarker hbrace
    rw [List.map_cons, readLine_statement (t := t.relocate f) hmarker hbrace]
    exact Assembly.statementLine_relocate f a stop t ts
  case skipped =>
    intro a t ts waiting hbrace hdepth hskip
    have hmoved := Assembly.skip_relocate f 0 true (t :: ts)
    rw [hskip] at hmoved
    rw [← hframes a] at hdepth
    rw [List.map_cons] at hmoved ⊢
    rw [readLine_skipped (t := t.relocate f) hbrace hdepth hmoved, hnote]
    rfl
  case resumed =>
    intro a t ts rest hbrace hdepth hskip ih
    have hmoved := Assembly.skip_relocate f 0 true (t :: ts)
    rw [hskip] at hmoved
    rw [← hframes a] at hdepth
    rw [List.map_cons] at hmoved ⊢
    rw [readLine_resumed (t := t.relocate f) hbrace hdepth hmoved, hnote]
    exact ih

theorem Assembly.line_relocate (a : Assembly) (l : Line) :
    (a.relocate f).line (l.relocate f) = (a.line l).relocate f := by
  obtain ⟨nodes, frames, skipping, incidents⟩ := a
  cases skipping with
  | none => exact Assembly.readLine_relocate f ⟨nodes, frames, none, incidents⟩ l.stop l.tokens
  | some waiting =>
    have hskip := Assembly.skip_relocate f waiting true l.tokens
    simp only [Assembly.line, Assembly.relocate, Line.relocate] at hskip ⊢
    rw [hskip]
    cases Assembly.skip waiting true l.tokens with
    | inl waiting => rfl
    | inr rest => exact Assembly.readLine_relocate f ⟨nodes, frames, none, incidents⟩ l.stop rest

theorem Assembly.foldl_line_relocate (a : Assembly) (ls : List Line) :
    (ls.map (Line.relocate f)).foldl Assembly.line (a.relocate f) = (ls.foldl Assembly.line a).relocate f := by
  rw [List.foldl_map]
  exact List.foldl_hom (Assembly.relocate f) (Assembly.line_relocate f)

theorem Assembly.ofLines_relocate (ls : List Line) :
    Assembly.ofLines (ls.map (Line.relocate f)) = (Assembly.ofLines ls).relocate f := by
  have hempty : Assembly.empty.relocate f = Assembly.empty := by
    simp [Assembly.relocate, Assembly.empty]
  rw [Assembly.ofLines, ← hempty, Assembly.foldl_line_relocate, Assembly.ofLines]

theorem Assembly.closeAll_relocate (nodes : Array Node) (frames : List Frame) :
    Assembly.closeAll (nodes.map (Node.relocate f)) (frames.map (Frame.relocate f))
      = (Assembly.closeAll nodes frames).map (Node.relocate f) := by
  induction frames generalizing nodes with
  | nil => rfl
  | cons fr frs ih =>
    have h : (fr.relocate f).before.push ((fr.relocate f).toNode (nodes.map (Node.relocate f)) none)
        = (fr.before.push (fr.toNode nodes none)).map (Node.relocate f) := by
      have hnode := Frame.toNode_relocate f fr nodes none
      rw [Option.map_none] at hnode
      rw [hnode]
      simp [Frame.relocate]
    rw [List.map_cons, Assembly.closeAll, Assembly.closeAll, h, ih]

theorem Assembly.body_relocate (a : Assembly) :
    (a.relocate f).body = a.body.map (Node.relocate f) := by
  have h := Assembly.closeAll_relocate f a.nodes a.frames
  simp only [Assembly.body, Assembly.relocate, h, Array.toList_map]

/-! ## Metadata and headers -/

theorem Preamble.readEntry_relocate (stop : LineEnd) (t : Token) (ts : List Token) :
    Preamble.readEntry (stop.relocate f) (t.relocate f) (ts.map (Token.relocate f))
      = relocateOutcome f id (Preamble.readEntry stop t ts) := by
  rw [Preamble.readEntry.eq_def, Preamble.readEntry.eq_def, Token.relocate_content]
  by_cases h : t.content = ""
  · rw [if_pos h, if_pos h]
    exact LineEnd.fail_relocate f _ stop (t :: ts) _
  · rw [if_neg h, if_neg h]
    cases ts with
    | nil => rfl
    | cons v rest =>
      have hkind : ((v.relocate f).kind = .text) = (v.kind = .text) := rfl
      simp only [List.map_cons]
      by_cases hv : v.kind = .text
      · rw [if_pos hv, if_pos (hkind ▸ hv), LineEnd.expectEnd_relocate]
        exact relocateOutcome_bind f _ _ _ _ _ fun _ => rfl
      · rw [if_neg hv, if_neg (hkind ▸ hv)]
        exact LineEnd.missing_relocate f _ stop (v :: rest) _

theorem Preamble.set_relocate (p : Preamble) (key value : String) :
    (p.relocate f).set key value = (p.set key value).relocate f := by
  simp only [Preamble.set]
  split
  · rfl
  · split <;> rfl

theorem Preamble.readLine_relocate (p : Preamble) (stop : LineEnd) (t : Token) (ts : List Token) :
    (p.relocate f).readLine (stop.relocate f) (t.relocate f) (ts.map (Token.relocate f))
      = (p.readLine stop t ts).relocate f := by
  have hnote := Incident.ofLine_relocate f (t :: ts)
  simp only [Preamble.readLine, Token.relocate_kind, Preamble.readEntry_relocate]
  split
  · cases Preamble.readEntry stop t ts with
    | ok entry => exact Preamble.set_relocate f p entry.1 entry.2
    | error e =>
      simp only [relocateOutcome_error]
      rw [← List.map_cons, hnote]
      simp [Preamble.relocate]
  · rfl
  · simp [Preamble.relocate, Incident.relocate, SyntaxError.relocate]

theorem Preamble.ofLines_relocate (ls : List Line) :
    Preamble.ofLines (ls.map (Line.relocate f)) = (Preamble.ofLines ls).relocate f := by
  have hline : ∀ (p : Preamble) (l : Line), (p.relocate f).line (l.relocate f) = (p.line l).relocate f := by
    rintro p ⟨ts, stop⟩
    simp only [Preamble.line, Line.relocate]
    by_cases h : p.closed = true
    · rw [if_pos h, if_pos (show (p.relocate f).closed = true from h)]
    · rw [if_neg h, if_neg (show ¬ (p.relocate f).closed = true from h)]
      cases ts with
      | nil => rfl
      | cons t ts => exact Preamble.readLine_relocate f p stop t ts
  have hempty : Preamble.empty.relocate f = Preamble.empty := by
    simp [Preamble.relocate, Preamble.empty]
  have hrun : ls.foldl (fun p l => p.line (l.relocate f)) (Preamble.empty.relocate f)
      = (ls.foldl Preamble.line Preamble.empty).relocate f :=
    List.foldl_hom (Preamble.relocate f) hline
  rw [Preamble.ofLines, List.foldl_map, ← hempty, hrun, Preamble.ofLines]

theorem Header.readTags_relocate (stop : LineEnd) (ts : List Token) :
    Header.readTags (stop.relocate f) (ts.map (Token.relocate f))
      = ((Header.readTags stop ts).1, relocateOutcome f id (Header.readTags stop ts).2) := by
  cases ts with
  | nil => rfl
  | cons t ts =>
    have hkind : ((t.relocate f).kind = .opening .square) = (t.kind = .opening .square) := rfl
    simp only [List.map_cons, Header.readTags]
    by_cases h : t.kind = .opening .square
    · rw [if_pos h, if_pos (hkind ▸ h), List.takeWhile_map, List.dropWhile_map, List.map_map,
        LineEnd.expect_relocate]
      refine Prod.ext rfl ?_
      apply relocateOutcome_bind
      rintro ⟨⟨⟩, rest⟩
      exact LineEnd.expectEnd_relocate f stop rest
    · rw [if_neg h, if_neg (hkind ▸ h)]
      exact Prod.ext rfl (LineEnd.expectEnd_relocate f stop (t :: ts))

/-- A header keeps its name and its tags when its line is moved. -/
theorem Header.ofLine_relocate (l : Line) :
    Header.ofLine (l.relocate f)
      = { Header.ofLine l with incidents := (Header.ofLine l).incidents.map (Incident.relocate f) } := by
  obtain ⟨ts, stop⟩ := l
  have hnote := Incident.ofLine_relocate f ts
  simp only [Header.ofLine, Line.relocate, LineEnd.expectName_relocate]
  cases stop.expectName .expectedPassageName ts with
  | error e => simp only [relocateOutcome_error, hnote, List.map_cons, List.map_nil]
  | ok r =>
    obtain ⟨name, rest⟩ := r
    simp only [relocateOutcome_ok, relocateRest, Header.readTags_relocate]
    cases Header.readTags stop rest with
    | mk tags outcome =>
      cases outcome with
      | ok u => rfl
      | error e => simp only [relocateOutcome_error, hnote, List.map_cons, List.map_nil, id]

/-! ## Outlines and stories -/

theorem Section.passage?_relocate (s : Section) :
    (s.relocate f).passage? = s.passage?.map (Passage.relocate f) := by
  simp only [Section.passage?, Section.relocate, Header.ofLine_relocate, Assembly.ofLines_relocate,
    Assembly.body_relocate, Option.map_map]
  congr 1
  funext name
  simp [Passage.relocate]

theorem Section.incidents_relocate (s : Section) :
    (s.relocate f).incidents = s.incidents.map (Incident.relocate f) := by
  simp only [Section.incidents, Section.relocate, Header.ofLine_relocate, Assembly.ofLines_relocate,
    List.map_append]
  simp [Assembly.relocate]

theorem Outline.read_relocate_story (o : Outline) :
    (o.relocate f).read.story = o.read.story.relocate f := by
  simp only [Outline.read, Outline.relocate, Story.relocate, Preamble.ofLines_relocate,
    List.filterMap_map]
  have hpassages : o.sections.filterMap (Section.passage? ∘ Section.relocate f)
      = (o.sections.filterMap Section.passage?).map (Passage.relocate f) := by
    rw [List.map_filterMap]
    congr 1
    funext s
    exact Section.passage?_relocate f s
  rw [hpassages]
  rfl

theorem Outline.read_relocate_incidents (o : Outline) :
    (o.relocate f).read.incidents = o.read.incidents.map (Incident.relocate f) := by
  simp only [Outline.read, Outline.relocate, Preamble.ofLines_relocate, List.flatMap_map,
    List.map_append, List.map_flatMap, Section.incidents_relocate]
  simp [Preamble.relocate]

/-- The layout of some last part of the tokens, moved. -/
def Outline.Tail.relocate (tail : Outline.Tail) : Outline.Tail :=
  ⟨tail.line.relocate f, tail.more.map (Line.relocate f), tail.sections.map (Section.relocate f)⟩

theorem Outline.layout_relocate (ending : Position) (ts : List Token) :
    Outline.layout (f ending) (ts.map (Token.relocate f)) = (Outline.layout ending ts).relocate f := by
  induction ts with
  | nil => rfl
  | cons t ts ih =>
    have hpush : ∀ tail : Outline.Tail, (tail.relocate f).push (t.relocate f) = (tail.push t).relocate f := by
      intro tail
      simp only [Outline.Tail.push, Token.relocate_kind]
      split <;> rfl
    simp only [Outline.layout, List.map_cons, List.foldr_cons] at ih ⊢
    rw [ih, hpush]

theorem Outline.ending_relocate {ts : List Token} (h : ts ≠ []) :
    Outline.ending (ts.map (Token.relocate f)) = f (Outline.ending ts) := by
  have hend : (Outline.isEnd ∘ Token.relocate f) = Outline.isEnd := rfl
  simp only [Outline.ending, List.find?_map, hend, List.getLast?_map]
  cases ts.find? Outline.isEnd with
  | some t => rfl
  | none =>
    rw [List.getLast?_eq_some_getLast h]
    rfl

theorem Outline.ofTokens_relocate {ts : List Token} (h : ∃ t ∈ ts, t.kind.isTrivia = false) :
    Outline.ofTokens (ts.map (Token.relocate f)) = (Outline.ofTokens ts).relocate f := by
  have htrivia : (fun t : Token => !t.kind.isTrivia) ∘ Token.relocate f
      = fun t : Token => !t.kind.isTrivia := rfl
  have hend : (fun t : Token => !Outline.isEnd t) ∘ Token.relocate f
      = fun t : Token => !Outline.isEnd t := rfl
  have hne : ts.filter (fun t => !t.kind.isTrivia) ≠ [] := by
    obtain ⟨t, ht, hk⟩ := h
    exact List.ne_nil_of_mem (List.mem_filter.mpr ⟨ht, by rw [hk]; rfl⟩)
  simp only [Outline.ofTokens, List.filter_map, htrivia, List.takeWhile_map, hend]
  rw [Outline.ending_relocate f hne, Outline.layout_relocate]
  rfl

/-- The story of moved tokens is the moved story, whatever the tokens are, as long as one of them is
more than a comment. -/
theorem Story.ofTokens_relocate_story {ts : List Token} (h : ∃ t ∈ ts, t.kind.isTrivia = false) :
    (Story.ofTokens (ts.map (Token.relocate f))).story = (Story.ofTokens ts).story.relocate f := by
  rw [Story.ofTokens, Story.ofTokens, Outline.ofTokens_relocate f h, Outline.read_relocate_story]

/-- The incidents of moved tokens are the moved incidents. -/
theorem Story.ofTokens_relocate_incidents {ts : List Token}
    (h : ∃ t ∈ ts, t.kind.isTrivia = false) :
    (Story.ofTokens (ts.map (Token.relocate f))).incidents
      = (Story.ofTokens ts).incidents.map (Incident.relocate f) := by
  rw [Story.ofTokens, Story.ofTokens, Outline.ofTokens_relocate f h,
    Outline.read_relocate_incidents]

/-- The reported errors of a moved reading are the moved errors. -/
theorem Incident.filterMap_reported?_relocate (is : List Incident) :
    (is.map (Incident.relocate f)).filterMap Incident.reported?
      = (is.filterMap Incident.reported?).map (SyntaxError.relocate f) := by
  rw [List.filterMap_map, List.map_filterMap]
  congr 1
  funext i
  obtain ⟨error, handling⟩ := i
  cases handling <;> rfl

end

end Gamebook
