/-
# Gamebook.Proofs.Recovery — what a fault cannot do

Reading goes on after a fault, and this module says how much of the story is out of its reach.

* Passages. A passage begins at a passage marker that is followed by a name, and nowhere else. No fault hides
  one and none makes one up, whatever the tokens are (`Story.passages_ofTokens`).
* Lines. A line inside a passage that cannot be read is the same as no line, apart from the report about it
  (`Story.ofTokens_unreadable_line`). What an assembly does with a line does not depend on earlier incidents,
  so it comes to the next line in the state it would have been in.
-/
import Mathlib.Data.List.Basic
import Gamebook.Proofs.Layout
import Gamebook.Proofs.Reading.Incident

namespace Gamebook

/-! ## Passages -/

namespace Token

/-- What the passage marker `m` announces when the token `n` comes next: a name, and the place of the
marker. -/
def heading? (m n : Token) : Option (String × Position) :=
  if m.kind = .passageMarker ∧ n.kind = .identifier then some (n.raw, m.pos) else none

/-- What the passage markers among the tokens announce, each with the token right after it. -/
def headings (ts : List Token) : List (String × Position) :=
  (ts.zip ts.tail).filterMap fun pair => heading? pair.1 pair.2

theorem headings_cons (t : Token) (ts : List Token) :
    headings (t :: ts) = (ts.head?.bind t.heading?).toList ++ headings ts := by
  cases ts with
  | nil => rfl
  | cons u ts =>
    simp only [headings, List.tail_cons, List.zip_cons_cons, List.filterMap_cons, List.head?_cons,
      Option.bind_some]
    cases t.heading? u <;> rfl

/-- Only passage markers announce anything. -/
theorem head?_bind_heading? {t : Token} (h : t.kind ≠ .passageMarker) (ts : List Token) :
    ts.head?.bind t.heading? = none := by
  cases ts with
  | nil => rfl
  | cons u ts => exact if_neg fun hu => h hu.1

end Token

/-- The name of a passage and the place of its marker. -/
def Passage.heading (p : Passage) : String × Position := (p.name, p.pos)

theorem Header.name_ofLine (l : Line) :
    (ofLine l).name = l.tokens.head?.bind fun t => if t.kind = .identifier then some t.raw else none := by
  obtain ⟨ts, stop⟩ := l
  cases ts with
  | nil => rfl
  | cons t ts =>
    rw [ofLine, LineEnd.expectName, List.head?_cons, Option.bind_some]
    by_cases hname : t.kind = .identifier
    · simp only [if_pos hname]
      split <;> rfl
    · simp only [if_neg hname]
      rfl

theorem Section.heading_passage? (s : Section) {m : Token} (hmarker : m.kind = .passageMarker)
    (hpos : m.pos = s.pos) : s.passage?.map Passage.heading = s.header.tokens.head?.bind m.heading? := by
  simp only [Section.passage?, Header.name_ofLine]
  cases s.header.tokens.head? with
  | none => rfl
  | some n =>
    by_cases hname : n.kind = .identifier <;>
      simp [Token.heading?, Passage.heading, hmarker, hname, hpos]

namespace Outline

/-- The first line of a layout starts with the first token, unless that ends it. -/
theorem layout_head? (e : Position) (ts : List Token) :
    (layout e ts).line.tokens.head?
      = ts.head?.filter fun t => t.kind ≠ .newline ∧ t.kind ≠ .passageMarker := by
  cases ts with
  | nil => rfl
  | cons t ts =>
    rw [layout_cons, Tail.push, List.head?_cons]
    split <;> simp_all [Option.filter]

/-- What follows a passage marker on its line announces what the next token does: a token that ends the
line is no name. -/
theorem layout_head?_bind_heading? (e : Position) (t : Token) (ts : List Token) :
    (layout e ts).line.tokens.head?.bind t.heading? = ts.head?.bind t.heading? := by
  rw [layout_head?]
  cases ts.head? with
  | none => rfl
  | some n =>
    by_cases hname : n.kind = .identifier <;>
      by_cases hend : n.kind = .newline ∨ n.kind = .passageMarker <;>
      simp_all [Option.filter, Token.heading?]

theorem headings_layout (e : Position) (ts : List Token) :
    (layout e ts).sections.flatMap (fun s => (s.passage?.map Passage.heading).toList) = Token.headings ts := by
  induction ts with
  | nil => rfl
  | cons t ts ih =>
    rw [Token.headings_cons, ← ih, layout_cons, Tail.push]
    split
    · next hkind => rw [Token.head?_bind_heading? (by simp [hkind])]; rfl
    · next hkind =>
      rw [List.flatMap_cons, Section.heading_passage? _ hkind rfl, layout_head?_bind_heading?]
    · next hkind => rw [Token.head?_bind_heading? hkind]; rfl

end Outline

/-- **No fault hides a passage or makes one up:** the passages of a story are those that a passage marker
right before a name announces, in their order. -/
theorem Story.passages_ofTokens (tokens : List Token) :
    (Story.ofTokens tokens).story.passages.map Passage.heading
      = Token.headings ((tokens.filter fun t => !t.kind.isTrivia).takeWhile fun t => !Outline.isEnd t) := by
  rw [← Outline.headings_layout (Outline.ending (tokens.filter fun t => !t.kind.isTrivia)),
    ← List.filterMap_eq_flatMap_toList, ← List.map_filterMap]
  rfl

/-! ## Lines that cannot be read -/

/-- A section with more lines at its end. -/
def Section.extend (s : Section) (ls : List Line) : Section := { s with body := s.body ++ ls }

namespace Outline

/-- Without a passage marker, the lines of what follows stay lines next to those in front of it. -/
theorem Tail.exists_pushAll_of_no_marker {ts : List Token} (hts : ∀ t ∈ ts, t.kind ≠ .passageMarker)
    (first : Line) :
    ∃ line more, ∀ ls ss, (Tail.mk first ls ss).pushAll ts = ⟨line, more ++ ls, ss⟩ := by
  induction ts with
  | nil => exact ⟨first, [], fun ls ss => rfl⟩
  | cons t ts ih =>
    obtain ⟨hmarker, hts⟩ := List.forall_mem_cons.mp hts
    obtain ⟨line, more, ih⟩ := ih hts
    by_cases hbreak : t.kind = .newline
    · refine ⟨⟨[], ⟨t.pos, none⟩⟩, line :: more, fun ls ss => ?_⟩
      rw [pushAll_cons, ih, Tail.push_newline _ hbreak]
      rfl
    · refine ⟨⟨t :: line.tokens, line.stop⟩, more, fun ls ss => ?_⟩
      rw [pushAll_cons, ih, Tail.push_word _ hbreak hmarker]

/-- After a passage marker, the lines of what follows belong to the section of the last marker. -/
theorem Tail.exists_pushAll_of_marker {ts : List Token} (hts : ∃ t ∈ ts, t.kind = .passageMarker)
    (first : Line) :
    ∃ line more earlier s, ∀ ls ss,
      (Tail.mk first ls ss).pushAll ts = ⟨line, more, earlier ++ Section.extend s ls :: ss⟩ := by
  induction ts with
  | nil =>
    obtain ⟨m, hm, -⟩ := hts
    cases hm
  | cons t ts ih =>
    by_cases hlater : ∃ u ∈ ts, u.kind = .passageMarker
    · obtain ⟨line, more, earlier, s, ih⟩ := ih hlater
      by_cases hbreak : t.kind = .newline
      · refine ⟨⟨[], ⟨t.pos, none⟩⟩, line :: more, earlier, s, fun ls ss => ?_⟩
        rw [pushAll_cons, ih, Tail.push_newline _ hbreak]
      by_cases hmarker : t.kind = .passageMarker
      · refine ⟨⟨[], ⟨t.pos, some t.describe⟩⟩, [], ⟨t.pos, line, more⟩ :: earlier, s, fun ls ss => ?_⟩
        rw [pushAll_cons, ih, Tail.push_marker _ hmarker]
        rfl
      · refine ⟨⟨t :: line.tokens, line.stop⟩, more, earlier, s, fun ls ss => ?_⟩
        rw [pushAll_cons, ih, Tail.push_word _ hbreak hmarker]
    · -- The first token is the last marker.
      have hnone : ∀ u ∈ ts, u.kind ≠ .passageMarker := fun u hu hkind => hlater ⟨u, hu, hkind⟩
      have hmarker : t.kind = .passageMarker := by
        obtain ⟨m, hm, hkind⟩ := hts
        rcases List.mem_cons.mp hm with rfl | hm
        · exact hkind
        · exact absurd hkind (hnone m hm)
      obtain ⟨line, more, hlines⟩ := exists_pushAll_of_no_marker hnone first
      refine ⟨⟨[], ⟨t.pos, some t.describe⟩⟩, [], [], ⟨t.pos, line, more⟩, fun ls ss => ?_⟩
      rw [pushAll_cons, hlines, Tail.push_marker _ hmarker]
      rfl

/-- An outline whose last section goes on with more lines, before further sections. -/
def extend (o : Outline) (s : Section) (ls : List Line) (ss : List Section) : Outline :=
  ⟨o.preamble, o.sections ++ Section.extend s ls :: ss⟩

/-- Tokens that hold a passage marker and end a line: the layout of what follows them goes on with their last
section. -/
theorem exists_extend {pre : List Token} (hpassage : ∃ m ∈ pre, m.kind = .passageMarker)
    (hbreak : ∃ b ∈ pre.getLast?, b.kind = .newline) :
    ∃ o s, ∀ tail : Tail, (tail.pushAll pre).toOutline = extend o s (tail.line :: tail.more) tail.sections := by
  obtain ⟨b, hlast, hb⟩ := hbreak
  obtain ⟨init, rfl⟩ := List.getLast?_eq_some_iff.mp hlast
  have hinit : ∃ m ∈ init, m.kind = .passageMarker := by
    obtain ⟨m, hm, hkind⟩ := hpassage
    rcases List.mem_append.mp hm with hm | hm
    · exact ⟨m, hm, hkind⟩
    · rw [List.mem_singleton.mp hm, hb] at hkind
      cases hkind
  obtain ⟨line, more, earlier, s, hpush⟩ := Tail.exists_pushAll_of_marker hinit ⟨[], ⟨b.pos, none⟩⟩
  refine ⟨⟨line :: more, earlier⟩, s, fun tail => ?_⟩
  rw [Tail.pushAll_append_newline _ _ hb, hpush]
  rfl

end Outline

namespace Section

/-- The incidents of lines that a section goes on with. -/
def later (s : Section) (ls : List Line) : List Incident :=
  (ls.foldl Assembly.line (Assembly.ofLines s.body).quiet).incidents.toList

theorem later_nil (s : Section) : s.later [] = [] := rfl

theorem ofLines_extend (s : Section) (ls : List Line) :
    Assembly.ofLines (s.extend ls).body
      = (ls.foldl Assembly.line (Assembly.ofLines s.body).quiet).after (Assembly.ofLines s.body).incidents := by
  rw [← Assembly.foldl_line_after, Assembly.quiet_after]
  exact List.foldl_append

theorem incidents_extend (s : Section) (ls : List Line) :
    (s.extend ls).incidents = s.incidents ++ s.later ls := by
  rw [incidents, ofLines_extend, incidents, later, List.append_assoc, ← Array.toList_append]
  rfl

section

variable {s : Section} {t : Token} {ts : List Token} {stop : LineEnd} {e : SyntaxError}
  (hskipping : (Assembly.ofLines s.body).skipping = none) (hmarker : ∀ m, t.kind ≠ .marker m)
  (hbrace : t.kind ≠ .opening .brace) (hfails : Node.read stop t ts = .error e) (ls : List Line)
include hskipping hmarker hbrace hfails

/-- A statement that cannot be read is noted, and nothing else happens. -/
theorem foldl_line_unreadable :
    (⟨t :: ts, stop⟩ :: ls).foldl Assembly.line (Assembly.ofLines s.body).quiet
      = (ls.foldl Assembly.line (Assembly.ofLines s.body).quiet).after #[.ofLine (t :: ts) e] := by
  have hquiet : (Assembly.ofLines s.body).quiet.skipping = none := hskipping
  have hline : (Assembly.ofLines s.body).quiet.line ⟨t :: ts, stop⟩
      = (Assembly.ofLines s.body).quiet.note (.ofLine (t :: ts) e) := by
    rw [Assembly.line, hquiet]
    simp only [Assembly.readLine_statement hmarker hbrace, Assembly.statementLine, hfails]
  rw [List.foldl_cons, hline, Assembly.note_quiet, Assembly.foldl_line_after]

theorem passage?_extend_unreadable :
    (s.extend (⟨t :: ts, stop⟩ :: ls)).passage? = (s.extend ls).passage? := by
  rw [passage?, ofLines_extend, foldl_line_unreadable hskipping hmarker hbrace hfails, passage?,
    ofLines_extend]
  rfl

theorem later_unreadable : s.later (⟨t :: ts, stop⟩ :: ls) = .ofLine (t :: ts) e :: s.later ls := by
  rw [later, foldl_line_unreadable hskipping hmarker hbrace hfails, later, Assembly.after,
    Array.toList_append]
  rfl

end

end Section

namespace Outline

/-- A blank line at the end of the last section changes nothing. -/
theorem read_extend_blank (o : Outline) (s : Section) (ls : List Line) (stop : LineEnd) (ss : List Section) :
    (extend o s (ls ++ [⟨[], stop⟩]) ss).read = (extend o s ls ss).read := by
  rw [← read_compact, ← read_compact (extend o s ls ss)]
  simp [compact, extend, Section.compact, Section.extend, List.filter_append, Line.holds]

/-- More lines and sections only add incidents. -/
theorem incidents_read_extend (o : Outline) (s : Section) (ls : List Line) (ss : List Section) :
    (extend o s ls ss).read.incidents
      = (extend o s [] []).read.incidents ++ (s.later ls ++ ss.flatMap Section.incidents) := by
  simp [read, extend, Section.incidents_extend, Section.later_nil]

/-- Unless something was reported as nested too deep, nothing is being skipped where a section goes on. -/
theorem skipping_eq_none {o : Outline} {s : Section} {ls : List Line} {ss : List Section}
    (hdeep : ∀ d ∈ (extend o s ls ss).read.errors, d.fault ≠ .nestingTooDeep) :
    (Assembly.ofLines s.body).skipping = none := by
  cases hskipping : (Assembly.ofLines s.body).skipping with
  | none => rfl
  | some waiting =>
    obtain ⟨t, ht⟩ := (Assembly.accounts_ofLines s.body).skipping (by rw [hskipping]; rfl)
    have hsection : Incident.tooDeep t ∈ (s.extend ls).incidents := by
      rw [Section.incidents_extend]
      exact List.mem_append_left _ (List.mem_append_right _ (Array.mem_toList_iff.mpr ht))
    have hmem : Incident.tooDeep t ∈ (extend o s ls ss).read.incidents :=
      List.mem_append_right _ (List.mem_flatMap_of_mem (List.mem_append_right _ List.mem_cons_self) hsection)
    exact absurd rfl (hdeep _ (List.mem_filterMap.mpr ⟨_, hmem, rfl⟩))

/-- An outline with an unreadable line more reads the same, with one more incident. -/
theorem read_extend_unreadable {o : Outline} {s : Section} {t : Token} {ts : List Token} {stop : LineEnd}
    {e : SyntaxError} (hskipping : (Assembly.ofLines s.body).skipping = none)
    (hmarker : ∀ m, t.kind ≠ .marker m) (hbrace : t.kind ≠ .opening .brace)
    (hfails : Node.read stop t ts = .error e) (ls : List Line) (ss : List Section) :
    (extend o s (⟨t :: ts, stop⟩ :: ls) ss).read.story = (extend o s ls ss).read.story ∧
      (extend o s (⟨t :: ts, stop⟩ :: ls) ss).read.incidents
        = (extend o s [] []).read.incidents
          ++ .ofLine (t :: ts) e :: (s.later ls ++ ss.flatMap Section.incidents) := by
  constructor
  · simp only [read, extend, List.filterMap_append, List.filterMap_cons,
      Section.passage?_extend_unreadable hskipping hmarker hbrace hfails]
  · rw [incidents_read_extend, Section.later_unreadable hskipping hmarker hbrace hfails]
    rfl

/-- One more line in front of what a section goes on with. -/
theorem toOutline_pushAll_line {o : Outline} {s : Section} {pre line : List Token} {nl : Token}
    (hpre : ∀ tail : Tail,
      (tail.pushAll pre).toOutline = extend o s (tail.line :: tail.more) tail.sections)
    (hline : ∀ t ∈ line, t.kind ≠ .newline ∧ t.kind ≠ .passageMarker) (hnl : nl.kind = .newline)
    (tail : Tail) :
    (tail.pushAll (pre ++ line ++ [nl])).toOutline
      = extend o s (⟨line, ⟨nl.pos, none⟩⟩ :: tail.line :: tail.more) tail.sections := by
  rw [Tail.pushAll_append_newline _ _ hnl, Tail.pushAll_append, Tail.pushAll_words _ hline, hpre,
    List.append_nil]

end Outline

theorem Incident.filterMap_reported?_ofLine (ts : List Token) (e : SyntaxError) (is : List Incident) :
    (Incident.ofLine ts e :: is).filterMap reported?
      = (if ts.any fun t => t.kind.isInvalid then [] else [e]) ++ is.filterMap reported? := by
  rw [List.filterMap_cons, reported?_ofLine]
  cases ts.any fun t => t.kind.isInvalid <;> rfl

namespace Story

/-- The readings of tokens that end a line, of these with others after them, and of these and the others with
a line in between. -/
theorem exists_ofTokens_extend {pre post line : List Token} {nl : Token} {o : Outline} {s : Section}
    (hcomments : ∀ t ∈ pre ++ line ++ nl :: post, t.kind.isTrivia = false)
    (hends : ∀ t ∈ pre ++ line ++ [nl], t.kind ≠ .endOfInput)
    (hline : ∀ t ∈ line, t.kind ≠ .newline ∧ t.kind ≠ .passageMarker) (hnl : nl.kind = .newline)
    (hpre : ∀ tail : Outline.Tail,
      (tail.pushAll pre).toOutline = Outline.extend o s (tail.line :: tail.more) tail.sections) :
    Story.ofTokens pre = (Outline.extend o s [] []).read ∧
    ∃ ls ss, Story.ofTokens (pre ++ post) = (Outline.extend o s ls ss).read ∧
      Story.ofTokens (pre ++ line ++ nl :: post)
        = (Outline.extend o s (⟨line, ⟨nl.pos, none⟩⟩ :: ls) ss).read := by
  have hlonger := Outline.toOutline_pushAll_line hpre hline hnl
  have hall : pre ++ line ++ nl :: post = (pre ++ line ++ [nl]) ++ post := by simp
  rw [hall] at hcomments ⊢
  obtain ⟨hlonger_comments, hpost_comments⟩ := List.forall_mem_append.mp hcomments
  have hpre_comments := (List.forall_mem_append.mp (List.forall_mem_append.mp hlonger_comments).1).1
  have hpre_ends := (List.forall_mem_append.mp (List.forall_mem_append.mp hends).1).1
  have hfirst : Story.ofTokens pre = (Outline.extend o s [] []).read := by
    rw [Story.ofTokens, Outline.ofTokens_eq_toOutline, Outline.tailOf_eq_pushAll hpre_comments hpre_ends, hpre]
    exact Outline.read_extend_blank o s [] _ []
  refine ⟨hfirst, ?_⟩
  cases post with
  | nil =>
    refine ⟨[], [], by rw [List.append_nil, hfirst], ?_⟩
    rw [List.append_nil, Story.ofTokens, Outline.ofTokens_eq_toOutline,
      Outline.tailOf_eq_pushAll hlonger_comments hends, hlonger]
    exact Outline.read_extend_blank o s [_] _ []
  | cons u us =>
    have hne : (u :: us).filter (fun t => !t.kind.isTrivia) ≠ [] := by
      rw [Outline.filter_words hpost_comments]
      exact List.cons_ne_nil u us
    refine ⟨(Outline.tailOf (u :: us)).line :: (Outline.tailOf (u :: us)).more,
      (Outline.tailOf (u :: us)).sections, ?_, ?_⟩
    · rw [Story.ofTokens, Outline.ofTokens_eq_toOutline, Outline.tailOf_append_of_ne_nil hpre_ends hne,
        Outline.filter_words hpre_comments, hpre]
    · rw [Story.ofTokens, Outline.ofTokens_eq_toOutline, Outline.tailOf_append_of_ne_nil hends hne,
        Outline.filter_words hlonger_comments, hlonger]

/-- **A fault reaches no further than its line.** Inside a passage, take a line that is neither a marker nor
the start of a conditional and cannot be read, with the break that ends it, between tokens that end a line and
any others. The story is the one without that line. So are the reports, with one more about the line between
those of what is above and those of what is below; there is none if the line holds an invalid token, which has
been reported already. -/
theorem ofTokens_unreadable_line {pre post : List Token} {t nl : Token} {ts : List Token} {e : SyntaxError}
    (hcomments : ∀ u ∈ pre ++ t :: ts ++ post, u.kind.isTrivia = false)
    (hends : ∀ u ∈ pre ++ t :: ts, u.kind ≠ .endOfInput)
    (hpassage : ∃ m ∈ pre, m.kind = .passageMarker) (hbreak : ∃ b ∈ pre.getLast?, b.kind = .newline)
    (hline : ∀ u ∈ t :: ts, u.kind ≠ .newline ∧ u.kind ≠ .passageMarker) (hnl : nl.kind = .newline)
    (hmarker : ∀ m, t.kind ≠ .marker m) (hbrace : t.kind ≠ .opening .brace)
    (hfails : Node.read ⟨nl.pos, none⟩ t ts = .error e)
    (hdeep : ∀ d ∈ (Story.ofTokens (pre ++ post)).errors, d.fault ≠ .nestingTooDeep) :
    (Story.ofTokens (pre ++ t :: ts ++ nl :: post)).story = (Story.ofTokens (pre ++ post)).story ∧
    e.pos ∈ (t :: ts ++ [nl]).map Token.pos ∧
    ∃ later, (Story.ofTokens (pre ++ post)).errors = (Story.ofTokens pre).errors ++ later ∧
      (Story.ofTokens (pre ++ t :: ts ++ nl :: post)).errors
        = (Story.ofTokens pre).errors
          ++ (if (t :: ts).any fun u => u.kind.isInvalid then [] else [e]) ++ later := by
  obtain ⟨o, s, hpre⟩ := Outline.exists_extend hpassage hbreak
  have hcomments : ∀ u ∈ pre ++ t :: ts ++ nl :: post, u.kind.isTrivia = false := by
    have hbreak : nl.kind.isTrivia = false := by rw [hnl]; rfl
    grind
  have hends : ∀ u ∈ pre ++ t :: ts ++ [nl], u.kind ≠ .endOfInput := by grind
  obtain ⟨habove, ls, ss, hwithout, hwith⟩ := exists_ofTokens_extend hcomments hends hline hnl hpre
  rw [hwithout] at hdeep
  obtain ⟨hstory, hincidents⟩ := Outline.read_extend_unreadable (o := o) (Outline.skipping_eq_none hdeep)
    hmarker hbrace hfails ls ss
  have hplace : (LineEnd.mk nl.pos none).Locates (t :: ts) e := by
    have hholds : LineEnd.Holds ⟨nl.pos, none⟩ (t :: ts) (Node.read ⟨nl.pos, none⟩ t ts) :=
      Node.holds_read t ts
    rwa [hfails] at hholds
  refine ⟨by rw [hwith, hwithout, hstory], ?_,
    (s.later ls ++ ss.flatMap Section.incidents).filterMap Incident.reported?, ?_, ?_⟩
  · rw [List.map_append, List.mem_append, List.mem_map]
    exact hplace.pos_eq.imp_right fun hpos => List.mem_singleton.mpr hpos
  · rw [hwithout, habove, Reading.errors, Outline.incidents_read_extend, List.filterMap_append]
    rfl
  · rw [hwith, habove, Reading.errors, hincidents, List.filterMap_append,
      Incident.filterMap_reported?_ofLine, List.append_assoc]
    rfl

/-- An assignment without an operator, inside a conditional of a passage: the conditional is closed as before,
and the line is reported where the operator is missing. -/
theorem ofTokens_unreadable_line_gold :
    let above : List Token :=
      [⟨.passageMarker, none, ⟨1, 1⟩, "::"⟩, ⟨.identifier, none, ⟨1, 4⟩, "Inn"⟩, .breakAt ⟨1, 7⟩,
        ⟨.opening .brace, none, ⟨2, 1⟩, "\x7b"⟩, ⟨.dollar, none, ⟨2, 2⟩, "$"⟩,
        ⟨.identifier, none, ⟨2, 3⟩, "rich"⟩, ⟨.closing .brace, none, ⟨2, 7⟩, "\x7d"⟩, .breakAt ⟨2, 8⟩]
    let dollar : Token := ⟨.dollar, none, ⟨3, 1⟩, "$"⟩
    let rest : List Token := [⟨.identifier, none, ⟨3, 2⟩, "gold"⟩, ⟨.identifier, none, ⟨3, 7⟩, "ten"⟩]
    let below : List Token :=
      [⟨.text, some (.str "Gold."), ⟨4, 1⟩, "Gold."⟩, .breakAt ⟨4, 6⟩,
        ⟨.marker .close, none, ⟨5, 1⟩, "\x7b/\x7d"⟩, .breakAt ⟨5, 4⟩, .endAt ⟨6, 1⟩]
    (Story.ofTokens (above ++ dollar :: rest ++ .breakAt ⟨3, 10⟩ :: below)).story
        = (Story.ofTokens (above ++ below)).story ∧
      (Story.ofTokens (above ++ dollar :: rest ++ .breakAt ⟨3, 10⟩ :: below)).errors
        = [⟨.expectedAssignOp (some "identifier 'ten'"), ⟨3, 7⟩⟩] := by
  intro above dollar rest below
  have habove : (Story.ofTokens above).errors = [] := by decide +kernel
  have hwithout : (Story.ofTokens (above ++ below)).errors = [] := by decide +kernel
  obtain ⟨hstory, -, later, hlater, herrors⟩ := @ofTokens_unreadable_line above below dollar (.breakAt ⟨3, 10⟩)
    rest ⟨.expectedAssignOp (some "identifier 'ten'"), ⟨3, 7⟩⟩ (by decide) (by decide) (by decide) (by decide)
    (by decide) rfl nofun nofun rfl (by simp [hwithout])
  rw [habove, hwithout, List.nil_append] at hlater
  rw [habove, ← hlater] at herrors
  exact ⟨hstory, herrors⟩

end Story

end Gamebook
