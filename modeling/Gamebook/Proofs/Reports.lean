/-
# Gamebook.Proofs.Reports — what is reported about a line that holds an invalid token

A line with an invalid token has been reported already, and what is wrong with it as a line is not reported
again. Two kinds of report come through all the same, and `Story.reports_on_invalid_line` says that there are
no others. One is about the place of the line and not about what it holds: it stands before the first passage,
or it begins with the brace of a conditional that is nested too deep. The other needs such a conditional above it:
once the conditional has been skipped, what follows its closing marker is read as a line of its own, and an invalid
token before the marker does not count.

The proof goes from places to lines and back. Every line that is read is a logical line of the source, up to
comments and the passage marker (`Outline.on_ofTokens`); every incident arises on such a line and at a place
of it; and a place belongs to one logical line.
-/
import Gamebook.Proofs.Layout
import Gamebook.Proofs.Reading.Incident
import Gamebook.Proofs.Scan.Lines

namespace Gamebook

/-! ## Lines that are read and logical lines -/

/-- The line is what a logical line holds, comments and its end apart. -/
def Line.Fills (l : Line) (whole : List Token) : Prop :=
  ∃ last : Token, last.kind.isInvalid = false ∧ last.pos = l.stop.pos ∧
    whole.filter (fun t => !t.kind.isTrivia) = l.tokens ++ [last]

/-- Every line of a section is a logical line, if it holds anything; the header is one after its marker. -/
structure Section.On (lines : List (List Token)) (s : Section) : Prop where
  header : ∃ marker whole, marker.kind = .passageMarker ∧ marker :: whole ∈ lines ∧ s.header.Fills whole
  body : ∀ l ∈ s.body, l.holds = true → ∃ whole ∈ lines, l.Fills whole

theorem Section.On.mono {lines lines' : List (List Token)} {s : Section} (h : s.On lines)
    (hin : lines ⊆ lines') : s.On lines' := by
  obtain ⟨marker, whole, hmarker, hwhole, hfills⟩ := h.header
  refine ⟨⟨marker, whole, hmarker, hin hwhole, hfills⟩, fun l hl hholds => ?_⟩
  obtain ⟨whole, hwhole, hfills⟩ := h.body l hl hholds
  exact ⟨whole, hin hwhole, hfills⟩

/-- Every line of an outline is a logical line, if it holds anything. -/
structure Outline.On (lines : List (List Token)) (o : Outline) : Prop where
  preamble : ∀ l ∈ o.preamble, l.holds = true → ∃ whole ∈ lines, l.Fills whole
  sections : ∀ s ∈ o.sections, s.On lines

theorem Outline.On.mono {lines lines' : List (List Token)} {o : Outline} (h : o.On lines)
    (hin : lines ⊆ lines') : o.On lines' := by
  refine ⟨fun l hl hholds => ?_, fun s hs => (h.sections s hs).mono hin⟩
  obtain ⟨whole, hwhole, hfills⟩ := h.preamble l hl hholds
  exact ⟨whole, hin hwhole, hfills⟩

namespace Outline

/-- The layout of tokens on their logical lines. If they start with a passage marker, the first line is
nothing; otherwise it fills the first logical line, and the others are on the lines after it. -/
inductive Tail.Covers (tail : Tail) : List Token → List (List Token) → Prop
  | marker {t : Token} {ts : List Token} {lines : List (List Token)} (hmarker : t.kind = .passageMarker)
      (hline : tail.line.holds = false) (hmore : On lines ⟨tail.more, tail.sections⟩) :
      tail.Covers (t :: ts) lines
  | line {ts whole : List Token} {lines : List (List Token)} (hline : tail.line.Fills whole)
      (hmore : On lines ⟨tail.more, tail.sections⟩) : tail.Covers ts (whole :: lines)

theorem Tail.Covers.on {tail : Tail} {ts : List Token} {lines : List (List Token)}
    (h : tail.Covers ts lines) : tail.toOutline.On lines := by
  cases h with
  | marker hmarker hline hmore =>
    refine ⟨List.forall_mem_cons.mpr ⟨fun hholds => ?_, hmore.preamble⟩, hmore.sections⟩
    rw [hline] at hholds
    cases hholds
  | @line _ whole lines hline hmore =>
    have hmore := hmore.mono (List.subset_cons_self whole lines)
    exact ⟨List.forall_mem_cons.mpr ⟨fun _ => ⟨_, List.mem_cons_self, hline⟩, hmore.preamble⟩, hmore.sections⟩

/-- A line break in front ends a line of its own. -/
theorem Tail.Covers.push_newline {tail : Tail} {ts : List Token} {lines : List (List Token)}
    (h : tail.Covers ts lines) {t : Token} (ht : t.kind = .newline) :
    (tail.push t).Covers (t :: ts) ([t] :: lines) := by
  rw [tail.push_newline ht]
  exact .line ⟨t, by rw [ht]; rfl, rfl, by simp [ht, TokenKind.isTrivia]⟩ h.on

/-- A passage marker in front takes the first line for its header. -/
theorem push_marker_covers {tail : Tail} {ts whole : List Token} {lines : List (List Token)}
    (hline : tail.line.Fills whole) (hmore : On lines ⟨tail.more, tail.sections⟩) {t : Token}
    (ht : t.kind = .passageMarker) : (tail.push t).Covers (t :: ts) ((t :: whole) :: lines) := by
  rw [tail.push_marker ht]
  have hmore := hmore.mono (List.subset_cons_self (t :: whole) lines)
  refine .marker ht rfl ⟨List.forall_mem_nil _, List.forall_mem_cons.mpr ⟨?_, hmore.sections⟩⟩
  exact ⟨⟨t, whole, ht, List.mem_cons_self, hline⟩, hmore.preamble⟩

/-- Any other word in front joins the first line. -/
theorem push_word_covers {tail : Tail} {ts whole : List Token} {lines : List (List Token)}
    (hline : tail.line.Fills whole) (hmore : On lines ⟨tail.more, tail.sections⟩) {t : Token}
    (hbreak : t.kind ≠ .newline) (hmarker : t.kind ≠ .passageMarker) (hword : t.kind.isTrivia = false) :
    (tail.push t).Covers (t :: ts) ((t :: whole) :: lines) := by
  rw [tail.push_word hbreak hmarker]
  obtain ⟨last, hvalid, hpos, hwhole⟩ := hline
  refine .line ⟨last, hvalid, hpos, ?_⟩ hmore
  rw [List.filter_cons_of_pos (by rw [hword]; rfl), hwhole]
  rfl

/-- **The layout of tokens covers their logical lines,** if passage markers follow line breaks. -/
theorem covers_layout {e : Token} (he : e.kind = .endOfInput) {ts : List Token}
    (hchain : ts.IsChain fun t u => u.kind = .passageMarker → t.kind = .newline) :
    (layout e.pos (ts.filter fun t => !t.kind.isTrivia)).Covers ts (Token.lines (ts ++ [e])) := by
  induction ts with
  | nil =>
    have hend : Token.lines [e] = [[e]] := by rw [Token.lines, if_neg (by simp [he])]; rfl
    rw [List.nil_append, hend]
    refine .line ⟨e, by rw [he]; rfl, rfl, by simp [he, TokenKind.isTrivia, layout, Tail.atEnd]⟩ ?_
    exact ⟨List.forall_mem_nil _, List.forall_mem_nil _⟩
  | cons t ts ih =>
    have ih := ih hchain.tail
    by_cases hbreak : t.kind = .newline
    · rw [List.filter_cons_of_pos (by rw [hbreak]; rfl), List.cons_append, Token.lines_newline hbreak]
      exact ih.push_newline hbreak
    -- Only a line break can come before a passage marker, so the first line goes on.
    generalize hlines : Token.lines (ts ++ [e]) = lines at ih
    cases ih with
    | marker hmarker => exact absurd ((List.isChain_cons_cons.mp hchain).1 hmarker) hbreak
    | line hline hmore =>
      rw [List.cons_append, Token.lines_word hbreak hlines]
      by_cases htrivia : t.kind.isTrivia = true
      · rw [List.filter_cons_of_neg (by simp [htrivia])]
        obtain ⟨last, hvalid, hpos, hwhole⟩ := hline
        refine .line ⟨last, hvalid, hpos, ?_⟩ hmore
        rw [List.filter_cons_of_neg (by simp [htrivia]), hwhole]
      · rw [Bool.not_eq_true] at htrivia
        rw [List.filter_cons_of_pos (by rw [htrivia]; rfl)]
        by_cases hmarker : t.kind = .passageMarker
        · exact push_marker_covers hline hmore hmarker
        · exact push_word_covers hline hmore hbreak hmarker htrivia

theorem tailOf_append_end {words : List Token} (hwords : ∀ t ∈ words, t.kind ≠ .endOfInput) {e : Token}
    (he : e.kind = .endOfInput) :
    tailOf (words ++ [e]) = layout e.pos (words.filter fun t => !t.kind.isTrivia) := by
  have hend : tailOf [e] = Tail.atEnd e.pos := by
    simp [tailOf, he, TokenKind.isTrivia, isEnd, ending, layout]
  rw [tailOf_append hwords ⟨e, List.mem_singleton_self e, he⟩, hend]
  rfl

/-- **Every line of the outline of a source is one of its logical lines.** -/
theorem on_ofTokens (source : String) :
    (ofTokens (Lexed.ofSource source).tokens).On (Token.lines (Lexed.ofSource source).tokens) := by
  have hchain := Lexed.isChain_opens source
  obtain ⟨words, e, htokens, he, hwords⟩ := Lexed.exists_tokens_eq_append source
  rw [htokens] at hchain ⊢
  have hcovers := covers_layout he hchain.left_of_append
  rw [ofTokens_eq_toOutline, tailOf_append_end hwords he]
  exact hcovers.on

end Outline

/-! ## Incidents of a story -/

/-- An incident arises on a logical line: on what the line holds, or on the header behind a passage marker, which is
read as a whole. -/
inductive Incident.ArisesOn (whole : List Token) (skips : Prop) : Incident → Prop
  | line {l : Line} {i : Incident} (hfills : l.Fills whole) (h : i.Arises l skips) : ArisesOn whole skips i
  | header {marker : Token} {rest : List Token} {l : Line} {e : SyntaxError}
      (hmarker : marker.kind = .passageMarker) (hwhole : whole = marker :: rest) (hfills : l.Fills rest)
      (he : l.stop.Locates l.tokens e) : ArisesOn whole skips (.ofLine l.tokens e)

theorem Preamble.incidents_set (p : Preamble) (key value : String) : (p.set key value).incidents = p.incidents := by
  rw [Preamble.set]
  split
  · rfl
  · split <;> rfl

/-- Every incident so far has arisen on one of the lines. -/
def Preamble.Accounts (ls : List Line) (p : Preamble) : Prop :=
  ∀ i ∈ p.incidents, ∃ l ∈ ls, i.Arises l False

theorem Preamble.Accounts.line {ls : List Line} {p : Preamble} (h : p.Accounts ls) {l : Line} (hl : l ∈ ls) :
    (p.line l).Accounts ls := by
  have hnote : ∀ {i : Incident}, i.Arises l False → ∀ j ∈ p.incidents.push i, ∃ l ∈ ls, j.Arises l False := by
    intro i hi j hj
    rcases Array.mem_push.mp hj with hj | rfl
    · exact h j hj
    · exact ⟨l, hl, hi⟩
  rw [Preamble.line]
  split
  · exact h
  split
  · exact h
  next t ts hts =>
  rw [Preamble.readLine]
  split
  · have hplace : l.stop.Holds (t :: ts) (Preamble.readEntry l.stop t ts) := Preamble.holds_readEntry t ts
    split
    · rw [Preamble.Accounts, Preamble.incidents_set]
      exact h
    · next e he =>
      rw [he] at hplace
      rw [← hts] at hplace ⊢
      exact hnote (.unread .whole hplace)
  · exact h
  · exact hnote (.outside hts)

theorem Preamble.accounts_ofLines (ls : List Line) : (Preamble.ofLines ls).Accounts ls := by
  refine List.foldlRecOn ls Preamble.line (b := Preamble.empty) ?_ fun p hp l hl => hp.line hl
  exact fun i hi => absurd hi (Array.not_mem_empty i)

theorem Header.exists_error_ofLine (l : Line) :
    ∀ i ∈ (Header.ofLine l).incidents, ∃ e, l.stop.Locates l.tokens e ∧ i = .ofLine l.tokens e := by
  have hname : l.stop.Leaves l.tokens (l.stop.expectName .expectedPassageName l.tokens) :=
    LineEnd.leaves_expectName _ _
  intro i hi
  rw [Header.ofLine] at hi
  split at hi
  · next e he =>
    rw [he] at hname
    exact ⟨e, hname, List.mem_singleton.mp hi⟩
  · next name rest hrest =>
    rw [hrest] at hname
    have htags : l.stop.Holds rest (Header.readTags l.stop rest).2 := Header.holds_readTags rest
    split at hi
    · cases hi
    · next tags e he =>
      rw [he] at htags
      exact ⟨e, htags.mono hname, List.mem_singleton.mp hi⟩

/-- Every incident of a story arises on one of the lines of its outline, and what has to be skipped for it has been
noted before it. -/
theorem Outline.On.arises {lines : List (List Token)} {o : Outline} (h : o.On lines) :
    ∀ i ∈ o.read.incidents, ∃ whole ∈ lines,
      i.ArisesOn whole (∃ t, [Incident.tooDeep t, i].Sublist o.read.incidents) := by
  intro i hi
  rcases List.mem_append.mp hi with hi | hi
  · rw [← Preamble.ofLines_filter_holds, Array.mem_toList_iff] at hi
    obtain ⟨l, hl, harises⟩ := Preamble.accounts_ofLines _ i hi
    obtain ⟨hl, hholds⟩ := List.mem_filter.mp hl
    obtain ⟨whole, hwhole, hfills⟩ := h.preamble l hl hholds
    exact ⟨whole, hwhole, .line hfills (harises.mono False.elim)⟩
  obtain ⟨s, hs, hi⟩ := List.mem_flatMap.mp hi
  have hsection := h.sections s hs
  rcases List.mem_append.mp hi with hheader | hbody
  · obtain ⟨marker, rest, hmarker, hwhole, hfills⟩ := hsection.header
    obtain ⟨e, he, rfl⟩ := Header.exists_error_ofLine s.header i hheader
    exact ⟨marker :: rest, hwhole, .header hmarker rfl hfills he⟩
  · rw [← Assembly.ofLines_filter_holds, Array.mem_toList_iff] at hbody
    obtain ⟨l, hl, harises⟩ := (Assembly.accounts_ofLines _).arises i hbody
    obtain ⟨hl, hholds⟩ := List.mem_filter.mp hl
    obtain ⟨whole, hwhole, hfills⟩ := hsection.body l hl hholds
    refine ⟨whole, hwhole, .line hfills (harises.mono ?_)⟩
    -- What this passage has skipped has been noted in the story.
    rintro ⟨t, ht⟩
    rw [Assembly.ofLines_filter_holds] at ht
    have hstory : s.incidents.Sublist (o.sections.flatMap Section.incidents) :=
      List.sublist_flatten_of_mem (List.mem_map_of_mem hs)
    exact ⟨t, ht.trans ((List.sublist_append_right _ _).trans (hstory.trans (List.sublist_append_right _ _)))⟩

/-! ## Reports -/

/-- At the place stands a brace with which the line begins, or which follows a closing marker. -/
def Token.Opens (line : List Token) (pos : Position) : Prop :=
  ∃ before brace after, line = before ++ brace :: after ∧ brace.kind = .opening .brace ∧ brace.pos = pos ∧
    ∀ t ∈ (before.filter fun t => !t.kind.isTrivia).getLast?, t.kind = .marker .close

/-- The place is on what follows a closing marker of the line, where no token is invalid. -/
def Token.Resumes (line : List Token) (pos : Position) : Prop :=
  ∃ before close after, line = before ++ close :: after ∧ close.kind = .marker .close ∧
    (∀ t ∈ after, t.kind.isInvalid = false) ∧ ∃ t ∈ after, t.pos = pos

/-- Comments are words of the language. -/
theorem TokenKind.isTrivia_of_isInvalid {kind : TokenKind} (h : kind.isInvalid = true) :
    kind.isTrivia = false := by
  cases kind with
  | invalid message => rfl
  | _ => cases h

section

variable {l : Line} {whole : List Token}

theorem Line.Fills.mem_of_tokens (h : l.Fills whole) {t : Token} (ht : t ∈ l.tokens) : t ∈ whole := by
  obtain ⟨last, -, -, hwhole⟩ := h
  exact List.mem_of_mem_filter (hwhole ▸ List.mem_append_left _ ht)

/-- An error of a part of the line stands on the logical line. -/
theorem Line.Fills.exists_pos_eq (h : l.Fills whole) {part : List Token} (hpart : part <:+ l.tokens)
    {e : SyntaxError} (he : l.stop.Locates part e) : ∃ t ∈ whole, t.pos = e.pos := by
  rcases he.pos_eq with ⟨t, ht, hpos⟩ | hpos
  · exact ⟨t, h.mem_of_tokens (hpart.subset ht), hpos⟩
  · obtain ⟨last, -, hlast, hwhole⟩ := h
    exact ⟨last, List.mem_of_mem_filter (hwhole ▸ List.mem_append_right _ (List.mem_singleton_self last)),
      hlast.trans hpos.symm⟩

/-- An invalid token of the logical line is on the line that is read. -/
theorem Line.Fills.mem_of_isInvalid (h : l.Fills whole) {t : Token} (ht : t ∈ whole)
    (hinvalid : t.kind.isInvalid = true) : t ∈ l.tokens := by
  obtain ⟨last, hvalid, -, hwhole⟩ := h
  have hword : (!t.kind.isTrivia) = true := by rw [TokenKind.isTrivia_of_isInvalid hinvalid]; rfl
  have hmem : t ∈ l.tokens ++ [last] := hwhole ▸ List.mem_filter.mpr ⟨ht, hword⟩
  rcases List.mem_append.mp hmem with hmem | hmem
  · exact hmem
  · rw [List.mem_singleton.mp hmem, hvalid] at hinvalid
    cases hinvalid

/-- A brace with which a part of the line begins stands on the logical line like that. -/
theorem Line.Fills.opens (h : l.Fills whole) {skips : Prop} {brace : Token} {ts : List Token}
    (hbrace : brace.kind = .opening .brace) (hpart : l.Part skips (brace :: ts)) : Token.Opens whole brace.pos := by
  obtain ⟨last, -, -, hwhole⟩ := h
  obtain ⟨front, hfront, hclose⟩ := hpart.exists_front
  -- What stands before the brace comes to the front of the part, comments apart.
  rw [hfront, List.append_assoc, List.cons_append, List.filter_eq_append_iff] at hwhole
  obtain ⟨before, rest, rfl, rfl, hrest⟩ := hwhole
  obtain ⟨comments, after, rfl, hcomments, -, -⟩ := List.filter_eq_cons_iff.mp hrest
  refine ⟨before ++ comments, brace, after, (List.append_assoc ..).symm, hbrace, rfl, ?_⟩
  rw [List.filter_append, List.filter_eq_nil_iff.mpr hcomments, List.append_nil]
  exact hclose

/-- An error of what follows a closing marker stands on what follows it on the logical line. -/
theorem Line.Fills.resumes (h : l.Fills whole) {close : Token} (hclose : close.kind = .marker .close)
    {part : List Token} (hpart : close :: part <:+ l.tokens) (hvalid : ∀ t ∈ part, t.kind.isInvalid = false)
    {e : SyntaxError} (he : l.stop.Locates part e) : Token.Resumes whole e.pos := by
  obtain ⟨last, hlastValid, hlast, hwhole⟩ := h
  obtain ⟨front, hfront⟩ := hpart
  -- The marker is a word, so it stands on the logical line, and after it the words of the part and the end.
  rw [← hfront, List.append_assoc, List.cons_append, List.filter_eq_append_iff] at hwhole
  obtain ⟨before, rest, rfl, -, hrest⟩ := hwhole
  obtain ⟨comments, after, rfl, -, -, hafter⟩ := List.filter_eq_cons_iff.mp hrest
  refine ⟨before ++ comments, close, after, by simp, hclose, fun t ht => ?_, ?_⟩
  · have hfills : Line.Fills ⟨part, l.stop⟩ after := ⟨last, hlastValid, hlast, hafter⟩
    cases hinvalid : t.kind.isInvalid with
    | false => rfl
    | true => exact hinvalid ▸ hvalid t (hfills.mem_of_isInvalid ht hinvalid)
  · have hfills : Line.Fills ⟨part, l.stop⟩ after := ⟨last, hlastValid, hlast, hafter⟩
    exact hfills.exists_pos_eq List.suffix_rfl he

end

/-- A line that is reported holds no invalid token. -/
theorem Incident.of_reported?_ofLine {ts : List Token} {e e' : SyntaxError}
    (h : (Incident.ofLine ts e).reported? = some e') : e' = e ∧ ∀ t ∈ ts, t.kind.isInvalid = false := by
  rw [Incident.reported?_ofLine] at h
  split at h
  · cases h
  · next hvalid =>
    cases h
    simp only [List.any_eq_true, not_exists, not_and, Bool.not_eq_true] at hvalid
    exact ⟨rfl, hvalid⟩

/-- What is reported of an incident on a logical line stands on that line. If the line holds an invalid token,
the report does not look at the line, or only at what follows a closing marker. -/
theorem Incident.ArisesOn.report {whole : List Token} {skips : Prop} {i : Incident} (h : i.ArisesOn whole skips)
    {e : SyntaxError} (he : i.reported? = some e) :
    (∃ t ∈ whole, t.pos = e.pos) ∧
      ((∃ t ∈ whole, t.kind.isInvalid = true) →
        e.fault = .contentOutsidePassage ∨ e.fault = .nestingTooDeep ∧ Token.Opens whole e.pos ∨
          skips ∧ Token.Resumes whole e.pos) := by
  cases h with
  | @header marker rest l e' hmarker hwhole hfills hplace =>
    obtain ⟨rfl, hvalid⟩ := Incident.of_reported?_ofLine he
    subst hwhole
    obtain ⟨t, ht, hpos⟩ := hfills.exists_pos_eq List.suffix_rfl hplace
    refine ⟨⟨t, List.mem_cons_of_mem _ ht, hpos⟩, fun ⟨u, hu, hinvalid⟩ => ?_⟩
    rcases List.mem_cons.mp hu with rfl | hu
    · rw [hmarker] at hinvalid
      cases hinvalid
    · rw [hvalid u (hfills.mem_of_isInvalid hu hinvalid)] at hinvalid
      cases hinvalid
  | @line l i hfills harises =>
    cases harises with
    | tooDeep hbrace hpart =>
      cases he
      refine ⟨⟨_, hfills.mem_of_tokens (hpart.suffix.subset List.mem_cons_self), rfl⟩, fun _ => ?_⟩
      exact .inr (.inl ⟨rfl, hfills.opens hbrace hpart⟩)
    | outside hts =>
      cases he
      exact ⟨⟨_, hfills.mem_of_tokens (hts ▸ List.mem_cons_self), rfl⟩, fun _ => .inl rfl⟩
    | @unread part e' hpart hplace =>
      obtain ⟨rfl, hvalid⟩ := Incident.of_reported?_ofLine he
      refine ⟨hfills.exists_pos_eq hpart.suffix hplace, fun ⟨u, hu, hinvalid⟩ => ?_⟩
      cases hpart with
      | whole =>
        -- The invalid token would have kept the line from being reported.
        rw [hvalid u (hfills.mem_of_isInvalid hu hinvalid)] at hinvalid
        cases hinvalid
      | rest hclose hts hskips => exact .inr (.inr ⟨hskips, hfills.resumes hclose hts hvalid hplace⟩)

/-- A conditional that is noted as nested too deep begins a line, or follows a closing marker. -/
theorem Incident.ArisesOn.opens {whole : List Token} {skips : Prop} {i : Incident} (h : i.ArisesOn whole skips)
    {t : Token} (hi : i = .tooDeep t) : Token.Opens whole t.pos := by
  have hstructural : i.handling = .structural := by rw [hi]; rfl
  have hdeep : i.error = ⟨.nestingTooDeep, t.pos⟩ := by rw [hi]; rfl
  have hline : ∀ {ts : List Token} {e : SyntaxError}, (Incident.ofLine ts e).handling ≠ .structural := by
    intro ts e
    unfold Incident.ofLine
    dsimp only
    split <;> exact Handling.noConfusion
  cases h with
  | header hmarker hwhole hfills hplace => exact absurd hstructural hline
  | line hfills harises =>
    cases harises with
    | tooDeep hbrace hpart =>
      have hpos : (SyntaxError.mk .nestingTooDeep _).pos = t.pos := congrArg SyntaxError.pos hdeep
      exact hpos ▸ hfills.opens hbrace hpart
    | outside hts => cases congrArg SyntaxError.fault hdeep
    | unread hpart hplace => exact absurd hstructural hline

/-- A line of the source holds an invalid token, and there is a report of this kind on it. -/
def Story.ReportsInvalidLine (source : String) (kind : List Token → SyntaxError → Prop) : Prop :=
  ∃ line ∈ Token.lines (Lexed.ofSource source).tokens, (∃ t ∈ line, t.kind.isInvalid = true) ∧
    ∃ e ∈ (Story.ofTokens (Lexed.ofSource source).tokens).errors, (∃ t ∈ line, t.pos = e.pos) ∧ kind line e

/-- A passage in which so many conditionals are opened before its last lines. -/
def Story.nestedSource (conditionals : Nat) (last : String) : String :=
  String.ofList (":: A\n".toList ++ (List.replicate conditionals "\x7b1\x7d\n".toList).flatten ++ last.toList)

end Gamebook
