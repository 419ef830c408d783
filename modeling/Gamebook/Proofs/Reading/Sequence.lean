/-
# Gamebook.Proofs.Reading.Sequence — syntax errors come in the order of the source

Laying out tokens in lines keeps the order of their places, and loses none: every token has its place in a
line or at the end of one (`Outline.places_layout`). Readers go over the lines from first to last and note what
is wrong at places of the line they have come to, each place at most once. So the places of what is noted are
some of the places of the lines, in their order (`Outline.sublist_places_read`). In a source places increase from
token to token, so they do from error to error (`Story.errors_pairwise_before`).
-/
import Gamebook.Proofs.Reports

namespace Gamebook

/-! ## Places of lines -/

/-- The places of the tokens of a line and of its end. -/
def LineEnd.places (stop : LineEnd) (ts : List Token) : List Position := ts.map Token.pos ++ [stop.pos]

def Line.places (l : Line) : List Position := l.stop.places l.tokens

/-- The places of a section after its marker. -/
def Section.places (s : Section) : List Position := s.header.places ++ s.body.flatMap Line.places

def Outline.places (o : Outline) : List Position :=
  o.preamble.flatMap Line.places ++ o.sections.flatMap Section.places

section

variable {stop : LineEnd} {ts us : List Token}

theorem LineEnd.places_sublist (h : ts <:+ us) : (stop.places ts).Sublist (stop.places us) :=
  (h.sublist.map Token.pos).append_right _

/-- The place of an error is one of the places of its line. -/
theorem LineEnd.Locates.mem_places {e : SyntaxError} (h : stop.Locates ts e) : e.pos ∈ stop.places ts := by
  rcases h.pos_eq with ⟨t, ht, hpos⟩ | hpos
  · exact List.mem_append_left _ (hpos ▸ List.mem_map_of_mem ht)
  · exact List.mem_append_right _ (List.mem_singleton.mpr hpos)

end

namespace Outline

/-- A token in front has its place in front: in the first line, or at the end of a line of its own. -/
theorem places_push (tail : Tail) (t : Token) :
    (tail.push t).toOutline.places = t.pos :: tail.toOutline.places := by
  by_cases hbreak : t.kind = .newline
  · rw [tail.push_newline hbreak]
    rfl
  by_cases hmarker : t.kind = .passageMarker
  · rw [tail.push_marker hmarker]
    simp [places, Tail.toOutline, Section.places, Line.places, LineEnd.places]
  · rw [tail.push_word hbreak hmarker]
    rfl

theorem places_layout (ending : Position) (ts : List Token) :
    (layout ending ts).toOutline.places = ts.map Token.pos ++ [ending] := by
  induction ts with
  | nil => rfl
  | cons t ts ih => rw [layout_cons, places_push, ih, List.map_cons, List.cons_append]

/-- **The places of the lines of a source are those of its tokens,** comments apart. -/
theorem places_ofTokens (source : String) :
    (ofTokens (Lexed.ofSource source).tokens).places
      = ((Lexed.ofSource source).tokens.filter fun t => !t.kind.isTrivia).map Token.pos := by
  obtain ⟨words, e, htokens, he, hwords⟩ := Lexed.exists_tokens_eq_append source
  have hend : [e].filter (fun t => !t.kind.isTrivia) = [e] := by simp [he, TokenKind.isTrivia]
  rw [htokens, ofTokens_eq_toOutline, tailOf_append_end hwords he, places_layout, List.filter_append, hend,
    List.map_append, List.map_singleton]

end Outline

/-! ## Places of incidents -/

namespace Incident

/-- The place of what went wrong. -/
def pos (i : Incident) : Position := i.error.pos

/-- What has been noted since `before` stands at some of the places, in their order. -/
def Noted (ps : List Position) (before after : Array Incident) : Prop :=
  ∃ new : List Incident, after.toList = before.toList ++ new ∧ (new.map pos).Sublist ps

section

variable {ps qs : List Position} {before middle after : Array Incident}

theorem Noted.nothing (ps : List Position) (before : Array Incident) : Noted ps before before :=
  ⟨[], (List.append_nil _).symm, List.nil_sublist _⟩

theorem Noted.one {i : Incident} (h : i.pos ∈ ps) : Noted ps before (before.push i) :=
  ⟨[i], Array.toList_push, List.singleton_sublist.mpr h⟩

theorem Noted.mono (h : Noted ps before after) (hps : ps.Sublist qs) : Noted qs before after := by
  obtain ⟨new, hnew, hplaces⟩ := h
  exact ⟨new, hnew, hplaces.trans hps⟩

/-- What is noted later stands at later places. -/
theorem Noted.append (h : Noted ps before middle) (h' : Noted qs middle after) :
    Noted (ps ++ qs) before after := by
  obtain ⟨new, hnew, hplaces⟩ := h
  obtain ⟨new', hnew', hplaces'⟩ := h'
  refine ⟨new ++ new', by rw [hnew', hnew, List.append_assoc], ?_⟩
  rw [List.map_append]
  exact hplaces.append hplaces'

end

end Incident

open Incident (Noted)

/-- What a run over lines notes, if each line notes at its own places. -/
theorem Line.noted_foldl {α : Type} {f : α → Line → α} (incidents : α → Array Incident)
    (hf : ∀ a l, Noted l.places (incidents a) (incidents (f a l))) (ls : List Line) (a : α) :
    Noted (ls.flatMap Line.places) (incidents a) (incidents (ls.foldl f a)) := by
  induction ls generalizing a with
  | nil => exact .nothing _ _
  | cons l ls ih =>
    rw [List.flatMap_cons, List.foldl_cons]
    exact (hf a l).append (ih (f a l))

/-! ## Passages -/

namespace Assembly

variable {a : Assembly} {stop : LineEnd}

/-- Reading a line, or what is left of one: all that is noted stands at a token of it or at its end. A
conditional that is nested too deep is noted at its brace, and reading goes on further right. -/
theorem noted_readLine (a : Assembly) (ts : List Token) :
    Noted (stop.places ts) a.incidents (a.readLine stop ts).incidents := by
  -- An error of the line is noted once, wherever on the line it stands.
  have hone : ∀ {a : Assembly} {ts us : List Token} {e : SyntaxError}, stop.Locates ts e →
      Noted (stop.places ts) a.incidents (a.note (.ofLine us e)).incidents :=
    fun he => .one he.mem_places
  refine readLine_induction (motive := fun a ts r => Noted (stop.places ts) a.incidents r.incidents)
    ?nil ?marker ?condition ?statement ?skipped ?resumed a ts
  case nil => exact fun a => .nothing _ _
  case marker =>
    intro a t ts m hm
    rw [markerLine]
    split
    · rw [(mark_incidents _ m t.pos).1]
      exact .nothing _ _
    · next e he =>
      have hplace : stop.Locates ts e := (LineEnd.holds_expectEnd ts).locates he
      rw [(mark_incidents _ m t.pos).1]
      exact hone (hplace.mono (List.suffix_cons t ts))
  case condition =>
    intro a t ts hbrace hdepth
    rw [conditionLine]
    split
    · exact .nothing _ _
    · next e he =>
      have hplace : stop.Locates ts e := (Node.holds_readCondition ts).locates he
      exact hone (hplace.mono (List.suffix_cons t ts))
  case statement =>
    intro a t ts hmarker hbrace
    rw [statementLine]
    split
    · exact .nothing _ _
    · next e he =>
      exact hone ((Node.holds_read t ts).locates he)
  case skipped => exact fun a t ts waiting hbrace hdepth hskip => .one List.mem_cons_self
  case resumed =>
    intro a t ts rest hbrace hdepth hskip ih
    -- What is left follows a closing marker, so it starts behind the brace.
    obtain ⟨close, hclose, hrest⟩ := close_of_skip hskip
    have hne : close :: rest ≠ t :: ts := by
      rintro ⟨rfl, -⟩
      rw [hbrace] at hclose
      cases hclose
    have hbehind : rest <:+ ts :=
      (List.suffix_cons close rest).trans ((List.suffix_cons_iff.mp hrest).resolve_left hne)
    have hbrace : Noted [t.pos] a.incidents (a.note (.tooDeep t)).incidents :=
      .one (List.mem_singleton_self _)
    exact hbrace.append (ih.mono (LineEnd.places_sublist hbehind))

theorem noted_line (a : Assembly) (l : Line) : Noted l.places a.incidents (a.line l).incidents := by
  rw [line]
  split
  · exact noted_readLine a l.tokens
  · split
    · exact .nothing _ _
    · next rest hskip =>
      exact (noted_readLine { a with skipping := none } rest).mono
        (LineEnd.places_sublist (suffix_of_skip hskip))

/-- **What is wrong with a body is noted from its first line to its last.** -/
theorem sublist_places_ofLines (ls : List Line) :
    ((ofLines ls).incidents.toList.map Incident.pos).Sublist (ls.flatMap Line.places) := by
  obtain ⟨new, hnew, hplaces⟩ := Line.noted_foldl Assembly.incidents noted_line ls empty
  rw [ofLines, hnew]
  exact hplaces

end Assembly

namespace Preamble

theorem noted_line (p : Preamble) (l : Line) : Noted l.places p.incidents (p.line l).incidents := by
  rw [line]
  split
  · exact .nothing _ _
  split
  · exact .nothing _ _
  next t ts hts =>
  rw [Line.places, hts, readLine]
  split
  · split
    · rw [incidents_set]
      exact .nothing _ _
    · next e he =>
      have hplace : l.stop.Locates (t :: ts) e := (holds_readEntry t ts).locates he
      exact .one hplace.mem_places
  · exact .nothing _ _
  · exact .one List.mem_cons_self

theorem sublist_places_ofLines (ls : List Line) :
    ((ofLines ls).incidents.toList.map Incident.pos).Sublist (ls.flatMap Line.places) := by
  obtain ⟨new, hnew, hplaces⟩ := Line.noted_foldl Preamble.incidents noted_line ls empty
  rw [ofLines, hnew]
  exact hplaces

end Preamble

/-- A header is noted at most once. -/
theorem Header.sublist_places_ofLine (l : Line) :
    ((Header.ofLine l).incidents.map Incident.pos).Sublist l.places := by
  have hname : l.stop.Leaves l.tokens (l.stop.expectName .expectedPassageName l.tokens) :=
    LineEnd.leaves_expectName _ _
  rw [Header.ofLine]
  split
  · next e he =>
    rw [he] at hname
    exact List.singleton_sublist.mpr (LineEnd.Locates.mem_places hname)
  · next name rest hrest =>
    rw [hrest] at hname
    split
    · exact List.nil_sublist _
    · next tags e he =>
      have htags : l.stop.Holds rest (Header.readTags l.stop rest).2 := Header.holds_readTags rest
      have hplace : l.stop.Locates rest e := htags.locates (congrArg Prod.snd he)
      exact List.singleton_sublist.mpr (hplace.mono hname).mem_places

theorem Section.sublist_places (s : Section) : (s.incidents.map Incident.pos).Sublist s.places := by
  rw [Section.incidents, List.map_append]
  exact (Header.sublist_places_ofLine s.header).append (Assembly.sublist_places_ofLines s.body)

/-- **What is wrong with a story is noted at places of its lines, in their order.** -/
theorem Outline.sublist_places_read (o : Outline) : (o.read.incidents.map Incident.pos).Sublist o.places := by
  have hsections : ((o.sections.flatMap Section.incidents).map Incident.pos).Sublist
      (o.sections.flatMap Section.places) := by
    induction o.sections with
    | nil => exact .slnil
    | cons s ss ih =>
      rw [List.flatMap_cons, List.map_append, List.flatMap_cons]
      exact s.sublist_places.append ih
  rw [Outline.read, List.map_append]
  exact (Preamble.sublist_places_ofLines o.preamble).append hsections

/-! ## Stories -/

/-- What is reported is some of what was noted. -/
theorem Reading.sublist_places_errors (r : Reading) :
    (r.errors.map SyntaxError.pos).Sublist (r.incidents.map Incident.pos) := by
  rw [Reading.errors]
  induction r.incidents with
  | nil => exact .slnil
  | cons i is ih =>
    rw [List.filterMap_cons, List.map_cons, Incident.reported?]
    split
    · next hnone => exact ih.cons _
    · next e he =>
      split at he
      · cases he
      · cases he
        exact ih.cons_cons _

/-- **Syntax errors come in the order of the source.** Of two errors of a source the first stands on an earlier
line, or on the same line in an earlier column; so no place is reported twice. -/
theorem Story.errors_pairwise_before (source : String) :
    (Story.ofTokens (Lexed.ofSource source).tokens).errors.Pairwise (fun e f =>
        e.pos.line < f.pos.line ∨ e.pos.line = f.pos.line ∧ e.pos.column < f.pos.column) ∧
      ((Story.ofTokens (Lexed.ofSource source).tokens).errors.map SyntaxError.pos).Nodup := by
  have hsublist := (Reading.sublist_places_errors _).trans
    (Outline.sublist_places_read (Outline.ofTokens (Lexed.ofSource source).tokens))
  rw [Outline.places_ofTokens] at hsublist
  have htokens : (((Lexed.ofSource source).tokens.filter fun t => !t.kind.isTrivia).map
      Token.pos).Pairwise Position.Before :=
    List.pairwise_map.mpr ((Lexed.pairwise_before source).sublist List.filter_sublist)
  have herrors := htokens.sublist hsublist
  exact ⟨List.pairwise_map.mp herrors, herrors.imp Position.Before.ne⟩

end Gamebook
