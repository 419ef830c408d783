/-
# Gamebook.Proofs.Composition — a passage is read the same below whatever comes before it

Put a text that opens with a passage marker below another text. Its tokens are its own, moved down, and
so are its errors, its passages and the incidents of reading them; the text above keeps its own. Nothing
that is left open above reaches down, neither brackets, strings, tag lists and display texts in the
scanner nor conditionals and failed lines in the reader. Only a comment or a script without its closing
mark does, since it has no end, and the statement leaves those out.

The scanner's part is `Lexeme.scan_append_break`, the reader's `Outline.read_append_break`. The last
holds since a section is laid out from its own tokens, up to lines that hold nothing.
-/
import Gamebook.Proofs.Layout
import Gamebook.Proofs.Relocation.Story
import Gamebook.Proofs.Scan.Break
import Gamebook.Proofs.Scan.Shape

namespace Gamebook

open Gamebook.Text (isBlank)

/-! ## Moving down -/

/-- The place `n` lines further down, in the same column. -/
def Position.below (n : Nat) (p : Position) : Position := ⟨p.line + n, p.column⟩

theorem Position.below_advance (n : Nat) (p : Position) (cs : List Char) :
    (p.below n).advance cs = (p.advance cs).below n := by
  induction cs generalizing p with
  | nil => rfl
  | cons c cs ih =>
    have hstep : (p.below n).step c = (p.step c).below n := by
      simp only [Position.step, Position.below]
      split
      · simp only [Nat.add_right_comm]
      · rfl
    rw [Position.advance_cons, Position.advance_cons, hstep, ih]

theorem Position.line_advance (p : Position) (cs : List Char) :
    (p.advance cs).line = p.line + cs.count '\n' := by
  induction cs generalizing p with
  | nil => rfl
  | cons c cs ih =>
    rw [Position.advance_cons, ih, Position.step]
    by_cases hc : c = '\n'
    · subst hc
      simp
      omega
    · simp [hc]

/-- A text below another and a break starts in the first column. -/
theorem Position.start_advance_break (cs : List Char) :
    Position.start.advance (cs ++ ['\n']) = Position.start.below (cs.count '\n' + 1) := by
  have hline := Position.line_advance .start cs
  have hstep : ∀ p : Position, p.step '\n' = ⟨p.line + 1, 1⟩ := fun p => if_pos rfl
  rw [Position.advance_append, Position.advance_cons, Position.advance_nil, hstep, hline,
    Nat.add_assoc]
  rfl

namespace Lexeme

/-! ## Tokens and errors in their places -/

/-- The tokens of consecutive lexemes, without the end of input. -/
def placed : Position → List Lexeme → List Token
  | _, [] => []
  | pos, l :: ls => (l.token? pos).toList ++ placed (pos.advance l.raw) ls

theorem tokens_eq_placed (pos : Position) (ls : List Lexeme) :
    tokens pos ls
      = placed pos ls ++ [⟨.endOfInput, none, pos.advance (ls.flatMap raw), ""⟩] := by
  induction ls generalizing pos with
  | nil => rfl
  | cons l ls ih =>
    rw [tokens, placed, ih, List.flatMap_cons, Position.advance_append, List.append_assoc]

theorem placed_append (pos : Position) (ls ls' : List Lexeme) :
    placed pos (ls ++ ls') = placed pos ls ++ placed (pos.advance (ls.flatMap raw)) ls' := by
  induction ls generalizing pos with
  | nil => rfl
  | cons l ls ih =>
    rw [List.cons_append, placed, placed, ih, List.flatMap_cons, Position.advance_append, List.append_assoc]

theorem errors_append (pos : Position) (ls ls' : List Lexeme) :
    errors pos (ls ++ ls') = errors pos ls ++ errors (pos.advance (ls.flatMap raw)) ls' := by
  induction ls generalizing pos with
  | nil => rfl
  | cons l ls ih =>
    rw [List.cons_append, errors, errors, ih, List.flatMap_cons, Position.advance_append,
      List.append_assoc]

theorem tokens_below (n : Nat) (pos : Position) (ls : List Lexeme) :
    tokens (pos.below n) ls = (tokens pos ls).map (Token.relocate (.below n)) := by
  induction ls generalizing pos with
  | nil => rfl
  | cons l ls ih =>
    have htoken : (l.token? (pos.below n)).toList
        = (l.token? pos).toList.map (Token.relocate (.below n)) := by
      obtain ⟨sort, raw⟩ := l
      cases sort <;> rfl
    rw [tokens, tokens, List.map_append, htoken, Position.below_advance, ih]

end Lexeme

/-- A lexical error, moved. -/
def LexicalError.relocate (f : Position → Position) (e : LexicalError) : LexicalError :=
  { e with pos := f e.pos }

theorem Lexeme.errors_below (n : Nat) (pos : Position) (ls : List Lexeme) :
    Lexeme.errors (pos.below n) ls
      = (Lexeme.errors pos ls).map (LexicalError.relocate (.below n)) := by
  induction ls generalizing pos with
  | nil => rfl
  | cons l ls ih =>
    have herror : (l.error? (pos.below n)).toList
        = (l.error? pos).toList.map (LexicalError.relocate (.below n)) := by
      obtain ⟨sort, raw⟩ := l
      cases sort <;> rfl
    rw [Lexeme.errors, Lexeme.errors, List.map_append, herror, Position.below_advance, ih]

/-! ## The scanner -/

namespace Lexeme

/-- No token of a text is the end of input. -/
theorem kind_ne_end_of_mem_placed {mode : Mode} {cs : List Char} {pos : Position} {t : Token}
    (h : t ∈ placed pos (scan mode cs)) : t.kind ≠ .endOfInput := by
  have hsound := scan_sound mode cs
  generalize scan mode cs = ls at h hsound
  induction ls generalizing pos with
  | nil => cases h
  | cons l ls ih =>
    rw [List.forall_mem_cons] at hsound
    rcases List.mem_append.mp h with h | h
    · obtain ⟨sort, raw⟩ := l
      cases sort with
      | gap => cases h
      | token kind value =>
        rw [token?, Option.toList_some, List.mem_singleton] at h
        rw [h]
        rintro rfl
        exact hsound.1
      | fault fault =>
        rw [token?, Option.toList_some, List.mem_singleton] at h
        rw [h]
        exact TokenKind.noConfusion
    · exact ih h hsound.2

/-- The first token of a text that opens with a passage is the marker. -/
theorem tokens_of_opensPassage {cs : List Char} (h : opensPassage cs = true) (pos : Position) :
    ∃ t ts, tokens pos (scan .lineStart cs) = t :: ts ∧ t.kind = .passageMarker := by
  have hmarker : ∀ (pos : Position) (ds : List Char),
      ∃ t ts, tokens pos (scan .lineStart (':' :: ':' :: ds)) = t :: ts ∧ t.kind = .passageMarker := by
    intro pos ds
    rw [scan_cons]
    exact ⟨_, _, rfl, rfl⟩
  rw [opensPassage, List.isPrefixOf_iff_prefix] at h
  obtain ⟨ds, hds⟩ := h
  cases cs with
  | nil => cases hds
  | cons c cs =>
    by_cases hc : isBlank c = true
    · -- The blanks before the marker are one gap.
      rw [List.dropWhile_cons_of_pos hc] at hds
      have hstep : step .lineStart c cs = (blanks c cs, .lineStart) := by
        simp [step, lineStep, hc]
      have hdrop : cs.drop ((blanks c cs).raw.length - 1) = ':' :: ':' :: ds :=
        (drop_length_takeWhile isBlank cs).trans hds.symm
      rw [scan_cons, hstep, hdrop]
      exact hmarker _ ds
    · rw [List.dropWhile_cons_of_neg hc] at hds
      rw [← hds]
      exact hmarker pos ds

end Lexeme

/-! ## The reader -/

namespace Outline

/-- The layout `t'` is the layout `t` with the sections `added` below, up to lines that hold nothing. -/
structure Tail.Extends (added : List Section) (t t' : Tail) : Prop where
  line : t'.line = t.line
  more : t'.more.filter Line.holds = t.more.filter Line.holds
  sections : t'.sections.map Section.compact
    = t.sections.map Section.compact ++ added.map Section.compact

theorem Tail.Extends.push {added : List Section} {t t' : Tail} (h : t.Extends added t')
    (token : Token) : (t.push token).Extends added (t'.push token) := by
  obtain ⟨hline, hmore, hsections⟩ := h
  simp only [Tail.push]
  split
  · exact ⟨rfl, by rw [List.filter_cons, List.filter_cons, hline, hmore], hsections⟩
  · refine ⟨rfl, rfl, ?_⟩
    simp only [List.map_cons, List.cons_append, hsections, Section.compact, hline, hmore]
  · exact ⟨by rw [hline], hmore, hsections⟩

theorem Tail.Extends.foldr {added : List Section} {t t' : Tail} (h : t.Extends added t')
    (tokens : List Token) :
    (tokens.foldr (fun token tail => tail.push token) t).Extends added
      (tokens.foldr (fun token tail => tail.push token) t') := by
  induction tokens with
  | nil => exact h
  | cons token tokens ih => exact ih.push token

/-- What an extended layout reads: the metadata stay, and the passages of the new sections follow. -/
theorem Tail.Extends.read {added : List Section} {t t' : Tail} (h : t.Extends added t') :
    t'.toOutline.read.story
        = { t.toOutline.read.story with
            passages := t.toOutline.read.story.passages ++ added.filterMap Section.passage? } ∧
      t'.toOutline.read.incidents
        = t.toOutline.read.incidents ++ added.flatMap Section.incidents := by
  obtain ⟨hline, hmore, hsections⟩ := h
  have hcompact : t'.toOutline.compact
      = (Outline.mk t.toOutline.preamble (t.toOutline.sections ++ added)).compact := by
    simp only [Outline.compact, Tail.toOutline, List.filter_cons, hline, hmore, hsections,
      List.map_append]
  rw [← Outline.read_compact t'.toOutline, hcompact, Outline.read_compact]
  constructor
  · simp only [Outline.read, List.filterMap_append]
  · simp only [Outline.read, List.flatMap_append, List.append_assoc]

/-- Reading tokens, a line break and the tokens of a passage: each part is read as it is read alone. -/
theorem read_append_break {above : List Token} (habove : ∀ t ∈ above, t.kind ≠ .endOfInput)
    (pos : Position) {m : Token} (hmarker : m.kind = .passageMarker) {v : List Token}
    (hbelow : ∃ t ∈ v, t.kind = .endOfInput) :
    (Story.ofTokens (above ++ .breakAt pos :: m :: v)).story
        = { (Story.ofTokens (above ++ [.endAt pos])).story with
            passages := (Story.ofTokens (above ++ [.endAt pos])).story.passages
              ++ (Story.ofTokens (m :: v)).story.passages } ∧
      (Story.ofTokens (above ++ .breakAt pos :: m :: v)).incidents
        = (Story.ofTokens (above ++ [.endAt pos])).incidents
          ++ (Story.ofTokens (m :: v)).incidents := by
  -- The marker ends what lies below: its layout is made of sections alone.
  have hlow : tailOf (m :: v) = (tailOf v).push m := by
    have h := tailOf_append (u := [m]) (by simp [hmarker]) hbelow
    simpa [hmarker, TokenKind.isTrivia] using h
  have hline : (tailOf (m :: v)).line.holds = false := by
    simp [hlow, Tail.push, hmarker, Line.holds]
  have hmore : (tailOf (m :: v)).more = [] := by
    simp [hlow, Tail.push, hmarker]
  have hend : ∃ t ∈ m :: v, t.kind = .endOfInput := by
    obtain ⟨t, ht, hk⟩ := hbelow
    exact ⟨t, List.mem_cons_of_mem _ ht, hk⟩
  have hbreak : tailOf (.breakAt pos :: m :: v)
      = (tailOf (m :: v)).push (.breakAt pos) :=
    tailOf_append (u := [.breakAt pos]) (by simp [Token.breakAt]) hend
  -- Above the passage, all there is to lay out is one more line that holds nothing.
  have hbase : (tailOf [.endAt pos]).Extends (tailOf (m :: v)).sections
      (tailOf (.breakAt pos :: m :: v)) := by
    rw [hbreak]
    refine ⟨rfl, ?_, rfl⟩
    show ((tailOf (m :: v)).line :: (tailOf (m :: v)).more).filter Line.holds = []
    rw [hmore, List.filter_cons_of_neg (by simp [hline])]
    rfl
  have hout : ∀ v, (∃ t ∈ v, t.kind = .endOfInput) → Outline.ofTokens (above ++ v)
      = ((above.filter fun t => !t.kind.isTrivia).foldr (fun token tail => tail.push token)
          (tailOf v)).toOutline := by
    intro v hv
    rw [ofTokens_eq_toOutline, tailOf_append habove hv]
  have hempty : Preamble.ofLines [(tailOf (m :: v)).line] = Preamble.empty :=
    Preamble.line_of_not_holds Preamble.empty hline
  have hlowRead : (Story.ofTokens (m :: v)).story.passages
        = (tailOf (m :: v)).sections.filterMap Section.passage? ∧
      (Story.ofTokens (m :: v)).incidents
        = (tailOf (m :: v)).sections.flatMap Section.incidents := by
    rw [Story.ofTokens, ofTokens_eq_toOutline, Tail.toOutline, hmore, Outline.read, hempty]
    exact ⟨rfl, rfl⟩
  rw [hlowRead.1, hlowRead.2, Story.ofTokens, Story.ofTokens,
    hout [.endAt pos] ⟨_, List.mem_singleton_self _, rfl⟩,
    hout (.breakAt pos :: m :: v) (by
      obtain ⟨t, ht, hk⟩ := hend
      exact ⟨t, List.mem_cons_of_mem _ ht, hk⟩)]
  exact (hbase.foldr _).read

end Outline

/-! ## Texts -/

/-- A text that opens with a passage starts with no byte order mark. -/
theorem Lexeme.head?_ne_mark_of_opensPassage {cs : List Char} (h : Lexeme.opensPassage cs = true) :
    cs.head? ≠ some '\uFEFF' := by
  intro hc
  rw [Lexeme.eq_cons_tail_of_head? hc, Lexeme.opensPassage] at h
  cases h

/-- The lexemes of a text that opens with a passage, below another text. -/
theorem Lexed.lexemes_append_break {a b : String} (ha : '\r' ∉ a.toList) (hb : '\r' ∉ b.toList)
    (hmark : a.toList.head? ≠ some '\uFEFF') (hopens : Lexeme.opensPassage b.toList = true)
    (hclosed : ∀ l ∈ Lexed.lexemes a, l.isRunaway = false) :
    Lexed.lexemes (a ++ "\n" ++ b) = Lexed.lexemes a ++ Lexeme.lineFeed :: Lexed.lexemes b := by
  have hmarkb := Lexeme.head?_ne_mark_of_opensPassage hopens
  have hboth : (a ++ "\n" ++ b).toList = a.toList ++ '\n' :: b.toList := by simp
  have hnormal : Text.normalChars (a ++ "\n" ++ b) = a.toList ++ '\n' :: b.toList := by
    rw [Text.normalChars_of_not_mem, hboth]
    · rw [hboth]
      simp [ha, hb]
    · rw [hboth]
      cases hs : a.toList with
      | nil => simp
      | cons c cs => simpa [hs] using hmark
  rw [Lexed.lexemes, Text.normalChars_of_not_mem ha hmark] at hclosed
  rw [Lexed.lexemes, Lexed.lexemes, Lexed.lexemes, hnormal, Text.normalChars_of_not_mem ha hmark,
    Text.normalChars_of_not_mem hb hmarkb, Lexeme.scan_append_break _ _ _ hclosed hopens]

/-- A lexeme that runs away is reported. -/
theorem Lexeme.isRunaway_eq_false_of_errors {pos : Position} {ls : List Lexeme}
    (h : ∀ e ∈ Lexeme.errors pos ls,
      e.fault ≠ .unterminatedComment ∧ e.fault ≠ .unterminatedScript) :
    ∀ l ∈ ls, l.isRunaway = false := by
  induction ls generalizing pos with
  | nil => simp
  | cons l ls ih =>
    rw [Lexeme.errors, List.forall_mem_append] at h
    rw [List.forall_mem_cons]
    refine ⟨?_, ih h.2⟩
    obtain ⟨sort, raw⟩ := l
    cases sort with
    | gap => rfl
    | token kind value => rfl
    | fault fault =>
      have hfault := h.1 ⟨fault, pos⟩ (by simp [Lexeme.error?])
      cases fault with
      | unterminatedComment => exact absurd rfl hfault.1
      | unterminatedScript => exact absurd rfl hfault.2
      | unterminatedString => rfl
      | invalidNumber text => rfl

/-- The tokens hold the end of input. -/
theorem Lexeme.exists_end_mem_tokens (pos : Position) (ls : List Lexeme) :
    ∃ t ∈ Lexeme.tokens pos ls, t.kind = .endOfInput := by
  rw [Lexeme.tokens_eq_placed]
  exact ⟨_, List.mem_append_right _ (List.mem_singleton_self _), rfl⟩

/-- The tokens of lexemes, a line break and more lexemes. -/
theorem Lexeme.tokens_append_lineFeed (pos : Position) (ls ls' : List Lexeme) :
    Lexeme.tokens pos (ls ++ Lexeme.lineFeed :: ls')
      = Lexeme.placed pos ls ++ .breakAt (pos.advance (ls.flatMap Lexeme.raw)) ::
        Lexeme.tokens (pos.advance (ls.flatMap Lexeme.raw ++ ['\n'])) ls' := by
  induction ls generalizing pos with
  | nil => rfl
  | cons l ls ih =>
    rw [List.cons_append, Lexeme.tokens, Lexeme.placed, ih, List.flatMap_cons, List.append_assoc,
      List.append_assoc, Position.advance_append pos l.raw, Position.advance_append pos l.raw]

namespace Lexed

/-- A text that opens with a passage: its first token is the marker, and the end of input comes later. -/
theorem tokens_of_opensPassage {b : String} (hb : '\r' ∉ b.toList)
    (hopens : Lexeme.opensPassage b.toList = true) :
    ∃ marker rest, (Lexed.ofSource b).tokens = marker :: rest ∧ marker.kind = .passageMarker ∧
      ∃ t ∈ rest, t.kind = .endOfInput := by
  have hnormal : Text.normalChars b = b.toList :=
    Text.normalChars_of_not_mem hb (Lexeme.head?_ne_mark_of_opensPassage hopens)
  obtain ⟨marker, rest, htokens, hmarker⟩ := Lexeme.tokens_of_opensPassage hopens .start
  rw [← hnormal] at htokens
  refine ⟨marker, rest, htokens, hmarker, ?_⟩
  obtain ⟨t, ht, hend⟩ := Lexeme.exists_end_mem_tokens .start (Lexed.lexemes b)
  rw [Lexed.lexemes, htokens] at ht
  rcases List.mem_cons.mp ht with rfl | ht
  · rw [hmarker] at hend
    cases hend
  · exact ⟨t, ht, hend⟩

section

variable {a b : String} (ha : '\r' ∉ a.toList) (hb : '\r' ∉ b.toList)
  (hmark : a.toList.head? ≠ some '\uFEFF')

include ha hmark

theorem flatMap_raw_lexemes : (lexemes a).flatMap Lexeme.raw = a.toList := by
  rw [lexemes, Lexeme.flatMap_raw_scan, Text.normalChars_of_not_mem ha hmark]

theorem tokens_eq_placed :
    (Lexed.ofSource a).tokens
      = Lexeme.placed .start (lexemes a) ++ [.endAt (Position.start.advance a.toList)] := by
  rw [← flatMap_raw_lexemes ha hmark]
  exact Lexeme.tokens_eq_placed .start (lexemes a)

include hb

variable (hopens : Lexeme.opensPassage b.toList = true)
  (hclosed : ∀ l ∈ lexemes a, l.isRunaway = false)

include hopens hclosed

/-- The tokens of both texts: a line break takes the place of the first end of input. -/
theorem tokens_append_passage :
    (Lexed.ofSource (a ++ "\n" ++ b)).tokens
      = Lexeme.placed .start (lexemes a) ++ .breakAt (Position.start.advance a.toList) ::
        (Lexed.ofSource b).tokens.map (Token.relocate (.below (a.toList.count '\n' + 1))) := by
  show Lexeme.tokens .start (lexemes (a ++ "\n" ++ b)) = _
  rw [lexemes_append_break ha hb hmark hopens hclosed, Lexeme.tokens_append_lineFeed,
    flatMap_raw_lexemes ha hmark, Position.start_advance_break, Lexeme.tokens_below]
  rfl

theorem errors_append_passage :
    (Lexed.ofSource (a ++ "\n" ++ b)).errors = (Lexed.ofSource a).errors
      ++ (Lexed.ofSource b).errors.map (LexicalError.relocate (.below (a.toList.count '\n' + 1))) := by
  show Lexeme.errors .start (lexemes (a ++ "\n" ++ b)) = _
  rw [lexemes_append_break ha hb hmark hopens hclosed, Lexeme.errors_append,
    flatMap_raw_lexemes ha hmark, Lexeme.errors, ← Position.advance_append]
  show _ ++ ([] ++ Lexeme.errors (Position.start.advance (a.toList ++ ['\n'])) (lexemes b)) = _
  rw [Position.start_advance_break, Lexeme.errors_below]
  rfl

end

end Lexed

/-- **Compositionality at passage boundaries.** Below a text `a` and a line break, a text `b` that opens
with a passage marker is scanned and read as it is alone, moved down; and `a` as if nothing followed. -/
theorem Story.read_append_passage {a b : String} (ha : '\r' ∉ a.toList) (hb : '\r' ∉ b.toList)
    (hmark : a.toList.head? ≠ some '\uFEFF') (hopens : Lexeme.opensPassage b.toList = true)
    (hclosed : ∀ e ∈ (Lexed.ofSource a).errors,
      e.fault ≠ .unterminatedComment ∧ e.fault ≠ .unterminatedScript) :
    let down : Position → Position := .below (a.toList.count '\n' + 1)
    let above := Lexed.ofSource a
    let below := Lexed.ofSource b
    let both := Lexed.ofSource (a ++ "\n" ++ b)
    (∃ ts pos, above.tokens = ts ++ [.endAt pos] ∧
      both.tokens = ts ++ .breakAt pos :: below.tokens.map (Token.relocate down)) ∧
    both.errors = above.errors ++ below.errors.map (LexicalError.relocate down) ∧
    (Story.ofTokens both.tokens).story
      = { (Story.ofTokens above.tokens).story with
          passages := (Story.ofTokens above.tokens).story.passages
            ++ (Story.ofTokens below.tokens).story.passages.map (Passage.relocate down) } ∧
    (Story.ofTokens both.tokens).errors
      = (Story.ofTokens above.tokens).errors
        ++ (Story.ofTokens below.tokens).errors.map (SyntaxError.relocate down) := by
  intro down above below both
  have hclosed := Lexeme.isRunaway_eq_false_of_errors hclosed
  have habove := Lexed.tokens_eq_placed ha hmark
  have hboth := Lexed.tokens_append_passage ha hb hmark hopens hclosed
  obtain ⟨marker, rest, hbelow, hmarker, t, ht, hend⟩ := Lexed.tokens_of_opensPassage hb hopens
  have hplaced : ∀ t ∈ Lexeme.placed .start (Lexed.lexemes a), t.kind ≠ .endOfInput :=
    fun _ ht => Lexeme.kind_ne_end_of_mem_placed ht
  have hread := Outline.read_append_break hplaced (Position.start.advance a.toList)
    (m := marker.relocate down) (v := rest.map (Token.relocate down)) hmarker
    ⟨_, List.mem_map_of_mem ht, hend⟩
  -- Both parts are read from tokens in place; the lower ones are those of `b` moved down, and moving tokens
  -- moves what is read from them.
  have htrivia : ∃ t ∈ below.tokens, t.kind.isTrivia = false := by
    rw [hbelow]
    exact ⟨marker, List.mem_cons_self, by rw [hmarker]; rfl⟩
  rw [← List.map_cons, ← hbelow, ← habove, ← hboth, Story.ofTokens_relocate_story down htrivia,
    Story.ofTokens_relocate_incidents down htrivia] at hread
  refine ⟨⟨_, _, habove, hboth⟩, Lexed.errors_append_passage ha hb hmark hopens hclosed, hread.1, ?_⟩
  rw [Reading.errors, hread.2, List.filterMap_append, Incident.filterMap_reported?_relocate]
  rfl

/-- An open guard, an unfinished string and an open tag list above do not reach the passage below. -/
theorem Story.read_append_passage_unfinished :
    let a := ":: A\n\x7b$x (\n* [\"oops\n:: B [tag"
    let b := " :: C\n-> C"
    let both := Lexed.ofSource (a ++ "\n" ++ b)
    (Story.ofTokens both.tokens).story
      = { (Story.ofTokens (Lexed.ofSource a).tokens).story with
          passages := (Story.ofTokens (Lexed.ofSource a).tokens).story.passages
            ++ (Story.ofTokens (Lexed.ofSource b).tokens).story.passages.map
              (Passage.relocate (.below (a.toList.count '\n' + 1))) } := by
  intro a b both
  have h := Story.read_append_passage (a := a) (b := b) (by decide) (by decide) (by decide)
    (by decide) (by decide +kernel)
  exact h.2.2.1

end Gamebook
