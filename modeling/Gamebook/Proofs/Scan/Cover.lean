/-
# Gamebook.Proofs.Scan.Cover — tokens cover their source

A normal source text is the raw texts of its tokens in order, with gaps between them. What lies in a gap is
white space: blanks, line feeds inside brackets, and values and choice texts of which trimming leaves
nothing. `step_spaced` says so of every step, and `Lexed.tokens_cover` of every source.

The same statement fixes the places. A source is cut first, and `Lexeme.tokens` then counts along the raw texts of
what it was cut into, character by character; here a token is said to stand where the text before it ends, with lines
and columns counted from that text alone (`Position.after`).
-/
import Gamebook.Proofs.Composition
import Mathlib.Data.List.Induction
import Mathlib.Data.List.TakeWhile

namespace Gamebook

open Gamebook.Text (isBlank isSpace trimEnd trim)

/-! ## Places, counted from the text before -/

/-- The place after a text: one more than its line feeds, and one more than the characters since the
last of them. -/
def Position.after (text : List Char) : Position :=
  ⟨text.count '\n' + 1, (text.reverse.takeWhile (· ≠ '\n')).length + 1⟩

/-- Counting along the text comes to the same place. -/
theorem Position.start_advance (text : List Char) : Position.start.advance text = .after text := by
  -- The induction goes from the end: the last character decides what the column counts from.
  induction text using List.reverseRecOn with
  | nil => rfl
  | append_singleton text c ih =>
    rw [Position.advance_append, ih, Position.advance_cons, Position.advance_nil, Position.step]
    by_cases hc : c = '\n'
    · subst hc
      simp [Position.after]
    · simp [Position.after, hc]

/-! ## Gaps -/

namespace Text

theorem forall_isSpace_of_trimEnd {cs : List Char} (h : trimEnd cs = []) : ∀ c ∈ cs, isSpace c = true := by
  intro c hc
  rw [trimEnd, dropEndWhile, List.reverse_eq_nil_iff, List.dropWhile_eq_nil_iff] at h
  exact h c (List.mem_reverse.mpr hc)

theorem forall_isSpace_of_trim {cs : List Char} (h : trim cs = []) : ∀ c ∈ cs, isSpace c = true := by
  refine forall_isSpace_of_trimEnd ?_
  rw [trim, List.dropWhile_eq_nil_iff] at h
  -- What trimming the end leaves would end in a character that is no white space.
  cases hlast : (trimEnd cs).getLast? with
  | none => exact List.getLast?_eq_none_iff.mp hlast
  | some d =>
    have hspace : isSpace d = true := h d (List.mem_of_getLast? hlast)
    have hnot : isSpace d = false := getLast?_dropEndWhile d hlast
    rw [hspace] at hnot
    cases hnot

end Text

namespace Lexeme

/-- A gap holds nothing but white space. -/
def Spaced (l : Lexeme) : Prop :=
  match l.sort with
  | .gap => ∀ c ∈ l.raw, isSpace c = true
  | _ => True

theorem blanks_spaced {c : Char} (hc : isBlank c = true) (cs : List Char) : (blanks c cs).Spaced := by
  refine List.forall_mem_cons.mpr ⟨Text.isSpace_of_isBlank hc, fun d hd => ?_⟩
  exact Text.isSpace_of_isBlank (List.all_eq_true.mp List.all_takeWhile d hd)

/-- The text of a choice that is white space was written as it stands: nothing that a backslash quotes is
white space, and neither is a backslash. -/
theorem forall_isSpace_displayText {cs : List Char} (h : ∀ c ∈ (displayText cs).2, isSpace c = true) :
    ∀ c ∈ (displayText cs).1, isSpace c = true := by
  fun_induction displayText cs with
  | case1 => exact h
  | case2 c cs hc raw text hrest ih =>
    have hspace : isSpace c = true := h c List.mem_cons_self
    simp only [isQuotable, Bool.or_eq_true, decide_eq_true_eq] at hc
    rcases hc with (rfl | rfl) | rfl <;> exact absurd hspace (by decide)
  | case3 c cs hc raw text hrest ih => exact absurd (h '\\' List.mem_cons_self) (by decide)
  | case4 c cs hne hc => exact h
  | case5 c cs hne hc raw text hrest ih =>
    rw [hrest] at ih
    rw [List.forall_mem_cons] at h ⊢
    exact ⟨h.1, ih h.2⟩

theorem codeStep_spaced (s : CodeState) (c : Char) (cs : List Char) : (codeStep s c cs).1.Spaced := by
  apply codeStep_cases (P := fun r => r.1.Spaced)
  case blank => exact fun hc => blanks_spaced hc cs
  case folded => exact fun _ _ _ => List.forall_mem_singleton.mpr (by decide)
  case comment =>
    intro _ _
    rw [blockComment]
    split <;> trivial
  case script =>
    intro _ _
    rw [scriptBlock]
    split <;> trivial
  case string =>
    intro _
    rw [stringWord]
    split <;> trivial
  case number =>
    refine fun _ => numberWord_cases (P := Spaced) _ ?_ ?_ ?_ <;> intros <;> trivial
  case name =>
    refine fun _ => nameWord_cases (P := Spaced) _ ?_ ?_ ?_ <;> intros <;> trivial
  case symbol =>
    intro _ _ _
    rw [symbolStep]
    split <;> trivial
  all_goals
    intros
    trivial

/-- **Every gap that a step leaves is white space.** -/
theorem step_spaced (mode : Mode) (c : Char) (cs : List Char) : (step mode c cs).1.Spaced := by
  cases mode with
  | code s => exact codeStep_spaced s c cs
  | lineStart =>
    apply lineStep_cases (P := fun r => r.1.Spaced)
    case blank => exact fun hc => blanks_spaced hc cs
    case code => exact fun _ => codeStep_spaced _ c cs
    all_goals
      intros
      trivial
  | metaValue =>
    apply metaStep_cases (P := fun r => r.1.Spaced)
    case blank => exact fun hc => blanks_spaced hc cs
    case nothing => exact fun _ _ hnone => Text.forall_isSpace_of_trimEnd hnone
    all_goals
      intros
      trivial
  | name s =>
    apply nameStep_cases (P := fun r => r.1.Spaced)
    case blank => exact fun hc => blanks_spaced hc cs
    case code => exact fun _ => codeStep_spaced s c cs
    case name => intro _ _; trivial
  | display =>
    apply displayStep_cases (P := fun r => r.1.Spaced)
    case closed => intro _; trivial
    case code => exact fun _ => codeStep_spaced _ c cs
    case nothing =>
      exact fun _ hnone => forall_isSpace_displayText (Text.forall_isSpace_of_trim hnone)
    case text => intro _; trivial
  | tags =>
    apply tagStep_cases (P := fun r => r.1.Spaced)
    case blank => exact fun hc => blanks_spaced hc cs
    case code => exact codeStep_spaced _ c cs
    case closed => intro _; trivial
    case tag => intro _ _ _; trivial

end Lexeme

/-! ## Pieces -/

/-- A token with the gap before it. -/
structure Piece where
  gap : List Char
  token : Token

/-- What a piece covers. -/
def Piece.chars (p : Piece) : List Char := p.gap ++ p.token.raw.toList

namespace Lexeme

/-- The tokens of consecutive lexemes with the gaps before them, the first of which starts at `pos`, when
`gap` lies before it. -/
def pieces (gap : List Char) (pos : Position) : List Lexeme → List Piece
  | [] => [⟨gap, .endAt pos⟩]
  | l :: ls =>
    match l.token? pos with
    | none => pieces (gap ++ l.raw) (pos.advance l.raw) ls
    | some t => ⟨gap, t⟩ :: pieces [] (pos.advance l.raw) ls

/-- A lexeme is a gap or a token at its place that covers it. -/
theorem token?_cases (l : Lexeme) (pos : Position) :
    (l.sort = .gap ∧ l.token? pos = none) ∨
      ∃ t, l.token? pos = some t ∧ t.pos = pos ∧ t.raw.toList = l.raw := by
  obtain ⟨sort, raw⟩ := l
  cases sort with
  | gap => exact .inl ⟨rfl, rfl⟩
  | token kind value => exact .inr ⟨_, rfl, rfl, String.toList_ofList⟩
  | fault fault => exact .inr ⟨_, rfl, rfl, String.toList_ofList⟩

theorem map_token_pieces (gap : List Char) (pos : Position) (ls : List Lexeme) :
    (pieces gap pos ls).map Piece.token = tokens pos ls := by
  induction ls generalizing gap pos with
  | nil => rfl
  | cons l ls ih =>
    rw [pieces, tokens]
    rcases l.token?_cases pos with ⟨-, hnone⟩ | ⟨t, ht, -, -⟩
    · rw [hnone]
      exact ih _ _
    · rw [ht]
      exact congrArg (t :: ·) (ih _ _)

/-- Pieces lose nothing. -/
theorem flatMap_chars_pieces (gap : List Char) (pos : Position) (ls : List Lexeme) :
    (pieces gap pos ls).flatMap Piece.chars = gap ++ ls.flatMap raw := by
  induction ls generalizing gap pos with
  | nil => simp [pieces, Piece.chars, Token.endAt]
  | cons l ls ih =>
    rw [pieces]
    rcases l.token?_cases pos with ⟨-, hnone⟩ | ⟨t, ht, -, hraw⟩
    · rw [hnone]
      simp only [ih, List.flatMap_cons, List.append_assoc]
    · rw [ht]
      simp only [List.flatMap_cons, ih, List.nil_append, Piece.chars, hraw, List.append_assoc]

theorem gap_pieces_spaced {gap : List Char} (hgap : ∀ c ∈ gap, isSpace c = true) {ls : List Lexeme}
    (hls : ∀ l ∈ ls, l.Spaced) (pos : Position) :
    ∀ p ∈ pieces gap pos ls, ∀ c ∈ p.gap, isSpace c = true := by
  induction ls generalizing gap pos with
  | nil => exact List.forall_mem_singleton.mpr hgap
  | cons l ls ih =>
    rw [List.forall_mem_cons] at hls
    rw [pieces]
    rcases l.token?_cases pos with ⟨hsort, hnone⟩ | ⟨t, ht, -, -⟩
    · have hspace := hls.1
      rw [Spaced, hsort] at hspace
      rw [hnone]
      exact ih (List.forall_mem_append.mpr ⟨hgap, hspace⟩) hls.2 _
    · rw [ht]
      exact List.forall_mem_cons.mpr ⟨hgap, ih (List.forall_mem_nil _) hls.2 _⟩

/-- **A token stands where the pieces before it and its gap end,** if the first gap starts at `start`. -/
theorem pos_of_pieces (start : Position) (gap : List Char) {ls : List Lexeme} {before after : List Piece}
    {p : Piece} (h : pieces gap (start.advance gap) ls = before ++ p :: after) :
    p.token.pos = start.advance (before.flatMap Piece.chars ++ p.gap) := by
  induction ls generalizing start gap before with
  | nil =>
    rw [pieces, List.singleton_eq_append_iff] at h
    rcases h with ⟨rfl, h⟩ | ⟨-, h⟩
    · cases h
      rfl
    · cases h
  | cons l ls ih =>
    rw [pieces] at h
    rcases l.token?_cases (start.advance gap) with ⟨-, hnone⟩ | ⟨t, ht, hpos, hraw⟩
    · rw [hnone, ← Position.advance_append] at h
      exact ih start _ h
    · simp only [ht] at h
      cases before with
      | nil =>
        cases h
        exact hpos
      | cons q before =>
        rw [List.cons_append, List.cons.injEq] at h
        obtain ⟨rfl, h⟩ := h
        -- The next piece starts where the raw text of this one ends.
        rw [ih ((start.advance gap).advance l.raw) [] h, ← Position.advance_append,
          ← Position.advance_append, List.flatMap_cons, Piece.chars, hraw, List.append_assoc,
          List.append_assoc]

theorem raw_ne_of_mem_placed {ls : List Lexeme} (hls : ∀ l ∈ ls, l.raw ≠ []) {pos : Position} {t : Token}
    (h : t ∈ placed pos ls) : t.raw ≠ "" := by
  induction ls generalizing pos with
  | nil => cases h
  | cons l ls ih =>
    rw [List.forall_mem_cons] at hls
    rw [placed, List.mem_append] at h
    rcases h with h | h
    · rcases l.token?_cases pos with ⟨-, hnone⟩ | ⟨u, hu, -, hraw⟩
      · rw [hnone] at h
        cases h
      · rw [hu] at h
        rw [List.mem_singleton.mp h]
        intro hempty
        rw [hempty] at hraw
        exact hls.1 hraw.symm
    · exact ih hls.2 h

end Lexeme

/-- **Tokenization is lossless and its places are exact.** The normal form of every source is made of
gaps and raw texts in turn; the gaps are white space; only the end of input, which comes last and once,
has an empty raw text; and every token stands where the text before it ends and is as long as its raw
text. -/
theorem Lexed.tokens_cover (source : String) :
    ∃ pieces : List Piece,
      pieces.map Piece.token = (Lexed.ofSource source).tokens ∧
      pieces.flatMap Piece.chars = (Text.normalize source).toList ∧
      (∀ p ∈ pieces, ∀ c ∈ p.gap, isSpace c = true) ∧
      (∃ words last, (Lexed.ofSource source).tokens = words ++ [last] ∧ last.kind = .endOfInput ∧
        last.raw = "" ∧ ∀ t ∈ words, t.kind ≠ .endOfInput ∧ t.raw ≠ "") ∧
      ∀ before p after, pieces = before ++ p :: after →
        p.token.pos = .after (before.flatMap Piece.chars ++ p.gap) ∧
          p.token.length = p.token.raw.toList.length := by
  refine ⟨Lexeme.pieces [] .start (Lexed.lexemes source), Lexeme.map_token_pieces _ _ _, ?_, ?_, ?_, ?_⟩
  · rw [Lexeme.flatMap_chars_pieces, List.nil_append, Text.normalize, String.toList_ofList]
    exact Lexeme.flatMap_raw_scan _ _
  · exact Lexeme.gap_pieces_spaced (List.forall_mem_nil _) (Lexeme.forall_mem_scan Lexeme.step_spaced _ _) _
  · refine ⟨_, _, Lexeme.tokens_eq_placed _ _, rfl, rfl, fun t ht => ?_⟩
    exact ⟨Lexeme.kind_ne_end_of_mem_placed ht,
      Lexeme.raw_ne_of_mem_placed (Lexeme.forall_mem_scan Lexeme.step_raw_ne_nil _ _) ht⟩
  · intro before p after hsplit
    refine ⟨?_, String.length_toList.symm⟩
    rw [← Position.start_advance]
    exact Lexeme.pos_of_pieces .start [] hsplit

end Gamebook
