/-
# Gamebook.Proofs.Scan.Display — the text of a choice is trimmed

A text inside a line is cut by one of two rules: between the square brackets of a choice it is trimmed, and
elsewhere it is taken as it stands. Which rule applies depends on what the scanner remembers of the line, and
the reader of a choice sees tokens only. It can rely on the brackets: after a choice marker, the text that
follows the first square bracket outside all others is trimmed (`Token.Shows`). The scanner and the tokens
count brackets alike, so this holds after every choice marker of every source (`Lexed.displays_tokens`).
-/
import Gamebook.Proofs.Scan

namespace Gamebook

open Gamebook.Lexeme

namespace Token

/-- A text without white space around it. -/
def Trimmed (t : Token) : Prop := t.kind = .text → Text.trim t.content.toList = t.content.toList

/-- The tokens of a choice, from inside `depth` brackets on: the text after the first square bracket that is
inside no other one is trimmed, if there is one on the line. -/
def Shows : Nat → List Token → Prop
  | _, [] => True
  | depth, t :: ts =>
    if t.kind = .newline then True
    else if t.kind = .opening .square ∧ depth = 0 then ∀ u ∈ ts.head?, u.Trimmed
    else Shows (depthAfter depth t.kind) ts

/-- After every choice marker the text of the choice is trimmed. -/
def Displays (ts : List Token) : Prop :=
  ∀ t us, t :: us <:+ ts → t.kind = .choiceMarker → Shows 0 us

/-- What holds up to the end of the tokens holds up to any token before. -/
theorem Shows.of_append {ts us : List Token} {depth : Nat} (h : Shows depth (ts ++ us)) :
    Shows depth ts := by
  induction ts generalizing depth with
  | nil => trivial
  | cons t ts ih =>
    rw [List.cons_append, Shows] at h
    rw [Shows]
    split
    · trivial
    · next hline =>
      rw [if_neg hline] at h
      split
      · next hsquare =>
        rw [if_pos hsquare] at h
        intro u hu
        refine h u ?_
        rw [List.head?_append, Option.mem_def.mp hu]
        rfl
      · next hsquare =>
        rw [if_neg hsquare] at h
        exact ih h

/-- A token passed over, which is not the bracket that is looked for. -/
theorem shows_cons {t : Token} {ts : List Token} {depth : Nat} (hline : t.kind ≠ .newline)
    (hsquare : t.kind = .opening .square → depth ≠ 0) :
    Shows depth (t :: ts) ↔ Shows (depthAfter depth t.kind) ts := by
  rw [Shows, if_neg hline, if_neg fun h => hsquare h.1 h.2]

end Token

/-- Whether a token of this kind leaves the line and the brackets as they are, and opens no choice. -/
def TokenKind.isFlat : TokenKind → Bool
  | .newline | .opening _ | .closing _ | .choiceMarker => false
  | _ => true

theorem Token.shows_flat {t : Token} {ts : List Token} {depth : Nat} (h : t.kind.isFlat = true) :
    Token.Shows depth (t :: ts) ↔ Token.Shows depth ts := by
  have hdepth : depthAfter depth t.kind = depth := by
    cases hkind : t.kind <;> rw [hkind] at h <;> first | rfl | cases h
  rw [Token.shows_cons, hdepth]
  · intro hline
    rw [hline] at h
    cases h
  · intro hsquare
    rw [hsquare] at h
    cases h

namespace Lexeme

/-- Whether a lexeme leaves the line and the brackets as they are, and opens no choice. -/
def isFlat (l : Lexeme) : Bool :=
  match l.sort with
  | .token kind _ => kind.isFlat
  | _ => true

/-- What a reader sees of a lexeme. -/
def seen (l : Lexeme) (pos : Position) : List Token :=
  (l.token? pos).toList.filter fun t => !t.kind.isTrivia

/-! ## Steps -/

/-- What a step inside a line of code does to the line and the brackets. -/
theorem codeStep_brackets {P : Lexeme × Mode → Prop} (s : CodeState) (c : Char) (cs : List Char)
    (flat : ∀ l : Lexeme, l.isFlat = true → P (l, .code s))
    (ended : P (lineFeed, .lineStart))
    (arrow : P (plain .arrow ['-', '>'], .name s))
    (display : s.depth = 0 → P (plain (.opening .square) ['['], .display))
    (tags : s.line = .passage → P (plain (.opening .square) ['['], .tags))
    (symbol : ∀ spelling kind, kind.isTrivia = false → kind ≠ .newline → kind ≠ .choiceMarker →
      (kind = .opening .square → s.line = .choice → s.depth = 0 → s.displayed = true) →
      P (plain kind spelling, .code { s with depth := depthAfter s.depth kind })) :
    P (codeStep s c cs) := by
  apply codeStep_cases (P := P)
  case blank => exact fun _ => flat _ rfl
  case folded => exact fun _ _ _ => flat _ rfl
  case ended => exact fun _ _ => ended
  case lineComment => exact fun _ _ => flat _ rfl
  case comment =>
    refine fun _ _ => flat _ ?_
    rw [blockComment]
    split <;> rfl
  case script =>
    refine fun _ _ => flat _ ?_
    rw [scriptBlock]
    split <;> rfl
  case arrow => exact fun _ _ => arrow
  case string =>
    refine fun _ => flat _ ?_
    rw [stringWord]
    split <;> rfl
  case number =>
    refine fun _ => flat _ ?_
    exact numberWord_cases (P := fun l => l.isFlat = true) _ (fun _ _ _ => rfl) (fun _ _ => rfl) fun _ _ => rfl
  case name =>
    refine fun _ => flat _ ?_
    refine nameWord_cases (P := fun l => l.isFlat = true) _ (fun _ _ => rfl) (fun kind raw hkind => ?_)
      fun _ => rfl
    rcases hkind with rfl | rfl | rfl <;> rfl
  case display => exact fun _ _ hdepth => display hdepth
  case tags => exact fun _ hline _ => tags hline
  case symbol =>
    intro _ _ hsquare
    have hkinds : ∀ t ∈ symbols, t.2.isTrivia = false ∧ t.2 ≠ .newline ∧ t.2 ≠ .choiceMarker ∧
        (t.2 = .opening .square → t.1 = ['[']) := by
      decide
    rw [symbolStep]
    split
    · next spelling kind hfind =>
      obtain ⟨htrivia, hline, hchoice, hspelling⟩ := hkinds _ (List.mem_of_find?_eq_some hfind)
      refine symbol spelling kind htrivia hline hchoice fun hkind => hsquare ?_
      -- The only spelling of a square bracket is the bracket.
      have hstart : spelling <+: c :: cs := symbol?_isPrefix hfind
      rw [show spelling = ['['] from hspelling hkind] at hstart
      exact (List.cons_prefix_cons.mp hstart).1.symm
    · exact flat _ rfl

/-- What a mode says about the tokens ahead. -/
def Shown : Mode → List Token → Prop
  | .code s, ts | .name s, ts => s.line = .choice → s.displayed = false → Token.Shows s.depth ts
  | .display, ts => ∀ u ∈ ts.head?, u.Trimmed
  | _, _ => True

variable {pos : Position} {ts : List Token}

theorem seen_plain {kind : TokenKind} {raw : List Char} (h : kind.isTrivia = false) :
    (plain kind raw).seen pos = [⟨kind, none, pos, String.ofList raw⟩] := by
  simp [seen, token?, plain, h]

theorem shows_seen {l : Lexeme} {depth : Nat} (h : l.isFlat = true) (hts : Token.Shows depth ts) :
    Token.Shows depth (l.seen pos ++ ts) := by
  obtain ⟨sort, raw⟩ := l
  cases sort with
  | gap => exact hts
  | fault fault => exact (Token.shows_flat rfl).mpr hts
  | token kind value =>
    rw [seen, token?, Option.toList_some, List.filter_cons]
    split
    · exact (Token.shows_flat (t := ⟨kind, value, pos, String.ofList raw⟩) h).mpr hts
    · exact hts

/-- What a line of code says of the tokens ahead follows from what the next mode says of those after the
step. -/
theorem codeStep_shown {s : CodeState} {c : Char} {cs : List Char} (h : Shown (codeStep s c cs).2 ts) :
    Shown (.code s) ((codeStep s c cs).1.seen pos ++ ts) := by
  revert h
  apply codeStep_brackets (P := fun r => Shown r.2 ts → Shown (.code s) (r.1.seen pos ++ ts))
  case flat => exact fun l hl h hline hdisplayed => shows_seen hl (h hline hdisplayed)
  case ended => exact fun _ _ _ => trivial
  case arrow => exact fun h hline hdisplayed => (Token.shows_flat rfl).mpr (h hline hdisplayed)
  case display =>
    intro hdepth h _ _
    show Token.Shows s.depth (_ :: ts)
    rw [hdepth]
    exact h
  case tags =>
    intro hpassage _ hline
    rw [hpassage] at hline
    cases hline
  case symbol =>
    intro spelling kind htrivia hbreak _ hsquare h hline hdisplayed
    rw [seen_plain htrivia, List.singleton_append, Token.shows_cons hbreak]
    · exact h hline hdisplayed
    · intro hkind hdepth
      rw [hsquare hkind hline hdepth] at hdisplayed
      cases hdisplayed

theorem nameStep_shown {s : CodeState} {c : Char} {cs : List Char} (h : Shown (nameStep s c cs).2 ts) :
    Shown (.name s) ((nameStep s c cs).1.seen pos ++ ts) := by
  revert h
  apply nameStep_cases (P := fun r => Shown r.2 ts → Shown (.name s) (r.1.seen pos ++ ts))
  case blank => exact fun _ h => h
  case code => exact fun _ h => codeStep_shown h
  case name =>
    intro _ _ h hline hdisplayed
    exact (Token.shows_flat rfl).mpr (h hline hdisplayed)

/-- Between the square brackets of a choice only the trimmed text is a text. -/
theorem displayStep_shown {c : Char} {cs : List Char} (h : Shown (displayStep c cs).2 ts) :
    Shown .display ((displayStep c cs).1.seen pos ++ ts) := by
  have hother : ∀ {t : Token}, t.kind ≠ .text → t.Trimmed := fun hkind htext => absurd htext hkind
  revert h
  apply displayStep_cases (P := fun r => Shown r.2 ts → Shown .display (r.1.seen pos ++ ts))
  case closed =>
    intro _ _ u hu
    cases hu
    exact hother TokenKind.noConfusion
  case code =>
    -- The line ends inside the brackets.
    rintro rfl _ u hu
    cases hu
    exact hother TokenKind.noConfusion
  case nothing => exact fun _ _ h => h
  case text =>
    intro _ _ u hu _
    cases hu
    show Text.trim (String.ofList _).toList = (String.ofList _).toList
    rw [String.toList_ofList, Text.trim_trim]

/-- **What a mode says of the tokens ahead** follows from what the next mode says of those after the step. -/
theorem step_shown {mode : Mode} {c : Char} {cs : List Char} (h : Shown (step mode c cs).2 ts) :
    Shown mode ((step mode c cs).1.seen pos ++ ts) := by
  cases mode with
  | lineStart | metaValue | tags => trivial
  | code s => exact codeStep_shown h
  | name s => exact nameStep_shown h
  | display => exact displayStep_shown h

/-- A choice marker is followed by the code of its choice. -/
def Marks (r : Lexeme × Mode) : Prop :=
  ∀ value, r.1.sort = .token .choiceMarker value → r.2 = .code (.begin .choice)

theorem marks_of_ne {kind : TokenKind} {value : Option Literal} {raw : List Char} {next : Mode}
    (h : kind ≠ .choiceMarker) : Marks (⟨.token kind value, raw⟩, next) := by
  intro _ hsort
  injection hsort with hkind
  exact absurd hkind h

theorem codeStep_marks (s : CodeState) (c : Char) (cs : List Char) : Marks (codeStep s c cs) := by
  apply codeStep_brackets (P := Marks)
  case flat =>
    intro l hl value hsort
    rw [isFlat, hsort] at hl
    cases hl
  case symbol => exact fun _ _ _ _ hkind _ => marks_of_ne hkind
  case display | tags => exact fun _ => marks_of_ne TokenKind.noConfusion
  all_goals exact marks_of_ne TokenKind.noConfusion

theorem step_marks (mode : Mode) (c : Char) (cs : List Char) : Marks (step mode c cs) := by
  have hgap : ∀ {raw : List Char} {next : Mode}, Marks (gap raw, next) :=
    fun _ hsort => LexemeSort.noConfusion hsort
  cases mode with
  | lineStart =>
    apply lineStep_cases (P := Marks)
    case blank => exact fun _ => hgap
    case choice => exact fun _ _ _ => rfl
    case code => exact fun _ => codeStep_marks _ c cs
    all_goals
      intros
      exact marks_of_ne TokenKind.noConfusion
  | metaValue =>
    apply metaStep_cases (P := Marks)
    case blank => exact fun _ => hgap
    case nothing => exact fun _ _ _ => hgap
    all_goals
      intros
      exact marks_of_ne TokenKind.noConfusion
  | code s => exact codeStep_marks s c cs
  | name s =>
    apply nameStep_cases (P := Marks)
    case blank => exact fun _ => hgap
    case code => exact fun _ => codeStep_marks s c cs
    case name => exact fun _ _ => marks_of_ne TokenKind.noConfusion
  | display =>
    apply displayStep_cases (P := Marks)
    case closed => exact fun _ => marks_of_ne TokenKind.noConfusion
    case code => exact fun _ => codeStep_marks _ c cs
    case nothing => exact fun _ _ => hgap
    case text => exact fun _ => marks_of_ne TokenKind.noConfusion
  | tags =>
    apply tagStep_cases (P := Marks)
    case blank => exact fun _ => hgap
    case code => exact codeStep_marks _ c cs
    case closed => exact fun _ => marks_of_ne TokenKind.noConfusion
    case tag => exact fun _ _ _ => marks_of_ne TokenKind.noConfusion

/-! ## Texts -/

/-- A lexeme in front of tokens keeps what holds after choice markers, if it is no marker itself or the
tokens after it are those of a choice. -/
theorem displays_seen {l : Lexeme} (hts : Token.Displays ts)
    (hmarker : ∀ value, l.sort = .token .choiceMarker value → Token.Shows 0 ts) :
    Token.Displays (l.seen pos ++ ts) := by
  have hcons : ∀ t : Token, (t.kind = .choiceMarker → Token.Shows 0 ts) → Token.Displays (t :: ts) := by
    intro t ht u us hsuffix hkind
    rcases List.suffix_cons_iff.mp hsuffix with heq | hsuffix
    · cases heq
      exact ht hkind
    · exact hts u us hsuffix hkind
  obtain ⟨sort, raw⟩ := l
  cases sort with
  | gap => exact hts
  | fault fault => exact hcons _ fun hkind => TokenKind.noConfusion hkind
  | token kind value =>
    rw [seen, token?, Option.toList_some, List.filter_cons]
    split
    · refine hcons _ fun hkind => hmarker value ?_
      rw [show kind = .choiceMarker from hkind]
    · exact hts

/-- The tokens of a text: what the mode says of them, and what holds after every choice marker. -/
theorem shown_tokens (mode : Mode) (cs : List Char) (pos : Position) :
    Shown mode ((tokens pos (scan mode cs)).filter fun t => !t.kind.isTrivia) ∧
      Token.Displays ((tokens pos (scan mode cs)).filter fun t => !t.kind.isTrivia) := by
  induction mode, cs using scan_induction generalizing pos with
  | nil mode =>
    rw [scan_nil]
    constructor
    · cases mode with
      | lineStart | metaValue | tags => trivial
      | code s | name s => exact fun _ _ => (Token.shows_flat rfl).mpr trivial
      | display =>
        intro u hu
        cases hu
        exact fun hkind => TokenKind.noConfusion hkind
    · intro t us hsuffix hkind
      rcases List.suffix_cons_iff.mp hsuffix with heq | hsuffix
      · cases heq
        cases hkind
      · cases List.suffix_nil.mp hsuffix
  | cons mode c cs ih =>
    obtain ⟨hshown, hdisplays⟩ := ih (pos.advance (step mode c cs).1.raw)
    rw [scan_cons, tokens, List.filter_append]
    refine ⟨step_shown hshown, displays_seen hdisplays fun value hsort => ?_⟩
    rw [step_marks mode c cs value hsort] at hshown ⊢
    exact hshown rfl rfl

end Lexeme

/-- **After every choice marker of a source the text of the choice is trimmed.** -/
theorem Lexed.displays_tokens (source : String) :
    Token.Displays ((Lexed.ofSource source).tokens.filter fun t => !t.kind.isTrivia) :=
  (Lexeme.shown_tokens .lineStart (Text.normalChars source) .start).2

end Gamebook
