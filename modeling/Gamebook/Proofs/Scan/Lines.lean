/-
# Gamebook.Proofs.Scan.Lines — the logical lines of a source

A logical line runs from one line break to the next, and `Token.lines` cuts tokens into them. Two facts about
the tokens of a source make a place stand for a line. Places increase from token to token, so no two lines
share one (`Lexed.eq_of_mem_lines`). And a passage marker is the first token of its line, since it is only
read at the start of a line and whatever else starts one takes all of it (`Lexed.isChain_opens`).
-/
import Mathlib.Data.List.Pairwise
import Gamebook.Proofs.Scan.Cover
import Gamebook.Proofs.Scan.Order

namespace Gamebook

open Gamebook.Lexeme

/-! ## Lines -/

namespace Token

/-- The logical lines of tokens, each with the line break that ends it. -/
def lines : List Token → List (List Token)
  | [] => []
  | t :: ts =>
    if t.kind = .newline then [t] :: lines ts
    else
      match lines ts with
      | [] => [[t]]
      | l :: ls => (t :: l) :: ls

theorem lines_newline {t : Token} (h : t.kind = .newline) (ts : List Token) :
    lines (t :: ts) = [t] :: lines ts := by
  rw [lines, if_pos h]

theorem lines_word {t : Token} (h : t.kind ≠ .newline) {ts l : List Token} {ls : List (List Token)}
    (hts : lines ts = l :: ls) : lines (t :: ts) = (t :: l) :: ls := by
  rw [lines, if_neg h, hts]

/-- Lines lose nothing. -/
theorem flatten_lines (ts : List Token) : (lines ts).flatten = ts := by
  induction ts with
  | nil => rfl
  | cons t ts ih =>
    rw [lines]
    split
    · rw [List.flatten_cons, ih]
      rfl
    · cases hts : lines ts with
      | nil =>
        rw [hts] at ih
        rw [← ih]
        rfl
      | cons l ls =>
        rw [hts] at ih
        rw [← ih]
        rfl

/-- Tokens that share no place. -/
def Apart (l l' : List Token) : Prop := ∀ t ∈ l, ∀ u ∈ l', t.pos ≠ u.pos

instance : Std.Symm Apart := ⟨fun _ _ h t ht u hu => (h u hu t ht).symm⟩

end Token

/-! ## Places increase -/

namespace Position

/-- The order of reading: line by line, and by columns in a line. -/
def Before (p q : Position) : Prop := p.line < q.line ∨ p.line = q.line ∧ p.column < q.column

theorem Before.trans {p q r : Position} (hpq : p.Before q) (hqr : q.Before r) : p.Before r := by
  simp only [Before] at *
  omega

theorem Before.ne {p q : Position} (h : p.Before q) : p ≠ q := by
  rintro rfl
  simp only [Before] at h
  omega

theorem before_step (p : Position) (c : Char) : p.Before (p.step c) := by
  rw [step]
  split
  · exact .inl (Nat.lt_succ_self p.line)
  · exact .inr ⟨rfl, Nat.lt_succ_self p.column⟩

theorem before_advance (p : Position) {cs : List Char} (h : cs ≠ []) : p.Before (p.advance cs) := by
  induction cs generalizing p with
  | nil => exact absurd rfl h
  | cons c cs ih =>
    rw [advance_cons]
    cases cs with
    | nil => exact p.before_step c
    | cons d cs => exact (p.before_step c).trans (ih _ (List.cons_ne_nil d cs))

end Position

namespace Lexeme

/-- The tokens of lexemes that cover at least a character each stand one after the other, from the start on. -/
theorem pairwise_before_tokens {ls : List Lexeme} (hls : ∀ l ∈ ls, l.raw ≠ []) (pos : Position) :
    (∀ t ∈ tokens pos ls, t.pos = pos ∨ pos.Before t.pos) ∧
      (tokens pos ls).Pairwise fun t u => t.pos.Before u.pos := by
  induction ls generalizing pos with
  | nil => exact ⟨List.forall_mem_singleton.mpr (.inl rfl), List.pairwise_singleton _ _⟩
  | cons l ls ih =>
    rw [List.forall_mem_cons] at hls
    have hnext : pos.Before (pos.advance l.raw) := pos.before_advance hls.1
    obtain ⟨hfrom, hpairs⟩ := ih hls.2 (pos.advance l.raw)
    have hlater : ∀ t ∈ tokens (pos.advance l.raw) ls, pos.Before t.pos := by
      intro t ht
      rcases hfrom t ht with heq | hbefore
      · rwa [heq]
      · exact hnext.trans hbefore
    rw [tokens]
    rcases l.token?_cases pos with ⟨-, hnone⟩ | ⟨t, ht, hpos, -⟩
    · rw [hnone]
      exact ⟨fun t ht => .inr (hlater t ht), hpairs⟩
    · rw [ht, Option.toList_some, List.singleton_append, List.forall_mem_cons, List.pairwise_cons, hpos]
      exact ⟨⟨.inl rfl, fun t ht => .inr (hlater t ht)⟩, hlater, hpairs⟩

/-! ## Passage markers open lines -/

/-- What a mode says about the kind of the last token: at the start of a line it ended the line before, or
nothing but the end of its line lies ahead. -/
def Fresh (last : TokenKind) (ahead : List Char) (mode : Mode) : Prop :=
  mode = .lineStart → last = .newline ∨ ∀ c ∈ ahead.head?, c = '\n'

/-- The kind of the last token after a lexeme. -/
def lastKind (last : TokenKind) (l : Lexeme) : TokenKind :=
  match l.sort with
  | .gap => last
  | .token kind _ => kind
  | .fault fault => .invalid fault.message

/-- A lexeme that is a passage marker follows the end of a line, and the scanner goes on knowing where lines
start. -/
def Opens (last : TokenKind) (ahead : List Char) (r : Lexeme × Mode) : Prop :=
  (∀ value, r.1.sort = .token .passageMarker value → last = .newline) ∧ Fresh (r.1.lastKind last) ahead r.2

/-- A step that stays on its line or ends it with a line break. -/
def Inside (r : Lexeme × Mode) : Prop :=
  (∀ value, r.1.sort ≠ .token .passageMarker value) ∧ (r.2 = .lineStart → r.1 = lineFeed)

section

variable {last : TokenKind} {ahead : List Char}

theorem Inside.opens {r : Lexeme × Mode} (h : Inside r) : Opens last ahead r := by
  refine ⟨fun value hsort => absurd hsort (h.1 value), fun hnext => .inl ?_⟩
  rw [h.2 hnext]
  rfl

theorem inside_code {l : Lexeme} {s : CodeState} (h : ∀ value, l.sort ≠ .token .passageMarker value) :
    Inside (l, .code s) := ⟨h, Mode.noConfusion⟩

theorem codeStep_inside (s : CodeState) (c : Char) (cs : List Char) : Inside (codeStep s c cs) := by
  apply codeStep_cases (P := Inside)
  case ended => exact fun _ _ => ⟨fun _ => by rintro ⟨⟩, fun _ => rfl⟩
  case arrow => exact fun _ _ => ⟨fun _ => by rintro ⟨⟩, Mode.noConfusion⟩
  case display => exact fun _ _ _ => ⟨fun _ => by rintro ⟨⟩, Mode.noConfusion⟩
  case tags => exact fun _ _ _ => ⟨fun _ => by rintro ⟨⟩, Mode.noConfusion⟩
  case blank => exact fun _ => inside_code fun _ => by rintro ⟨⟩
  case folded => exact fun _ _ _ => inside_code fun _ => by rintro ⟨⟩
  case lineComment => exact fun _ _ => inside_code fun _ => by rintro ⟨⟩
  case comment =>
    refine fun _ _ => inside_code fun _ => ?_
    rw [blockComment]
    split <;> rintro ⟨⟩
  case script =>
    refine fun _ _ => inside_code fun _ => ?_
    rw [scriptBlock]
    split <;> rintro ⟨⟩
  case string =>
    refine fun _ => inside_code fun _ => ?_
    rw [stringWord]
    split <;> rintro ⟨⟩
  case number =>
    refine fun _ => inside_code fun value => ?_
    apply numberWord_cases (P := fun l => l.sort ≠ .token .passageMarker value)
    all_goals
      intros
      rintro ⟨⟩
  case name =>
    refine fun _ => inside_code fun value => ?_
    refine nameWord_cases (P := fun l => l.sort ≠ .token .passageMarker value) _ (fun _ _ => by rintro ⟨⟩)
      (fun kind raw hkind => ?_) fun _ => by rintro ⟨⟩
    rcases hkind with rfl | rfl | rfl <;> rintro ⟨⟩
  case symbol =>
    intro _ _ _
    have hkinds : ∀ t ∈ symbols, t.2 ≠ .passageMarker := by decide
    rw [symbolStep]
    split
    · next spelling kind hfind =>
      refine inside_code fun value hsort => hkinds _ (List.mem_of_find?_eq_some hfind) ?_
      injection hsort
    · exact inside_code fun _ => by rintro ⟨⟩

/-- What takes the rest of a line leaves its end ahead. -/
theorem fresh_restOfLine (c : Char) (cs : List Char) (mode : Mode) :
    Fresh last (cs.drop ((restOfLine c cs).length - 1)) mode :=
  fun _ => .inr fun _ hd => head?_drop_restOfLine hd

theorem lineStep_opens {c : Char} {cs : List Char} (h : c ≠ '\n' → last = .newline) :
    Opens last (cs.drop ((lineStep c cs).1.raw.length - 1)) (lineStep c cs) := by
  apply lineStep_cases (P := fun r => Opens last (cs.drop (r.1.raw.length - 1)) r)
  case blank =>
    refine fun hblank => ⟨nofun, fun _ => .inl (h ?_)⟩
    rintro rfl
    cases hblank
  case ended => exact fun _ => Inside.opens ⟨nofun, fun _ => rfl⟩
  case passage =>
    rintro rfl _
    exact ⟨fun _ _ => h (by decide), nofun⟩
  case choice => exact fun _ => ⟨nofun, nofun⟩
  case code => exact fun _ => (codeStep_inside _ c cs).opens
  case key => exact fun _ => ⟨nofun, nofun⟩
  case quoted => exact fun _ => ⟨nofun, fresh_restOfLine '\\' cs .lineStart⟩
  case prose => exact fun _ _ => ⟨nofun, fresh_restOfLine c cs .lineStart⟩

theorem metaStep_opens (c : Char) (cs : List Char) :
    Opens last (cs.drop ((metaStep c cs).1.raw.length - 1)) (metaStep c cs) := by
  apply metaStep_cases (P := fun r => Opens last (cs.drop (r.1.raw.length - 1)) r)
  case blank => exact fun _ => ⟨nofun, nofun⟩
  case ended => exact fun _ => Inside.opens ⟨nofun, fun _ => rfl⟩
  case nothing => exact fun _ _ _ => ⟨nofun, fresh_restOfLine c cs .lineStart⟩
  case value => exact fun _ _ => ⟨nofun, fresh_restOfLine c cs .lineStart⟩

/-- **A passage marker is only read after the end of a line.** -/
theorem step_opens {mode : Mode} {c : Char} {cs : List Char} (h : Fresh last (c :: cs) mode) :
    Opens last (cs.drop ((step mode c cs).1.raw.length - 1)) (step mode c cs) := by
  cases mode with
  | lineStart => exact lineStep_opens fun hc => (h rfl).resolve_right fun hbreak => hc (hbreak c rfl)
  | metaValue => exact metaStep_opens c cs
  | code s => exact (codeStep_inside s c cs).opens
  | name s =>
    apply Inside.opens
    apply nameStep_cases (P := Inside)
    case blank => exact fun _ => ⟨nofun, nofun⟩
    case code => exact fun _ => codeStep_inside s c cs
    case name => exact fun _ _ => inside_code nofun
  | display =>
    apply Inside.opens
    apply displayStep_cases (P := Inside)
    case closed => exact fun _ => inside_code nofun
    case code => exact fun _ => codeStep_inside _ c cs
    case nothing => exact fun _ _ => ⟨nofun, nofun⟩
    case text => exact fun _ => ⟨nofun, nofun⟩
  | tags =>
    apply Inside.opens
    apply tagStep_cases (P := Inside)
    case blank => exact fun _ => ⟨nofun, nofun⟩
    case code => exact codeStep_inside _ c cs
    case closed => exact fun _ => inside_code nofun
    case tag => exact fun _ _ _ => ⟨nofun, nofun⟩

end

/-- The tokens of a text: a passage marker follows the end of a line. -/
theorem isChain_opens {mode : Mode} {cs : List Char} (pos : Position) {before : Token}
    (h : Fresh before.kind cs mode) :
    (before :: tokens pos (scan mode cs)).IsChain fun t u => u.kind = .passageMarker → t.kind = .newline := by
  induction mode, cs using scan_induction generalizing pos before with
  | nil mode =>
    rw [scan_nil]
    exact List.isChain_cons_cons.mpr ⟨TokenKind.noConfusion, List.isChain_singleton _⟩
  | cons mode c cs ih =>
    have hopens := step_opens h
    rw [scan_cons, tokens]
    revert ih hopens
    generalize step mode c cs = r
    obtain ⟨⟨sort, raw⟩, next⟩ := r
    rintro ih ⟨hmarker, hfresh⟩
    cases sort with
    | gap => exact ih _ hfresh
    | token kind value =>
      refine List.isChain_cons_cons.mpr ⟨fun hkind => hmarker value ?_, ih _ hfresh⟩
      rw [show kind = .passageMarker from hkind]
    | fault fault => exact List.isChain_cons_cons.mpr ⟨TokenKind.noConfusion, ih _ hfresh⟩

end Lexeme

/-! ## Sources -/

namespace Lexed

/-- The tokens of a source are words and the end of input. -/
theorem exists_tokens_eq_append (source : String) :
    ∃ words e, (Lexed.ofSource source).tokens = words ++ [e] ∧ e.kind = .endOfInput ∧
      ∀ t ∈ words, t.kind ≠ .endOfInput :=
  ⟨_, _, Lexeme.tokens_eq_placed .start (lexemes source), rfl, fun _ => Lexeme.kind_ne_end_of_mem_placed⟩

/-- **Places increase** from token to token. -/
theorem pairwise_before (source : String) :
    (Lexed.ofSource source).tokens.Pairwise fun t u => t.pos.Before u.pos :=
  (Lexeme.pairwise_before_tokens (Lexeme.forall_mem_scan Lexeme.step_raw_ne_nil _ _) .start).2

/-- **Where a token stands tells its line:** two lines of a source that share a place are the same. -/
theorem eq_of_mem_lines {source : String} {line line' : List Token}
    (hline : line ∈ Token.lines (Lexed.ofSource source).tokens)
    (hline' : line' ∈ Token.lines (Lexed.ofSource source).tokens) {t u : Token} (ht : t ∈ line) (hu : u ∈ line')
    (hpos : t.pos = u.pos) : line = line' := by
  have hbefore := pairwise_before source
  rw [← Token.flatten_lines (Lexed.ofSource source).tokens, List.pairwise_flatten] at hbefore
  have hapart : (Token.lines (Lexed.ofSource source).tokens).Pairwise Token.Apart :=
    hbefore.2.imp fun h t ht u hu => (h t ht u hu).ne
  by_contra hne
  exact hapart.forall hline hline' hne t ht u hu hpos

/-- **A passage marker is the first token of its line.** -/
theorem isChain_opens (source : String) :
    (Lexed.ofSource source).tokens.IsChain fun t u => u.kind = .passageMarker → t.kind = .newline :=
  (@Lexeme.isChain_opens .lineStart _ .start (.breakAt .start) fun _ => .inl rfl).tail

end Lexed

end Gamebook
