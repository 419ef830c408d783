/-
# Gamebook.Proofs.Scan.Faults — invalid tokens and lexical errors

The scanner keeps two accounts of what is wrong with a source: tokens of an invalid kind among the others,
and the list of errors. They agree entry by entry (`Lexeme.forall₂_errors_tokens`), since a fault is one
lexeme and gives one entry to each.

How far a fault reaches depends on what it is. A string without its end stops before the end of its line. A
comment or a script without its end takes all that lies ahead, so nothing can follow it: there is at most one
such fault, and the end of input comes right after it (`Lexed.errors_match_tokens`).
-/
import Mathlib.Data.List.Forall2
import Gamebook.Proofs.Scan.Cover

namespace Gamebook

/-- Whether the fault lacks an end that may stand on a later line. -/
def LexicalFault.isRunaway : LexicalFault → Bool
  | unterminatedComment | unterminatedScript => true
  | _ => false

/-- The token that stands for an error: at its place and with its message. If a string lacks its end, the
token stays on its line. -/
structure LexicalError.MarkedBy (e : LexicalError) (t : Token) : Prop where
  pos : t.pos = e.pos
  kind : t.kind = .invalid e.fault.message
  line : e.fault = .unterminatedString → '\n' ∉ t.raw.toList

namespace Lexeme

/-! ## What a fault covers -/

theorem break_not_mem_stringBody (cs : List Char) : '\n' ∉ (stringBody cs).1 := by
  fun_induction stringBody cs with
  | case1 => simp
  | case2 => simp
  | case3 => simp
  | case4 => simp
  | case5 c cs hc raw value hbody ih =>
    rw [hbody] at ih
    simp [ih, Ne.symm hc]
  | case6 c cs hbreak hquote hslash raw value hbody ih =>
    rw [hbody] at ih
    simp [ih, Ne.symm hbreak]

/-- How far a fault reaches, when `ahead` lies ahead of its start. -/
def Reaches (ahead : List Char) (l : Lexeme) : Prop :=
  match l.sort with
  | .fault .unterminatedString => '\n' ∉ l.raw
  | .fault .unterminatedComment | .fault .unterminatedScript => l.raw = ahead
  | _ => True

theorem codeStep_reaches (s : CodeState) (c : Char) (cs : List Char) :
    (codeStep s c cs).1.Reaches (c :: cs) := by
  apply codeStep_cases (P := fun r => r.1.Reaches (c :: cs))
  case comment =>
    intro hc hcs
    rw [blockComment]
    split
    · trivial
    · rw [hc, hcs]
      rfl
  case script =>
    intro hc hcs
    rw [scriptBlock]
    split
    · trivial
    · rw [hc, hcs]
      rfl
  case string =>
    intro _
    have hbreak := break_not_mem_stringBody cs
    rw [stringWord]
    split
    · trivial
    · next raw hbody =>
      rw [hbody] at hbreak
      simp [Reaches, faulty, hbreak]
  case number =>
    refine fun _ => numberWord_cases (P := Reaches (c :: cs)) _ ?_ ?_ ?_ <;> intros <;> trivial
  case name =>
    refine fun _ => nameWord_cases (P := Reaches (c :: cs)) _ ?_ ?_ ?_ <;> intros <;> trivial
  case symbol =>
    intro _ _ _
    rw [symbolStep]
    split <;> trivial
  all_goals
    intros
    trivial

/-- **A fault of a step keeps to its line or takes all that lies ahead.** -/
theorem step_reaches (mode : Mode) (c : Char) (cs : List Char) : (step mode c cs).1.Reaches (c :: cs) := by
  -- Only words of code can be faulty; every other outcome of a step is a gap or a token.
  cases mode with
  | code s => exact codeStep_reaches s c cs
  | lineStart =>
    apply lineStep_cases (P := fun r => r.1.Reaches (c :: cs))
    case code => exact fun _ => codeStep_reaches _ c cs
    all_goals
      intros
      trivial
  | metaValue =>
    apply metaStep_cases (P := fun r => r.1.Reaches (c :: cs))
    all_goals
      intros
      trivial
  | name s =>
    apply nameStep_cases (P := fun r => r.1.Reaches (c :: cs))
    case code => exact fun _ => codeStep_reaches s c cs
    all_goals
      intros
      trivial
  | display =>
    apply displayStep_cases (P := fun r => r.1.Reaches (c :: cs))
    case code => exact fun _ => codeStep_reaches _ c cs
    all_goals
      intros
      trivial
  | tags =>
    apply tagStep_cases (P := fun r => r.1.Reaches (c :: cs))
    case code => exact codeStep_reaches _ c cs
    all_goals
      intros
      trivial

theorem raw_eq_of_reaches {ahead : List Char} {l : Lexeme} (h : l.Reaches ahead) {fault : LexicalFault}
    (hsort : l.sort = .fault fault) (hrun : fault.isRunaway = true) : l.raw = ahead := by
  rw [Reaches, hsort] at h
  cases fault with
  | unterminatedComment => exact h
  | unterminatedScript => exact h
  | _ => cases hrun

/-- **Nothing follows a fault that takes all that lies ahead.** -/
theorem eq_nil_of_isRunaway {mode : Mode} {cs : List Char} {before after : List Lexeme} {l : Lexeme}
    {fault : LexicalFault} (h : scan mode cs = before ++ l :: after) (hsort : l.sort = .fault fault)
    (hrun : fault.isRunaway = true) : after = [] := by
  induction mode, cs using scan_induction generalizing before with
  | nil mode =>
    rw [scan_nil] at h
    exact absurd h.symm (List.append_ne_nil_of_right_ne_nil _ (List.cons_ne_nil _ _))
  | cons mode c cs ih =>
    rw [scan_cons] at h
    cases before with
    | nil =>
      obtain ⟨rfl, rfl⟩ := List.cons.inj h
      -- The step has taken the whole text, so nothing is left to scan.
      have hraw := raw_eq_of_reaches (step_reaches mode c cs) hsort hrun
      have hnone : cs.drop ((step mode c cs).1.raw.length - 1) = [] := by
        rw [hraw, List.length_cons, Nat.add_sub_cancel, List.drop_length]
      rw [hnone, scan_nil]
    | cons first before => exact ih (List.cons.inj h).2

/-! ## Errors and their tokens -/

/-- **Errors and invalid tokens correspond,** one by one and in order. -/
theorem forall₂_errors_tokens (mode : Mode) (cs : List Char) (pos : Position) :
    List.Forall₂ LexicalError.MarkedBy (errors pos (scan mode cs))
      ((tokens pos (scan mode cs)).filter fun t => t.kind.isInvalid) := by
  induction mode, cs using scan_induction generalizing pos with
  | nil mode =>
    rw [scan_nil]
    exact .nil
  | cons mode c cs ih =>
    have hreach := step_reaches mode c cs
    have hsound := step_sound mode c cs
    rw [scan_cons, errors, tokens, List.filter_append]
    revert ih hreach hsound
    generalize step mode c cs = r
    obtain ⟨⟨sort, raw⟩, next⟩ := r
    intro ih hreach hsound
    cases sort with
    | gap => exact ih _
    | token kind value =>
      -- Only faults become invalid tokens.
      have hvalid : kind.isInvalid = false := by
        cases kind with
        | invalid message => exact hsound.elim
        | _ => rfl
      simp only [token?, error?, Option.toList_some, Option.toList_none, List.filter_cons, hvalid,
        List.filter_nil, List.nil_append]
      exact ih _
    | fault fault =>
      refine .cons ⟨rfl, rfl, ?_⟩ (ih _)
      rintro rfl
      show '\n' ∉ (String.ofList raw).toList
      rw [String.toList_ofList]
      exact hreach

/-- Every error comes from a lexeme, and the errors after it come from the lexemes after that one. -/
theorem exists_of_errors_eq_append {pos : Position} {ls : List Lexeme} {before after : List LexicalError}
    {e : LexicalError} (h : errors pos ls = before ++ e :: after) :
    ∃ ls₁ l ls₂, ls = ls₁ ++ l :: ls₂ ∧ l.sort = .fault e.fault ∧ e.pos = pos.advance (ls₁.flatMap raw) ∧
      after = errors (pos.advance ((ls₁ ++ [l]).flatMap raw)) ls₂ := by
  induction ls generalizing pos before with
  | nil => exact absurd h.symm (List.append_ne_nil_of_right_ne_nil _ (List.cons_ne_nil _ _))
  | cons l ls ih =>
    -- Further on, one lexeme more stands in front.
    have hlater : ∀ {before}, errors (pos.advance l.raw) ls = before ++ e :: after →
        ∃ ls₁ l' ls₂, l :: ls = ls₁ ++ l' :: ls₂ ∧ l'.sort = .fault e.fault ∧
          e.pos = pos.advance (ls₁.flatMap raw) ∧
          after = errors (pos.advance ((ls₁ ++ [l']).flatMap raw)) ls₂ := by
      intro before hrest
      obtain ⟨ls₁, l', ls₂, rfl, hsort, hpos, hafter⟩ := ih hrest
      refine ⟨l :: ls₁, l', ls₂, rfl, hsort, ?_, ?_⟩
      · rw [hpos, List.flatMap_cons, Position.advance_append]
      · rw [hafter, List.cons_append, List.flatMap_cons, Position.advance_append]
    rw [errors] at h
    obtain ⟨sort, chars⟩ := l
    cases sort with
    | gap => exact hlater h
    | token kind value => exact hlater h
    | fault fault =>
      cases before with
      | nil =>
        obtain ⟨rfl, hafter⟩ := List.cons.inj h
        refine ⟨[], _, ls, rfl, rfl, rfl, ?_⟩
        rw [← hafter, List.nil_append, List.flatMap_singleton]
        rfl
      | cons first before => exact hlater (List.cons.inj h).2

end Lexeme

namespace Lexed

/-- **A fault that takes all that lies ahead is the last one,** and its token the last before the end of
input. -/
theorem last_of_isRunaway {source : String} {before after : List LexicalError} {e : LexicalError}
    (h : (ofSource source).errors = before ++ e :: after) (hrun : e.fault.isRunaway = true) :
    after = [] ∧ ∃ words t last text, (ofSource source).tokens = words ++ [t, last] ∧ e.MarkedBy t ∧
      (Text.normalize source).toList = text ++ t.raw.toList ∧ t.pos = .after text := by
  obtain ⟨ls₁, l, ls₂, hls, hsort, hpos, hafter⟩ := Lexeme.exists_of_errors_eq_append h
  obtain rfl : ls₂ = [] := Lexeme.eq_nil_of_isRunaway hls hsort hrun
  refine ⟨hafter, Lexeme.placed .start ls₁, ⟨.invalid e.fault.message, none, e.pos, String.ofList l.raw⟩,
    .endAt (Position.start.advance ((ls₁ ++ [l]).flatMap Lexeme.raw)), ls₁.flatMap Lexeme.raw, ?_, ?_, ?_, ?_⟩
  · show Lexeme.tokens .start (lexemes source) = _
    rw [hls, Lexeme.tokens_eq_placed, Lexeme.placed_append, List.append_assoc, ← hpos]
    simp only [Lexeme.placed, Lexeme.token?, hsort]
    rfl
  · refine ⟨rfl, rfl, fun hstring => ?_⟩
    rw [hstring] at hrun
    cases hrun
  · have htext : (lexemes source).flatMap Lexeme.raw = Text.normalChars source :=
      Lexeme.flatMap_raw_scan _ _
    rw [hls, List.flatMap_append, List.flatMap_singleton] at htext
    rw [Text.normalize, String.toList_ofList, String.toList_ofList, htext]
  · rw [← Position.start_advance]
    exact hpos

/-- **The tokens of a source and its errors agree.** There is one end of input, in last place. The errors are
the invalid tokens in order, each at the place of its error and with its message; the token of a string without
its end holds no line break. At most one error is a comment or a script without its end; then it is the last
error, its token is the last before the end of input, and the raw text of that token is all of the source in
normal form from its place on. -/
theorem errors_match_tokens (source : String) :
    (∃ words last, (ofSource source).tokens = words ++ [last] ∧ last.kind = .endOfInput ∧
        ∀ t ∈ words, t.kind ≠ .endOfInput) ∧
      List.Forall₂ LexicalError.MarkedBy (ofSource source).errors
        ((ofSource source).tokens.filter fun t => t.kind.isInvalid) ∧
      ((ofSource source).errors.filter fun e => e.fault.isRunaway).length ≤ 1 ∧
      ∀ e ∈ (ofSource source).errors, e.fault.isRunaway = true →
        (ofSource source).errors.getLast? = some e ∧
          ∃ words t last text, (ofSource source).tokens = words ++ [t, last] ∧ e.MarkedBy t ∧
            (Text.normalize source).toList = text ++ t.raw.toList ∧ t.pos = .after text := by
  refine ⟨⟨_, _, Lexeme.tokens_eq_placed _ _, rfl, fun t ht => Lexeme.kind_ne_end_of_mem_placed ht⟩,
    Lexeme.forall₂_errors_tokens _ _ _, ?_, fun e he hrun => ?_⟩
  · cases hfilter : (ofSource source).errors.filter fun e => e.fault.isRunaway with
    | nil => exact Nat.zero_le 1
    | cons e rest =>
      obtain ⟨before, after, hsplit, -, hrun, hrest⟩ := List.filter_eq_cons_iff.mp hfilter
      rw [(last_of_isRunaway hsplit hrun).1, List.filter_nil] at hrest
      rw [← hrest]
      exact Nat.le_refl 1
  · obtain ⟨before, after, hsplit⟩ := List.append_of_mem he
    obtain ⟨rfl, htoken⟩ := last_of_isRunaway hsplit hrun
    exact ⟨by rw [hsplit, List.getLast?_concat], htoken⟩

/-- Three faults on the way, the last of them a script that never ends. -/
theorem errors_match_tokens_script :
    let source := "\uFEFF$name = \"open\r\n$gold = 99999999999999999999\n<< say\nmore"
    let lexed := ofSource source
    lexed.errors = [⟨.unterminatedString, ⟨1, 9⟩⟩, ⟨.invalidNumber "99999999999999999999", ⟨2, 9⟩⟩,
        ⟨.unterminatedScript, ⟨3, 1⟩⟩] ∧
      List.Forall₂ LexicalError.MarkedBy lexed.errors (lexed.tokens.filter fun t => t.kind.isInvalid) ∧
      ∃ words t last text, lexed.tokens = words ++ [t, last] ∧
        LexicalError.MarkedBy ⟨.unterminatedScript, ⟨3, 1⟩⟩ t ∧
        (Text.normalize source).toList = text ++ t.raw.toList ∧ t.pos = .after text := by
  intro source lexed
  have herrors : lexed.errors = [⟨.unterminatedString, ⟨1, 9⟩⟩,
      ⟨.invalidNumber "99999999999999999999", ⟨2, 9⟩⟩, ⟨.unterminatedScript, ⟨3, 1⟩⟩] := by
    decide +kernel
  obtain ⟨-, hmarked, -, hlast⟩ := errors_match_tokens source
  refine ⟨herrors, hmarked, (hlast ⟨.unterminatedScript, ⟨3, 1⟩⟩ ?_ rfl).2⟩
  show _ ∈ lexed.errors
  rw [herrors]
  simp

end Lexed

end Gamebook
