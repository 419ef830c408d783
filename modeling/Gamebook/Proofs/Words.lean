/-
# Gamebook.Proofs.Words — tokens without their places

What is read from a text does not depend on where its tokens stand, so a proof about written texts works
with *words*: tokens whose places have been forgotten. The words of a text are the words of its lexemes
(`Lexeme.words`), one step at a time (`words_step`), and a text whose words read without an incident is a
story (`Story.ofSource_of_words`).
-/
import Gamebook.Proofs.Layout
import Gamebook.Proofs.Relocation.Story
import Gamebook.Proofs.Scan

namespace Gamebook

open Gamebook.Text (isBlank)

/-- Forgets a place. -/
def Position.erase (_ : Position) : Position := .unplaced

namespace Token

/-- A word without a value. -/
def word (kind : TokenKind) (raw : List Char) : Token := ⟨kind, none, .unplaced, String.ofList raw⟩

/-- A word with a value. -/
def valued (kind : TokenKind) (value : Literal) (raw : List Char) : Token :=
  ⟨kind, some value, .unplaced, String.ofList raw⟩

/-- A word that carries a text. -/
def textual (kind : TokenKind) (text raw : List Char) : Token :=
  valued kind (.str (String.ofList text)) raw

/-- The end of a line. -/
def lineBreak : Token := .breakAt .unplaced

/-- The end of all words. -/
def final : Token := .endAt .unplaced

end Token

namespace Lexeme

/-- The token of a lexeme without its place. -/
def word? (l : Lexeme) : Option Token := l.token? .unplaced

/-- The words of a text. -/
def words (mode : Mode) (cs : List Char) : List Token := (scan mode cs).filterMap word?

@[simp] theorem words_nil (mode : Mode) : words mode [] = [] := by rw [words, scan_nil]; rfl

/-- One step: its word, and then the words of the rest. -/
theorem words_step {mode next : Mode} {c : Char} {cs rest : List Char} {l : Lexeme}
    (hstep : step mode c cs = (l, next)) (hraw : c :: cs = l.raw ++ rest) :
    words mode (c :: cs) = l.word?.toList ++ words next rest := by
  rw [words, scan_step hstep hraw, List.filterMap_cons]
  cases l.word? with
  | none => rfl
  | some t => rfl

/-- One step in a line of code. -/
theorem words_codeStep {s : CodeState} {next : Mode} {c : Char} {cs rest : List Char} {l : Lexeme}
    (hstep : codeStep s c cs = (l, next)) (hraw : c :: cs = l.raw ++ rest) :
    words (.code s) (c :: cs) = l.word?.toList ++ words next rest :=
  words_step (show step (.code s) c cs = (l, next) from hstep) hraw

/-- One step at the start of a line. -/
theorem words_lineStep {next : Mode} {c : Char} {cs rest : List Char} {l : Lexeme}
    (hstep : lineStep c cs = (l, next)) (hraw : c :: cs = l.raw ++ rest) :
    words .lineStart (c :: cs) = l.word?.toList ++ words next rest :=
  words_step (show step .lineStart c cs = (l, next) from hstep) hraw

/-! ## Blanks -/

/-- Whether blanks are passed over in a mode. -/
def Mode.skipsBlanks : Mode → Bool
  | .display => false
  | _ => true

theorem step_blank {mode : Mode} (h : mode.skipsBlanks = true) {c : Char} (hc : isBlank c = true)
    (cs : List Char) : step mode c cs = (blanks c cs, mode) := by
  cases mode with
  | lineStart => simp [step, lineStep, hc]
  | metaValue => simp [step, metaStep, hc]
  | code s => simp [step, codeStep, hc]
  | name s => simp [step, nameStep, hc]
  | display => cases h
  | tags => simp [step, tagStep, hc]

theorem words_dropWhile_isBlank {mode : Mode} (h : mode.skipsBlanks = true) (cs : List Char) :
    words mode (cs.dropWhile isBlank) = words mode cs := by
  cases cs with
  | nil => rfl
  | cons c cs =>
    by_cases hc : isBlank c = true
    · have hraw : c :: cs = (blanks c cs).raw ++ cs.dropWhile isBlank := by
        rw [blanks, gap, List.cons_append, List.takeWhile_append_dropWhile]
      rw [List.dropWhile_cons_of_pos hc, words_step (step_blank h hc cs) hraw]
      rfl
    · rw [List.dropWhile_cons_of_neg hc]

/-- A blank between words is not seen. -/
theorem words_blank {mode : Mode} (h : mode.skipsBlanks = true) (cs : List Char) :
    words mode (' ' :: cs) = words mode cs := by
  rw [← words_dropWhile_isBlank h, List.dropWhile_cons_of_pos (by decide),
    words_dropWhile_isBlank h]

/-! ## Texts -/

theorem map_erase_tokens (pos : Position) (ls : List Lexeme) :
    (tokens pos ls).map (Token.relocate .erase) = ls.filterMap word? ++ [.final] := by
  induction ls generalizing pos with
  | nil => rfl
  | cons l ls ih =>
    have hl : (l.token? pos).toList.map (Token.relocate .erase) = l.word?.toList := by
      obtain ⟨sort, raw⟩ := l
      cases sort <;> rfl
    rw [tokens, List.map_append, hl, ih, List.filterMap_cons]
    cases l.word? with
    | none => rfl
    | some t => rfl

/-- Without an invalid word there is no error. -/
theorem errors_eq_nil_of_words {ls : List Lexeme}
    (h : ∀ t ∈ ls.filterMap word?, t.kind.isInvalid = false) (pos : Position) :
    errors pos ls = [] := by
  induction ls generalizing pos with
  | nil => rfl
  | cons l ls ih =>
    have htail : ∀ t ∈ ls.filterMap word?, t.kind.isInvalid = false := by
      intro t ht
      obtain ⟨l', hl', hword⟩ := List.mem_filterMap.mp ht
      exact h t (List.mem_filterMap.mpr ⟨l', List.mem_cons_of_mem _ hl', hword⟩)
    rw [errors, ih htail]
    obtain ⟨sort, raw⟩ := l
    cases sort with
    | gap => rfl
    | token kind value => rfl
    | fault fault =>
      have := h _ (List.mem_filterMap.mpr ⟨⟨.fault fault, raw⟩, List.mem_cons_self, rfl⟩)
      cases this

end Lexeme

/-- A text whose words are valid and read without an incident is a story, which its words tell up to
places. -/
theorem Story.ofSource_of_words {source : String} {ws : List Token}
    (hwords : Lexeme.words .lineStart (Text.normalChars source) = ws)
    (hvalid : ∀ t ∈ ws, t.kind.isInvalid = false)
    (hread : (Story.ofTokens (ws ++ [.final])).incidents = []) :
    ∃ s, Story.ofSource source = .ok s ∧
      s.relocate .erase = (Story.ofTokens (ws ++ [.final])).story := by
  have herrors : (Lexed.ofSource source).errors = [] := by
    rw [← hwords] at hvalid
    exact Lexeme.errors_eq_nil_of_words hvalid .start
  have htokens : (Lexed.ofSource source).tokens.map (Token.relocate .erase) = ws ++ [.final] := by
    rw [← hwords]
    exact Lexeme.map_erase_tokens .start (Lexed.lexemes source)
  -- Without any token reading would end at a default place, which does not move with the tokens.
  have hend : ∃ t ∈ (Lexed.ofSource source).tokens, t.kind.isTrivia = false := by
    have hmem : Token.final ∈ (Lexed.ofSource source).tokens.map (Token.relocate .erase) := by
      rw [htokens]
      exact List.mem_append_right _ (List.mem_singleton_self _)
    obtain ⟨t, ht, hfinal⟩ := List.mem_map.mp hmem
    have hkind : t.kind = .endOfInput := congrArg Token.kind hfinal
    exact ⟨t, ht, by rw [hkind]; rfl⟩
  have hstory := Story.ofTokens_relocate_story .erase hend
  have hincidents := Story.ofTokens_relocate_incidents .erase hend
  rw [htokens, hread, eq_comm, List.map_eq_nil_iff] at hincidents
  refine ⟨(Story.ofTokens (Lexed.ofSource source).tokens).story, ?_, ?_⟩
  · have hnone : (Story.ofTokens (Lexed.ofSource source).tokens).errors = [] := by
      rw [Reading.errors, hincidents]
      rfl
    simp only [Story.ofSource, herrors, hnone]
  · rw [← hstory, htokens]

end Gamebook
