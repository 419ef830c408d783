/-
# Gamebook.Proofs.Scan.Seam — whole lines are scanned apart from what follows them

A break inside brackets is no word, unless a passage follows it; so a text that ends in a break can in
general not be scanned without looking at what follows. But where the words of a text are the same whatever
follows it, its last break is a word, no bracket is open there and no comment or script runs on. Then the
lexemes of the text and of what follows it are found apart (`stands_of_words`), and the tokens of what follows
are those it would have by itself, at the place where the text ends (`Stands.tokensAt_append`).
-/
import Gamebook.Proofs.Composition
import Gamebook.Proofs.Words

namespace Gamebook.Lexeme

open Gamebook.Text (isBlank trimEnd trim)

/-! ## What runs away does so before a break too -/

section

variable {cs : List Char} {c : Char}

theorem splitAtPair_append_break {a b : Char} (hb : b ≠ '\n') (h : splitAtPair a b cs = none) :
    splitAtPair a b (cs ++ ['\n']) = none := by
  induction cs with
  | nil => rfl
  | cons c cs ih =>
    cases cs with
    | nil => simp [splitAtPair, hb.symm]
    | cons d cs =>
      rw [splitAtPair] at h
      rw [List.cons_append, List.cons_append, splitAtPair]
      by_cases hpair : (c = a && d = b) = true
      · rw [if_pos hpair] at h
        cases h
      · rw [if_neg hpair, Option.map_eq_none_iff] at h
        rw [if_neg hpair, Option.map_eq_none_iff]
        exact ih h

theorem blockComment_runaway_append_break (h : (blockComment cs).isRunaway = true) :
    (blockComment (cs ++ ['\n'])).isRunaway = true := by
  rw [blockComment] at *
  cases hs : splitAtPair '*' '/' cs with
  | none => rw [splitAtPair_append_break (by decide) hs]; rfl
  | some r => rw [hs] at h; cases h

theorem scriptBlock_runaway_append_break (h : (scriptBlock cs).isRunaway = true) :
    (scriptBlock (cs ++ ['\n'])).isRunaway = true := by
  rw [scriptBlock] at *
  cases hs : splitAtPair '>' '>' cs with
  | none => rw [splitAtPair_append_break (by decide) hs]; rfl
  | some r => rw [hs] at h; cases h

theorem codeStep_runaway_append_break {s : CodeState} (h : (codeStep s c cs).1.isRunaway = true) :
    (codeStep s c (cs ++ ['\n'])).1.isRunaway = true := by
  revert h
  refine codeStep_cases (P := fun r => r.1.isRunaway = true → (codeStep s c (cs ++ ['\n'])).1.isRunaway = true)
    s c cs ?blank ?folded ?ended ?lineComment ?comment ?script ?arrow ?string ?number ?name ?display ?tags
    ?symbol
  case comment =>
    rintro rfl hcs h
    rw [hcs]
    exact blockComment_runaway_append_break h
  case script =>
    rintro rfl hcs h
    rw [hcs]
    exact scriptBlock_runaway_append_break h
  case string =>
    intro _ h
    simp only [stringWord] at h
    split at h <;> cases h
  case number =>
    refine fun _ => numberWord_cases (P := fun l => l.isRunaway = true → _) _ ?_ ?_ ?_ <;> intros <;>
      contradiction
  case name =>
    refine fun _ => nameWord_cases (P := fun l => l.isRunaway = true → _) _ ?_ ?_ ?_ <;> intros <;>
      contradiction
  case symbol =>
    intro _ _ _ h
    simp only [symbolStep] at h
    split at h <;> cases h
  all_goals
    intros
    contradiction

theorem isRunaway_codeStep_break (s : CodeState) : (codeStep s '\n' cs).1.isRunaway = false := by
  rw [codeStep_break]
  split <;> rfl

theorem lineStep_runaway_append_break (h : (lineStep c cs).1.isRunaway = true) :
    (lineStep c (cs ++ ['\n'])).1.isRunaway = true := by
  by_cases hopens : opensCode c cs = true
  · rw [lineStep_of_opensCode hopens] at h
    rw [lineStep_of_opensCode ((opensCode_append_break cs [] c).trans hopens)]
    exact codeStep_runaway_append_break h
  · simp only [lineStep, Bool.eq_false_iff.mpr hopens, Bool.false_eq_true, if_false] at h
    split_ifs at h <;> cases h

/-- A step whose lexeme runs away does so too if the text ends in a break. -/
theorem step_runaway_append_break {mode : Mode} (h : (step mode c cs).1.isRunaway = true) :
    (step mode c (cs ++ ['\n'])).1.isRunaway = true := by
  cases mode with
  | lineStart => exact lineStep_runaway_append_break h
  | code s => exact codeStep_runaway_append_break h
  | metaValue =>
    revert h
    refine metaStep_cases (P := fun r => r.1.isRunaway = true → _) c cs ?_ ?_ ?_ ?_ <;> intros <;> contradiction
  | name s =>
    have hname : passageName (c :: (cs ++ ['\n'])) = passageName (c :: cs) :=
      passageName_append_break (c :: cs) []
    simp only [step, nameStep] at h ⊢
    by_cases hblank : isBlank c = true
    · rw [if_pos hblank] at h
      cases h
    · rw [if_neg hblank] at h
      rw [if_neg hblank, hname]
      cases hp : passageName (c :: cs) with
      | nil =>
        rw [hp] at h
        exact codeStep_runaway_append_break h
      | cons d ds =>
        rw [hp] at h
        cases h
  | display =>
    revert h
    refine displayStep_cases
      (P := fun r => r.1.isRunaway = true → (step .display c (cs ++ ['\n'])).1.isRunaway = true) c cs
      ?_ ?_ ?_ ?_
    · intros
      contradiction
    · rintro rfl h
      rw [isRunaway_codeStep_break] at h
      cases h
    · intros
      contradiction
    · intros
      contradiction
  | tags =>
    simp only [step, tagStep] at h
    split_ifs at h with hblank hbreak hclose
    · cases h
    · rw [hbreak, isRunaway_codeStep_break] at h
      cases h
    · cases h
    · cases h

/-- No lexeme runs away that would not run away in the text with a break at its end. -/
theorem isRunaway_eq_false_of_append_break (mode : Mode) (cs : List Char)
    (h : ∀ l ∈ scan mode (cs ++ ['\n']), l.isRunaway = false) : ∀ l ∈ scan mode cs, l.isRunaway = false := by
  induction mode, cs using scan_induction with
  | nil mode => simp
  | cons mode c cs ih =>
    have hlen := length_step_raw_le mode c cs
    rw [List.cons_append, scan_cons, List.forall_mem_cons] at h
    have hstep : (step mode c cs).1.isRunaway = false := by
      rw [← Bool.not_eq_true]
      intro hrunaway
      rw [step_runaway_append_break hrunaway] at h
      cases h.1
    rw [step_append_break cs [] mode c hstep, List.drop_append_of_le_length (by omega)] at h
    rw [scan_cons, List.forall_mem_cons]
    exact ⟨hstep, ih h.2⟩

end

/-! ## Texts of whole lines -/

/-- A break that is a word at the end of a text is one before any text: no bracket is open there. -/
theorem step_break_of_word {mode : Mode} (h : (step mode '\n' []).1.word? ≠ none) (rest : List Char) :
    step mode '\n' rest = (lineFeed, .lineStart) := by
  have hcode : ∀ s : CodeState, (codeStep s '\n' []).1.word? ≠ none →
      codeStep s '\n' rest = (lineFeed, .lineStart) := by
    intro s hs
    have hdepth : s.depth = 0 := by
      by_contra hdepth
      refine hs ?_
      have hopen : (0 < s.depth && !opensPassage []) = true := by
        rw [decide_eq_true (Nat.pos_of_ne_zero hdepth)]
        rfl
      rw [codeStep_break, if_pos hopen]
      rfl
    rw [codeStep_break, hdepth]
    rfl
  cases mode with
  | lineStart => rfl
  | metaValue => rfl
  | code s => exact hcode s h
  | name s => exact hcode s h
  | display =>
    have hempty : displayText ('\n' :: rest) = ([], []) := by simp [displayText]
    rw [step, displayStep, if_neg (by decide), hempty]
    exact hcode _ h
  | tags =>
    rw [step, tagStep, if_neg (by decide), if_pos rfl] at h ⊢
    exact hcode _ h

/-- Nothing, or a text that ends in a break. -/
def EndsLine (cs : List Char) : Prop :=
  cs = [] ∨ ∃ ds, cs = ds ++ ['\n']

theorem EndsLine.append {cs ds : List Char} (hcs : EndsLine cs) (hds : EndsLine ds) : EndsLine (cs ++ ds) := by
  rcases hds with rfl | ⟨ds, rfl⟩
  · rwa [List.append_nil]
  · exact .inr ⟨cs ++ ds, (List.append_assoc cs ds _).symm⟩

/-- A text of whole lines whose words are `ws`: what follows it is scanned as if it stood alone. -/
structure Stands (cs : List Char) (ws : List Token) : Prop where
  words_eq : words .lineStart cs = ws
  scan_append : ∀ rest, scan .lineStart (cs ++ rest) = scan .lineStart cs ++ scan .lineStart rest

/-- Lines whose words do not depend on what follows them stand by themselves. -/
theorem stands_of_words {cs : List Char} {ws : List Token} (hcs : EndsLine cs)
    (hvalid : ∀ t ∈ ws, t.kind.isInvalid = false)
    (h : ∀ rest, words .lineStart (cs ++ rest) = ws ++ words .lineStart rest) : Stands cs ws := by
  have halone : words .lineStart cs = ws := by
    have hnil := h []
    rwa [List.append_nil, words_nil, List.append_nil] at hnil
  refine ⟨halone, fun rest => ?_⟩
  rcases hcs with rfl | ⟨ds, rfl⟩
  · rw [scan_nil, List.nil_append, List.nil_append]
  have hclosed : ∀ l ∈ scan .lineStart ds, l.isRunaway = false := by
    rw [← halone] at hvalid
    have herrors := errors_eq_nil_of_words hvalid .start
    have hfaults : ∀ e ∈ errors .start (scan .lineStart (ds ++ ['\n'])),
        e.fault ≠ .unterminatedComment ∧ e.fault ≠ .unterminatedScript := by
      simp [herrors]
    exact isRunaway_eq_false_of_append_break .lineStart ds (isRunaway_eq_false_of_errors hfaults)
  obtain ⟨next, hnext⟩ := exists_scan_append_break ds .lineStart hclosed
  -- Before a passage the break is a word, whatever is open: so the break is the last of the words.
  have hpassage : ws = words .lineStart ds ++ [.lineBreak] := by
    have hscan := scan_append_break ds [':', ':'] .lineStart hclosed (by decide)
    have hwords := h [':', ':']
    rw [List.append_assoc, List.singleton_append, words, hscan, List.filterMap_append] at hwords
    refine List.append_cancel_right (hwords.symm.trans ?_)
    rw [List.append_assoc]
    rfl
  have hbreak : ∀ x, scan .lineStart (ds ++ '\n' :: x) = scan .lineStart ds ++ lineFeed :: scan .lineStart x := by
    intro x
    have hstep : step next '\n' x = (lineFeed, .lineStart) := by
      refine step_break_of_word (fun hnone => ?_) x
      have hlast : words .lineStart (ds ++ ['\n']) = words .lineStart ds := by
        rw [words, hnext [], scan_cons, List.drop_nil, scan_nil, List.filterMap_append, List.filterMap_cons, hnone,
          List.filterMap_nil, List.append_nil, words]
      rw [halone, hpassage] at hlast
      simp at hlast
    rw [hnext x, scan_cons, hstep]
    rfl
  rw [List.append_assoc, List.singleton_append, hbreak rest, hbreak [], scan_nil, List.append_assoc,
    List.singleton_append]

/-! ## Tokens in their places -/

/-- The tokens of a text that starts a line at `pos`. -/
def tokensAt (pos : Position) (cs : List Char) : List Token := placed pos (scan .lineStart cs)

theorem map_erase_tokensAt (pos : Position) (cs : List Char) :
    (tokensAt pos cs).map (Token.relocate .erase) = words .lineStart cs := by
  have htokens := map_erase_tokens pos (scan .lineStart cs)
  rw [tokens_eq_placed, List.map_append] at htokens
  exact List.append_cancel_right htokens

theorem Stands.tokensAt_append {cs : List Char} {ws : List Token} (h : Stands cs ws) (pos : Position)
    (rest : List Char) : tokensAt pos (cs ++ rest) = tokensAt pos cs ++ tokensAt (pos.advance cs) rest := by
  rw [tokensAt, h.scan_append, placed_append, flatMap_raw_scan]
  rfl

theorem Stands.map_erase_tokensAt {cs : List Char} {ws : List Token} (h : Stands cs ws) (pos : Position) :
    (tokensAt pos cs).map (Token.relocate .erase) = ws :=
  (Lexeme.map_erase_tokensAt pos cs).trans h.words_eq

end Gamebook.Lexeme
