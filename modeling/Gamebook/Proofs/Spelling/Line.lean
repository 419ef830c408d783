/-
# Gamebook.Proofs.Spelling.Line — the words of a written line

Every line of a canonical text is dispatched by its first characters to the rule that wrote it, and cut
into the words it is meant to hold. `Spells` says so of one line, whatever lines follow; there is one
lemma for each kind of line. The classes of text that names, tags, values and scripts have to belong to
are exactly what these lemmas need.
-/
import Gamebook.Story.Render
import Gamebook.Proofs.Scan.Break
import Gamebook.Proofs.Spelling.Expr
import Mathlib.Data.List.Infix

namespace Gamebook

open Gamebook.Lexeme
open Gamebook.Text (isBlank isSpace trimEnd trim trimEnd_subset trim_subset)

/-! ## What can be written -/

namespace Lexeme

/-- Whether a text is a passage name. -/
def isPassageName (cs : List Char) : Bool :=
  !cs.isEmpty && cs.all (fun c => c ≠ '\n' && c ≠ '\r' && c ≠ '[' && c ≠ '{') &&
    !decide (['/', '/'] <:+: cs) && !decide (['/', '*'] <:+: cs) &&
    cs.head?.all (!isBlank ·) && cs.getLast?.all (!isBlank ·)

/-- Whether a text is a tag. -/
def isTag (cs : List Char) : Bool :=
  !cs.isEmpty && cs.all (fun c => !isBlank c && c ≠ ']' && c ≠ '\n' && c ≠ '\r')

/-- Whether a text is a metadata key. -/
def isKey (cs : List Char) : Bool := !cs.isEmpty && cs.all isKeyChar

/-- Whether a text is the value of a metadata key. -/
def isEntryValue (cs : List Char) : Bool :=
  cs.all (fun c => c ≠ '\n' && c ≠ '\r') && cs.head?.all (!isBlank ·) && cs.getLast?.all (!isSpace ·)

/-- Whether a text can stand in a script block. -/
def isScript (cs : List Char) : Bool :=
  !cs.contains '\r' && !decide (['>', '>'] <:+: cs) && cs.getLast? ≠ some '>'

theorem isPassageName_iff {cs : List Char} :
    isPassageName cs = true ↔ cs ≠ [] ∧ (∀ c ∈ cs, c ≠ '\n' ∧ c ≠ '\r' ∧ c ≠ '[' ∧ c ≠ '{') ∧
      ¬ ['/', '/'] <:+: cs ∧ ¬ ['/', '*'] <:+: cs ∧ (∀ c ∈ cs.head?, isBlank c = false) ∧
      ∀ c ∈ cs.getLast?, isBlank c = false := by
  simp only [isPassageName, Bool.and_eq_true, Bool.not_eq_true', List.isEmpty_eq_false_iff,
    List.all_eq_true, decide_eq_true_eq, decide_eq_false_iff_not, Option.all_eq_true, Option.mem_def,
    and_assoc]

theorem isTag_iff {cs : List Char} :
    isTag cs = true ↔ cs ≠ [] ∧ ∀ c ∈ cs, isBlank c = false ∧ c ≠ ']' ∧ c ≠ '\n' ∧ c ≠ '\r' := by
  simp only [isTag, Bool.and_eq_true, Bool.not_eq_true', List.isEmpty_eq_false_iff, List.all_eq_true,
    decide_eq_true_eq, and_assoc]

theorem isKey_iff {cs : List Char} : isKey cs = true ↔ cs ≠ [] ∧ ∀ c ∈ cs, isKeyChar c = true := by
  simp only [isKey, Bool.and_eq_true, Bool.not_eq_true', List.isEmpty_eq_false_iff, List.all_eq_true]

theorem isEntryValue_iff {cs : List Char} :
    isEntryValue cs = true ↔ (∀ c ∈ cs, c ≠ '\n' ∧ c ≠ '\r') ∧ (∀ c ∈ cs.head?, isBlank c = false) ∧
      ∀ c ∈ cs.getLast?, isSpace c = false := by
  simp only [isEntryValue, Bool.and_eq_true, Bool.not_eq_true', List.all_eq_true, decide_eq_true_eq,
    Option.all_eq_true, Option.mem_def, and_assoc]

theorem isScript_iff {cs : List Char} :
    isScript cs = true ↔ '\r' ∉ cs ∧ ¬ ['>', '>'] <:+: cs ∧ cs.getLast? ≠ some '>' := by
  simp only [isScript, Bool.and_eq_true, Bool.not_eq_true', List.contains_eq_mem, decide_eq_true_eq,
    decide_eq_false_iff_not, and_assoc]

/-! ## Lines -/

/-- A text without its line feed is cut into these words, whatever lines follow. -/
def Spells (cs : List Char) (ws : List Token) : Prop :=
  ∀ rest, words .lineStart (cs ++ '\n' :: rest) = ws ++ .lineBreak :: words .lineStart rest

theorem words_indentation (depth : Nat) (cs : List Char) :
    words .lineStart (indentation depth ++ cs) = words .lineStart cs := by
  have hblank : ∀ c ∈ indentation depth, isBlank c = true := by
    intro c hc
    rw [List.eq_of_mem_replicate hc]
    rfl
  rw [← words_dropWhile_isBlank rfl, List.dropWhile_append_of_pos hblank,
    words_dropWhile_isBlank rfl]

/-- A line is cut into its words at every indentation. -/
theorem Spells.indented {cs : List Char} {ws : List Token} (h : Spells cs ws) (depth : Nat)
    (rest : List Char) :
    words .lineStart (renderLine (indentation depth ++ cs) ++ rest)
      = ws ++ .lineBreak :: words .lineStart rest := by
  rw [renderLine, List.append_assoc, List.append_assoc, words_indentation]
  exact h rest

theorem words_break (rest : List Char) :
    words .lineStart ('\n' :: rest) = .lineBreak :: words .lineStart rest :=
  words_step (l := lineFeed) rfl rfl

/-- Outside brackets a line feed ends the line. -/
theorem words_code_break (line : LineKind) (displayed : Bool) (rest : List Char) :
    words (.code ⟨line, displayed, 0⟩) ('\n' :: rest) = .lineBreak :: words .lineStart rest :=
  words_step (l := lineFeed) rfl rfl

/-! ## Prose -/

theorem isInline_of_not_mem {cs : List Char} (h : '\n' ∉ cs) : ∀ c ∈ cs, isInline c = true := by
  intro c hc
  simp only [isInline, decide_eq_true_eq]
  rintro rfl
  exact h hc

/-- The rest of a line, when a text without line feeds is all there is to it. -/
theorem takeWhile_isInline {cs : List Char} (h : '\n' ∉ cs) (rest : List Char) :
    (cs ++ '\n' :: rest).takeWhile isInline = cs :=
  takeWhile_append_stop (isInline_of_not_mem h) fun c hc => by cases hc; rfl

/-- What a line that needs no backslash does not start with. -/
theorem of_not_needsBackslash {c : Char} {cs : List Char} (h : needsBackslash (c :: cs) = false) :
    (isBlank c = false ∧ c ≠ '*' ∧ c ≠ '@' ∧ c ≠ '\\') ∧ (c = ':' → cs.head? ≠ some ':') ∧
      opensCode c cs = false := by
  have hnot : ∀ start ∈ reservedStarts, ¬ start <+: c :: cs := by
    intro start hstart hprefix
    have hany : (reservedStarts.any fun start => start.isPrefixOf (c :: cs)) = true :=
      List.any_eq_true.mpr ⟨start, hstart, List.isPrefixOf_iff_prefix.mpr hprefix⟩
    rw [needsBackslash, hany, Bool.or_true] at h
    cases h
  -- A reserved start is one character or two.
  have hone : ∀ d, [d] ∈ reservedStarts → c ≠ d := by
    rintro d hd rfl
    exact hnot [c] hd ⟨cs, rfl⟩
  have htwo : ∀ d e, [d, e] ∈ reservedStarts → c = d → cs.head? ≠ some e := by
    rintro d e hd rfl he
    rw [eq_cons_tail_of_head? he] at hnot
    exact hnot [c, e] hd ⟨cs.tail, rfl⟩
  refine ⟨⟨?_, hone '*' (by decide), hone '@' (by decide), hone '\\' (by decide)⟩,
    htwo ':' ':' (by decide), ?_⟩
  · simp [isBlank, hone ' ' (by decide), hone '\t' (by decide)]
  · have harrow := htwo '-' '>' (by decide)
    have hscript := htwo '<' '<' (by decide)
    have hcomment := htwo '/' '/' (by decide)
    have hblock := htwo '/' '*' (by decide)
    simp only [opensCode, hone '$' (by decide), hone '{' (by decide), decide_false, Bool.false_or,
      Bool.or_eq_false_iff, Bool.and_eq_false_imp, decide_eq_true_eq, decide_eq_false_iff_not]
    exact ⟨⟨harrow, hscript⟩, fun hc => ⟨hcomment hc, hblock hc⟩⟩

theorem lineStep_backslash (cs : List Char) :
    lineStep '\\' cs
      = (withText .text (trimEnd (cs.takeWhile isInline)) ('\\' :: cs.takeWhile isInline), .lineStart) :=
  rfl

/-- A line that needs no backslash is taken for prose. -/
theorem lineStep_prose {c : Char} {cs : List Char} (hline : '\n' ∉ c :: cs)
    (h : needsBackslash (c :: cs) = false) (rest : List Char) :
    lineStep c (cs ++ '\n' :: rest) = (withText .text (trimEnd (c :: cs)) (c :: cs), .lineStart) := by
  obtain ⟨⟨hblank, hstar, hkey, hslash⟩, hpassage, hcode⟩ := of_not_needsBackslash h
  rw [List.mem_cons, not_or] at hline
  have hmarker : (c = ':' && (cs ++ '\n' :: rest).head? = some ':') = false := by
    rw [decide_head?_append_break cs rest (by decide), Bool.and_eq_false_imp]
    simpa using hpassage
  have hcode' : opensCode c (cs ++ '\n' :: rest) = false := (opensCode_append_break cs rest c).trans hcode
  have hrest : restOfLine c (cs ++ '\n' :: rest) = c :: cs := by
    rw [restOfLine, takeWhile_isInline hline.2]
  rw [lineStep, hblank, if_neg Bool.false_ne_true, if_neg (Ne.symm hline.1), hmarker,
    if_neg Bool.false_ne_true, if_neg (by simp [hstar]), hcode', if_neg Bool.false_ne_true, if_neg hkey,
    if_neg hslash, hrest]

/-- A line of prose. -/
theorem spells_prose {line : List Char} (hline : '\n' ∉ line) :
    Spells (proseLine line) [.textual .text (trimEnd line) (proseLine line)] := by
  intro rest
  have htrim : '\n' ∉ trimEnd line := fun h => hline (trimEnd_subset line h)
  have hagain : trimEnd (trimEnd line) = trimEnd line := Text.trimEnd_trimEnd line
  cases h : needsBackslash (trimEnd line) with
  | true =>
    have hprose : proseLine line = '\\' :: trimEnd line := if_pos h
    have hstep := lineStep_backslash (trimEnd line ++ '\n' :: rest)
    rw [takeWhile_isInline htrim, hagain] at hstep
    rw [hprose, List.cons_append, words_lineStep hstep rfl, words_break]
    rfl
  | false =>
    have hprose : proseLine line = trimEnd line := if_neg (by simp [h])
    rw [hprose]
    cases ht : trimEnd line with
    | nil =>
      rw [ht] at h
      cases h
    | cons c cs =>
      rw [ht] at h htrim hagain
      have hstep := lineStep_prose htrim h rest
      rw [hagain] at hstep
      rw [List.cons_append, words_lineStep hstep rfl, words_break]
      rfl

/-! ## Markers and scripts -/

/-- A line with a marker. -/
theorem spells_marker (m : Marker) :
    Spells m.spelling.toList [.word (.marker m) m.spelling.toList] := by
  intro rest
  cases m with
  | close =>
    refine (words_lineStep (l := plain (.marker .close) ['{', '/', '}']) rfl rfl).trans ?_
    exact congrArg (_ :: ·) (words_code_break .statement false rest)
  | otherwise =>
    refine (words_lineStep (l := plain (.marker .otherwise) ['{', 'e', 'l', 's', 'e', '}']) rfl
      rfl).trans ?_
    exact congrArg (_ :: ·) (words_code_break .statement false rest)

/-- A script ends at its first pair of closing angles. -/
theorem splitAtPair_script {code : List Char} (hpair : ¬ ['>', '>'] <:+: code)
    (hlast : code.getLast? ≠ some '>') (rest : List Char) :
    splitAtPair '>' '>' (code ++ '>' :: '>' :: rest) = some (code, '>' :: '>' :: rest) := by
  induction code with
  | nil => rfl
  | cons c code ih =>
    have htail : splitAtPair '>' '>' (code ++ '>' :: '>' :: rest) = some (code, '>' :: '>' :: rest) := by
      refine ih (fun h => hpair (List.infix_cons h)) ?_
      cases code with
      | nil => simp
      | cons d ds => simpa using hlast
    -- The first character makes no pair, neither with the next one nor with the closing angles.
    cases code with
    | nil =>
      have hc : c ≠ '>' := by
        rintro rfl
        exact hlast rfl
      rw [List.singleton_append, splitAtPair, if_neg (by simp [hc])]
      rw [List.nil_append] at htail
      rw [htail]
      rfl
    | cons d ds =>
      have hcd : ¬ (c = '>' && d = '>') = true := by
        simp only [Bool.and_eq_true, decide_eq_true_eq]
        rintro ⟨rfl, rfl⟩
        exact hpair ⟨[], ds, rfl⟩
      rw [List.cons_append, List.cons_append, splitAtPair, if_neg hcd]
      rw [List.cons_append] at htail
      rw [htail]
      rfl

/-- A script as written. -/
def scriptChars (code : String) : List Char := '<' :: '<' :: (code.toList ++ ['>', '>'])

/-- A line that ends a script. -/
theorem spells_script {code : String} (h : isScript code.toList = true) :
    Spells (scriptChars code) [.textual .script code.toList (scriptChars code)] := by
  intro rest
  obtain ⟨-, hpair, hlast⟩ := isScript_iff.mp h
  have hblock : scriptBlock (code.toList ++ ['>', '>'] ++ '\n' :: rest)
      = withText .script code.toList (scriptChars code) := by
    rw [List.append_assoc, List.cons_append, List.cons_append, List.nil_append, scriptBlock,
      splitAtPair_script hpair hlast]
    rfl
  have hstep : lineStep '<' ('<' :: (code.toList ++ ['>', '>'] ++ '\n' :: rest))
      = (withText .script code.toList (scriptChars code), .code (.begin .statement)) := by
    rw [← hblock]
    rfl
  rw [scriptChars, List.cons_append, List.cons_append, words_lineStep hstep rfl]
  exact congrArg (_ :: ·) (words_code_break .statement false rest)

/-! ## Passage names -/

/-- A name goes on as far as it was written. -/
theorem nameRun_append {cs rest : List Char}
    (hall : ∀ c ∈ cs, c ≠ '\n' ∧ c ≠ '[' ∧ c ≠ '{') (hline : ¬ ['/', '/'] <:+: cs)
    (hblock : ¬ ['/', '*'] <:+: cs) (hrest : rest.head? ≠ some '/' ∧ rest.head? ≠ some '*') :
    nameRun (cs ++ rest) = cs ++ nameRun rest := by
  induction cs with
  | nil => rfl
  | cons c cs ih =>
    have hhead : ∀ d, ¬ ['/', d] <:+: c :: cs → rest.head? ≠ some d → c = '/' →
        (cs ++ rest).head? ≠ some d := by
      rintro d hinfix hd rfl hcs
      cases cs with
      | nil => exact hd hcs
      | cons e es =>
        have he : e = d := Option.some.inj hcs
        subst he
        exact hinfix ⟨[], es, rfl⟩
    obtain ⟨hbreak, hsquare, hbrace⟩ := hall c List.mem_cons_self
    have hcomment : ¬ (c = '/' && ((cs ++ rest).head? = some '/' || (cs ++ rest).head? = some '*'))
        = true := by
      simp only [Bool.and_eq_true, Bool.or_eq_true, decide_eq_true_eq, not_and, not_or]
      exact fun hc => ⟨hhead '/' hline hrest.1 hc, hhead '*' hblock hrest.2 hc⟩
    rw [List.cons_append, nameRun, if_neg (by simp [hbreak, hsquare, hbrace]), if_neg hcomment,
      ih (fun d hd => hall d (List.mem_cons_of_mem _ hd)) (fun h => hline (List.infix_cons h))
        (fun h => hblock (List.infix_cons h))]
    rfl

theorem passageName_append {name rest : List Char} (h : isPassageName name = true)
    (hrest : rest.head? ≠ some '/' ∧ rest.head? ≠ some '*')
    (hblank : ∀ c ∈ nameRun rest, isBlank c = true) : passageName (name ++ rest) = name := by
  obtain ⟨-, hall, hline, hblock, -, hlast⟩ := isPassageName_iff.mp h
  rw [passageName, nameRun_append (fun c hc => ?_) hline hblock hrest,
    Text.dropEndWhile_append_of_pos hblank, Text.dropEndWhile_eq_self]
  · exact hlast
  · obtain ⟨hbreak, -, hsquare, hbrace⟩ := hall c hc
    exact ⟨hbreak, hsquare, hbrace⟩

/-- Where a name is due, it is one word. -/
theorem words_passageName (s : CodeState) {name rest : List Char} (h : isPassageName name = true)
    (hrun : passageName (name ++ rest) = name) :
    words (.name s) (name ++ rest) = .word .identifier name :: words (.code s) rest := by
  obtain ⟨hne, -, -, -, hhead, -⟩ := isPassageName_iff.mp h
  cases name with
  | nil => exact absurd rfl hne
  | cons c cs =>
    have hblank : isBlank c = false := hhead c rfl
    have hstep : step (.name s) c (cs ++ rest) = (plain .identifier (c :: cs), .code s) := by
      rw [List.cons_append] at hrun
      simp only [step, nameStep, hblank, hrun]
      rfl
    exact words_step hstep rfl

/-- The words of a jump. -/
def jump (target : String) : List Token :=
  [.word .arrow ['-', '>'], .word .identifier target.toList]

/-- A target at the end of a line. -/
theorem words_jump (line : LineKind) (displayed : Bool) {target : String}
    (h : isPassageName target.toList = true) (rest : List Char) :
    words (.code ⟨line, displayed, 0⟩) ('-' :: '>' :: ' ' :: (target.toList ++ '\n' :: rest))
      = jump target ++ .lineBreak :: words .lineStart rest := by
  have hrun : passageName (target.toList ++ '\n' :: rest) = target.toList :=
    passageName_append h (by simp) (by simp [nameRun])
  have harrow : words (.code ⟨line, displayed, 0⟩) ('-' :: '>' :: ' ' :: (target.toList ++ '\n' :: rest))
      = .word .arrow ['-', '>'] ::
        words (.name ⟨line, displayed, 0⟩) (' ' :: (target.toList ++ '\n' :: rest)) :=
    words_codeStep (l := plain .arrow ['-', '>']) rfl rfl
  rw [harrow, words_blank rfl, words_passageName _ h hrun, words_code_break]
  rfl

/-- At the start of a line, code is read as code. -/
theorem words_lineStart_code {c : Char} {cs : List Char} (h : opensCode c cs = true) :
    words .lineStart (c :: cs) = words (.code (.begin .statement)) (c :: cs) := by
  have hstep : step .lineStart c cs = step (.code (.begin .statement)) c cs := lineStep_of_opensCode h
  rw [words, words, scan_cons, scan_cons, hstep]

/-- A line with a jump. -/
theorem spells_divert {target : String} (h : isPassageName target.toList = true) :
    Spells ('-' :: '>' :: ' ' :: target.toList) (jump target) := by
  intro rest
  refine (words_lineStart_code rfl).trans ?_
  exact words_jump .statement false h rest

/-! ## Guards -/

/-- The words of a guard between braces. -/
def guardSpelling (e : Expr) : List Token :=
  .word (.opening .brace) ['{'] :: (e.spelling ++ [.word (.closing .brace) ['}']])

/-- A guard between braces, whatever follows it. -/
theorem words_guard (s : CodeState) {e : Expr} (he : e.isWritten = true) (rest : List Char) :
    words (.code s) ('{' :: (e.chars ++ '}' :: rest)) = guardSpelling e ++ words (.code s) rest := by
  obtain ⟨c, cs, hhead, hopening⟩ := Expr.chars_head he
  -- What follows the brace makes no marker of it.
  have helse : ('e' == c) = false := by simpa using (ne_of_class hopening (d := 'e') rfl).symm
  have hclose : ('/' == c) = false := by simpa using (ne_of_class hopening (d := '/') rfl).symm
  have hsymbol : symbol? ('{' :: (e.chars ++ '}' :: rest)) = some (['{'], .opening .brace) := by
    simp [symbol?, symbols, List.isPrefixOf, hhead, helse, hclose]
  have hstep : codeStep s '{' (e.chars ++ '}' :: rest)
      = (plain (.opening .brace) ['{'], .code { s with depth := s.depth + 1 }) := by
    show symbolStep s '{' (e.chars ++ '}' :: rest) = _
    rw [symbolStep, hsymbol]
    rfl
  have hend : words (.code { s with depth := s.depth + 1 }) ('}' :: rest)
      = .word (.closing .brace) ['}'] :: words (.code s) rest :=
    words_codeStep (l := plain (.closing .brace) ['}']) rfl rfl
  have hopen : words (.code s) ('{' :: (e.chars ++ '}' :: rest)) = .word (.opening .brace) ['{'] ::
      words (.code { s with depth := s.depth + 1 }) (e.chars ++ '}' :: rest) :=
    words_codeStep hstep rfl
  rw [hopen, Expr.words_chars he _ _ (delimited_cons rfl rest), hend]
  simp [guardSpelling]

/-- A line that opens a conditional. -/
theorem spells_condition {e : Expr} (he : e.isWritten = true) :
    Spells ('{' :: (e.chars ++ ['}'])) (guardSpelling e) := by
  intro rest
  have htext : '{' :: (e.chars ++ ['}']) ++ '\n' :: rest = '{' :: (e.chars ++ '}' :: '\n' :: rest) := by
    simp
  rw [htext, words_lineStart_code rfl, words_guard _ he]
  exact congrArg _ (words_code_break .statement false rest)

/-! ## Assignments -/

/-- The words of an assignment. -/
def assignmentSpelling (a : Assignment) : List Token :=
  .word .dollar ['$'] :: .word .identifier a.name.toList ::
    .word (.assign a.op) a.op.symbol.toList :: a.value.spelling

theorem words_assign (s : CodeState) (op : AssignOp) (rest : List Char) :
    words (.code s) (op.symbol.toList ++ ' ' :: rest)
      = .word (.assign op) op.symbol.toList :: words (.code s) (' ' :: rest) := by
  cases op <;> exact words_codeStep (l := plain (.assign _) _) rfl rfl

/-- A line with an assignment. -/
theorem spells_assignment {a : Assignment} (hname : isName a.name.toList = true)
    (hvalue : a.value.isWritten = true) : Spells a.chars (assignmentSpelling a) := by
  intro rest
  have htext : a.chars ++ '\n' :: rest
      = '$' :: (a.name.toList ++ ' ' :: (a.op.symbol.toList ++ ' ' :: (a.value.chars ++ '\n' :: rest))) := by
    simp [Assignment.chars]
  rw [htext, words_lineStart_code rfl, words_dollar,
    words_name _ hname (delimited_cons rfl _), words_blank rfl, words_assign, words_blank rfl,
    Expr.words_chars hvalue _ _ (delimited_cons rfl rest)]
  exact congrArg (fun ws => _ :: _ :: _ :: (a.value.spelling ++ ws))
    (words_code_break .statement false rest)

/-! ## Choices -/

/-- An escaped character of a display text stands for itself. -/
theorem displayText_escape_append {c : Char} (hc : c ≠ '\n') (cs : List Char) :
    displayText (Choice.escape c ++ cs)
      = (Choice.escape c ++ (displayText cs).1, c :: (displayText cs).2) := by
  unfold Choice.escape
  split
  · next h =>
    have hquotable : isQuotable c = true := by
      simp only [Bool.or_eq_true, decide_eq_true_eq] at h
      rcases h with (rfl | rfl) | rfl <;> rfl
    rw [List.cons_append, List.singleton_append, displayText, if_pos hquotable]
    rfl
  · next h =>
    simp only [Bool.or_eq_true, decide_eq_true_eq, not_or] at h
    rw [List.singleton_append, displayText, if_neg (by simp [hc, h])]
    · rfl
    · intro d ds hslash
      exact absurd hslash h.2

theorem displayText_flatMap_escape {cs : List Char} (hcs : '\n' ∉ cs) (rest : List Char) :
    displayText (cs.flatMap Choice.escape ++ ']' :: rest) = (cs.flatMap Choice.escape, cs) := by
  induction cs with
  | nil => rfl
  | cons c cs ih =>
    rw [List.mem_cons, not_or] at hcs
    rw [List.flatMap_cons, List.append_assoc, displayText_escape_append (Ne.symm hcs.1), ih hcs.2]

theorem flatMap_escape_head (c : Char) (cs : List Char) :
    ∃ d ds, (c :: cs).flatMap Choice.escape = d :: ds ∧ d ≠ ']' := by
  rw [List.flatMap_cons, Choice.escape]
  split
  · exact ⟨'\\', _, rfl, by decide⟩
  · next h =>
    simp only [Bool.or_eq_true, decide_eq_true_eq, not_or] at h
    exact ⟨c, _, rfl, h.1.2⟩

/-- The words between the brackets of a choice. -/
def displaySpelling (text : String) : List Token :=
  match trim text.toList with
  | [] => []
  | shown => [.textual .text shown (Choice.displayChars text)]

/-- The text of a choice with its closing bracket, whatever follows it. -/
theorem words_display {text : String} (h : '\n' ∉ text.toList) (rest : List Char) :
    words .display (Choice.displayChars text ++ ']' :: rest)
      = displaySpelling text ++
        .word (.closing .square) [']'] :: words (.code ⟨.choice, true, 0⟩) rest := by
  have hclose : words .display (']' :: rest)
      = .word (.closing .square) [']'] :: words (.code ⟨.choice, true, 0⟩) rest :=
    words_step (l := plain (.closing .square) [']']) rfl rfl
  have hbreak : '\n' ∉ trim text.toList := fun hmem => h (trim_subset _ hmem)
  have htrim := Text.trim_trim text.toList
  have hdisplay := displayText_flatMap_escape hbreak rest
  rw [displaySpelling, Choice.displayChars]
  cases ht : trim text.toList with
  | nil => exact hclose
  | cons c cs =>
    rw [ht] at htrim hdisplay
    -- The first character is an escape or no bracket, so the text is read as one word.
    obtain ⟨d, ds, hescape, hd⟩ := flatMap_escape_head c cs
    have hstep : step .display d (ds ++ ']' :: rest)
        = (withText .text (c :: cs) ((c :: cs).flatMap Choice.escape), .display) := by
      rw [hescape, List.cons_append] at hdisplay
      simp only [step, displayStep, if_neg hd, hdisplay, htrim, hescape]
    have hword : words .display ((c :: cs).flatMap Choice.escape ++ ']' :: rest)
        = .textual .text (c :: cs) ((c :: cs).flatMap Choice.escape) ::
          words .display (']' :: rest) := by
      rw [hescape] at hstep ⊢
      exact words_step hstep rfl
    rw [hword, hclose]
    rfl

/-- The guard of a choice as written. -/
def guardPart : Option Expr → List Char
  | none => []
  | some g => ' ' :: '{' :: (g.chars ++ ['}'])

/-- The words of the guard of a choice. -/
def guardPartSpelling : Option Expr → List Token
  | none => []
  | some g => guardSpelling g

/-- The target of a choice as written. -/
def targetPart : Option String → List Char
  | none => []
  | some t => ' ' :: '-' :: '>' :: ' ' :: t.toList

/-- The words of the target of a choice. -/
def targetPartSpelling : Option String → List Token
  | none => []
  | some t => jump t

theorem chars_choice (c : Choice) :
    c.chars = '*' :: (guardPart c.guard ++
      ' ' :: '[' :: (Choice.displayChars c.text ++ ']' :: targetPart c.target)) := by
  obtain ⟨text, guard, target, pos⟩ := c
  cases guard <;> cases target <;> rfl

/-- The words of a choice. -/
def choiceSpelling (c : Choice) : List Token :=
  .word .choiceMarker ['*'] :: (guardPartSpelling c.guard ++
    .word (.opening .square) ['['] :: (displaySpelling c.text ++
      .word (.closing .square) [']'] :: targetPartSpelling c.target))

theorem words_guardPart (s : CodeState) {guard : Option Expr} (h : ∀ g ∈ guard, g.isWritten = true)
    (rest : List Char) :
    words (.code s) (guardPart guard ++ ' ' :: rest)
      = guardPartSpelling guard ++ words (.code s) (' ' :: rest) := by
  cases guard with
  | none => rfl
  | some g =>
    have htext : guardPart (some g) ++ ' ' :: rest = ' ' :: '{' :: (g.chars ++ '}' :: ' ' :: rest) := by
      simp [guardPart]
    rw [htext, words_blank rfl, words_guard s (h g rfl)]
    rfl

theorem words_targetPart {target : Option String}
    (h : ∀ t ∈ target, isPassageName t.toList = true) (rest : List Char) :
    words (.code ⟨.choice, true, 0⟩) (targetPart target ++ '\n' :: rest)
      = targetPartSpelling target ++ .lineBreak :: words .lineStart rest := by
  cases target with
  | none => exact words_code_break .choice true rest
  | some t =>
    refine (words_blank rfl _).trans ?_
    exact words_jump .choice true (h t rfl) rest

/-- A line with a choice. -/
theorem spells_choice {c : Choice} (hguard : ∀ g ∈ c.guard, g.isWritten = true)
    (htext : '\n' ∉ c.text.toList) (htarget : ∀ t ∈ c.target, isPassageName t.toList = true) :
    Spells c.chars (choiceSpelling c) := by
  intro rest
  have hmarker : ∀ cs, words .lineStart ('*' :: (guardPart c.guard ++ ' ' :: cs))
      = .word .choiceMarker ['*'] :: words (.code (.begin .choice)) (guardPart c.guard ++ ' ' :: cs) := by
    intro cs
    cases c.guard with
    | none => exact words_lineStep (l := plain .choiceMarker ['*']) rfl rfl
    | some g => exact words_lineStep (l := plain .choiceMarker ['*']) rfl rfl
  have hopen : ∀ cs, words (.code (.begin .choice)) ('[' :: cs)
      = .word (.opening .square) ['['] :: words .display cs :=
    fun cs => words_codeStep (l := plain (.opening .square) ['[']) rfl rfl
  have hchars : c.chars ++ '\n' :: rest = '*' :: (guardPart c.guard ++
      ' ' :: '[' :: (Choice.displayChars c.text ++ ']' :: (targetPart c.target ++ '\n' :: rest))) := by
    simp [chars_choice]
  rw [hchars, hmarker, words_guardPart _ hguard, words_blank rfl, hopen, words_display htext,
    words_targetPart htarget]
  simp [choiceSpelling]

/-! ## Headers -/

/-- The words of a list of tags. -/
def tagsSpelling (tags : NameSet) : List Token :=
  if tags.isEmpty then []
  else .word (.opening .square) ['['] ::
    (tags.names.map (fun tag => .word .identifier tag.toList) ++ [.word (.closing .square) [']']])

/-- The words of the line that opens a passage, after its marker. -/
def headerSpelling (p : Passage) : List Token :=
  .word .identifier p.name.toList :: tagsSpelling p.tags

/-- A tag, before a blank or the closing bracket. -/
theorem words_tag {tag : List Char} (h : isTag tag = true) {c : Char} (hc : c = ' ' ∨ c = ']')
    (rest : List Char) :
    words .tags (tag ++ c :: rest) = .word .identifier tag :: words .tags (c :: rest) := by
  obtain ⟨hne, hall⟩ := isTag_iff.mp h
  cases tag with
  | nil => exact absurd rfl hne
  | cons d ds =>
    obtain ⟨hblank, hsquare, hbreak, -⟩ := hall d List.mem_cons_self
    have htake : (ds ++ c :: rest).takeWhile (fun d => !isBlank d && d ≠ ']' && isInline d) = ds := by
      refine takeWhile_append_stop ?_ ?_
      · intro e he
        obtain ⟨heblank, hesquare, hebreak, -⟩ := hall e (List.mem_cons_of_mem _ he)
        simp [heblank, hesquare, isInline, hebreak]
      · intro e he
        cases he
        rcases hc with rfl | rfl <;> rfl
    have hstep : step .tags d (ds ++ c :: rest) = (plain .identifier (d :: ds), .tags) := by
      simp only [step, tagStep, hblank, if_neg Bool.false_ne_true, if_neg hbreak, if_neg hsquare, htake]
    exact words_step hstep rfl

/-- Tags with blanks between them and the closing bracket. -/
theorem words_tags {tags : List String} (h : ∀ tag ∈ tags, isTag tag.toList = true)
    (rest : List Char) :
    words .tags ([' '].intercalate (tags.map String.toList) ++ ']' :: rest)
      = tags.map (fun tag => .word .identifier tag.toList) ++
        .word (.closing .square) [']'] :: words (.code (.begin .passage)) rest := by
  have hclose : words .tags (']' :: rest)
      = .word (.closing .square) [']'] :: words (.code (.begin .passage)) rest :=
    words_step (l := plain (.closing .square) [']']) rfl rfl
  induction tags with
  | nil => exact hclose
  | cons tag tags ih =>
    have htag := h tag List.mem_cons_self
    have ih := ih fun t ht => h t (List.mem_cons_of_mem _ ht)
    cases tags with
    | nil =>
      rw [List.map_singleton, List.intercalate_singleton, words_tag htag (.inr rfl), hclose]
      rfl
    | cons next tags =>
      rw [List.map_cons, List.map_cons, List.intercalate_cons_cons, List.append_assoc,
        List.append_assoc, List.singleton_append, words_tag htag (.inl rfl), words_blank rfl,
        ← List.map_cons, ih]
      rfl

/-- A line that opens a passage. -/
theorem spells_header {p : Passage} (hname : isPassageName p.name.toList = true)
    (htags : ∀ tag ∈ p.tags.names, isTag tag.toList = true) :
    Spells (':' :: ':' :: ' ' :: (p.name.toList ++ Passage.tagChars p.tags))
      (.word .passageMarker [':', ':'] :: headerSpelling p) := by
  intro rest
  have hmarker : ∀ cs, words .lineStart (':' :: ':' :: cs)
      = .word .passageMarker [':', ':'] :: words (.name (.begin .passage)) cs :=
    fun cs => words_lineStep (l := plain .passageMarker [':', ':']) rfl rfl
  rw [List.cons_append, List.cons_append, List.cons_append, List.append_assoc, hmarker,
    words_blank rfl, headerSpelling, tagsSpelling, Passage.tagChars]
  cases hempty : p.tags.isEmpty with
  | true =>
    have hrun : passageName (p.name.toList ++ '\n' :: rest) = p.name.toList :=
      passageName_append hname (by simp) (by simp [nameRun])
    rw [if_pos rfl, List.nil_append, words_passageName _ hname hrun]
    exact congrArg (fun ws => _ :: _ :: ws) (words_code_break .passage false rest)
  | false =>
    have hopen : ∀ cs, words (.code (.begin .passage)) ('[' :: cs)
        = .word (.opening .square) ['['] :: words .tags cs :=
      fun cs => words_codeStep (l := plain (.opening .square) ['[']) rfl rfl
    have hrun : ∀ cs, passageName (p.name.toList ++ ' ' :: '[' :: cs) = p.name.toList :=
      fun cs => passageName_append hname (by simp) (by simp [nameRun, isBlank])
    rw [if_neg Bool.false_ne_true, if_neg Bool.false_ne_true, List.cons_append, List.cons_append,
      List.append_assoc, List.singleton_append, words_passageName _ hname (hrun _), words_blank rfl,
      hopen, words_tags htags]
    have hbreak := words_code_break .passage false rest
    simp only [CodeState.begin, hbreak, List.cons_append, List.append_assoc, List.nil_append]

/-! ## Metadata -/

/-- The words of a line of metadata. -/
def entrySpelling (key value : String) : List Token :=
  .textual .metaKey key.toList ('@' :: key.toList) ::
    if value = "" then [] else [.textual .text value.toList value.toList]

/-- A key, before a text that does not go on with it. -/
theorem words_key {key cs : List Char} (hkey : isKey key = true)
    (hcs : ∀ c ∈ cs.head?, isKeyChar c = false) :
    words .lineStart ('@' :: (key ++ cs)) = .textual .metaKey key ('@' :: key) :: words .metaValue cs := by
  have htake : (key ++ cs).takeWhile isKeyChar = key := takeWhile_append_stop (isKey_iff.mp hkey).2 hcs
  have hstep : lineStep '@' (key ++ cs) = (withText .metaKey key ('@' :: key), .metaValue) := by
    show (withText .metaKey ((key ++ cs).takeWhile isKeyChar)
      ('@' :: (key ++ cs).takeWhile isKeyChar), Mode.metaValue) = _
    rw [htake]
  exact words_lineStep hstep rfl

/-- The value of a key, if there is one, takes the rest of its line. -/
theorem words_entryValue {value : List Char} (h : isEntryValue value = true) (hne : value ≠ [])
    (rest : List Char) :
    words .metaValue (value ++ '\n' :: rest)
      = .textual .text value value :: .lineBreak :: words .lineStart rest := by
  obtain ⟨hall, hhead, hlast⟩ := isEntryValue_iff.mp h
  have htrim : trimEnd value = value := Text.dropEndWhile_eq_self hlast
  cases value with
  | nil => exact absurd rfl hne
  | cons c cs =>
    have hblank : isBlank c = false := hhead c rfl
    have hbreak : c ≠ '\n' := (hall c List.mem_cons_self).1
    have hinline : '\n' ∉ cs := fun hc => (hall '\n' (List.mem_cons_of_mem _ hc)).1 rfl
    have hrest : restOfLine c (cs ++ '\n' :: rest) = c :: cs := by
      rw [restOfLine, takeWhile_isInline hinline]
    have hstep : step .metaValue c (cs ++ '\n' :: rest)
        = (withText .text (c :: cs) (c :: cs), .lineStart) := by
      simp only [step, metaStep, hblank, if_neg Bool.false_ne_true, if_neg hbreak, hrest, htrim]
    rw [List.cons_append, words_step hstep rfl, words_break]
    rfl

/-- A line of metadata. -/
theorem spells_entry {key value : String} (hkey : isKey key.toList = true)
    (hvalue : isEntryValue value.toList = true) :
    Spells ('@' :: (key.toList ++ if value = "" then [] else ' ' :: value.toList))
      (entrySpelling key value) := by
  intro rest
  have hend : words .metaValue ('\n' :: rest) = .lineBreak :: words .lineStart rest :=
    words_step (l := lineFeed) rfl rfl
  rw [entrySpelling, List.cons_append, List.append_assoc]
  by_cases hempty : value = ""
  · rw [if_pos hempty, if_pos hempty, List.nil_append,
      words_key hkey (fun c hc => by cases hc; rfl), hend]
    rfl
  · have hne : value.toList ≠ [] := fun h => hempty (String.toList_eq_nil_iff.mp h)
    rw [if_neg hempty, if_neg hempty, List.cons_append,
      words_key hkey (fun c hc => by cases hc; rfl), words_blank rfl, words_entryValue hvalue hne]
    rfl

end Lexeme

end Gamebook
