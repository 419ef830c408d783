/-
# Gamebook.Proofs.Scan.Break — a line break hides what follows it

Words are cut at the line feed, and the scanner looks past one only to see whether a passage starts
there. So the lexemes of a text do not change when a line feed and another text are put after it
(`step_append_break` for one step, `scan_append_break` for a whole text), with two exceptions: a comment
and a script that are still open at the end go on. `Lexeme.isRunaway` tells these.
-/
import Gamebook.Proofs.Scan

namespace Gamebook.Lexeme

open Gamebook.Text (isBlank trimEnd trim)

/-- Whether a lexeme runs to the end of the text for want of its closing mark. -/
def isRunaway (l : Lexeme) : Bool :=
  match l.sort with
  | .fault .unterminatedComment | .fault .unterminatedScript => true
  | _ => false

section

variable (cs rest : List Char)

/-! ## Looking ahead -/

theorem takeWhile_append_break {p : Char → Bool} (hp : p '\n' = false) :
    (cs ++ '\n' :: rest).takeWhile p = cs.takeWhile p := by
  induction cs with
  | nil => simp [hp]
  | cons c cs ih =>
    cases hc : p c <;> simp [hc, ih]

theorem dropWhile_append_break {p : Char → Bool} (hp : p '\n' = false) :
    (cs ++ '\n' :: rest).dropWhile p = cs.dropWhile p ++ '\n' :: rest := by
  induction cs with
  | nil => simp [hp]
  | cons c cs ih =>
    cases hc : p c <;> simp [hc, ih]

theorem head?_append_break {d : Char} (hd : d ≠ '\n') :
    ((cs ++ '\n' :: rest).head? = some d) = (cs.head? = some d) := by
  cases cs with
  | nil => simp [hd.symm]
  | cons c cs => rfl

theorem decide_head?_append_break {d : Char} (hd : d ≠ '\n') :
    decide ((cs ++ '\n' :: rest).head? = some d) = decide (cs.head? = some d) := by
  rw [decide_eq_decide, head?_append_break cs rest hd]

theorem isPrefixOf_append_break {spelling : List Char} (h : '\n' ∉ spelling) :
    spelling.isPrefixOf (cs ++ '\n' :: rest) = spelling.isPrefixOf cs := by
  induction spelling generalizing cs with
  | nil => simp
  | cons d spelling ih =>
    simp only [List.mem_cons, not_or] at h
    cases cs with
    | nil => simp [List.isPrefixOf, Ne.symm h.1]
    | cons c cs => simp only [List.cons_append, List.isPrefixOf, ih cs h.2]

theorem opensPassage_append_break : opensPassage (cs ++ '\n' :: rest) = opensPassage cs := by
  rw [opensPassage, dropWhile_append_break cs rest (by decide),
    isPrefixOf_append_break _ rest (by decide), opensPassage]

theorem opensCode_append_break (c : Char) : opensCode c (cs ++ '\n' :: rest) = opensCode c cs := by
  have hhead := @decide_head?_append_break cs rest
  simp only [opensCode, hhead (d := '>') (by decide), hhead (d := '<') (by decide),
    hhead (d := '/') (by decide), hhead (d := '*') (by decide)]

/-! ## Words -/

theorem blanks_append_break (c : Char) : blanks c (cs ++ '\n' :: rest) = blanks c cs := by
  rw [blanks, takeWhile_append_break cs rest (by decide), blanks]

theorem restOfLine_append_break (c : Char) :
    restOfLine c (cs ++ '\n' :: rest) = restOfLine c cs := by
  rw [restOfLine, takeWhile_append_break cs rest (by decide), restOfLine]

theorem splitAtPair_append {a b : Char} {cs : List Char} (x : List Char) {inside after : List Char}
    (h : splitAtPair a b cs = some (inside, after)) :
    splitAtPair a b (cs ++ x) = some (inside, after ++ x) := by
  induction cs generalizing inside after with
  | nil => simp [splitAtPair] at h
  | cons c cs ih =>
    cases cs with
    | nil => simp [splitAtPair] at h
    | cons d cs =>
      rw [splitAtPair] at h
      rw [List.cons_append, List.cons_append, splitAtPair]
      by_cases hpair : (c = a && d = b) = true
      · rw [if_pos hpair] at h ⊢
        simp only [Option.some.injEq, Prod.mk.injEq] at h
        obtain ⟨rfl, rfl⟩ := h
        rfl
      · rw [if_neg hpair] at h ⊢
        cases hs : splitAtPair a b (d :: cs) with
        | none => simp [hs] at h
        | some r =>
          have hx := ih hs
          simp only [hs, Option.map_some, Option.some.injEq, Prod.mk.injEq] at h
          obtain ⟨rfl, rfl⟩ := h
          rw [← List.cons_append, hx]
          rfl

theorem blockComment_append {cs : List Char} (x : List Char)
    (h : (blockComment cs).isRunaway = false) : blockComment (cs ++ x) = blockComment cs := by
  rw [blockComment, blockComment] at *
  cases hs : splitAtPair '*' '/' cs with
  | none => simp [hs, isRunaway, faulty] at h
  | some r => rw [splitAtPair_append x hs]

theorem scriptBlock_append {cs : List Char} (x : List Char)
    (h : (scriptBlock cs).isRunaway = false) : scriptBlock (cs ++ x) = scriptBlock cs := by
  rw [scriptBlock, scriptBlock] at *
  cases hs : splitAtPair '>' '>' cs with
  | none => simp [hs, isRunaway, faulty] at h
  | some r => rw [splitAtPair_append x hs]

theorem stringBody_append_break : stringBody (cs ++ '\n' :: rest) = stringBody cs := by
  fun_induction stringBody cs with
  | case1 => simp [stringBody]
  | case2 => simp [stringBody]
  | case3 => simp [stringBody]
  | case4 cs => simp [stringBody]
  | case5 c cs hc raw value hbody ih =>
    rw [List.cons_append, List.cons_append, stringBody, if_neg hc, ih, hbody]
  | case6 c cs h1 h2 h3 raw value hbody ih =>
    cases cs with
    | nil =>
      -- A backslash at the very end: the break makes it the end of its line.
      by_cases hc : c = '\\'
      · subst hc
        simp [stringBody] at hbody ⊢
        simp [← hbody.1, ← hbody.2]
      · rw [List.cons_append, stringBody, ih, hbody]
        · exact h1
        · exact h2
        · intro d ds h
          exact absurd h hc
    | cons d cs =>
      rw [List.cons_append, stringBody, ih, hbody]
      · exact h1
      · exact h2
      · intro e es h h'
        exact h3 d cs h rfl

theorem stringWord_append_break : stringWord (cs ++ '\n' :: rest) = stringWord cs := by
  rw [stringWord, stringBody_append_break, stringWord]

theorem numberWord_append_break : numberWord (cs ++ '\n' :: rest) = numberWord cs := by
  have htake := takeWhile_append_break cs rest (p := isDigit) (by decide)
  have hdrop := dropWhile_append_break cs rest (p := isDigit) (by decide)
  rw [numberWord, numberWord, htake, hdrop]
  -- After the digits the scanner looks two characters ahead, for a point and a digit.
  cases hd : cs.dropWhile isDigit with
  | nil => rfl
  | cons c ds =>
    cases ds with
    | nil =>
      by_cases hc : c = '.'
      · subst hc
        rfl
      · simp [hc]
    | cons d ds =>
      by_cases hc : c = '.'
      · subst hc
        simp only [List.cons_append, takeWhile_append_break ds rest (p := isDigit) (by decide)]
      · simp [hc]

theorem nameWord_append_break : nameWord (cs ++ '\n' :: rest) = nameWord cs := by
  rw [nameWord, nameWord, takeWhile_append_break cs rest (by decide)]

theorem nameRun_append_break : nameRun (cs ++ '\n' :: rest) = nameRun cs := by
  induction cs with
  | nil => rfl
  | cons c cs ih =>
    have hslash := head?_append_break cs rest (d := '/') (by decide)
    have hstar := head?_append_break cs rest (d := '*') (by decide)
    simp only [List.cons_append, nameRun, ih, hslash, hstar]

theorem passageName_append_break : passageName (cs ++ '\n' :: rest) = passageName cs := by
  rw [passageName, passageName, nameRun_append_break]

theorem displayText_append_break : displayText (cs ++ '\n' :: rest) = displayText cs := by
  fun_induction displayText cs with
  | case1 => simp [displayText]
  | case2 c cs hc raw text hrest ih =>
    rw [List.cons_append, List.cons_append, displayText, if_pos hc, ih, hrest]
  | case3 c cs hc raw text hrest ih =>
    rw [List.cons_append] at ih
    rw [List.cons_append, List.cons_append, displayText, if_neg hc, ih, hrest]
  | case4 c cs h hc =>
    cases cs with
    | nil =>
      have hne : c ≠ '\\' := by
        rintro rfl
        simp at hc
      rw [List.cons_append, displayText, if_pos hc]
      intro d ds hd
      exact absurd hd hne
    | cons d cs =>
      rw [List.cons_append, displayText, if_pos hc]
      intro e es he hes
      exact h d cs he rfl
  | case5 c cs h hc raw text hrest ih =>
    cases cs with
    | nil =>
      -- A backslash at the very end quotes nothing, before a break or before the end.
      by_cases hb : c = '\\'
      · subst hb
        simp [displayText] at hrest
        simp [displayText, isQuotable, hrest]
      · rw [List.cons_append, displayText, if_neg hc, ih, hrest]
        intro d ds hd
        exact absurd hd hb
    | cons d cs =>
      rw [List.cons_append, displayText, if_neg hc, ih, hrest]
      intro e es he hes
      exact h d cs he rfl

theorem symbol?_append_break : symbol? (cs ++ '\n' :: rest) = symbol? cs := by
  have hfind : ∀ table : List (List Char × TokenKind), (∀ s ∈ table, '\n' ∉ s.1) →
      table.find? (fun s => s.1.isPrefixOf (cs ++ '\n' :: rest))
        = table.find? fun s => s.1.isPrefixOf cs := by
    intro table
    induction table with
    | nil => intro _; rfl
    | cons s table ih =>
      intro h
      rw [List.find?_cons, List.find?_cons, isPrefixOf_append_break cs rest (h s (by simp)),
        ih fun t ht => h t (List.mem_cons_of_mem s ht)]
  exact hfind symbols (by decide)

/-! ## Steps -/

theorem symbolStep_append_break (s : CodeState) (c : Char) :
    symbolStep s c (cs ++ '\n' :: rest) = symbolStep s c cs := by
  have hsym : symbol? (c :: (cs ++ '\n' :: rest)) = symbol? (c :: cs) :=
    symbol?_append_break (c :: cs) rest
  rw [symbolStep, symbolStep, hsym, otherText, takeWhile_append_break cs rest (by decide), otherText]

theorem tail_append_of_eq_cons {d : Char} (h : cs = d :: cs.tail) (x : List Char) :
    (cs ++ x).tail = cs.tail ++ x := by
  rw [h]
  rfl

/-- A step inside a line of code sees the same before a break, unless its lexeme runs away. -/
theorem codeStep_append_break (s : CodeState) (c : Char)
    (h : (codeStep s c cs).1.isRunaway = false) :
    codeStep s c (cs ++ '\n' :: rest) = codeStep s c cs := by
  have hhead := @decide_head?_append_break cs rest
  -- All conditions agree; where they lead, only a comment and a script can depend on what lies behind the
  -- break.
  revert h
  rw [codeStep, codeStep]
  simp only [hhead (d := '/') (by decide), hhead (d := '*') (by decide), hhead (d := '<') (by decide),
    hhead (d := '>') (by decide), opensPassage_append_break]
  by_cases hblank : isBlank c = true
  · rw [if_pos hblank, if_pos hblank, blanks_append_break]
    exact fun _ => rfl
  rw [if_neg hblank, if_neg hblank]
  by_cases hbreak : c = '\n'
  · rw [if_pos hbreak, if_pos hbreak]
    exact fun _ => rfl
  rw [if_neg hbreak, if_neg hbreak]
  by_cases hline : (c = '/' && cs.head? = some '/') = true
  · rw [if_pos hline, if_pos hline, restOfLine_append_break]
    exact fun _ => rfl
  rw [if_neg hline, if_neg hline]
  by_cases hcomment : (c = '/' && cs.head? = some '*') = true
  · rw [if_pos hcomment, if_pos hcomment]
    intro h
    simp only [Bool.and_eq_true, decide_eq_true_eq] at hcomment
    rw [tail_append_of_eq_cons cs (eq_cons_tail_of_head? hcomment.2), blockComment_append _ h]
  rw [if_neg hcomment, if_neg hcomment]
  by_cases hscript : (c = '<' && cs.head? = some '<') = true
  · rw [if_pos hscript, if_pos hscript]
    intro h
    simp only [Bool.and_eq_true, decide_eq_true_eq] at hscript
    rw [tail_append_of_eq_cons cs (eq_cons_tail_of_head? hscript.2), scriptBlock_append _ h]
  rw [if_neg hscript, if_neg hscript, stringWord_append_break, ← List.cons_append,
    numberWord_append_break, nameWord_append_break, symbolStep_append_break]
  exact fun _ => rfl

/-- At the start of a line the scanner sees the same before a break. -/
theorem lineStep_append_break (c : Char) (h : (lineStep c cs).1.isRunaway = false) :
    lineStep c (cs ++ '\n' :: rest) = lineStep c cs := by
  have hcode := opensCode_append_break cs rest c
  have hchoice : opensChoice (cs ++ '\n' :: rest) = opensChoice cs := by
    cases cs <;> rfl
  by_cases hopens : opensCode c cs = true
  · -- Only a line of code can run away, and then the step is one of code.
    rw [lineStep_of_opensCode hopens] at h ⊢
    rw [lineStep_of_opensCode (hcode.trans hopens), codeStep_append_break cs rest _ c h]
  · simp only [lineStep, hcode, hchoice, decide_head?_append_break cs rest (d := ':') (by decide), hopens,
      blanks_append_break, restOfLine_append_break,
      takeWhile_append_break cs rest (p := isInline) (by decide),
      takeWhile_append_break cs rest (p := isKeyChar) (by decide)]
    rfl

/-- A step sees the same before a break, in every mode, unless its lexeme runs away. -/
theorem step_append_break (mode : Mode) (c : Char) (h : (step mode c cs).1.isRunaway = false) :
    step mode c (cs ++ '\n' :: rest) = step mode c cs := by
  cases mode with
  | lineStart => exact lineStep_append_break cs rest c h
  | code s => exact codeStep_append_break cs rest s c h
  | metaValue => simp only [step, metaStep, blanks_append_break, restOfLine_append_break]
  | name s =>
    have hname : passageName (c :: (cs ++ '\n' :: rest)) = passageName (c :: cs) :=
      passageName_append_break (c :: cs) rest
    simp only [step, nameStep] at h ⊢
    by_cases hblank : isBlank c = true
    · rw [if_pos hblank, if_pos hblank, blanks_append_break]
    · rw [if_neg hblank] at h
      rw [if_neg hblank, if_neg hblank, hname]
      cases hp : passageName (c :: cs) with
      | nil =>
        rw [hp] at h
        exact codeStep_append_break cs rest s c h
      | cons d ds => rfl
  | display =>
    have htext : displayText (c :: (cs ++ '\n' :: rest)) = displayText (c :: cs) :=
      displayText_append_break (c :: cs) rest
    simp only [step, displayStep] at h ⊢
    by_cases hclose : c = ']'
    · rw [if_pos hclose, if_pos hclose]
    · rw [if_neg hclose] at h
      rw [if_neg hclose, if_neg hclose, htext]
      cases hd : displayText (c :: cs) with
      | mk raw text =>
        rw [hd] at h
        cases raw with
        | nil => exact codeStep_append_break cs rest _ c h
        | cons d ds => rfl
  | tags =>
    simp only [step, tagStep] at h ⊢
    by_cases hblank : isBlank c = true
    · rw [if_pos hblank, if_pos hblank, blanks_append_break]
    · rw [if_neg hblank] at h
      rw [if_neg hblank, if_neg hblank]
      by_cases hbreak : c = '\n'
      · rw [if_pos hbreak] at h
        rw [if_pos hbreak, if_pos hbreak]
        exact codeStep_append_break cs rest _ c h
      · rw [if_neg hbreak, if_neg hbreak, takeWhile_append_break cs rest (by decide)]

/-! ## Texts -/

/-- What a break does in a line of code. -/
theorem codeStep_break (s : CodeState) : codeStep s '\n' rest
    = if 0 < s.depth && !opensPassage rest then (gap ['\n'], .code s) else (lineFeed, .lineStart) := by
  rw [codeStep, if_neg (by decide), if_pos rfl]

/-- A break before a passage ends the line in every mode: whatever brackets are open do not count. -/
theorem step_break_of_opensPassage (mode : Mode) (h : opensPassage rest = true) :
    step mode '\n' rest = (lineFeed, .lineStart) := by
  have hcode : ∀ s : CodeState, codeStep s '\n' rest = (lineFeed, .lineStart) := by
    intro s
    simp [codeStep_break, h]
  cases mode with
  | lineStart => rfl
  | metaValue => rfl
  | code s => exact hcode s
  | name s => exact hcode s
  | display =>
    have hempty : displayText ('\n' :: rest) = ([], []) := by simp [displayText]
    rw [step, displayStep, if_neg (by decide), hempty]
    exact hcode _
  | tags =>
    rw [step, tagStep, if_neg (by decide), if_pos rfl]
    exact hcode _

/-- Where nothing runs away, what follows a break is scanned in a mode that does not depend on it. -/
theorem exists_scan_append_break (mode : Mode) (h : ∀ l ∈ scan mode cs, l.isRunaway = false) :
    ∃ next, ∀ rest, scan mode (cs ++ '\n' :: rest) = scan mode cs ++ scan next ('\n' :: rest) := by
  induction mode, cs using scan_induction with
  | nil mode => exact ⟨mode, fun rest => by rw [scan_nil, List.nil_append, List.nil_append]⟩
  | cons mode c cs ih =>
    have hlen := length_step_raw_le mode c cs
    rw [scan_cons, List.forall_mem_cons] at h
    obtain ⟨next, hnext⟩ := ih h.2
    refine ⟨next, fun rest => ?_⟩
    rw [List.cons_append, scan_cons, scan_cons, step_append_break cs rest mode c h.1,
      List.drop_append_of_le_length (by omega), hnext rest]
    rfl

/-- Scanning a text and then, after a break, a passage: the two parts are scanned apart. -/
theorem scan_append_break (mode : Mode) (h : ∀ l ∈ scan mode cs, l.isRunaway = false)
    (hrest : opensPassage rest = true) :
    scan mode (cs ++ '\n' :: rest) = scan mode cs ++ lineFeed :: scan .lineStart rest := by
  obtain ⟨next, hnext⟩ := exists_scan_append_break cs mode h
  rw [hnext rest, scan_cons, step_break_of_opensPassage rest next hrest]
  rfl

end

end Gamebook.Lexeme
