/-
# Gamebook.Proofs.Loop.Scan — cutting a text in loops

The scanner takes one lexeme after another and remembers a mode in between. This module cuts a text without modes, in
loops inside loops: over the lines of the text (`Cut.overText`), over the words of a line of code (`Cut.overCode`) and
of a list of tags (`Cut.overTags`), and over the characters of strings, comments and scripts (`overString`,
`overPair`). A lexeme moves the place in the text by its raw text and no further, so one without any raw text would
keep its loop where it is.

None does. Each loop takes at least one character each time around or leaves, on the characters that are left as its
budget, and together they cut the text as the scanner does (`Cut.run_overText`). What a loop has cut goes on as the
scanner would go on in some mode (`Cut.Continues`): this is all that has to be known of a loop to use it in another.
-/
import Gamebook.Proofs.Loop
import Gamebook.Proofs.Scan

namespace Gamebook.Lexeme

open Gamebook.Text (isBlank)
open Gamebook.Loop (again leave)

/-! ## Strings, comments and scripts -/

/-- A string after its opening quote: what has been read of it, its value so far and the text ahead. -/
structure Quote where
  raw : List Char
  value : List Char
  rest : List Char

/-- One time around the characters of a string. A backslash takes the character after it along, unless that ends the
line. -/
def overString : Loop Quote (List Char × Option (List Char)) := fun q =>
  match q.rest with
  | [] => leave (q.raw, none)
  | '\n' :: _ => leave (q.raw, none)
  | '"' :: _ => leave (q.raw ++ ['"'], some q.value)
  | '\\' :: c :: cs =>
    if c = '\n' then again ⟨q.raw ++ ['\\'], q.value ++ ['\\'], c :: cs⟩
    else again ⟨q.raw ++ ['\\', c], q.value ++ unescape c, cs⟩
  | c :: cs => again ⟨q.raw ++ [c], q.value ++ [c], cs⟩

/-- One time around the characters before a pair `a`, `b` that closes a comment or a script: what has been read and
the text ahead. The text before the pair is the result, if there is a pair. -/
def overPair (a b : Char) : Loop (List Char × List Char) (Option (List Char)) := fun (inside, rest) =>
  if [a, b].isPrefixOf rest then leave (some inside)
  else
    match rest with
    | [] => leave none
    | c :: cs => again (inside ++ [c], cs)

theorem overString_achieves : Loop.Achieves overString (fun q => q.rest.length) fun q r =>
    r = (q.raw ++ (stringBody q.rest).1, (stringBody q.rest).2.map (q.value ++ ·)) := by
  rintro ⟨raw, value, rest⟩
  fun_cases stringBody rest with
  | case1 => exact Loop.leads_of_leave (raw, none) rfl (by simp [stringBody])
  | case2 cs => exact Loop.leads_of_leave (raw, none) rfl (by simp [stringBody])
  | case3 cs => exact Loop.leads_of_leave (raw ++ ['"'], some value) rfl (by simp [stringBody])
  | case4 cs =>
    -- The line ends after the backslash, which is found out the next time around.
    refine Loop.leads_of_again ⟨raw ++ ['\\'], value ++ ['\\'], '\n' :: cs⟩ rfl (by simp) ?_
    rintro r rfl
    simp [stringBody]
  | case5 c cs hc raw' value' hbody =>
    refine Loop.leads_of_again ⟨raw ++ ['\\', c], value ++ unescape c, cs⟩ (if_neg hc) ?_ ?_
    · simp only [List.length_cons]
      omega
    · rintro r rfl
      simp [stringBody, hc, Function.comp_def]
  | case6 c cs hbreak hquote hslash raw' value' hbody =>
    refine Loop.leads_of_again ⟨raw ++ [c], value ++ [c], cs⟩ ?_ (by simp) ?_
    · simp only [overString]
    · rintro r rfl
      simp [stringBody, hbody, Function.comp_def]

theorem overPair_achieves (a b : Char) : Loop.Achieves (overPair a b) (fun p => p.2.length) fun p r =>
    r = (splitAtPair a b p.2).map fun s => p.1 ++ s.1 := by
  rintro ⟨inside, rest⟩
  fun_cases splitAtPair a b rest with
  | case1 => exact Loop.leads_of_leave none rfl rfl
  | case2 c =>
    refine Loop.leads_of_again (inside ++ [c], []) ?_ (by simp) ?_
    · simp [overPair]
    · rintro r rfl
      rfl
  | case3 c d cs hpair =>
    simp only [Bool.and_eq_true, decide_eq_true_eq] at hpair
    obtain ⟨rfl, rfl⟩ := hpair
    refine Loop.leads_of_leave (some inside) ?_ ?_
    · simp [overPair]
    · simp [splitAtPair]
  | case4 c d cs hpair =>
    refine Loop.leads_of_again (inside ++ [c], d :: cs) ?_ (by simp) ?_
    · have hne : ¬ [a, b].isPrefixOf (c :: d :: cs) = true := by
        simp only [List.isPrefixOf, Bool.and_eq_true, beq_iff_eq]
        rintro ⟨rfl, rfl, -⟩
        exact hpair (by simp)
      exact if_neg hne
    · rintro r rfl
      simp [splitAtPair, hpair, Function.comp_def]

/-- The string that a quote opens, read in a loop. -/
def stringWord? (cs : List Char) : Option Lexeme :=
  (Loop.run overString cs.length ⟨[], [], cs⟩).map fun
    | (raw, some value) => withText .string value ('"' :: raw)
    | (raw, none) => faulty .unterminatedString ('"' :: raw)

/-- The block comment that `/*` opens, read in a loop. -/
def blockComment? (cs : List Char) : Option Lexeme :=
  (Loop.run (overPair '*' '/') cs.length ([], cs)).map fun
    | some inside => plain .blockComment ('/' :: '*' :: (inside ++ ['*', '/']))
    | none => faulty .unterminatedComment ('/' :: '*' :: cs)

/-- The script block that `<<` opens, read in a loop. -/
def scriptBlock? (cs : List Char) : Option Lexeme :=
  (Loop.run (overPair '>' '>') cs.length ([], cs)).map fun
    | some inside => withText .script inside ('<' :: '<' :: (inside ++ ['>', '>']))
    | none => faulty .unterminatedScript ('<' :: '<' :: cs)

theorem stringWord?_eq (cs : List Char) : stringWord? cs = some (stringWord cs) := by
  obtain ⟨r, hrun, hr⟩ := overString_achieves.exists_run (s := ⟨[], [], cs⟩) (Nat.le_refl _)
  have hbody : r = stringBody cs := by simpa using hr
  rw [stringWord?, hrun, hbody]
  unfold stringWord
  cases stringBody cs with
  | mk raw value => cases value <;> rfl

theorem run_overPair (a b : Char) (cs : List Char) :
    Loop.run (overPair a b) cs.length ([], cs) = some ((splitAtPair a b cs).map Prod.fst) := by
  obtain ⟨r, hrun, hr⟩ := (overPair_achieves a b).exists_run (s := ([], cs)) (Nat.le_refl _)
  exact hrun.trans (congrArg some hr)

theorem blockComment?_eq (cs : List Char) : blockComment? cs = some (blockComment cs) := by
  rw [blockComment?, run_overPair, Option.map_some, blockComment]
  cases splitAtPair '*' '/' cs <;> rfl

theorem scriptBlock?_eq (cs : List Char) : scriptBlock? cs = some (scriptBlock cs) := by
  rw [scriptBlock?, run_overPair, Option.map_some, scriptBlock]
  cases splitAtPair '>' '>' cs <;> rfl

/-- The next word inside a line of code, with its own loop if it is a string, a comment or a script. -/
def codeWord? (s : CodeState) (c : Char) (cs : List Char) : Option (Lexeme × Mode) :=
  if c = '"' then return (← stringWord? cs, .code s)
  else if c = '/' && cs.head? = some '*' then return (← blockComment? cs.tail, .code s)
  else if c = '<' && cs.head? = some '<' then return (← scriptBlock? cs.tail, .code s)
  else some (codeStep s c cs)

theorem codeWord?_eq (s : CodeState) (c : Char) (cs : List Char) : codeWord? s c cs = some (codeStep s c cs) := by
  rw [codeWord?]
  by_cases hstring : c = '"'
  · rw [if_pos hstring, stringWord?_eq]
    simp [codeStep, hstring, isBlank]
  rw [if_neg hstring]
  by_cases hcomment : (c = '/' && cs.head? = some '*') = true
  · rw [if_pos hcomment, blockComment?_eq]
    simp only [Bool.and_eq_true, decide_eq_true_eq] at hcomment
    simp [codeStep, hcomment, isBlank]
  rw [if_neg hcomment]
  by_cases hscript : (c = '<' && cs.head? = some '<') = true
  · rw [if_pos hscript, scriptBlock?_eq]
    simp only [Bool.and_eq_true, decide_eq_true_eq] at hscript
    simp [codeStep, hscript, isBlank]
  rw [if_neg hscript]

/-! ## Cutting in loops -/

/-- A text that is cut up to some place: the lexemes so far and the text ahead. -/
structure Cut where
  done : List Lexeme
  rest : List Char

namespace Cut

/-- How many characters lie ahead. -/
def left (t : Cut) : Nat := t.rest.length

/-- Cuts off a lexeme. The place moves by its raw text. -/
def take (t : Cut) (l : Lexeme) : Cut := ⟨t.done ++ [l], t.rest.drop l.raw.length⟩

/-- Cuts off the blanks ahead, if there are any. -/
def skipBlanks (t : Cut) : Cut :=
  match t.rest with
  | c :: cs => if isBlank c then t.take (blanks c cs) else t
  | [] => t

/-- Cuts off a passage name, if there is one. -/
def takeName (t : Cut) : Cut :=
  match passageName t.skipBlanks.rest with
  | [] => t.skipBlanks
  | word => t.skipBlanks.take (plain .identifier word)

/-- The text of a choice as a lexeme. -/
def displayLexeme (raw text : List Char) : Lexeme :=
  match Text.trim text with
  | [] => gap raw
  | trimmed => withText .text trimmed raw

/-- Cuts off the text of a choice up to its closing bracket or the end of the line. -/
def takeText (t : Cut) : Cut :=
  match displayText t.rest with
  | ([], _) => t
  | (raw, text) => t.take (displayLexeme raw text)

/-- Cuts off a closing square bracket, if there is one. -/
def takeClosing (t : Cut) : Cut :=
  match t.rest with
  | ']' :: _ => t.take (plain (.closing .square) [']'])
  | _ => t

/-- Cuts off the value after a metadata key, if there is one. -/
def takeValue (t : Cut) : Cut :=
  match t.skipBlanks.rest with
  | [] => t.skipBlanks
  | c :: cs =>
    if c = '\n' then t.skipBlanks
    else
      match Text.trimEnd (restOfLine c cs) with
      | [] => t.skipBlanks.take (gap (restOfLine c cs))
      | value => t.skipBlanks.take (withText .text value (restOfLine c cs))

/-- One time around the words of a list of tags. -/
def overTags : Loop Cut Cut := fun t =>
  match t.skipBlanks.rest with
  | [] => leave t.skipBlanks
  | c :: cs =>
    if c = '\n' then leave t.skipBlanks
    else if c = ']' then leave (t.skipBlanks.take (plain (.closing .square) [']']))
    else
      again (t.skipBlanks.take
        (plain .identifier (c :: cs.takeWhile fun d => !isBlank d && d ≠ ']' && isInline d)))

/-- One time around the words of a line of code. An arrow takes the name after it along, and a bracket the text of
the choice or the tags. -/
def overCode : Loop (CodeState × Cut) Cut := fun (s, t) =>
  match t.skipBlanks.rest with
  | [] => leave t.skipBlanks
  | c :: cs => do
    let (l, mode) ← codeWord? s c cs
    let t := t.skipBlanks.take l
    match mode with
    | .code s => again (s, t)
    | .name s => again (s, t.takeName)
    | .display => again ({ CodeState.begin .choice with displayed := true }, t.takeText.takeClosing)
    | .tags =>
      let t ← Loop.run overTags t.left t
      again (.begin .passage, t)
    | .lineStart | .metaValue => leave t

/-- Cuts off a line of code from the state `s` on. -/
def takeCode? (s : CodeState) (t : Cut) : Option Cut := Loop.run overCode t.left (s, t)

/-- Cuts off a line. -/
def takeLine? (t : Cut) : Option Cut :=
  match t.skipBlanks.rest with
  | [] => some t.skipBlanks
  | c :: cs =>
    if opensCode c cs then t.skipBlanks.takeCode? (.begin .statement)
    else
      let (l, mode) := lineStep c cs
      let t := t.skipBlanks.take l
      match mode with
      | .code s => t.takeCode? s
      | .name s => t.takeName.takeCode? s
      | .metaValue => some t.takeValue
      | .lineStart | .display | .tags => some t

/-- One time around the lines of a text. -/
def overText : Loop Cut (List Lexeme) := fun t =>
  match t.rest with
  | [] => leave t.done
  | _ :: _ => do again (← t.takeLine?)

/-! ## Each loop takes something each time around -/

/-- The scanner goes on after `t'` in the mode `next` as it does after `t` in the mode `mode`, and no less of the text
has been cut. -/
structure Continues (mode next : Mode) (t t' : Cut) : Prop where
  left_le : t'.left ≤ t.left
  scan_eq : t'.done ++ scan next t'.rest = t.done ++ scan mode t.rest

variable {mode next last : Mode} {t t' t'' : Cut}

theorem Continues.trans (h : Continues mode next t t') (h' : Continues next last t' t'') :
    Continues mode last t t'' :=
  ⟨Nat.le_trans h'.left_le h.left_le, h'.scan_eq.trans h.scan_eq⟩

/-- In another mode the scanner may go on in the same way. -/
theorem continues_of_step {c : Char} {cs : List Char} (hrest : t.rest = c :: cs)
    (hstep : step mode c cs = step next c cs) : Continues mode next t t := by
  refine ⟨Nat.le_refl _, ?_⟩
  rw [hrest, scan_cons, scan_cons, hstep]

theorem continues_of_nil (hrest : t.rest = []) (mode next : Mode) : Continues mode next t t := by
  refine ⟨Nat.le_refl _, ?_⟩
  rw [hrest, scan_nil, scan_nil]

/-- **Cutting off a lexeme as the scanner does takes at least one character.** -/
theorem continues_take {c : Char} {cs : List Char} {l : Lexeme} (hrest : t.rest = c :: cs)
    (hstep : step mode c cs = (l, next)) : Continues mode next t (t.take l) ∧ (t.take l).left < t.left := by
  have hraw : l.raw ≠ [] := by
    have := step_raw_ne_nil mode c cs
    rwa [hstep] at this
  have hsplit : c :: cs = l.raw ++ (c :: cs).drop l.raw.length := by
    have hprefix := step_raw_isPrefix mode c cs
    rw [hstep, List.prefix_iff_eq_append] at hprefix
    exact hprefix.symm
  have hlt : (t.take l).left < t.left := by
    have hlength := List.length_pos_iff.mpr hraw
    show (t.rest.drop l.raw.length).length < t.rest.length
    rw [List.length_drop, hrest, List.length_cons]
    omega
  refine ⟨⟨Nat.le_of_lt hlt, ?_⟩, hlt⟩
  show (t.done ++ [l]) ++ scan next (t.rest.drop l.raw.length) = t.done ++ scan mode t.rest
  rw [hrest, scan_step hstep hsplit, List.append_assoc, List.singleton_append]

/-- Blanks are a gap in every mode but inside the brackets of a choice. -/
theorem continues_skipBlanks (hmode : mode ≠ .display) (t : Cut) : Continues mode mode t t.skipBlanks := by
  have hself : Continues mode mode t t := ⟨Nat.le_refl _, rfl⟩
  unfold skipBlanks
  split
  · next c cs hrest =>
    split
    · next hblank =>
      refine (continues_take hrest ?_).1
      cases mode with
      | display => exact absurd rfl hmode
      | _ => simp [step, lineStep, metaStep, codeStep, nameStep, tagStep, hblank]
    · exact hself
  · exact hself

theorem isBlank_skipBlanks {c : Char} {cs : List Char} (h : t.skipBlanks.rest = c :: cs) : isBlank c = false := by
  unfold skipBlanks at h
  split at h
  · next d ds hrest =>
    split at h
    · -- What stands behind all blanks is no blank.
      have hdrop : ds.dropWhile isBlank = c :: cs := by
        rw [← drop_length_takeWhile]
        simpa [take, blanks, gap, hrest] using h
      have := List.head?_dropWhile_not isBlank ds
      rw [hdrop] at this
      simpa using this
    · next hblank =>
      rw [hrest, List.cons.injEq] at h
      rw [← h.1]
      exact Bool.eq_false_iff.mpr hblank
  · next hrest =>
    rw [hrest] at h
    cases h

theorem continues_takeName (s : CodeState) (t : Cut) : Continues (.name s) (.code s) t t.takeName := by
  have hblanks : Continues (.name s) (.name s) t t.skipBlanks := continues_skipBlanks (by simp) t
  unfold takeName
  cases hrest : t.skipBlanks.rest with
  | nil => exact hblanks.trans (continues_of_nil hrest _ _)
  | cons c cs =>
    have hblank := isBlank_skipBlanks hrest
    split
    · next hname =>
      refine hblanks.trans (continues_of_step hrest ?_)
      simp [step, nameStep, hblank, hname]
    · next hname =>
      refine hblanks.trans (continues_take hrest ?_).1
      show nameStep s c cs = _
      rw [nameStep, if_neg (by simp [hblank])]
      split
      · next hnone => exact absurd hnone hname
      · rfl

/-- Behind the text of a choice comes its closing bracket or the end of the line. -/
theorem drop_displayText (cs : List Char) :
    ∀ c ∈ (cs.drop (displayText cs).1.length).head?, c = '\n' ∨ c = ']' := by
  fun_induction displayText cs with
  | case1 => simp
  | case2 c cs hc raw text hrest ih => simpa [hrest] using ih
  | case3 c cs hc raw text hrest ih => simpa [hrest] using ih
  | case4 c cs h hc => simpa using hc
  | case5 c cs h hc raw text hrest ih => simpa [hrest] using ih

theorem continues_takeText (t : Cut) : Continues .display .display t t.takeText := by
  have hself : Continues .display .display t t := ⟨Nat.le_refl _, rfl⟩
  unfold takeText
  split
  · exact hself
  · next raw text hne hread =>
    cases hrest : t.rest with
    | nil =>
      rw [hrest, displayText, Prod.mk.injEq] at hread
      exact absurd hread.1.symm hne
    | cons c cs =>
      rw [hrest] at hread
      have hclose : c ≠ ']' := by
        rintro rfl
        have hnone : displayText (']' :: cs) = ([], []) := by simp [displayText]
        rw [hnone, Prod.mk.injEq] at hread
        exact hne hread.1.symm
      refine (continues_take hrest ?_).1
      show displayStep c cs = _
      simp only [displayStep, if_neg hclose, hread, displayLexeme]
      cases Text.trim text <;> rfl

/-- The scanner stays inside the brackets of a choice until the closing one; at the end of the line it goes on as
behind it. -/
theorem continues_takeClosing (hrest : ∀ c ∈ t.rest.head?, c = '\n' ∨ c = ']') :
    Continues .display (.code { CodeState.begin .choice with displayed := true }) t t.takeClosing := by
  unfold takeClosing
  split
  · next cs hclose => exact (continues_take hclose (by simp [step, displayStep])).1
  · next hopen =>
    cases hcs : t.rest with
    | nil => exact continues_of_nil hcs _ _
    | cons c cs =>
      rw [hcs] at hrest hopen
      rcases hrest c rfl with rfl | rfl
      · refine continues_of_step hcs ?_
        simp [step, displayStep, displayText]
      · exact absurd rfl (hopen cs)

theorem head?_rest_takeText (t : Cut) : ∀ c ∈ t.takeText.rest.head?, c = '\n' ∨ c = ']' := by
  have hdrop := drop_displayText t.rest
  have hraw : ∀ raw text, (displayLexeme raw text).raw = raw := by
    intro raw text
    rw [displayLexeme]
    split <;> rfl
  unfold takeText
  split
  · next hread =>
    rw [hread] at hdrop
    exact hdrop
  · next raw text hne hread =>
    rw [hread] at hdrop
    show ∀ c ∈ (t.rest.drop (displayLexeme raw text).raw.length).head?, _
    rw [hraw]
    exact hdrop

theorem continues_takeValue (t : Cut) : Continues .metaValue .lineStart t t.takeValue := by
  have hblanks : Continues .metaValue .metaValue t t.skipBlanks := continues_skipBlanks (by simp) t
  unfold takeValue
  split
  · next hrest => exact hblanks.trans (continues_of_nil hrest _ _)
  · next c cs hrest =>
    have hblank := isBlank_skipBlanks hrest
    split
    · next hbreak =>
      refine hblanks.trans (continues_of_step hrest ?_)
      simp [step, metaStep, lineStep, hbreak, isBlank]
    · next hbreak =>
      split
      · next hnone =>
        refine hblanks.trans (continues_take hrest ?_).1
        simp [step, metaStep, hblank, hbreak, hnone]
      · next hvalue =>
        refine hblanks.trans (continues_take hrest ?_).1
        show metaStep c cs = _
        rw [metaStep, if_neg (by simp [hblank]), if_neg hbreak]
        dsimp only
        split
        · next hnone => exact absurd hnone hvalue
        · rfl

theorem overTags_achieves : Loop.Achieves overTags left (Continues .tags (.code (.begin .passage))) := by
  intro t
  have hblanks : Continues .tags .tags t t.skipBlanks := continues_skipBlanks (by simp) t
  cases hrest : t.skipBlanks.rest with
  | nil =>
    refine Loop.leads_of_leave t.skipBlanks ?_ (hblanks.trans (continues_of_nil hrest _ _))
    simp only [overTags, hrest]
  | cons c cs =>
    have hblank := isBlank_skipBlanks hrest
    by_cases hbreak : c = '\n'
    · refine Loop.leads_of_leave t.skipBlanks ?_ (hblanks.trans (continues_of_step hrest ?_))
      · simp only [overTags, hrest, if_pos hbreak]
      · simp [step, tagStep, hbreak, isBlank]
    · by_cases hclose : c = ']'
      · refine Loop.leads_of_leave (t.skipBlanks.take (plain (.closing .square) [']'])) ?_
          (hblanks.trans (continues_take hrest ?_).1)
        · simp only [overTags, hrest, if_neg hbreak, if_pos hclose]
        · simp [step, tagStep, hclose, isBlank]
      · have hstep : step .tags c cs
            = (plain .identifier (c :: cs.takeWhile fun d => !isBlank d && d ≠ ']' && isInline d), .tags) := by
          simp [step, tagStep, hblank, hbreak, hclose]
        obtain ⟨htake, hlt⟩ := continues_take hrest hstep
        refine Loop.leads_of_again _ ?_ (Nat.lt_of_lt_of_le hlt hblanks.left_le) fun r hr =>
          (hblanks.trans htake).trans hr
        simp only [overTags, hrest, if_neg hbreak, if_neg hclose]

/-- A line of code goes on with code, ends, or comes to a name, a choice or tags. -/
theorem codeStep_mode_ne (s : CodeState) (c : Char) (cs : List Char) : (codeStep s c cs).2 ≠ .metaValue := by
  apply codeStep_cases (P := fun r => r.2 ≠ .metaValue)
  case symbol =>
    intro _ _ _
    rw [symbolStep]
    split <;> simp
  all_goals
    intros
    simp

/-- A line of code has been cut to its end, and if there was any text, something has been cut off. -/
def CutsLine (p : CodeState × Cut) (t' : Cut) : Prop :=
  Continues (.code p.1) .lineStart p.2 t' ∧ (p.2.rest ≠ [] → t'.left < p.2.left)

theorem overCode_achieves : Loop.Achieves overCode (fun p => p.2.left) CutsLine := by
  rintro ⟨s, t⟩
  have hblanks : Continues (.code s) (.code s) t t.skipBlanks := continues_skipBlanks (by simp) t
  cases hrest : t.skipBlanks.rest with
  | nil =>
    refine Loop.leads_of_leave t.skipBlanks ?_ ⟨hblanks.trans (continues_of_nil hrest _ _), fun hne => ?_⟩
    · simp only [overCode, hrest]
    · show t.skipBlanks.rest.length < t.rest.length
      rw [hrest]
      exact List.length_pos_iff.mpr hne
  | cons c cs =>
    cases hcode : codeStep s c cs with
    | mk l next =>
      obtain ⟨htake, hlt⟩ : Continues (.code s) next t.skipBlanks (t.skipBlanks.take l) ∧ _ :=
        continues_take hrest hcode
      have htake := hblanks.trans htake
      have hlt : (t.skipBlanks.take l).left < t.left := Nat.lt_of_lt_of_le hlt hblanks.left_le
      -- Going on from a place at or behind the one after the word is good.
      have hagain : ∀ s' t', overCode (s, t) = again (s', t') →
          Continues next (.code s') (t.skipBlanks.take l) t' →
          ∃ o, overCode (s, t) = some o ∧ Loop.Leads (fun p => p.2.left) CutsLine (s, t) o := by
        intro s' t' hbody hnext
        have hlt' : t'.left < t.left := Nat.lt_of_le_of_lt hnext.left_le hlt
        exact Loop.leads_of_again (s', t') hbody hlt' fun r hr =>
          ⟨(htake.trans hnext).trans hr.1, fun _ => Nat.lt_of_le_of_lt hr.1.left_le hlt'⟩
      cases next with
      | code s' => exact hagain s' _ (by simp [overCode, hrest, codeWord?_eq, hcode]) ⟨Nat.le_refl _, rfl⟩
      | name s' => exact hagain s' _ (by simp [overCode, hrest, codeWord?_eq, hcode]) (continues_takeName s' _)
      | display =>
        exact hagain _ _ (by simp [overCode, hrest, codeWord?_eq, hcode])
          ((continues_takeText _).trans (continues_takeClosing (head?_rest_takeText _)))
      | tags =>
        obtain ⟨t', hrun, ht'⟩ := overTags_achieves.exists_run (Nat.le_refl (t.skipBlanks.take l).left)
        exact hagain _ t' (by simp [overCode, hrest, codeWord?_eq, hcode, hrun]) ht'
      | lineStart =>
        exact Loop.leads_of_leave _ (by simp [overCode, hrest, codeWord?_eq, hcode]) ⟨htake, fun _ => hlt⟩
      | metaValue => exact absurd (congrArg Prod.snd hcode) (codeStep_mode_ne s c cs)

theorem exists_takeCode? (s : CodeState) (t : Cut) : ∃ t', t.takeCode? s = some t' ∧ CutsLine (s, t) t' :=
  overCode_achieves.exists_run (s := (s, t)) (Nat.le_refl _)

/-- Only code comes to the text of a choice or to tags. -/
theorem lineStep_mode_ne {c : Char} {cs : List Char} (h : opensCode c cs = false) :
    (lineStep c cs).2 ≠ .display ∧ (lineStep c cs).2 ≠ .tags := by
  unfold lineStep
  simp only [h, Bool.false_eq_true, if_false]
  repeat' split
  all_goals simp

/-- **Every line takes something of the text.** -/
theorem exists_takeLine? (t : Cut) (hne : t.rest ≠ []) :
    ∃ t', t.takeLine? = some t' ∧ Continues .lineStart .lineStart t t' ∧ t'.left < t.left := by
  have hblanks : Continues .lineStart .lineStart t t.skipBlanks := continues_skipBlanks (by simp) t
  cases hrest : t.skipBlanks.rest with
  | nil =>
    refine ⟨t.skipBlanks, ?_, hblanks, ?_⟩
    · simp only [takeLine?, hrest]
    · show t.skipBlanks.rest.length < t.rest.length
      rw [hrest]
      exact List.length_pos_iff.mpr hne
  | cons c cs =>
    by_cases hopens : opensCode c cs = true
    · obtain ⟨t', hrun, hcut, hlt⟩ := t.skipBlanks.exists_takeCode? (.begin .statement)
      have hcode : Continues .lineStart (.code (.begin .statement)) t.skipBlanks t.skipBlanks :=
        continues_of_step hrest (lineStep_of_opensCode hopens)
      have hlt := hlt (by simp [hrest])
      refine ⟨t', ?_, (hblanks.trans hcode).trans hcut, Nat.lt_of_lt_of_le hlt hblanks.left_le⟩
      simp only [takeLine?, hrest, if_pos hopens, hrun]
    · have hmode := lineStep_mode_ne (Bool.eq_false_iff.mpr hopens)
      cases hstep : lineStep c cs with
      | mk l next =>
        rw [hstep] at hmode
        obtain ⟨htake, hlt⟩ : Continues .lineStart next t.skipBlanks (t.skipBlanks.take l) ∧ _ :=
          continues_take hrest hstep
        have htake := hblanks.trans htake
        have hlt : (t.skipBlanks.take l).left < t.left := Nat.lt_of_lt_of_le hlt hblanks.left_le
        cases next with
        | code s =>
          obtain ⟨t', hrun, hcut, -⟩ := (t.skipBlanks.take l).exists_takeCode? s
          refine ⟨t', ?_, htake.trans hcut, Nat.lt_of_le_of_lt hcut.left_le hlt⟩
          simp only [takeLine?, hrest, if_neg hopens, hstep, hrun]
        | name s =>
          have hname := continues_takeName s (t.skipBlanks.take l)
          obtain ⟨t', hrun, hcut, -⟩ := (t.skipBlanks.take l).takeName.exists_takeCode? s
          have hcut := hname.trans hcut
          refine ⟨t', ?_, htake.trans hcut, Nat.lt_of_le_of_lt hcut.left_le hlt⟩
          simp only [takeLine?, hrest, if_neg hopens, hstep, hrun]
        | metaValue =>
          have hvalue := continues_takeValue (t.skipBlanks.take l)
          refine ⟨_, ?_, htake.trans hvalue, Nat.lt_of_le_of_lt hvalue.left_le hlt⟩
          simp only [takeLine?, hrest, if_neg hopens, hstep]
        | lineStart =>
          refine ⟨_, ?_, htake, hlt⟩
          simp only [takeLine?, hrest, if_neg hopens, hstep]
        | display => exact absurd rfl hmode.1
        | tags => exact absurd rfl hmode.2

theorem overText_achieves :
    Loop.Achieves overText left fun t ls => ls = t.done ++ scan .lineStart t.rest := by
  intro t
  cases hrest : t.rest with
  | nil =>
    refine Loop.leads_of_leave t.done ?_ ?_
    · simp only [overText, hrest]
    · rw [hrest, scan_nil, List.append_nil]
  | cons c cs =>
    obtain ⟨t', hline, hcut, hlt⟩ := t.exists_takeLine? (by simp [hrest])
    refine Loop.leads_of_again t' ?_ hlt fun ls hls => hls.trans hcut.scan_eq
    simp [overText, hrest, hline]

/-- **Cutting in loops gives the lexemes of the text.** -/
theorem run_overText (cs : List Char) : Loop.run overText cs.length ⟨[], cs⟩ = some (scan .lineStart cs) := by
  obtain ⟨ls, hrun, hls⟩ := overText_achieves.exists_run (s := ⟨[], cs⟩) (Nat.le_refl _)
  rw [List.nil_append] at hls
  rw [← hls]
  exact hrun

end Cut

end Gamebook.Lexeme
