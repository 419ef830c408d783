/-
# Gamebook.Proofs.Scan — what one step of the scanner takes

The lexeme of a step is a beginning of the text ahead: `step_raw_isPrefix` says so for every mode, from one
lemma for each kind of word. What a step can be at all is said once for each mode, from `codeStep_cases`
to `tagStep_cases`; whatever is to hold of every lexeme is proved through them.
-/
import Gamebook.Lexed
import Gamebook.Proofs.Text

namespace Gamebook.Lexeme

open Gamebook.Text (isBlank)

/-! ## Words are beginnings of the text -/

/-- Splitting at a pair loses nothing, and what comes first holds no pair, not even one that its end and
the pair itself would make. -/
theorem splitAtPair_eq_some {a b : Char} {cs inside rest : List Char}
    (h : splitAtPair a b cs = some (inside, rest)) :
    (∃ tail, rest = a :: b :: tail) ∧ cs = inside ++ rest ∧ ¬ [a, b] <:+: inside ++ [a] := by
  induction cs generalizing inside rest with
  | nil => simp [splitAtPair] at h
  | cons c cs ih =>
    cases cs with
    | nil => simp [splitAtPair] at h
    | cons d cs =>
      rw [splitAtPair] at h
      by_cases hpair : (c = a && d = b) = true
      · rw [if_pos hpair] at h
        simp only [Bool.and_eq_true, decide_eq_true_eq] at hpair
        obtain ⟨rfl, rfl⟩ := hpair
        simp only [Option.some.injEq, Prod.mk.injEq] at h
        obtain ⟨rfl, rfl⟩ := h
        refine ⟨⟨cs, rfl⟩, rfl, ?_⟩
        -- Nothing comes first, and one character cannot hold a pair.
        intro hin
        have := hin.length_le
        simp at this
      · rw [if_neg hpair] at h
        cases hs : splitAtPair a b (d :: cs) with
        | none => simp [hs] at h
        | some r =>
          obtain ⟨inside', rest'⟩ := r
          simp only [hs, Option.map_some, Option.some.injEq, Prod.mk.injEq] at h
          obtain ⟨rfl, rfl⟩ := h
          obtain ⟨⟨tail, htail⟩, hcs, hno⟩ := ih hs
          refine ⟨⟨tail, htail⟩, by rw [hcs, List.cons_append], ?_⟩
          rw [List.cons_append, List.infix_cons_iff, not_or]
          refine ⟨?_, hno⟩
          -- The two characters at the front were looked at and are no pair.
          intro hpre
          rw [List.cons_prefix_cons] at hpre
          obtain ⟨rfl, hpre⟩ := hpre
          apply hpair
          simp only [Bool.and_eq_true, decide_eq_true_eq, true_and]
          cases inside' with
          | nil =>
            rw [htail] at hcs
            simp only [List.nil_append, List.cons.injEq] at hcs
            simp only [List.nil_append, List.cons_prefix_cons] at hpre
            rw [hcs.1, hpre.1]
          | cons e inside' =>
            simp only [List.cons_append, List.cons_prefix_cons] at hpre
            simp only [List.cons_append, List.cons.injEq] at hcs
            rw [hcs.1, hpre.1]

theorem blockComment_raw_isPrefix (cs : List Char) : (blockComment cs).raw <+: '/' :: '*' :: cs := by
  rw [blockComment]
  cases h : splitAtPair '*' '/' cs with
  | none => exact List.prefix_refl _
  | some r =>
    obtain ⟨inside, rest⟩ := r
    obtain ⟨⟨tail, rfl⟩, rfl, -⟩ := splitAtPair_eq_some h
    exact ⟨tail, by simp [plain]⟩

theorem scriptBlock_raw_isPrefix (cs : List Char) : (scriptBlock cs).raw <+: '<' :: '<' :: cs := by
  rw [scriptBlock]
  cases h : splitAtPair '>' '>' cs with
  | none => exact List.prefix_refl _
  | some r =>
    obtain ⟨inside, rest⟩ := r
    obtain ⟨⟨tail, rfl⟩, rfl, -⟩ := splitAtPair_eq_some h
    exact ⟨tail, by simp [withText]⟩

theorem stringBody_raw_isPrefix (cs : List Char) : (stringBody cs).1 <+: cs := by
  fun_induction stringBody cs with
  | case1 => exact List.prefix_refl _
  | case2 => exact List.nil_prefix
  | case3 => exact ⟨_, rfl⟩
  | case4 cs => exact ⟨_, rfl⟩
  | case5 c cs hc raw value hbody ih =>
    rw [hbody] at ih
    simpa [List.cons_prefix_cons] using ih
  | case6 c cs h1 h2 h3 raw value hbody ih =>
    rw [hbody] at ih
    simpa [List.cons_prefix_cons] using ih

theorem stringWord_raw_isPrefix (cs : List Char) : (stringWord cs).raw <+: '"' :: cs := by
  have h := stringBody_raw_isPrefix cs
  rw [stringWord]
  split
  · next raw value hbody =>
    rw [hbody] at h
    exact List.cons_prefix_cons.mpr ⟨rfl, h⟩
  · next raw hbody =>
    rw [hbody] at h
    exact List.cons_prefix_cons.mpr ⟨rfl, h⟩

theorem numberWord_raw_isPrefix (cs : List Char) : (numberWord cs).raw <+: cs := by
  have hwhole : cs.takeWhile isDigit ++ cs.dropWhile isDigit = cs := List.takeWhile_append_dropWhile
  have hinteger : (numberWord.integer (cs.takeWhile isDigit)).raw = cs.takeWhile isDigit := by
    rw [numberWord.integer]
    split <;> rfl
  rw [numberWord]
  split
  · next d rest hdrop =>
    split
    · rw [hdrop] at hwhole
      refine ⟨rest.dropWhile isDigit, ?_⟩
      calc cs.takeWhile isDigit ++ '.' :: d :: rest.takeWhile isDigit ++ rest.dropWhile isDigit
          = cs.takeWhile isDigit ++ '.' :: d :: (rest.takeWhile isDigit ++ rest.dropWhile isDigit) := by
            simp
        _ = cs := by rw [List.takeWhile_append_dropWhile, hwhole]
    · rw [hinteger]
      exact List.takeWhile_prefix _
  · rw [hinteger]
    exact List.takeWhile_prefix _

theorem nameWord_raw (cs : List Char) : (nameWord cs).raw = cs.takeWhile isNameChar := by
  rw [nameWord]
  split <;> rfl

/-- What a number can be. -/
theorem numberWord_cases {P : Lexeme → Prop} (cs : List Char)
    (integer : ∀ n raw, n ≤ maxInteger → P (withValue .number (.int (Int64.ofNat n)) raw))
    (decimal : ∀ f raw, P (withValue .number (.float f) raw))
    (fault : ∀ text raw, P (faulty (.invalidNumber text) raw)) : P (numberWord cs) := by
  have hinteger : ∀ ds, P (numberWord.integer ds) := by
    intro ds
    rw [numberWord.integer]
    split
    · next h => exact integer _ ds h
    · exact fault _ ds
  rw [numberWord]
  split
  · split
    · exact decimal _ _
    · exact hinteger _
  · exact hinteger _

/-- What a word of name characters can be. -/
theorem nameWord_cases {P : Lexeme → Prop} (cs : List Char)
    (bool : ∀ b raw, P (withValue (.boolean b) (.bool b) raw))
    (keyword : ∀ kind raw, kind = .operator .and ∨ kind = .operator .or ∨ kind = .bang → P (plain kind raw))
    (name : keyword? (cs.takeWhile isNameChar) = none → P (plain .identifier (cs.takeWhile isNameChar))) :
    P (nameWord cs) := by
  have hkinds : ∀ word kind, keyword? word = some kind →
      (∃ b, kind = .boolean b) ∨ kind = .operator .and ∨ kind = .operator .or ∨ kind = .bang := by
    intro word kind hkind
    unfold keyword? at hkind
    repeat' split at hkind
    all_goals
      cases hkind
      try simp
  simp only [nameWord]
  split
  · exact bool _ _
  · next kind hbool hkind =>
    rcases hkinds _ kind hkind with ⟨b, rfl⟩ | hkeyword
    · exact absurd rfl (hbool b)
    · exact keyword kind _ hkeyword
  · next hnone => exact name hnone

theorem nameRun_isPrefix (cs : List Char) : nameRun cs <+: cs := by
  induction cs with
  | nil => exact List.prefix_refl _
  | cons c cs ih =>
    rw [nameRun]
    split
    · exact List.nil_prefix
    · split
      · exact List.nil_prefix
      · exact List.cons_prefix_cons.mpr ⟨rfl, ih⟩

theorem passageName_isPrefix (cs : List Char) : passageName cs <+: cs :=
  (Text.dropEndWhile_isPrefix _ _).trans (nameRun_isPrefix cs)

theorem displayText_raw_isPrefix (cs : List Char) : (displayText cs).1 <+: cs := by
  fun_induction displayText cs with
  | case1 => exact List.prefix_refl _
  | case2 c cs hc raw text hrest ih =>
    rw [hrest] at ih
    simpa [List.cons_prefix_cons] using ih
  | case3 c cs hc raw text hrest ih =>
    rw [hrest] at ih
    exact List.cons_prefix_cons.mpr ⟨rfl, ih⟩
  | case4 c cs h hc => exact List.nil_prefix
  | case5 c cs h hc raw text hrest ih =>
    rw [hrest] at ih
    exact List.cons_prefix_cons.mpr ⟨rfl, ih⟩

theorem symbol?_isPrefix {cs spelling : List Char} {kind : TokenKind}
    (h : symbol? cs = some (spelling, kind)) : spelling <+: cs := by
  have hstarts := List.find?_some h
  exact List.isPrefixOf_iff_prefix.mp hstarts

/-! ## Steps -/

theorem takeWhile_cons_isPrefix (p : Char → Bool) (c : Char) (cs : List Char) :
    c :: cs.takeWhile p <+: c :: cs :=
  List.cons_prefix_cons.mpr ⟨rfl, List.takeWhile_prefix p⟩

/-- A text whose second character is known. -/
theorem eq_cons_tail_of_head? {d : Char} {cs : List Char} (h : cs.head? = some d) :
    cs = d :: cs.tail := by
  cases cs with
  | nil => cases h
  | cons e cs =>
    cases h
    rfl

theorem symbolStep_raw_isPrefix (s : CodeState) (c : Char) (cs : List Char) :
    (symbolStep s c cs).1.raw <+: c :: cs := by
  rw [symbolStep]
  split
  · next spelling kind h => exact symbol?_isPrefix h
  · exact takeWhile_cons_isPrefix _ c cs

/-- What a step inside a line of code can be: whatever holds of every outcome, under the condition that
leads to it, holds of the step. -/
theorem codeStep_cases {P : Lexeme × Mode → Prop} (s : CodeState) (c : Char) (cs : List Char)
    (blank : isBlank c = true → P (blanks c cs, .code s))
    (folded : c = '\n' → 0 < s.depth → opensPassage cs = false → P (gap ['\n'], .code s))
    (ended : c = '\n' → (s.depth = 0 ∨ opensPassage cs = true) → P (lineFeed, .lineStart))
    (lineComment : c = '/' → cs.head? = some '/' → P (plain .lineComment (restOfLine c cs), .code s))
    (comment : c = '/' → cs = '*' :: cs.tail → P (blockComment cs.tail, .code s))
    (script : c = '<' → cs = '<' :: cs.tail → P (scriptBlock cs.tail, .code s))
    (arrow : c = '-' → cs = '>' :: cs.tail → P (plain .arrow ['-', '>'], .name s))
    (string : c = '"' → P (stringWord cs, .code s))
    (number : isDigit c = true → P (numberWord (c :: cs), .code s))
    (name : isNameStart c = true → P (nameWord (c :: cs), .code s))
    (display : c = '[' → s.line = .choice → s.depth = 0 → P (plain (.opening .square) ['['], .display))
    (tags : c = '[' → s.line = .passage → s.depth = 0 → P (plain (.opening .square) ['['], .tags))
    (symbol : isBlank c = false → c ≠ '\n' →
      (c = '[' → s.line = .choice → s.depth = 0 → s.displayed = true) → P (symbolStep s c cs)) :
    P (codeStep s c cs) := by
  rw [codeStep]
  by_cases hblank : isBlank c = true
  · rw [if_pos hblank]
    exact blank hblank
  rw [if_neg hblank]
  by_cases hbreak : c = '\n'
  · rw [if_pos hbreak]
    by_cases hopen : (0 < s.depth && !opensPassage cs) = true
    · rw [if_pos hopen]
      simp only [Bool.and_eq_true, decide_eq_true_eq, Bool.not_eq_true'] at hopen
      exact folded hbreak hopen.1 hopen.2
    · rw [if_neg hopen]
      simp only [Bool.and_eq_true, decide_eq_true_eq, Bool.not_eq_true', not_and,
        Bool.not_eq_false] at hopen
      refine ended hbreak ?_
      rcases Nat.eq_zero_or_pos s.depth with h | h
      · exact Or.inl h
      · exact Or.inr (hopen h)
  rw [if_neg hbreak]
  by_cases h : (c = '/' && cs.head? = some '/') = true
  · rw [if_pos h]
    simp only [Bool.and_eq_true, decide_eq_true_eq] at h
    exact lineComment h.1 h.2
  rw [if_neg h]
  by_cases h : (c = '/' && cs.head? = some '*') = true
  · rw [if_pos h]
    simp only [Bool.and_eq_true, decide_eq_true_eq] at h
    exact comment h.1 (eq_cons_tail_of_head? h.2)
  rw [if_neg h]
  by_cases h : (c = '<' && cs.head? = some '<') = true
  · rw [if_pos h]
    simp only [Bool.and_eq_true, decide_eq_true_eq] at h
    exact script h.1 (eq_cons_tail_of_head? h.2)
  rw [if_neg h]
  by_cases h : (c = '-' && cs.head? = some '>') = true
  · rw [if_pos h]
    simp only [Bool.and_eq_true, decide_eq_true_eq] at h
    exact arrow h.1 (eq_cons_tail_of_head? h.2)
  rw [if_neg h]
  by_cases h : c = '"'
  · rw [if_pos h]
    exact string h
  rw [if_neg h]
  by_cases h : isDigit c = true
  · rw [if_pos h]
    exact number h
  rw [if_neg h]
  by_cases h : isNameStart c = true
  · rw [if_pos h]
    exact name h
  rw [if_neg h]
  by_cases hdisplay : (c = '[' && s.line = .choice && s.depth = 0 && !s.displayed) = true
  · rw [if_pos hdisplay]
    simp only [Bool.and_eq_true, decide_eq_true_eq] at hdisplay
    exact display hdisplay.1.1.1 hdisplay.1.1.2 hdisplay.1.2
  rw [if_neg hdisplay]
  by_cases h : (c = '[' && s.line = .passage && s.depth = 0) = true
  · rw [if_pos h]
    simp only [Bool.and_eq_true, decide_eq_true_eq] at h
    exact tags h.1.1 h.1.2 h.2
  rw [if_neg h]
  refine symbol (Bool.eq_false_iff.mpr hblank) hbreak fun hc hline hdepth => ?_
  simpa [hc, hline, hdepth] using hdisplay

theorem codeStep_raw_isPrefix (s : CodeState) (c : Char) (cs : List Char) :
    (codeStep s c cs).1.raw <+: c :: cs := by
  apply codeStep_cases (P := fun r => r.1.raw <+: c :: cs)
  case blank => intro _; exact takeWhile_cons_isPrefix _ c cs
  case folded => rintro rfl _ _; exact ⟨cs, rfl⟩
  case ended => rintro rfl _; exact ⟨cs, rfl⟩
  case lineComment => intro _ _; exact takeWhile_cons_isPrefix _ c cs
  case comment => intro hc hcs; rw [hc, hcs]; exact blockComment_raw_isPrefix cs.tail
  case script => intro hc hcs; rw [hc, hcs]; exact scriptBlock_raw_isPrefix cs.tail
  case arrow => intro hc hcs; rw [hc, hcs]; exact ⟨cs.tail, rfl⟩
  case string => rintro rfl; exact stringWord_raw_isPrefix cs
  case number => intro _; exact numberWord_raw_isPrefix (c :: cs)
  case name => intro _; rw [nameWord_raw]; exact List.takeWhile_prefix _
  case display => rintro rfl _ _; exact ⟨cs, rfl⟩
  case tags => rintro rfl _ _; exact ⟨cs, rfl⟩
  case symbol => intro _ _ _; exact symbolStep_raw_isPrefix s c cs

/-- What a step at the start of a line can be. -/
theorem lineStep_cases {P : Lexeme × Mode → Prop} (c : Char) (cs : List Char)
    (blank : isBlank c = true → P (blanks c cs, .lineStart))
    (ended : c = '\n' → P (lineFeed, .lineStart))
    (passage : c = ':' → cs = ':' :: cs.tail →
      P (plain .passageMarker [':', ':'], .name (.begin .passage)))
    (choice : c = '*' → P (plain .choiceMarker ['*'], .code (.begin .choice)))
    (code : c ≠ '\n' → P (codeStep (.begin .statement) c cs))
    (key : c = '@' →
      P (withText .metaKey (cs.takeWhile isKeyChar) ('@' :: cs.takeWhile isKeyChar), .metaValue))
    (quoted : c = '\\' →
      P (withText .text (Text.trimEnd (cs.takeWhile isInline)) ('\\' :: cs.takeWhile isInline),
        .lineStart))
    (prose : isBlank c = false → c ≠ '\n' →
      P (withText .text (Text.trimEnd (restOfLine c cs)) (restOfLine c cs), .lineStart)) :
    P (lineStep c cs) := by
  rw [lineStep]
  by_cases hblank : isBlank c = true
  · rw [if_pos hblank]
    exact blank hblank
  rw [if_neg hblank]
  by_cases hbreak : c = '\n'
  · rw [if_pos hbreak]
    exact ended hbreak
  rw [if_neg hbreak]
  by_cases h : (c = ':' && cs.head? = some ':') = true
  · rw [if_pos h]
    simp only [Bool.and_eq_true, decide_eq_true_eq] at h
    exact passage h.1 (eq_cons_tail_of_head? h.2)
  rw [if_neg h]
  by_cases h : (c = '*' && opensChoice cs) = true
  · rw [if_pos h]
    simp only [Bool.and_eq_true, decide_eq_true_eq] at h
    exact choice h.1
  rw [if_neg h]
  by_cases h : opensCode c cs = true
  · rw [if_pos h]
    exact code hbreak
  rw [if_neg h]
  by_cases h : c = '@'
  · rw [if_pos h]
    exact key h
  rw [if_neg h]
  by_cases h : c = '\\'
  · rw [if_pos h]
    exact quoted h
  rw [if_neg h]
  exact prose (Bool.eq_false_iff.mpr hblank) hbreak

theorem lineStep_raw_isPrefix (c : Char) (cs : List Char) : (lineStep c cs).1.raw <+: c :: cs := by
  apply lineStep_cases (P := fun r => r.1.raw <+: c :: cs)
  case blank => intro _; exact takeWhile_cons_isPrefix _ c cs
  case ended => rintro rfl; exact ⟨cs, rfl⟩
  case passage => intro hc hcs; rw [hc, hcs]; exact ⟨cs.tail, rfl⟩
  case choice => rintro rfl; exact ⟨cs, rfl⟩
  case code => intro _; exact codeStep_raw_isPrefix _ c cs
  case key => rintro rfl; exact takeWhile_cons_isPrefix _ _ cs
  case quoted => rintro rfl; exact takeWhile_cons_isPrefix _ _ cs
  case prose => intro _ _; exact takeWhile_cons_isPrefix _ c cs

/-- What opens a line of code is read as code. -/
theorem lineStep_of_opensCode {c : Char} {cs : List Char} (h : opensCode c cs = true) :
    lineStep c cs = codeStep (.begin .statement) c cs := by
  have hc : isBlank c = false ∧ c ≠ '\n' ∧ c ≠ ':' ∧ c ≠ '*' := by
    have hopens := h
    simp only [opensCode, Bool.or_eq_true, Bool.and_eq_true, decide_eq_true_eq] at hopens
    rcases hopens with (((rfl | rfl) | ⟨rfl, -⟩) | ⟨rfl, -⟩) | ⟨rfl, -⟩
    all_goals decide
  simp [lineStep, hc, h]

/-- What a step after a metadata key can be. -/
theorem metaStep_cases {P : Lexeme × Mode → Prop} (c : Char) (cs : List Char)
    (blank : isBlank c = true → P (blanks c cs, .metaValue))
    (ended : c = '\n' → P (lineFeed, .lineStart))
    (nothing : isBlank c = false → c ≠ '\n' → Text.trimEnd (restOfLine c cs) = [] →
      P (gap (restOfLine c cs), .lineStart))
    (value : isBlank c = false → c ≠ '\n' →
      P (withText .text (Text.trimEnd (restOfLine c cs)) (restOfLine c cs), .lineStart)) :
    P (metaStep c cs) := by
  simp only [metaStep]
  by_cases hblank : isBlank c = true
  · rw [if_pos hblank]
    exact blank hblank
  rw [if_neg hblank]
  by_cases hbreak : c = '\n'
  · rw [if_pos hbreak]
    exact ended hbreak
  rw [if_neg hbreak]
  split
  · next hnone => exact nothing (Bool.eq_false_iff.mpr hblank) hbreak hnone
  · exact value (Bool.eq_false_iff.mpr hblank) hbreak

/-- What a step can be where a passage name is due. -/
theorem nameStep_cases {P : Lexeme × Mode → Prop} (s : CodeState) (c : Char) (cs : List Char)
    (blank : isBlank c = true → P (blanks c cs, .name s))
    (code : isBlank c = false → P (codeStep s c cs))
    (name : isBlank c = false → passageName (c :: cs) ≠ [] →
      P (plain .identifier (passageName (c :: cs)), .code s)) :
    P (nameStep s c cs) := by
  rw [nameStep]
  by_cases hblank : isBlank c = true
  · rw [if_pos hblank]
    exact blank hblank
  rw [if_neg hblank]
  split
  · exact code (Bool.eq_false_iff.mpr hblank)
  · next hne => exact name (Bool.eq_false_iff.mpr hblank) hne

/-- The text of a choice ends at once only before the end of the line or the closing bracket. -/
theorem eq_of_displayText_eq_nil {c : Char} {cs : List Char} (h : (displayText (c :: cs)).1 = []) :
    c = '\n' ∨ c = ']' := by
  rw [displayText.eq_def] at h
  split at h
  · next hnil => cases hnil
  · split at h <;> cases h
  · next hcons =>
    cases hcons
    split at h
    · next hstop => simpa using hstop
    · cases h

/-- What a step inside the square brackets of a choice can be. -/
theorem displayStep_cases {P : Lexeme × Mode → Prop} (c : Char) (cs : List Char)
    (closed : c = ']' →
      P (plain (.closing .square) [']'], .code { CodeState.begin .choice with displayed := true }))
    (code : c = '\n' → P (codeStep { CodeState.begin .choice with displayed := true } c cs))
    (nothing : (displayText (c :: cs)).1 ≠ [] → Text.trim (displayText (c :: cs)).2 = [] →
      P (gap (displayText (c :: cs)).1, .display))
    (text : (displayText (c :: cs)).1 ≠ [] →
      P (withText .text (Text.trim (displayText (c :: cs)).2) (displayText (c :: cs)).1, .display)) :
    P (displayStep c cs) := by
  simp only [displayStep]
  by_cases hclose : c = ']'
  · rw [if_pos hclose]
    exact closed hclose
  rw [if_neg hclose]
  split
  · next hread =>
    have hnil : (displayText (c :: cs)).1 = [] := by rw [hread]
    exact code ((eq_of_displayText_eq_nil hnil).resolve_right hclose)
  · next raw content hne hread =>
    rw [hread] at nothing text
    have hraw : raw ≠ [] := hne
    split
    · next hnone => exact nothing hraw hnone
    · exact text hraw

/-- What a step inside the square brackets of a passage line can be. -/
theorem tagStep_cases {P : Lexeme × Mode → Prop} (c : Char) (cs : List Char)
    (blank : isBlank c = true → P (blanks c cs, .tags))
    (code : P (codeStep (.begin .passage) c cs))
    (closed : c = ']' → P (plain (.closing .square) [']'], .code (.begin .passage)))
    (tag : isBlank c = false → c ≠ '\n' → c ≠ ']' →
      P (plain .identifier (c :: cs.takeWhile fun d => !isBlank d && d ≠ ']' && isInline d), .tags)) :
    P (tagStep c cs) := by
  simp only [tagStep]
  by_cases hblank : isBlank c = true
  · rw [if_pos hblank]
    exact blank hblank
  rw [if_neg hblank]
  by_cases hbreak : c = '\n'
  · rw [if_pos hbreak]
    exact code
  rw [if_neg hbreak]
  by_cases hclose : c = ']'
  · rw [if_pos hclose]
    exact closed hclose
  rw [if_neg hclose]
  exact tag (Bool.eq_false_iff.mpr hblank) hbreak hclose

/-- The lexeme of a step is a beginning of the text ahead. -/
theorem step_raw_isPrefix (mode : Mode) (c : Char) (cs : List Char) :
    (step mode c cs).1.raw <+: c :: cs := by
  cases mode with
  | lineStart => exact lineStep_raw_isPrefix c cs
  | code s => exact codeStep_raw_isPrefix s c cs
  | metaValue =>
    apply metaStep_cases (P := fun r => r.1.raw <+: c :: cs)
    case ended => rintro rfl; exact ⟨cs, rfl⟩
    all_goals
      intros
      exact takeWhile_cons_isPrefix _ c cs
  | name s =>
    apply nameStep_cases (P := fun r => r.1.raw <+: c :: cs)
    case blank => intro _; exact takeWhile_cons_isPrefix _ c cs
    case code => intro _; exact codeStep_raw_isPrefix s c cs
    case name => intro _ _; exact passageName_isPrefix (c :: cs)
  | display =>
    have hraw := displayText_raw_isPrefix (c :: cs)
    apply displayStep_cases (P := fun r => r.1.raw <+: c :: cs)
    case closed => rintro rfl; exact ⟨cs, rfl⟩
    case code => exact fun _ => codeStep_raw_isPrefix _ c cs
    case nothing => intro _ _; exact hraw
    case text => intro _; exact hraw
  | tags =>
    apply tagStep_cases (P := fun r => r.1.raw <+: c :: cs)
    case blank => intro _; exact takeWhile_cons_isPrefix _ c cs
    case code => exact codeStep_raw_isPrefix _ c cs
    case closed => rintro rfl; exact ⟨cs, rfl⟩
    case tag => intro _ _ _; exact takeWhile_cons_isPrefix _ c cs

/-- A step takes at most what lies ahead. -/
theorem length_step_raw_le (mode : Mode) (c : Char) (cs : List Char) :
    (step mode c cs).1.raw.length ≤ cs.length + 1 :=
  (step_raw_isPrefix mode c cs).length_le

/-! ## Progress -/

theorem numberWord_raw_ne_nil {c : Char} (cs : List Char) (h : isDigit c = true) :
    (numberWord (c :: cs)).raw ≠ [] := by
  have htake : (c :: cs).takeWhile isDigit = c :: cs.takeWhile isDigit :=
    List.takeWhile_cons_of_pos h
  have hinteger : ∀ ds, (numberWord.integer (c :: ds)).raw ≠ [] := by
    intro ds
    rw [numberWord.integer]
    split <;> exact List.cons_ne_nil _ _
  rw [numberWord, htake]
  split
  · split
    · exact List.cons_ne_nil _ _
    · exact hinteger _
  · exact hinteger _

theorem symbolStep_raw_ne_nil (s : CodeState) (c : Char) (cs : List Char) :
    (symbolStep s c cs).1.raw ≠ [] := by
  have hspell : ∀ t ∈ symbols, t.1 ≠ [] := by decide
  rw [symbolStep]
  split
  · next spelling kind h => exact hspell _ (List.mem_of_find?_eq_some h)
  · exact List.cons_ne_nil _ _

theorem codeStep_raw_ne_nil (s : CodeState) (c : Char) (cs : List Char) :
    (codeStep s c cs).1.raw ≠ [] := by
  apply codeStep_cases (P := fun r => r.1.raw ≠ [])
  case comment =>
    intro _ _
    rw [blockComment]
    split <;> exact List.cons_ne_nil _ _
  case script =>
    intro _ _
    rw [scriptBlock]
    split <;> exact List.cons_ne_nil _ _
  case string =>
    intro _
    rw [stringWord]
    split <;> exact List.cons_ne_nil _ _
  case number => exact numberWord_raw_ne_nil cs
  case name =>
    intro h
    have hc : isNameChar c = true := by rw [isNameChar, h, Bool.true_or]
    rw [nameWord_raw, List.takeWhile_cons_of_pos hc]
    exact List.cons_ne_nil _ _
  case symbol =>
    intro _ _ _
    exact symbolStep_raw_ne_nil s c cs
  all_goals
    intros
    exact List.cons_ne_nil _ _

/-- A step takes at least one character. -/
theorem step_raw_ne_nil (mode : Mode) (c : Char) (cs : List Char) : (step mode c cs).1.raw ≠ [] := by
  cases mode with
  | code s => exact codeStep_raw_ne_nil s c cs
  | lineStart =>
    apply lineStep_cases (P := fun r => r.1.raw ≠ [])
    case code => exact fun _ => codeStep_raw_ne_nil _ c cs
    all_goals
      intros
      exact List.cons_ne_nil _ _
  | metaValue =>
    apply metaStep_cases (P := fun r => r.1.raw ≠ [])
    all_goals
      intros
      exact List.cons_ne_nil _ _
  | name s =>
    apply nameStep_cases (P := fun r => r.1.raw ≠ [])
    case blank => intro _; exact List.cons_ne_nil _ _
    case code => intro _; exact codeStep_raw_ne_nil s c cs
    case name => intro _ hword; exact hword
  | display =>
    apply displayStep_cases (P := fun r => r.1.raw ≠ [])
    case closed => intro _; exact List.cons_ne_nil _ _
    case code => exact fun _ => codeStep_raw_ne_nil _ c cs
    case nothing => intro hraw _; exact hraw
    case text => intro hraw; exact hraw
  | tags =>
    apply tagStep_cases (P := fun r => r.1.raw ≠ [])
    case code => exact codeStep_raw_ne_nil _ c cs
    all_goals
      intros
      exact List.cons_ne_nil _ _

/-! ## Texts -/

@[simp] theorem scan_nil (mode : Mode) : scan mode [] = [] := by
  rw [scan]

/-- The lexemes of a text are the lexeme of the first step and those of what the step leaves. -/
theorem scan_cons (mode : Mode) (c : Char) (cs : List Char) :
    scan mode (c :: cs) = (step mode c cs).1 ::
      scan (step mode c cs).2 (cs.drop ((step mode c cs).1.raw.length - 1)) := by
  rw [scan]

theorem drop_length_takeWhile (p : Char → Bool) (cs : List Char) :
    cs.drop (cs.takeWhile p).length = cs.dropWhile p := by
  calc cs.drop (cs.takeWhile p).length
      = (cs.takeWhile p ++ cs.dropWhile p).drop (cs.takeWhile p).length := by
        rw [List.takeWhile_append_dropWhile]
    _ = cs.dropWhile p := List.drop_left

/-- Induction along a scan: from what a step leaves to what lies before it. -/
theorem scan_induction {motive : Mode → List Char → Prop} (nil : ∀ mode, motive mode [])
    (cons : ∀ mode c cs, motive (step mode c cs).2 (cs.drop ((step mode c cs).1.raw.length - 1)) →
      motive mode (c :: cs))
    (mode : Mode) (cs : List Char) : motive mode cs := by
  -- The induction is on the length: a step may take many characters, but it takes at least one.
  induction hn : cs.length using Nat.strongRecOn generalizing mode cs with
  | ind n ih =>
    cases cs with
    | nil => exact nil mode
    | cons c cs =>
      have hlt : (cs.drop ((step mode c cs).1.raw.length - 1)).length < n := by
        rw [List.length_drop, ← hn, List.length_cons]
        omega
      exact cons mode c cs (ih _ hlt _ _ rfl)

/-- What a step takes and what it leaves make up the text. -/
theorem step_raw_append_drop (mode : Mode) (c : Char) (cs : List Char) :
    (step mode c cs).1.raw ++ cs.drop ((step mode c cs).1.raw.length - 1) = c :: cs := by
  obtain ⟨after, hafter⟩ := step_raw_isPrefix mode c cs
  cases hraw : (step mode c cs).1.raw with
  | nil => exact absurd hraw (step_raw_ne_nil mode c cs)
  | cons d ds =>
    rw [hraw, List.cons_append, List.cons.injEq] at hafter
    obtain ⟨rfl, rfl⟩ := hafter
    simp

/-- One step, when it is known what it takes. -/
theorem scan_step {mode next : Mode} {c : Char} {cs rest : List Char} {l : Lexeme}
    (hstep : step mode c cs = (l, next)) (hraw : c :: cs = l.raw ++ rest) :
    scan mode (c :: cs) = l :: scan next rest := by
  have hdrop := step_raw_append_drop mode c cs
  rw [hstep, hraw] at hdrop
  rw [scan_cons, hstep]
  exact congrArg (fun after => l :: scan next after) (List.append_cancel_left hdrop)

/-- Nothing is lost: the raw texts of the lexemes make up the text. -/
theorem flatMap_raw_scan (mode : Mode) (cs : List Char) : (scan mode cs).flatMap raw = cs := by
  induction mode, cs using scan_induction with
  | nil mode => simp
  | cons mode c cs ih => rw [scan_cons, List.flatMap_cons, ih, step_raw_append_drop]

/-- What holds of the lexeme of every step holds of every lexeme of a text. -/
theorem forall_mem_scan {P : Lexeme → Prop} (h : ∀ mode c cs, P (step mode c cs).1) (mode : Mode)
    (cs : List Char) : ∀ l ∈ scan mode cs, P l := by
  induction mode, cs using scan_induction with
  | nil mode => simp
  | cons mode c cs ih =>
    rw [scan_cons, List.forall_mem_cons]
    exact ⟨h mode c cs, ih⟩

end Gamebook.Lexeme
