/-
# Gamebook.Proofs.Literals — a literal by itself in a source

The shortest source with a literal in it is a passage of one assignment. Around the literal its tokens and
their places are always the same (`Lexeme.scan_assigning`), so what the scanner makes of a written literal
shows in one token, at line 2 and column 6 (`Lexed.ofSource_assigning`).

A string is written with its quotes, backslashes, line feeds and tabs escaped. The language has no escape for
a carriage return, and one that is written as it is becomes a line feed before the text is scanned, which
ends the string. So exactly the strings without a carriage return are read back (`Lexed.ofSource_quoted`).
-/
import Gamebook.Proofs.Spelling.Source

namespace Gamebook

open Gamebook.Text (isBlank)

/-! ## A source with one assignment -/

/-- A passage `A` that sets `r` to what `value` says. -/
def assigning (value : String) : String := ":: A\n$r = " ++ value ++ "\n"

/-- The tokens of such a source up to the value. -/
def assigningTokens : List Token := [
  ⟨.passageMarker, none, ⟨1, 1⟩, "::"⟩,
  ⟨.identifier, none, ⟨1, 4⟩, "A"⟩,
  ⟨.newline, none, ⟨1, 5⟩, "\n"⟩,
  ⟨.dollar, none, ⟨2, 1⟩, "$"⟩,
  ⟨.identifier, none, ⟨2, 2⟩, "r"⟩,
  ⟨.assign .set, none, ⟨2, 4⟩, "="⟩]

theorem toList_assigning (value : String) :
    (assigning value).toList
      = [':', ':', ' ', 'A', '\n', '$', 'r', ' ', '=', ' '] ++ (value.toList ++ ['\n']) := by
  rw [assigning, String.toList_append, String.toList_append, List.append_assoc]
  simp only [String.reduceToList]

theorem Position.advance_of_not_mem {cs : List Char} (h : '\n' ∉ cs) (p : Position) :
    p.advance cs = ⟨p.line, p.column + cs.length⟩ := by
  induction cs generalizing p with
  | nil => rfl
  | cons c cs ih =>
    rw [List.mem_cons, not_or] at h
    rw [advance_cons, ih h.2, step, if_neg (Ne.symm h.1), List.length_cons, Nat.add_right_comm,
      Nat.add_assoc]

namespace Lexeme

/-- The lexemes of such a source up to the value. -/
def assigningLexemes : List Lexeme := [
  plain .passageMarker [':', ':'], gap [' '], plain .identifier ['A'], lineFeed, plain .dollar ['$'],
  plain .identifier ['r'], gap [' '], plain (.assign .set) ['='], gap [' ']]

theorem scan_assigning {c : Char} (hc : isBlank c = false) (cs : List Char) :
    scan .lineStart ([':', ':', ' ', 'A', '\n', '$', 'r', ' ', '=', ' '] ++ c :: cs)
      = assigningLexemes ++ scan (.code (.begin .statement)) (c :: cs) := by
  have hblank : step (.code (.begin .statement)) ' ' (c :: cs) = (gap [' '], .code (.begin .statement)) := by
    have htake : (c :: cs).takeWhile isBlank = [] :=
      List.takeWhile_cons_of_neg (by rw [hc]; exact Bool.false_ne_true)
    show (blanks ' ' (c :: cs), _) = _
    rw [blanks, htake]
  refine (scan_step (l := plain .passageMarker [':', ':']) rfl rfl).trans (congrArg (_ :: ·) ?_)
  refine (scan_step (l := gap [' ']) rfl rfl).trans (congrArg (_ :: ·) ?_)
  refine (scan_step (l := plain .identifier ['A']) rfl rfl).trans (congrArg (_ :: ·) ?_)
  refine (scan_step (l := lineFeed) rfl rfl).trans (congrArg (_ :: ·) ?_)
  refine (scan_step (l := plain .dollar ['$']) rfl rfl).trans (congrArg (_ :: ·) ?_)
  refine (scan_step (l := plain .identifier ['r']) rfl rfl).trans (congrArg (_ :: ·) ?_)
  refine (scan_step (l := gap [' ']) rfl rfl).trans (congrArg (_ :: ·) ?_)
  refine (scan_step (l := plain (.assign .set) ['=']) rfl rfl).trans (congrArg (_ :: ·) ?_)
  exact scan_step hblank rfl

theorem tokens_assigning (ls : List Lexeme) :
    tokens .start (assigningLexemes ++ ls) = assigningTokens ++ tokens ⟨2, 6⟩ ls := rfl

theorem errors_assigning (ls : List Lexeme) :
    errors .start (assigningLexemes ++ ls) = errors ⟨2, 6⟩ ls := rfl

end Lexeme

open Gamebook.Lexeme

/-- **A value that is one word of its line is one token of the source.** -/
theorem Lexed.ofSource_assigning {value : String} {c : Char} {cs : List Char} {l : Lexeme}
    (hvalue : value.toList = c :: cs) (hcr : '\r' ∉ c :: cs) (hline : '\n' ∉ c :: cs)
    (hblank : isBlank c = false)
    (hstep : codeStep (.begin .statement) c (cs ++ ['\n']) = (l, .code (.begin .statement)))
    (hraw : l.raw = c :: cs) :
    Lexed.ofSource (assigning value) = ⟨assigningTokens ++ (l.token? ⟨2, 6⟩).toList ++
        [⟨.newline, none, ⟨2, 6 + value.length⟩, "\n"⟩, ⟨.endOfInput, none, ⟨3, 1⟩, ""⟩],
      (l.error? ⟨2, 6⟩).toList⟩ := by
  have hnormal : Text.normalChars (assigning value) = (assigning value).toList := by
    refine Text.normalChars_of_not_mem ?_ ?_
    · rw [toList_assigning, hvalue]
      simpa using hcr
    · rw [toList_assigning]
      exact fun hmark => absurd (Option.some.inj hmark) (by decide)
  have hscan : lexemes (assigning value) = assigningLexemes ++ [l, lineFeed] := by
    have hword : scan (.code (.begin .statement)) (c :: (cs ++ ['\n']))
        = l :: scan (.code (.begin .statement)) ['\n'] := by
      refine scan_step hstep ?_
      rw [hraw]
      rfl
    have hbreak : scan (.code (.begin .statement)) ['\n'] = lineFeed :: scan .lineStart [] :=
      scan_step rfl rfl
    rw [lexemes, hnormal, toList_assigning, hvalue]
    refine (scan_assigning hblank (cs ++ ['\n'])).trans ?_
    rw [hword, hbreak, scan_nil]
  have hlength : value.length = (c :: cs).length := by rw [← hvalue, String.length_toList]
  have hplace : Position.advance ⟨2, 6⟩ l.raw = ⟨2, 6 + value.length⟩ := by
    rw [hraw, Position.advance_of_not_mem hline, hlength]
  have htokens : Lexeme.tokens ⟨2, 6⟩ [l, lineFeed] = (l.token? ⟨2, 6⟩).toList ++
      [⟨.newline, none, ⟨2, 6 + value.length⟩, "\n"⟩, ⟨.endOfInput, none, ⟨3, 1⟩, ""⟩] := by
    rw [Lexeme.tokens, hplace]
    rfl
  have herrors : Lexeme.errors ⟨2, 6⟩ [l, lineFeed] = (l.error? ⟨2, 6⟩).toList := List.append_nil _
  rw [ofSource, hscan, tokens_assigning, errors_assigning, htokens, herrors, List.append_assoc]

/-! ## Strings -/

namespace Text

/-- A carriage return becomes a line feed, and so may take away one that follows it. -/
theorem exists_unifyBreaks_append {cs : List Char} (h : '\r' ∉ cs) (after : List Char) :
    ∃ rest, unifyBreaks (cs ++ '\r' :: after) = cs ++ '\n' :: rest := by
  induction cs with
  | nil =>
    by_cases hnext : after.head? = some '\n'
    · obtain ⟨rest, rfl⟩ := List.head?_eq_some_iff.mp hnext
      exact ⟨unifyBreaks rest, rfl⟩
    · exact ⟨unifyBreaks after, unifyBreaks_return hnext⟩
  | cons c cs ih =>
    rw [List.mem_cons, not_or] at h
    obtain ⟨rest, hrest⟩ := ih h.2
    refine ⟨rest, ?_⟩
    rw [List.cons_append, unifyBreaks_cons (Ne.symm h.1), hrest]
    rfl

end Text

namespace Literal

theorem break_not_mem_quoted (text : String) : '\n' ∉ quoted text := by
  rw [quoted, List.mem_cons, List.mem_append, List.mem_flatMap, List.mem_singleton]
  rintro (hquote | ⟨c, -, hmem⟩ | hquote)
  · cases hquote
  · unfold escape at hmem
    split at hmem
    · simp at hmem
    split at hmem
    · simp at hmem
    split at hmem
    · simp at hmem
    split at hmem
    · simp at hmem
    · next hbreak _ => exact hbreak (List.mem_singleton.mp hmem).symm
  · cases hquote

end Literal

/-- A string that its line does not close. -/
theorem Lexeme.codeStep_unclosed (s : CodeState) (cs rest : List Char) :
    codeStep s '"' (cs.flatMap Literal.escape ++ '\n' :: rest)
      = (faulty .unterminatedString ('"' :: cs.flatMap Literal.escape), .code s) := by
  show (stringWord (cs.flatMap Literal.escape ++ '\n' :: rest), _) = _
  rw [stringWord, stringBody_flatMap_append, stringBody, Option.map_none, List.append_nil]

namespace Lexed

/-- The tokens of a string that holds no carriage return. -/
theorem ofSource_quoted_of_not_mem {v : String} (h : '\r' ∉ v.toList) :
    Lexed.ofSource (assigning (Expr.str v).render) = ⟨assigningTokens ++ [
        ⟨.string, some (.str v), ⟨2, 6⟩, (Expr.str v).render⟩,
        ⟨.newline, none, ⟨2, 6 + (Expr.str v).render.length⟩, "\n"⟩,
        ⟨.endOfInput, none, ⟨3, 1⟩, ""⟩], []⟩ := by
  have hchars : (Expr.str v).render.toList = '"' :: (v.toList.flatMap Literal.escape ++ ['"']) :=
    String.toList_ofList
  have hcr : '\r' ∉ '"' :: (v.toList.flatMap Literal.escape ++ ['"']) :=
    Literal.not_mem_chars (v := .str v) (by simpa [Literal.isWord] using h)
  have hstep : codeStep (.begin .statement) '"' (v.toList.flatMap Literal.escape ++ ['"'] ++ ['\n'])
      = (withValue .string (.str v) (Literal.quoted v), .code (.begin .statement)) := by
    rw [List.append_assoc]
    exact codeStep_quoted _ v ['\n']
  rw [ofSource_assigning hchars hcr (Literal.break_not_mem_quoted v) rfl hstep rfl, List.append_assoc]
  rfl

/-- A carriage return ends the string that it stands in. -/
theorem errors_quoted_of_mem {v : String} (h : '\r' ∈ v.toList) :
    (Lexed.ofSource (assigning (Expr.str v).render)).errors.head? = some ⟨.unterminatedString, ⟨2, 6⟩⟩ := by
  obtain ⟨before, after, hv, hbefore⟩ := List.eq_append_cons_of_mem h
  -- Up to the first carriage return the source is normal, and there the line of the string ends.
  let lead := [':', ':', ' ', 'A', '\n', '$', 'r', ' ', '=', ' '] ++ '"' :: before.flatMap Literal.escape
  have hlead : '\r' ∉ lead := by
    have hcr := Literal.not_mem_chars (v := .str (String.ofList before))
      (by simpa [Literal.isWord] using hbefore)
    rw [Literal.chars, Literal.quoted, String.toList_ofList, ← List.cons_append, List.mem_append,
      not_or] at hcr
    rw [List.mem_append, not_or]
    exact ⟨by decide, hcr.1⟩
  have htext : (assigning (Expr.str v).render).toList
      = lead ++ '\r' :: (after.flatMap Literal.escape ++ ['"', '\n']) := by
    have hchars : (Expr.str v).render.toList = '"' :: (v.toList.flatMap Literal.escape ++ ['"']) :=
      String.toList_ofList
    have hreturn : Literal.escape '\r' = ['\r'] := rfl
    rw [toList_assigning, hchars, hv, List.flatMap_append, List.flatMap_cons, hreturn]
    simp [lead]
  obtain ⟨rest, hrest⟩ := Text.exists_unifyBreaks_append hlead (after.flatMap Literal.escape ++ ['"', '\n'])
  have hnormal : Text.normalChars (assigning (Expr.str v).render) = lead ++ '\n' :: rest := by
    rw [Text.normalChars_eq, htext, ← hrest]
    rfl
  have hscan : lexemes (assigning (Expr.str v).render) = assigningLexemes ++
      faulty .unterminatedString ('"' :: before.flatMap Literal.escape)
        :: scan (.code (.begin .statement)) ('\n' :: rest) := by
    rw [lexemes, hnormal, List.append_assoc]
    refine (scan_assigning rfl _).trans (congrArg _ ?_)
    exact scan_step (codeStep_unclosed _ before rest) rfl
  rw [ofSource, hscan, errors_assigning]
  rfl

/-- **Exactly the strings without a carriage return are read back.** In a source that assigns a written
string, without errors the string is the one token after the `=`, with the value that was written; a carriage
return in it leaves it unclosed. -/
theorem ofSource_quoted (v : String) :
    if '\r' ∈ v.toList then
      (Lexed.ofSource (assigning (Expr.str v).render)).errors.head? = some ⟨.unterminatedString, ⟨2, 6⟩⟩
    else
      Lexed.ofSource (assigning (Expr.str v).render) = ⟨assigningTokens ++ [
        ⟨.string, some (.str v), ⟨2, 6⟩, (Expr.str v).render⟩,
        ⟨.newline, none, ⟨2, 6 + (Expr.str v).render.length⟩, "\n"⟩,
        ⟨.endOfInput, none, ⟨3, 1⟩, ""⟩], []⟩ := by
  split
  · next h => exact errors_quoted_of_mem h
  · next h => exact ofSource_quoted_of_not_mem h

/-- A string of two letters with a carriage return between them is not read back. -/
theorem errors_quoted_return :
    (Lexed.ofSource (assigning (Expr.str "a\rb").render)).errors = [⟨.unterminatedString, ⟨2, 6⟩⟩] := by
  decide +kernel

end Lexed

end Gamebook
