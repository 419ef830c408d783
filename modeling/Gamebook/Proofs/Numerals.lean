/-
# Gamebook.Proofs.Numerals — a decimal is printed as a numeral

A numeral has digits on both sides of a point. It is one token of a source, whatever its length
(`Numeral.ofSource_text`), and Lua reads it up to the first character that is no part of a number
(`Lua.decimal?_numeral`). The text of every number that is not negative is a numeral again
(`Decimal.exists_numeral_magnitude`). Only a numeral that is too large for a number is not printed as one: it
is read as infinity, whose text is a name, in a source as in Lua.
-/
import Gamebook.Proofs.Decimal
import Gamebook.Proofs.Literals
import Gamebook.Proofs.Lua.Words
import Gamebook.Proofs.Rounding

namespace Gamebook

open Gamebook.Lexeme (isDigit codeStep numberWord withValue takeWhile_append_stop dropWhile_append_stop)

/-! ## Numerals -/

/-- Whether a text is a run of digits. -/
def Lexeme.isDigits (cs : List Char) : Bool := !cs.isEmpty && cs.all isDigit

/-- Digits, a point and digits. -/
structure Numeral where
  whole : List Char
  fraction : List Char
  whole_isDigits : Lexeme.isDigits whole = true
  fraction_isDigits : Lexeme.isDigits fraction = true

namespace Numeral

/-- The characters of a numeral. -/
def chars (n : Numeral) : List Char := n.whole ++ '.' :: n.fraction

/-- The text of a numeral. -/
def text (n : Numeral) : String := String.ofList n.chars

/-- The literal it is read as. -/
def literal (n : Numeral) : Literal := .float (Decimal.read n.whole n.fraction)

/-- Whether it is too large for a number. -/
def Overflows (n : Numeral) : Prop :=
  Decimal.brink 970 * 10 ^ n.fraction.length ≤ Decimal.value (n.whole ++ n.fraction)

instance (n : Numeral) : Decidable n.Overflows := inferInstanceAs (Decidable (_ ≤ _))

/-- The tokens of a source that assigns it. -/
def tokens (n : Numeral) : List Token := assigningTokens ++ [
  ⟨.number, some n.literal, ⟨2, 6⟩, n.text⟩,
  ⟨.newline, none, ⟨2, 6 + n.text.length⟩, "\n"⟩,
  ⟨.endOfInput, none, ⟨3, 1⟩, ""⟩]

end Numeral

theorem Lexeme.isDigits_iff {cs : List Char} :
    Lexeme.isDigits cs = true ↔ cs ≠ [] ∧ ∀ c ∈ cs, isDigit c = true := by
  rw [Lexeme.isDigits, Bool.and_eq_true, List.all_eq_true]
  simp

namespace Numeral

variable (n : Numeral)

theorem whole_ne_nil : n.whole ≠ [] := (Lexeme.isDigits_iff.mp n.whole_isDigits).1

theorem fraction_ne_nil : n.fraction ≠ [] := (Lexeme.isDigits_iff.mp n.fraction_isDigits).1

theorem isDigit_of_mem_whole : ∀ c ∈ n.whole, isDigit c = true := (Lexeme.isDigits_iff.mp n.whole_isDigits).2

theorem isDigit_of_mem_fraction : ∀ c ∈ n.fraction, isDigit c = true :=
  (Lexeme.isDigits_iff.mp n.fraction_isDigits).2

/-- A character of a numeral is a digit or the point. -/
theorem eq_or_isDigit_of_mem {c : Char} (h : c ∈ n.chars) : c = '.' ∨ isDigit c = true := by
  rw [chars, List.mem_append, List.mem_cons] at h
  rcases h with h | h | h
  · exact Or.inr (n.isDigit_of_mem_whole c h)
  · exact Or.inl h
  · exact Or.inr (n.isDigit_of_mem_fraction c h)

theorem not_mem_chars {d : Char} (hpoint : d ≠ '.') (hdigit : isDigit d = false) : d ∉ n.chars := by
  intro hmem
  rcases n.eq_or_isDigit_of_mem hmem with h | h
  · exact hpoint h
  · rw [hdigit] at h
    cases h

/-! ## In a source -/

/-- A numeral is a number, before a text that does not go on with its digits. -/
theorem numberWord_chars {rest : List Char} (hrest : ∀ c ∈ rest.head?, isDigit c = false) :
    numberWord (n.chars ++ rest) = withValue .number n.literal n.chars := by
  have hpoint : ∀ c ∈ ('.' :: (n.fraction ++ rest)).head?, isDigit c = false := by
    intro c hc
    cases hc
    rfl
  have htext : n.chars ++ rest = n.whole ++ '.' :: (n.fraction ++ rest) := by
    rw [chars, List.append_assoc, List.cons_append]
  have hfraction := takeWhile_append_stop n.isDigit_of_mem_fraction hrest
  obtain ⟨d, ds, hds⟩ := List.exists_cons_of_ne_nil n.fraction_ne_nil
  have hd : isDigit d = true := n.isDigit_of_mem_fraction d (by rw [hds]; exact List.mem_cons_self)
  rw [hds, List.cons_append, List.takeWhile_cons_of_pos hd] at hfraction
  rw [htext, numberWord, takeWhile_append_stop n.isDigit_of_mem_whole hpoint,
    dropWhile_append_stop n.isDigit_of_mem_whole hpoint, hds]
  simp only [List.cons_append, hd, if_true, hfraction, literal, chars, hds]

/-- **A numeral in a source is one token,** with the value it is read as. -/
theorem ofSource_text : Lexed.ofSource (assigning n.text) = ⟨n.tokens, []⟩ := by
  obtain ⟨c, cs, hcs⟩ := List.exists_cons_of_ne_nil n.whole_ne_nil
  have hdigit : isDigit c = true := n.isDigit_of_mem_whole c (by rw [hcs]; exact List.mem_cons_self)
  have hchars : n.chars = c :: (cs ++ '.' :: n.fraction) := by rw [chars, hcs, List.cons_append]
  have htext : n.text.toList = c :: (cs ++ '.' :: n.fraction) := by rw [text, String.toList_ofList, hchars]
  have hblank : Text.isBlank c = false := Lexeme.isBlank_of_class hdigit rfl rfl
  have hstep : codeStep (.begin .statement) c (cs ++ '.' :: n.fraction ++ ['\n'])
      = (withValue .number n.literal n.chars, .code (.begin .statement)) := by
    rw [Lexeme.codeStep_of_isDigit _ hdigit, ← List.cons_append, ← hchars, n.numberWord_chars]
    intro d hd
    cases hd
    rfl
  have hreturn : '\r' ∉ n.chars := n.not_mem_chars (by decide) rfl
  have hbreak : '\n' ∉ n.chars := n.not_mem_chars (by decide) rfl
  rw [hchars] at hreturn hbreak
  rw [Lexed.ofSource_assigning htext hreturn hbreak hblank hstep hchars, List.append_assoc]
  rfl

end Numeral

/-! ## In Lua -/

namespace Lua

/-- The decimal at the head of `cs`, as its digits before and after the point, and the text after it. The
longest run of characters that a numeral may hold has to be one as a whole. -/
def decimal? (cs : List Char) : Option ((List Char × List Char) × List Char) :=
  let run := cs.takeWhile isNumeralChar
  let whole := run.takeWhile isDigit
  match run.dropWhile isDigit with
  | '.' :: fraction =>
    if fraction.all isDigit ∧ whole ++ fraction ≠ [] then
      some ((whole, fraction), cs.dropWhile isNumeralChar)
    else none
  | _ => none

/-- Lua reads a numeral, before a text that does not go on with it. -/
theorem decimal?_numeral (n : Numeral) {rest : List Char}
    (hrest : ∀ c ∈ rest.head?, isNumeralChar c = false) :
    decimal? (n.chars ++ rest) = some ((n.whole, n.fraction), rest) := by
  have hall : ∀ c ∈ n.chars, isNumeralChar c = true := by
    intro c hc
    rcases n.eq_or_isDigit_of_mem hc with rfl | hdigit
    · rfl
    · exact isNumeralChar_of_isDigit hdigit
  have hpoint : ∀ c ∈ ('.' :: n.fraction).head?, isDigit c = false := by
    intro c hc
    cases hc
    rfl
  have hwhole : n.chars.takeWhile isDigit = n.whole := takeWhile_append_stop n.isDigit_of_mem_whole hpoint
  have hafter : n.chars.dropWhile isDigit = '.' :: n.fraction :=
    dropWhile_append_stop n.isDigit_of_mem_whole hpoint
  have hdigits : n.fraction.all isDigit = true ∧ n.whole ++ n.fraction ≠ [] :=
    ⟨List.all_eq_true.mpr n.isDigit_of_mem_fraction, List.append_ne_nil_of_left_ne_nil n.whole_ne_nil _⟩
  simp only [decimal?, takeWhile_append_stop hall hrest, dropWhile_append_stop hall hrest, hwhole, hafter]
  exact if_pos hdigits

end Lua

/-! ## Printing -/

namespace Decimal

theorem isDigits_digits (n : Nat) : Lexeme.isDigits (digits n) = true :=
  Lexeme.isDigits_iff.mpr ⟨Nat.toDigits_ne_nil, fun _ h => Lexeme.isDigit_of_mem_digits h⟩

theorem exists_numeral_positional (k n : Nat) : ∃ p : Numeral, positional k n = p.chars := by
  have hfraction : Lexeme.isDigits ((digits (n % Nat.pow 10 k)).leftpad k '0') = true := by
    obtain ⟨hne, hdigit⟩ := Lexeme.isDigits_iff.mp (isDigits_digits (n % Nat.pow 10 k))
    rw [Lexeme.isDigits_iff, List.leftpad]
    refine ⟨List.append_ne_nil_of_right_ne_nil _ hne, fun c hc => ?_⟩
    rw [List.mem_append] at hc
    rcases hc with hc | hc
    · rw [List.eq_of_mem_replicate hc]
      rfl
    · exact hdigit c hc
  exact ⟨⟨_, _, isDigits_digits _, hfraction⟩, rfl⟩

theorem exists_numeral_magnitude (m : Nat) (e : Int) (tight : Bool) :
    ∃ p : Numeral, magnitude m e tight = p.chars := by
  have hinteger : ∀ n, ∃ p : Numeral, digits n ++ ['.', '0'] = p.chars :=
    fun n => ⟨⟨digits n, ['0'], isDigits_digits n, rfl⟩, rfl⟩
  rw [magnitude]
  split
  · exact hinteger _
  · exact exists_numeral_positional _ _

end Decimal

namespace Numeral

variable (n : Numeral)

theorem chars_literal_of_overflows (h : n.Overflows) : n.literal.chars = ['i', 'n', 'f'] := by
  rw [literal, Literal.chars_float, Decimal.chars, Decimal.signed, Decimal.ofFloat_read_of_le n.fraction_ne_nil h]
  rfl

theorem exists_chars_literal (h : ¬ n.Overflows) : ∃ p : Numeral, n.literal.chars = p.chars := by
  obtain ⟨m, e, tight, hfinite⟩ := Decimal.ofFloat_read_of_lt n.fraction_ne_nil (Nat.not_le.mp h)
  rw [literal, Literal.chars_float, Decimal.chars, Decimal.signed, hfinite]
  exact Decimal.exists_numeral_magnitude m e tight

/-- **Just the numerals that are not too large are printed as numerals again.** Every numeral is one token of
a source. Unless it is too large, what it is read as has one text in a source and in Lua, and this is a
numeral: one token again, and a number that Lua reads. If it is too large, the text is `inf`. -/
theorem literal_printed :
    Lexed.ofSource (assigning n.text) = ⟨n.tokens, []⟩ ∧
      if n.Overflows then
        (Expr.literal n.literal).render = "inf" ∧ Lua.expr (.literal n.literal) = "inf".toList
      else ∃ p : Numeral,
        (Expr.literal n.literal).render = p.text ∧ Lexed.ofSource (assigning p.text) = ⟨p.tokens, []⟩ ∧
        Lua.expr (.literal n.literal) = p.text.toList ∧
        ∀ rest, (∀ c ∈ rest.head?, Lua.isNumeralChar c = false) →
          Lua.decimal? (Lua.expr (.literal n.literal) ++ rest) = some ((p.whole, p.fraction), rest) := by
  have hrender : (Expr.literal n.literal).render = String.ofList n.literal.chars := rfl
  have hlua : Lua.expr (.literal n.literal) = n.literal.chars := Lua.decimal_eq_chars _
  refine ⟨n.ofSource_text, ?_⟩
  rw [hrender, hlua]
  split
  · next h =>
    rw [n.chars_literal_of_overflows h]
    exact ⟨rfl, rfl⟩
  · next h =>
    obtain ⟨p, hp⟩ := n.exists_chars_literal h
    rw [hp]
    refine ⟨p, rfl, p.ofSource_text, ?_, fun rest => Lua.decimal?_numeral p⟩
    rw [text, String.toList_ofList]

/-- A one and `k` zeros. -/
def tens (k : Nat) : Numeral :=
  ⟨'1' :: List.replicate k '0', ['0'],
    Lexeme.isDigits_iff.mpr ⟨List.cons_ne_nil _ _, fun c hc => by
      rcases List.mem_cons.mp hc with rfl | hc
      · rfl
      · rw [List.eq_of_mem_replicate hc]
        rfl⟩, rfl⟩

/-- A numeral of 310 digits before its point is printed as a name. -/
theorem literal_printed_tens :
    (Expr.literal (tens 309).literal).render = "inf" ∧
      Lua.expr (.literal (tens 309).literal) = "inf".toList ∧
      (Lexed.ofSource (assigning "inf")).tokens
        = assigningTokens ++ [⟨.identifier, none, ⟨2, 6⟩, "inf"⟩, ⟨.newline, none, ⟨2, 9⟩, "\n"⟩,
            ⟨.endOfInput, none, ⟨3, 1⟩, ""⟩] ∧
      Lua.decimal? "inf".toList = none := by
  decide +kernel

end Numeral

end Gamebook
