/-
# Gamebook.Proofs.Lua.Words — the words of Lua

Lua 5.4 cuts a text into words from left to right. White space separates words, two minus signs start a
comment that ends with its line, and a run of letters, digits and underscores is a name unless it is
reserved. Of the fixed spellings the longest that fits is taken. The words here are those of expressions:
a numeral is an integer in decimal digits, a string stands between double quotes, and a text with anything
else in it (other numerals and strings, braces and square brackets, comments in long brackets) has no words.

What is needed of the words of a text is that they are the same wherever it stands. `Spells` says so, for
every text after it that goes on with none of its words.
-/
import Gamebook.Lua.Expr
import Gamebook.Proofs.Lua.Strings
import Gamebook.Proofs.Spelling.Expr

namespace Gamebook.Lua

open Gamebook.Lexeme (isDigit isNameStart isNameChar isDelimiter maxInteger Delimited delimited_cons
  isNameChar_of_isDelimiter takeWhile_append_stop dropWhile_append_stop isDigit_of_isNameStart
  isDigit_of_mem_digits isNameChar_of_isDigit value_digits ne_of_class)

/-! ## Words -/

inductive Word where
  | name (text : String)
  | integer (n : Nat)
  | string (value : List UInt8)
  | bool (b : Bool)
  | operator (op : BinaryOp)
  | not
  | opening
  | closing
  | dot
  | colon
  /-- A word that stands in no expression of the grammar. -/
  | other (text : String)
  deriving DecidableEq

/-- The words that are no names. -/
def reserved : List (List Char × Word) := [
  (['a', 'n', 'd'], .operator .and),
  (['o', 'r'], .operator .or),
  (['n', 'o', 't'], .not),
  (['t', 'r', 'u', 'e'], .bool true),
  (['f', 'a', 'l', 's', 'e'], .bool false),
  (['n', 'i', 'l'], .other "nil"),
  (['b', 'r', 'e', 'a', 'k'], .other "break"),
  (['d', 'o'], .other "do"),
  (['e', 'l', 's', 'e'], .other "else"),
  (['e', 'l', 's', 'e', 'i', 'f'], .other "elseif"),
  (['e', 'n', 'd'], .other "end"),
  (['f', 'o', 'r'], .other "for"),
  (['f', 'u', 'n', 'c', 't', 'i', 'o', 'n'], .other "function"),
  (['g', 'o', 't', 'o'], .other "goto"),
  (['i', 'f'], .other "if"),
  (['i', 'n'], .other "in"),
  (['l', 'o', 'c', 'a', 'l'], .other "local"),
  (['r', 'e', 'p', 'e', 'a', 't'], .other "repeat"),
  (['r', 'e', 't', 'u', 'r', 'n'], .other "return"),
  (['t', 'h', 'e', 'n'], .other "then"),
  (['u', 'n', 't', 'i', 'l'], .other "until"),
  (['w', 'h', 'i', 'l', 'e'], .other "while")]

/-- The fixed spellings, longer ones before their beginnings. -/
def symbols : List (List Char × Word) := [
  (['.', '.', '.'], .other "..."),
  (['.', '.'], .other ".."),
  ([':', ':'], .other "::"),
  (['<', '<'], .other "<<"),
  (['>', '>'], .other ">>"),
  (['/', '/'], .other "//"),
  (['=', '='], .operator .eq),
  (['~', '='], .operator .ne),
  (['<', '='], .operator .le),
  (['>', '='], .operator .ge),
  (['<'], .operator .lt),
  (['>'], .operator .gt),
  (['+'], .operator .add),
  (['-'], .operator .sub),
  (['*'], .operator .mul),
  (['/'], .operator .div),
  (['%'], .operator .mod),
  (['('], .opening),
  ([')'], .closing),
  (['.'], .dot),
  ([':'], .colon),
  (['^'], .other "^"),
  (['#'], .other "#"),
  (['&'], .other "&"),
  (['~'], .other "~"),
  (['|'], .other "|"),
  (['='], .other "="),
  ([','], .other ","),
  ([';'], .other ";")]

/-- A run of name characters, which may be reserved. -/
def nameWord (run : List Char) : Word := (reserved.lookup run).getD (.name (String.ofList run))

/-- What a numeral goes on with. -/
def isNumeralChar (c : Char) : Bool := isNameChar c || c = '.'

/-- The numeral at the head of `cs`, and the text after it. A number that is too large would be a decimal. -/
def numeral? (cs : List Char) : Option (Word × List Char) :=
  let run := cs.takeWhile isNumeralChar
  if run.all isDigit ∧ Decimal.value run ≤ maxInteger then
    some (.integer (Decimal.value run), cs.dropWhile isNumeralChar)
  else none

/-- The word that starts with `c`, and the text after it. -/
def word? (c : Char) (cs : List Char) : Option (Word × List Char) :=
  if isNameStart c then
    some (nameWord ((c :: cs).takeWhile isNameChar), (c :: cs).dropWhile isNameChar)
  else if isDigit c ∨ c = '.' ∧ cs.head?.any isDigit then numeral? (c :: cs)
  else if c = '"' then (readBody cs).map fun r => (.string r.1, r.2)
  else (symbols.find? fun s => s.1.isPrefixOf (c :: cs)).map fun s => (s.2, (c :: cs).drop s.1.length)

/-- Whether a character stays on the line. -/
def isInLine (c : Char) : Bool := c ≠ '\n' && c ≠ '\r'

/-- A run that is not empty leaves less of the text. -/
theorem length_dropWhile_lt {p : Char → Bool} {c : Char} (h : p c = true) (cs : List Char) :
    ((c :: cs).dropWhile p).length < (c :: cs).length := by
  rw [List.dropWhile_cons_of_pos h]
  exact Nat.lt_succ_of_le (List.dropWhile_suffix p).length_le

theorem length_numeral? {c : Char} {cs rest : List Char} {w : Word} (hc : isNumeralChar c = true)
    (h : numeral? (c :: cs) = some (w, rest)) : rest.length < (c :: cs).length := by
  simp only [numeral?, Option.ite_none_right_eq_some, Option.some.injEq, Prod.mk.injEq] at h
  rw [← h.2.2]
  exact length_dropWhile_lt hc cs

theorem isNumeralChar_of_isDigit {c : Char} (h : isDigit c = true) : isNumeralChar c = true := by
  rw [isNumeralChar, isNameChar_of_isDigit h, Bool.true_or]

theorem length_word? {c : Char} {cs rest : List Char} {w : Word} (h : word? c cs = some (w, rest)) :
    rest.length < (c :: cs).length := by
  unfold word? at h
  split at h
  · next hstart =>
    cases h
    exact length_dropWhile_lt (by rw [isNameChar, hstart, Bool.true_or]) cs
  split at h
  · next hnumeral =>
    refine length_numeral? ?_ h
    rcases hnumeral with hdigit | ⟨rfl, -⟩
    · exact isNumeralChar_of_isDigit hdigit
    · rfl
  split at h
  · obtain ⟨⟨value, rest'⟩, hbody, hpair⟩ := Option.map_eq_some_iff.mp h
    cases hpair
    exact Nat.lt_succ_of_lt (length_readBody hbody)
  · obtain ⟨s, hfind, hpair⟩ := Option.map_eq_some_iff.mp h
    have hne : ∀ s ∈ symbols, 0 < s.1.length := by decide
    have hpos := hne s (List.mem_of_find?_eq_some hfind)
    cases hpair
    rw [List.length_drop, List.length_cons]
    omega

/-- The words of a text, if it has words only of expressions. -/
def words : List Char → Option (List Word)
  | [] => some []
  | c :: cs =>
    if isLuaSpace c then words cs
    else if c = '-' ∧ cs.head? = some '-' then
      -- A bracket may open a comment of more than one line.
      if cs.tail.head? = some '[' then none
      else
        have : (cs.tail.dropWhile isInLine).length < cs.length + 1 :=
          Nat.lt_succ_of_le (((List.dropWhile_suffix _).trans (List.tail_suffix cs)).length_le)
        words (cs.tail.dropWhile isInLine)
    else
      match h : word? c cs with
      | none => none
      | some (w, rest) =>
        have : rest.length < cs.length + 1 := length_word? h
        (words rest).map (w :: ·)
termination_by cs => cs.length

theorem words_nil : words [] = some [] := by rw [words]

theorem words_space (cs : List Char) : words (' ' :: cs) = words cs := by
  rw [words, if_pos (show isLuaSpace ' ' = true from rfl)]

/-- A word, where neither white space nor a comment starts. -/
theorem words_word {c : Char} {cs rest : List Char} {w : Word} (hspace : isLuaSpace c = false)
    (hcomment : c = '-' → cs.head? ≠ some '-') (h : word? c cs = some (w, rest)) :
    words (c :: cs) = (words rest).map (w :: ·) := by
  rw [words, if_neg (by rw [hspace]; exact Bool.false_ne_true), if_neg (fun hdash => hcomment hdash.1 hdash.2)]
  split
  · next hnone =>
    rw [h] at hnone
    cases hnone
  · next w' rest' hsome =>
    rw [h] at hsome
    cases hsome
    rfl

/-! ## Texts and their words -/

/-- Before `rest`, the text has the words `ws`. -/
def Cuts (text rest : List Char) (ws : List Word) : Prop :=
  words (text ++ rest) = (words rest).map (ws ++ ·)

theorem Cuts.append {a b rest : List Char} {us vs : List Word} (ha : Cuts a (b ++ rest) us)
    (hb : Cuts b rest vs) : Cuts (a ++ b) rest (us ++ vs) := by
  rw [Cuts] at ha hb ⊢
  rw [List.append_assoc, ha, hb, Option.map_map]
  congr 1
  funext ws
  exact (List.append_assoc us vs ws).symm

theorem cuts_space (rest : List Char) : Cuts [' '] rest [] := by
  rw [Cuts, List.singleton_append, words_space]
  exact (Option.map_id_apply).symm

theorem cuts_word {c : Char} {cs rest : List Char} {w : Word} (hspace : isLuaSpace c = false)
    (hminus : c ≠ '-') (h : word? c (cs ++ rest) = some (w, rest)) : Cuts (c :: cs) rest [w] :=
  words_word hspace (fun hdash => absurd hdash hminus) h

/-- Every character of a name lies beyond white space. -/
theorem isLuaSpace_of_isNameChar {c : Char} (h : isNameChar c = true) : isLuaSpace c = false := by
  simp only [isNameChar, isNameStart, isDigit, Bool.or_eq_true, Bool.and_eq_true, decide_eq_true_eq,
    Char.le_def, UInt32.le_iff_toNat_le] at h
  have hzero : '0'.val.toNat ≤ c.val.toNat := by
    have hupper : '0'.val.toNat ≤ 'A'.val.toNat := by decide
    have hlower : '0'.val.toNat ≤ 'a'.val.toNat := by decide
    rcases h with ((h | h) | rfl) | h
    · omega
    · omega
    · decide
    · exact h.1
  have hspace : c ≠ ' ' := by
    rintro rfl
    exact absurd hzero (by decide)
  have hreturn : '\r'.val.toNat < '0'.val.toNat := by decide
  simp only [isLuaSpace, hspace, decide_false, Bool.false_or, Bool.and_eq_false_iff,
    decide_eq_false_iff_not, Char.le_def, UInt32.le_iff_toNat_le]
  omega

/-- A run of name characters is one word, before a text that does not go on with it. -/
theorem cuts_nameRun {c : Char} {cs rest : List Char} (hstart : isNameStart c = true)
    (hall : ∀ d ∈ c :: cs, isNameChar d = true) (hrest : ∀ d ∈ rest.head?, isNameChar d = false) :
    Cuts (c :: cs) rest [nameWord (c :: cs)] := by
  refine cuts_word (isLuaSpace_of_isNameChar (hall c List.mem_cons_self)) (ne_of_class hstart rfl) ?_
  rw [word?, if_pos hstart, ← List.cons_append, takeWhile_append_stop hall hrest,
    dropWhile_append_stop hall hrest]

theorem isNumeralChar_of_isDelimiter {c : Char} (h : isDelimiter c = true) : isNumeralChar c = false := by
  have hpoint : c ≠ '.' := ne_of_class h rfl
  rw [isNumeralChar, isNameChar_of_isDelimiter h, Bool.false_or, decide_eq_false hpoint]

/-- The digits of a number, before a text that does not go on with them. -/
theorem cuts_digits {n : Nat} (hn : n ≤ maxInteger) {rest : List Char} (hrest : Delimited rest) :
    Cuts (Decimal.digits n) rest [.integer n] := by
  have hdigit : ∀ c ∈ Decimal.digits n, isDigit c = true := fun c hc => isDigit_of_mem_digits hc
  have hname : ∀ c ∈ Decimal.digits n, isNameChar c = true := fun c hc => isNameChar_of_isDigit (hdigit c hc)
  have hall : ∀ c ∈ Decimal.digits n, isNumeralChar c = true :=
    fun c hc => isNumeralChar_of_isDigit (hdigit c hc)
  have hstop : ∀ c ∈ rest.head?, isNumeralChar c = false := fun c hc =>
    isNumeralChar_of_isDelimiter (hrest c hc)
  have hnumeral : numeral? (Decimal.digits n ++ rest) = some (.integer n, rest) := by
    simp only [numeral?, takeWhile_append_stop hall hstop, dropWhile_append_stop hall hstop, value_digits]
    rw [if_pos ⟨List.all_eq_true.mpr hdigit, hn⟩]
  cases hds : Decimal.digits n with
  | nil => exact absurd hds Nat.toDigits_ne_nil
  | cons c ds =>
    rw [hds] at hdigit hname hnumeral
    have hc := hdigit c List.mem_cons_self
    have hstart : isNameStart c = false := by
      cases hstart : isNameStart c with
      | false => rfl
      | true => exact absurd hc (by rw [isDigit_of_isNameStart hstart]; exact Bool.false_ne_true)
    refine cuts_word (isLuaSpace_of_isNameChar (hname c List.mem_cons_self)) (ne_of_class hc rfl) ?_
    rw [word?, hstart, if_neg Bool.false_ne_true, if_pos (.inl hc)]
    exact hnumeral

/-- A string, whatever follows it. -/
theorem cuts_quoted (s : String) (rest : List Char) : Cuts (quoted s) rest [.string (bytes s)] := by
  have hbody : readBody ((s.toList.flatMap escape ++ ['"']) ++ rest) = some (bytes s, rest) := by
    rw [List.append_assoc]
    exact readBody_escaped s.toList rest
  refine cuts_word rfl (by decide) ?_
  rw [word?, if_neg (by decide), if_neg (by simp [isDigit]), if_pos rfl, hbody]
  rfl

/-- A binary operator, which is always followed by a blank. -/
theorem cuts_operator (op : BinaryOp) (rest : List Char) :
    Cuts (spelling op).toList (' ' :: rest) [.operator op] := by
  cases op <;> simp only [spelling, BinaryOp.symbol, String.reduceToList] <;>
    exact words_word rfl (fun _ => by simp) rfl

theorem cuts_opening (rest : List Char) : Cuts ['('] rest [.opening] :=
  cuts_word rfl (by decide) rfl

theorem cuts_closing (rest : List Char) : Cuts [')'] rest [.closing] :=
  cuts_word rfl (by decide) rfl

/-! ## Texts in any place -/

/-- Whether a text has the words `ws` before every text that goes on with none of them. -/
def Spells (text : List Char) (ws : List Word) : Prop := ∀ rest, Delimited rest → Cuts text rest ws

theorem Spells.words {text : List Char} {ws : List Word} (h : Spells text ws) : words text = some ws := by
  have hend := h [] (fun c hc => absurd hc (Option.not_mem_none c))
  rwa [Cuts, List.append_nil, words_nil, Option.map_some, List.append_nil] at hend

theorem spells_bool (b : Bool) : Spells (Literal.boolChars b) [.bool b] := by
  intro rest hrest
  have hstop : ∀ d ∈ rest.head?, isNameChar d = false := fun d hd => isNameChar_of_isDelimiter (hrest d hd)
  cases b with
  | true => exact cuts_nameRun rfl (List.all_eq_true.mp rfl) hstop
  | false => exact cuts_nameRun rfl (List.all_eq_true.mp rfl) hstop

theorem spells_mininteger : Spells "math.mininteger".toList [.name "math", .dot, .name "mininteger"] := by
  intro rest hrest
  have hstop : ∀ d ∈ rest.head?, isNameChar d = false := fun d hd => isNameChar_of_isDelimiter (hrest d hd)
  have hlibrary : ∀ rest, Cuts ['m', 'a', 't', 'h'] ('.' :: rest) [.name "math"] := fun rest =>
    cuts_nameRun rfl (List.all_eq_true.mp rfl) (fun d hd => by cases hd; rfl)
  have hdot : ∀ rest, Cuts ['.'] ('m' :: rest) [.dot] := fun rest =>
    cuts_word rfl (by decide) rfl
  have hname : Cuts ['m', 'i', 'n', 'i', 'n', 't', 'e', 'g', 'e', 'r'] rest [.name "mininteger"] :=
    cuts_nameRun rfl (List.all_eq_true.mp rfl) hstop
  simp only [String.reduceToList]
  exact (hlibrary _).append (.append (hdot _) hname)

/-- A variable, asked of the host. -/
theorem spells_fetch (name : String) :
    Spells (fetch name)
      [.name "rt", .colon, .name "get", .opening, .string (bytes name), .closing] := by
  intro rest hrest
  have hhost : ∀ rest, Cuts ['r', 't'] (':' :: rest) [.name "rt"] := fun rest =>
    cuts_nameRun rfl (List.all_eq_true.mp rfl) (fun d hd => by cases hd; rfl)
  have hcolon : ∀ rest, Cuts [':'] ('g' :: rest) [.colon] := fun rest =>
    cuts_word rfl (by decide) rfl
  have hmethod : ∀ rest, Cuts ['g', 'e', 't'] ('(' :: rest) [.name "get"] := fun rest =>
    cuts_nameRun rfl (List.all_eq_true.mp rfl) (fun d hd => by cases hd; rfl)
  have hargument : Cuts (quoted name ++ [')']) rest ([.string (bytes name)] ++ [.closing]) :=
    (cuts_quoted name _).append (cuts_closing rest)
  have hcall : Cuts ('(' :: (quoted name ++ [')'])) rest [.opening, .string (bytes name), .closing] :=
    (cuts_opening _).append hargument
  have hget := (hmethod _).append hcall
  have hinvoke := (hcolon _).append hget
  unfold fetch
  simp only [String.reduceToList]
  exact (hhost _).append hinvoke

section

variable {text : List Char} {ws : List Word}

/-- Parentheses around a text are parentheses around its words. -/
theorem Spells.group (h : Spells text ws) :
    Spells ('(' :: (text ++ [')'])) (.opening :: (ws ++ [.closing])) := by
  intro rest hrest
  have htext := h ([')'] ++ rest) (delimited_cons rfl rest)
  exact (cuts_opening _).append (htext.append (cuts_closing rest))

theorem Spells.not (h : Spells text ws) : Spells ("not ".toList ++ text) (.not :: ws) := by
  intro rest hrest
  have hnot : Cuts ['n', 'o', 't'] ([' '] ++ text ++ rest) [.not] :=
    cuts_nameRun rfl (List.all_eq_true.mp rfl) (fun d hd => by cases hd; rfl)
  simp only [String.reduceToList]
  exact hnot.append ((cuts_space _).append (h rest hrest))

/-- A minus sign is a word of its own, before a text that does not start with another. -/
theorem Spells.minus (h : Spells text ws) (hhead : text.head? ≠ some '-') :
    Spells ('-' :: text) (.operator .sub :: ws) := by
  intro rest hrest
  have hminus : Cuts ['-'] (text ++ rest) [.operator .sub] := by
    refine words_word rfl (fun _ => ?_) rfl
    cases text with
    | nil =>
      -- Then `rest` comes next, which starts with no minus sign either.
      intro hdash
      exact absurd (hrest '-' hdash) (by decide)
    | cons c text => exact hhead
  exact hminus.append (h rest hrest)

/-- A binary operation, with blanks around its operator. -/
theorem Spells.binary {text' : List Char} {ws' : List Word} (op : BinaryOp) (h : Spells text ws)
    (h' : Spells text' ws') :
    Spells (text ++ ' ' :: ((spelling op).toList ++ ' ' :: text')) (ws ++ .operator op :: ws') := by
  intro rest hrest
  have hright : Cuts (' ' :: text') rest ws' := (cuts_space _).append (h' rest hrest)
  have hoperator : Cuts ((spelling op).toList ++ ' ' :: text') rest (.operator op :: ws') :=
    (cuts_operator op _).append hright
  have hleft := h (' ' :: ((spelling op).toList ++ ' ' :: text') ++ rest) (delimited_cons rfl _)
  exact hleft.append ((cuts_space _).append hoperator)

end

end Gamebook.Lua
