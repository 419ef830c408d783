/-
# Gamebook.Proofs.Spelling.Expr — the words of a written expression

The canonical text of an expression is cut into exactly the words it is spelled with
(`Expr.words_chars`), whatever stands before it on the line and as long as what follows it cannot go on
with its last word. Brackets that are opened are closed again, so the scanner leaves an expression in the
state in which it came.
-/
import Gamebook.Expr.Render
import Gamebook.Proofs.Words

namespace Gamebook

open Gamebook.Lexeme
open Gamebook.Text (isBlank)

/-! ## What can be written -/

/-- Whether a text is a variable name. -/
def Lexeme.isName (cs : List Char) : Bool :=
  cs.head?.any isNameStart && cs.all isNameChar && (keyword? cs).isNone

/-- Whether a literal has a text that is one word. -/
def Literal.isWord : Literal → Bool
  | .int n => 0 ≤ n
  | .float _ => false
  | .str s => !s.toList.contains '\r'
  | .bool _ => true

/-- Whether the literals and names of an expression can be written. -/
def Expr.isWritten : Expr → Bool
  | .literal v => v.isWord
  | .var name _ => isName name.toList
  | .unary _ e => e.isWritten
  | .binary _ l r => l.isWritten && r.isWritten

/-! ## Words of an expression -/

namespace Literal

/-- The kind of token that a literal is. -/
def kind : Literal → TokenKind
  | int _ | float _ => .number
  | str _ => .string
  | bool b => .boolean b

/-- The word of a literal. -/
def spelling (v : Literal) : Token := .valued v.kind v v.chars

end Literal

/-- The kind of token that a unary operator is. -/
def UnaryOp.kind : UnaryOp → TokenKind
  | .not => .bang
  | .neg => .operator .sub

namespace Expr

/-- Puts parentheses around words when asked to. -/
def bracketed (needed : Bool) (ws : List Token) : List Token :=
  if needed then .word (.opening .round) ['('] :: (ws ++ [.word (.closing .round) [')']]) else ws

/-- The words an expression is written with. -/
def spelling : Expr → List Token
  | literal v => [v.spelling]
  | var name _ => [.word .dollar ['$'], .word .identifier name.toList]
  | unary op e =>
    .word op.kind op.symbol.toList :: bracketed (e.rank < BinaryOp.unaryRank) e.spelling
  | binary op l r =>
    bracketed (l.rank < op.rank) l.spelling ++
      .word (.operator op) op.symbol.toList :: bracketed (r.rank ≤ op.rank) r.spelling

end Expr

namespace Lexeme

/-- What may follow a word without going on with it. -/
def isDelimiter (c : Char) : Bool := c = ' ' || c = ')' || c = '}' || c = '\n'

/-- Whether a text goes on with no word before it. -/
def Delimited (cs : List Char) : Prop := ∀ c ∈ cs.head?, isDelimiter c = true

theorem delimited_cons {c : Char} (h : isDelimiter c = true) (cs : List Char) : Delimited (c :: cs) := by
  intro d hd
  cases hd
  exact h

/-- A run of one class ends where the next character is not of that class. -/
theorem takeWhile_append_stop {p : Char → Bool} {word rest : List Char}
    (hword : ∀ c ∈ word, p c = true) (hrest : ∀ c ∈ rest.head?, p c = false) :
    (word ++ rest).takeWhile p = word := by
  rw [List.takeWhile_append_of_pos hword]
  cases rest with
  | nil => exact List.append_nil word
  | cons c rest =>
    rw [List.takeWhile_cons_of_neg (by simp [hrest c rfl]), List.append_nil]

theorem takeWhile_eq_self {p : Char → Bool} {word : List Char} (hword : ∀ c ∈ word, p c = true) :
    word.takeWhile p = word := by
  have htake : (word ++ []).takeWhile p = word :=
    takeWhile_append_stop hword fun c hc => absurd hc (Option.not_mem_none c)
  rwa [List.append_nil] at htake

theorem dropWhile_append_stop {p : Char → Bool} {word rest : List Char}
    (hword : ∀ c ∈ word, p c = true) (hrest : ∀ c ∈ rest.head?, p c = false) :
    (word ++ rest).dropWhile p = rest := by
  rw [List.dropWhile_append_of_pos hword]
  cases rest with
  | nil => rfl
  | cons c rest => rw [List.dropWhile_cons_of_neg (by simp [hrest c rfl])]

theorem isNameChar_of_isDelimiter {c : Char} (h : isDelimiter c = true) : isNameChar c = false := by
  simp only [isDelimiter, Bool.or_eq_true, decide_eq_true_eq] at h
  rcases h with ((rfl | rfl) | rfl) | rfl <;> rfl

theorem isDigit_of_isDelimiter {c : Char} (h : isDelimiter c = true) : isDigit c = false := by
  have hname := isNameChar_of_isDelimiter h
  rw [isNameChar, Bool.or_eq_false_iff] at hname
  exact hname.2

/-! ## Words in a line of code -/

/-- A character of a class is none that is not of that class. -/
theorem ne_of_class {p : Char → Bool} {c d : Char} (h : p c = true) (hd : p d = false) : c ≠ d := by
  rintro rfl
  rw [h] at hd
  cases hd

theorem isBlank_of_class {p : Char → Bool} {c : Char} (h : p c = true) (hspace : p ' ' = false)
    (htab : p '\t' = false) : isBlank c = false := by
  simp [isBlank, ne_of_class h hspace, ne_of_class h htab]

theorem isNameChar_of_isDigit {c : Char} (h : isDigit c = true) : isNameChar c = true := by
  rw [isNameChar, h, Bool.or_true]

theorem isDigit_of_isNameStart {c : Char} (h : isNameStart c = true) : isDigit c = false := by
  simp only [isNameStart, isDigit, Bool.or_eq_true, Bool.and_eq_true, decide_eq_true_eq,
    Bool.and_eq_false_iff, decide_eq_false_iff_not, Char.le_def, UInt32.le_iff_toNat_le] at h ⊢
  rcases h with (h | h) | rfl
  · have : '9'.val.toNat < 'a'.val.toNat := by decide
    omega
  · have : '9'.val.toNat < 'A'.val.toNat := by decide
    omega
  · decide

variable (s : CodeState)

theorem codeStep_of_isNameStart {c : Char} (h : isNameStart c = true) (cs : List Char) :
    codeStep s c cs = (nameWord (c :: cs), .code s) := by
  have hblank : isBlank c = false := isBlank_of_class h rfl rfl
  simp [codeStep, h, hblank, isDigit_of_isNameStart h, ne_of_class h (d := '\n') rfl,
    ne_of_class h (d := '/') rfl, ne_of_class h (d := '<') rfl,
    ne_of_class h (d := '-') rfl, ne_of_class h (d := '"') rfl]

theorem codeStep_of_isDigit {c : Char} (h : isDigit c = true) (cs : List Char) :
    codeStep s c cs = (numberWord (c :: cs), .code s) := by
  have hblank : isBlank c = false := isBlank_of_class h rfl rfl
  simp [codeStep, h, hblank, ne_of_class h (d := '\n') rfl, ne_of_class h (d := '/') rfl,
    ne_of_class h (d := '<') rfl, ne_of_class h (d := '-') rfl, ne_of_class h (d := '"') rfl]

theorem words_openRound (rest : List Char) :
    words (.code s) ('(' :: rest)
      = .word (.opening .round) ['('] :: words (.code { s with depth := s.depth + 1 }) rest :=
  words_step (l := plain (.opening .round) ['(']) rfl rfl

theorem words_closeRound (rest : List Char) :
    words (.code { s with depth := s.depth + 1 }) (')' :: rest)
      = .word (.closing .round) [')'] :: words (.code s) rest :=
  words_step (l := plain (.closing .round) [')']) rfl rfl

theorem words_dollar (rest : List Char) :
    words (.code s) ('$' :: rest) = .word .dollar ['$'] :: words (.code s) rest :=
  words_step (l := plain .dollar ['$']) rfl rfl

/-- A binary operator, which is always followed by a blank. -/
theorem words_operator (op : BinaryOp) (rest : List Char) :
    words (.code s) (op.symbol.toList ++ ' ' :: rest)
      = .word (.operator op) op.symbol.toList :: words (.code s) (' ' :: rest) := by
  cases op <;> exact words_step (l := plain (.operator _) _) rfl rfl

/-- A unary operator, before a text that does not go on with it. -/
theorem words_unary (op : UnaryOp) {c : Char} (heq : c ≠ '=') (hgt : c ≠ '>') (rest : List Char) :
    words (.code s) (op.symbol.toList ++ c :: rest)
      = .word op.kind op.symbol.toList :: words (.code s) (c :: rest) := by
  -- `!` would go on to `!=`, and `-` to `-=` or to an arrow.
  have hsymbol : ('=' == c) = false := by simpa using Ne.symm heq
  cases op with
  | not =>
    have hfind : symbol? ('!' :: c :: rest) = some (['!'], .bang) := by
      simp [symbol?, symbols, List.isPrefixOf, hsymbol]
    have hstep : codeStep s '!' (c :: rest) = (plain .bang ['!'], .code s) := by
      show symbolStep s '!' (c :: rest) = _
      rw [symbolStep, hfind]
      rfl
    exact words_codeStep hstep rfl
  | neg =>
    have hfind : symbol? ('-' :: c :: rest) = some (['-'], .operator .sub) := by
      simp [symbol?, symbols, List.isPrefixOf, hsymbol]
    have hstep : codeStep s '-' (c :: rest) = (plain (.operator .sub) ['-'], .code s) := by
      rw [codeStep, if_neg (by decide), if_neg (by decide), if_neg (by simp), if_neg (by simp),
        if_neg (by simp), if_neg (by simpa using hgt)]
      show symbolStep s '-' (c :: rest) = _
      rw [symbolStep, hfind]
      rfl
    exact words_codeStep hstep rfl

/-- A run of name characters is one word, before a text that does not go on with it. -/
theorem words_nameRun {c : Char} {cs rest : List Char} {l : Lexeme} (hstart : isNameStart c = true)
    (hall : ∀ d ∈ c :: cs, isNameChar d = true) (hrest : Delimited rest)
    (hword : nameWord (c :: cs) = l) (hraw : l.raw = c :: cs) :
    words (.code s) ((c :: cs) ++ rest) = l.word?.toList ++ words (.code s) rest := by
  have htake : ((c :: cs) ++ rest).takeWhile isNameChar = c :: cs :=
    takeWhile_append_stop hall fun d hd => isNameChar_of_isDelimiter (hrest d hd)
  have htake' : (c :: cs).takeWhile isNameChar = c :: cs := takeWhile_eq_self hall
  have happend : nameWord ((c :: cs) ++ rest) = l := by
    rw [← hword, nameWord, nameWord, htake, htake']
  have hstep := codeStep_of_isNameStart s hstart (cs ++ rest)
  rw [← List.cons_append, happend] at hstep
  exact words_codeStep hstep (by rw [hraw]; rfl)

/-- A name, before a text that does not go on with it. -/
theorem words_name {name rest : List Char} (hname : isName name = true) (hrest : Delimited rest) :
    words (.code s) (name ++ rest) = .word .identifier name :: words (.code s) rest := by
  simp only [isName, Bool.and_eq_true, List.all_eq_true, Option.isNone_iff_eq_none] at hname
  obtain ⟨⟨hhead, hall⟩, hkeyword⟩ := hname
  cases name with
  | nil => cases hhead
  | cons c name =>
    refine words_nameRun s (l := plain .identifier (c :: name)) hhead hall hrest ?_ rfl
    simp only [nameWord, takeWhile_eq_self hall, hkeyword]

/-- A truth value, before a text that does not go on with it. -/
theorem words_bool (b : Bool) {rest : List Char} (hrest : Delimited rest) :
    words (.code s) (Literal.boolChars b ++ rest)
      = .valued (.boolean b) (.bool b) (Literal.boolChars b) :: words (.code s) rest := by
  cases b with
  | true => exact words_nameRun s rfl (List.all_eq_true.mp rfl) hrest rfl rfl
  | false => exact words_nameRun s rfl (List.all_eq_true.mp rfl) hrest rfl rfl

theorem isDigit_of_mem_digits {n : Nat} {c : Char} (h : c ∈ Decimal.digits n) : isDigit c = true := by
  have := Nat.isDigit_of_mem_toDigits (by decide) (by decide) h
  simpa [isDigit, Char.isDigit, Char.le_def] using this

/-- The digits of a number have its value. -/
theorem value_digits (n : Nat) : Decimal.value (Decimal.digits n) = n := by
  have := Nat.ofDigitChars_ten_toDigits (n := n)
  rwa [Nat.ofDigitChars_eq_foldl] at this

/-- The digits of a number, before a text that does not go on with them. -/
theorem words_digits {n : Nat} (hn : n ≤ maxInteger) {rest : List Char} (hrest : Delimited rest) :
    words (.code s) (Decimal.digits n ++ rest)
      = .valued .number (.int (Int64.ofNat n)) (Decimal.digits n) :: words (.code s) rest := by
  have hall : ∀ c ∈ Decimal.digits n, isDigit c = true := fun c hc => isDigit_of_mem_digits hc
  have hdigit : ∀ c ∈ rest.head?, isDigit c = false := fun c hc => isDigit_of_isDelimiter (hrest c hc)
  have hvalue : Decimal.value (Decimal.digits n) = n := value_digits n
  cases hds : Decimal.digits n with
  | nil => exact absurd hds Nat.toDigits_ne_nil
  | cons c ds =>
    rw [hds] at hall hvalue
    have hword : numberWord (c :: (ds ++ rest))
        = withValue .number (.int (Int64.ofNat n)) (c :: ds) := by
      have htake : (c :: (ds ++ rest)).takeWhile isDigit = c :: ds := takeWhile_append_stop hall hdigit
      have hdrop : (c :: (ds ++ rest)).dropWhile isDigit = rest := dropWhile_append_stop hall hdigit
      rw [numberWord, htake, hdrop]
      cases rest with
      | nil => simp only [numberWord.integer, hvalue, if_pos hn]
      | cons d rest =>
        -- Only a point would go on with the number.
        have hd : d ≠ '.' := by
          rintro rfl
          have := hrest '.' rfl
          cases this
        split
        · next e es heq =>
          cases heq
          exact absurd rfl hd
        · simp only [numberWord.integer, hvalue, if_pos hn]
    have hstep := codeStep_of_isDigit s (hall c List.mem_cons_self) (ds ++ rest)
    rw [hword] at hstep
    exact words_codeStep hstep rfl

/-- An escaped character stands for itself. -/
theorem stringBody_escape_append (c : Char) (cs : List Char) :
    stringBody (Literal.escape c ++ cs)
      = (Literal.escape c ++ (stringBody cs).1, (stringBody cs).2.map (c :: ·)) := by
  unfold Literal.escape
  split
  · next h =>
    subst h
    simp [stringBody, unescape]
  split
  · next h =>
    subst h
    simp [stringBody, unescape]
  split
  · next h =>
    subst h
    simp [stringBody, unescape]
  split
  · next h =>
    subst h
    simp [stringBody, unescape]
  · next hquote hslash hbreak htab =>
    rw [List.singleton_append, stringBody.eq_5 _ _ hbreak hquote (fun _ _ h => absurd h hslash)]
    rfl

/-- Escaped characters stand for themselves, whatever follows them. -/
theorem stringBody_flatMap_append (cs rest : List Char) :
    stringBody (cs.flatMap Literal.escape ++ rest)
      = (cs.flatMap Literal.escape ++ (stringBody rest).1, (stringBody rest).2.map (cs ++ ·)) := by
  induction cs with
  | nil => simp
  | cons c cs ih =>
    rw [List.flatMap_cons, List.append_assoc, stringBody_escape_append, ih, Option.map_map,
      List.append_assoc]
    rfl

theorem codeStep_quoted (text : String) (rest : List Char) :
    codeStep s '"' (text.toList.flatMap Literal.escape ++ '"' :: rest)
      = (withValue .string (.str text) (Literal.quoted text), .code s) := by
  show (stringWord (text.toList.flatMap Literal.escape ++ '"' :: rest), _) = _
  rw [stringWord, stringBody_flatMap_append, stringBody, Option.map_some, List.append_nil]
  simp only [withText, String.ofList_toList]
  rfl

/-- A string, whatever follows it. -/
theorem words_quoted (text : String) (rest : List Char) :
    words (.code s) (Literal.quoted text ++ rest)
      = .valued .string (.str text) (Literal.quoted text) :: words (.code s) rest := by
  have htext : Literal.quoted text ++ rest = '"' :: (text.toList.flatMap Literal.escape ++ '"' :: rest) := by
    rw [Literal.quoted, List.cons_append, List.append_assoc, List.singleton_append]
  have hraw : '"' :: (text.toList.flatMap Literal.escape ++ '"' :: rest)
      = (withValue .string (.str text) (Literal.quoted text)).raw ++ rest := htext.symm
  rw [htext, words_codeStep (codeStep_quoted s text rest) hraw]
  rfl

end Lexeme

/-! ## Expressions -/

namespace Literal

/-- An integer that is not negative is a natural number in range. -/
theorem exists_nat_of_nonneg {n : Int64} (h : 0 ≤ n) : ∃ k ≤ maxInteger, n = Int64.ofNat k := by
  have hle : 0 ≤ n.toInt := Int64.le_iff_toInt_le.mp h
  have hlt : n.toInt < 2 ^ 63 := Int64.toInt_lt n
  refine ⟨n.toInt.toNat, ?_, ?_⟩
  · rw [maxInteger]
    omega
  · rw [← Int64.ofInt_eq_ofNat, Int.toNat_of_nonneg hle, Int64.ofInt_toInt]

/-- The text of a natural number in range is its digits. -/
theorem chars_int_ofNat {k : Nat} (h : k ≤ maxInteger) :
    (int (Int64.ofNat k)).chars = Decimal.digits k := by
  have hint : (Int64.ofNat k).toInt = k := Int64.toInt_ofNat_of_lt (by rw [maxInteger] at h; omega)
  have hmin : Int64.ofNat k ≠ Int64.minValue := by
    intro heq
    rw [heq] at hint
    have : Int64.minValue.toInt = -9223372036854775808 := by decide
    omega
  have hneg : ¬ Int64.ofNat k < 0 := by
    rw [Int64.lt_iff_toInt_lt, hint]
    simp
  rw [chars, if_neg hmin, Decimal.integer, hint, Int.natAbs_natCast]
  simp [hneg, Decimal.sign]

end Literal

/-- A literal, before a text that does not go on with it. -/
theorem Literal.words_chars (s : CodeState) {v : Literal} (hv : v.isWord = true) {rest : List Char}
    (hrest : Delimited rest) :
    Lexeme.words (.code s) (v.chars ++ rest) = v.spelling :: Lexeme.words (.code s) rest := by
  cases v with
  | int n =>
    have hn : 0 ≤ n := by simpa [Literal.isWord] using hv
    obtain ⟨k, hk, rfl⟩ := Literal.exists_nat_of_nonneg hn
    have hchars : (Literal.int (Int64.ofNat k)).chars = Decimal.digits k :=
      Literal.chars_int_ofNat hk
    rw [Literal.spelling, hchars]
    exact words_digits s hk hrest
  | float f => cases hv
  | str text => exact words_quoted s text rest
  | bool b => exact words_bool s b hrest

namespace Expr

/-- The characters that the text of an expression can start with. -/
def isOpening (c : Char) : Bool := isDigit c || ['"', '$', '(', '!', '-', 't', 'f'].contains c

theorem chars_head {e : Expr} (he : e.isWritten = true) :
    ∃ c cs, e.chars = c :: cs ∧ isOpening c = true := by
  induction e with
  | literal v =>
    cases v with
    | int n =>
      obtain ⟨k, hk, rfl⟩ := Literal.exists_nat_of_nonneg (by simpa [isWritten, Literal.isWord] using he)
      rw [chars, Literal.chars_int_ofNat hk]
      cases hds : Decimal.digits k with
      | nil => exact absurd hds Nat.toDigits_ne_nil
      | cons c ds =>
        have hdigit := isDigit_of_mem_digits (n := k) (c := c) (by rw [hds]; exact List.mem_cons_self)
        exact ⟨c, ds, rfl, by simp [isOpening, hdigit]⟩
    | float f => cases he
    | str text => exact ⟨'"', _, rfl, rfl⟩
    | bool b => cases b <;> exact ⟨_, _, rfl, rfl⟩
  | var name pos => exact ⟨'$', _, rfl, rfl⟩
  | unary op e ih => cases op <;> exact ⟨_, _, rfl, rfl⟩
  | binary op l r ihl ihr =>
    rw [isWritten, Bool.and_eq_true] at he
    obtain ⟨c, cs, hl, hopening⟩ := ihl he.1
    rw [chars, hl]
    cases (decide (l.rank < op.rank)) with
    | true => exact ⟨'(', _, rfl, rfl⟩
    | false => exact ⟨c, _, rfl, hopening⟩

theorem enclose_head (needed : Bool) {e : Expr} (he : e.isWritten = true) :
    ∃ c cs, enclose needed e.chars = c :: cs ∧ isOpening c = true := by
  cases needed with
  | true => exact ⟨'(', _, rfl, rfl⟩
  | false => exact chars_head he

/-- Parentheses around a text are parentheses around its words. -/
theorem words_enclose {e : Expr}
    (ih : ∀ (s : CodeState) (rest : List Char), Delimited rest →
      Lexeme.words (.code s) (e.chars ++ rest) = e.spelling ++ Lexeme.words (.code s) rest)
    (needed : Bool) (s : CodeState) {rest : List Char} (hrest : Delimited rest) :
    Lexeme.words (.code s) (enclose needed e.chars ++ rest)
      = bracketed needed e.spelling ++ Lexeme.words (.code s) rest := by
  cases needed with
  | false => exact ih s rest hrest
  | true =>
    have htext : enclose true e.chars ++ rest = '(' :: (e.chars ++ ')' :: rest) := by
      simp [enclose]
    rw [htext, words_openRound, ih _ _ (delimited_cons rfl rest), words_closeRound]
    simp [bracketed]

/-- **The canonical text of an expression is cut into its words.** -/
theorem words_chars {e : Expr} (he : e.isWritten = true) (s : CodeState) (rest : List Char)
    (hrest : Delimited rest) :
    Lexeme.words (.code s) (e.chars ++ rest) = e.spelling ++ Lexeme.words (.code s) rest := by
  induction e generalizing s rest with
  | literal v => exact Literal.words_chars s he hrest
  | var name pos =>
    rw [chars, List.cons_append, words_dollar, words_name s he hrest]
    rfl
  | unary op e ih =>
    have he : e.isWritten = true := he
    -- The operand starts with a character that does not go on with the operator.
    obtain ⟨c, cs, hhead, hopening⟩ := enclose_head (e.rank < BinaryOp.unaryRank) he
    have henclose := words_enclose (ih he) (e.rank < BinaryOp.unaryRank) s hrest
    rw [chars, List.append_assoc]
    rw [hhead] at henclose ⊢
    rw [List.cons_append, words_unary s op (ne_of_class hopening rfl) (ne_of_class hopening rfl),
      ← List.cons_append, henclose]
    rfl
  | binary op l r ihl ihr =>
    rw [isWritten, Bool.and_eq_true] at he
    rw [chars, List.append_assoc, List.cons_append,
      words_enclose (ihl he.1) _ s (delimited_cons (c := ' ') rfl _), words_blank rfl, List.append_assoc,
      List.cons_append, words_operator, words_blank rfl, words_enclose (ihr he.2) _ s hrest, spelling,
      List.append_assoc, List.cons_append]

end Expr

end Gamebook
