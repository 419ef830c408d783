/-
# Gamebook.Proofs.Parentheses — no spelling of an expression has fewer parentheses

An operand stands in parentheses for one reason only: the level of the reader that meets it would not take
it as a whole. This holds of every spelling that is read as the expression, so each pair of the canonical
text is found again in all of them. Over a derivation the pairs are counted as the budget is, one more where
the expression does not fit its level (`Expr.Derives.groups_le`).

In the written text the pairs are counted outside of strings (`Text.outside`), where each opening
parenthesis has its closing one (`Expr.paired_chars`).
-/
import Gamebook.Proofs.Literals
import Gamebook.Proofs.Reading.Statement

namespace Gamebook

/-! ## Outside of strings -/

namespace Text

/-- The characters of a text that stand outside of strings and their quotes, if a string is open at its
beginning or not. -/
def outside : (isOpen : Bool) → List Char → List Char
  | _, [] => []
  | false, c :: cs => if c = '"' then outside true cs else c :: outside false cs
  | true, '\\' :: _ :: cs => outside true cs
  | true, c :: cs => outside (c ≠ '"') cs

/-- Whatever follows `cs`, it closes its strings and has `n` pairs of parentheses outside of them. -/
def Paired (cs : List Char) (n : Nat) : Prop :=
  ∃ bare : List Char, bare.count '(' = n ∧ bare.count ')' = n ∧
    ∀ rest, outside false (cs ++ rest) = bare ++ outside false rest

theorem Paired.append {cs ds : List Char} {m n : Nat} (hc : Paired cs m) (hd : Paired ds n) :
    Paired (cs ++ ds) (m + n) := by
  obtain ⟨bare, hopen, hclose, hcs⟩ := hc
  obtain ⟨bare', hopen', hclose', hds⟩ := hd
  refine ⟨bare ++ bare', ?_, ?_, fun rest => ?_⟩
  · rw [List.count_append, hopen, hopen']
  · rw [List.count_append, hclose, hclose']
  · rw [List.append_assoc, hcs, hds, List.append_assoc]

/-- A character that is neither a quote nor a parenthesis. -/
def isPlain (c : Char) : Bool := c ≠ '"' && c ≠ '(' && c ≠ ')'

theorem outside_of_not_mem {cs : List Char} (h : '"' ∉ cs) (rest : List Char) :
    outside false (cs ++ rest) = cs ++ outside false rest := by
  induction cs with
  | nil => rfl
  | cons c cs ih =>
    rw [List.mem_cons, not_or] at h
    rw [List.cons_append, outside, if_neg (Ne.symm h.1), ih h.2]
    rfl

theorem paired_of_isPlain {cs : List Char} (h : cs.all isPlain = true) : Paired cs 0 := by
  have hne : ∀ d : Char, isPlain d = false → d ∉ cs := by
    intro d hd hmem
    rw [List.all_eq_true.mp h d hmem] at hd
    cases hd
  exact ⟨cs, List.count_eq_zero.mpr (hne '(' rfl), List.count_eq_zero.mpr (hne ')' rfl),
    outside_of_not_mem (hne '"' rfl)⟩

/-- A character of a string as it is written stays inside the string. -/
theorem outside_escape (c : Char) (rest : List Char) :
    outside true (Literal.escape c ++ rest) = outside true rest := by
  unfold Literal.escape
  split
  · rfl
  split
  · rfl
  split
  · rfl
  split
  · rfl
  · next hquote hbackslash _ _ =>
    rw [List.singleton_append, outside, decide_eq_true hquote]
    exact fun _ _ heq => absurd heq hbackslash

theorem paired_quoted (s : String) : Paired (Literal.quoted s) 0 := by
  refine ⟨[], rfl, rfl, fun rest => ?_⟩
  have hinside : ∀ cs : List Char,
      outside true (cs.flatMap Literal.escape ++ '"' :: rest) = outside false rest := by
    intro cs
    induction cs with
    | nil => rfl
    | cons c cs ih => rw [List.flatMap_cons, List.append_assoc, outside_escape, ih]
  rw [Literal.quoted, List.cons_append, List.append_assoc]
  exact hinside s.toList

theorem isPlain_of_isNameChar {c : Char} (h : Lexeme.isNameChar c = true) : isPlain c = true := by
  simp [isPlain, Lexeme.ne_of_class h (d := '"') rfl, Lexeme.ne_of_class h (d := '(') rfl,
    Lexeme.ne_of_class h (d := ')') rfl]

end Text

namespace Expr

open Gamebook.Text

/-! ## Pairs of the canonical text -/

/-- How many pairs of parentheses the canonical text has. -/
def groups : Expr → Nat
  | literal _ | var _ _ => 0
  | unary _ e => enclosed (e.rank < BinaryOp.unaryRank) e.groups
  | binary op l r => enclosed (l.rank < op.rank) l.groups + enclosed (r.rank ≤ op.rank) r.groups

theorem paired_enclose {cs : List Char} {n : Nat} (h : Paired cs n) (needed : Bool) :
    Paired (enclose needed cs) (enclosed needed n) := by
  cases needed with
  | false => exact h
  | true =>
    obtain ⟨bare, hopen, hclose, hcs⟩ := h
    refine ⟨'(' :: (bare ++ [')']), ?_, ?_, fun rest => ?_⟩
    · simp [enclosed, hopen]
    · simp [enclosed, hclose]
    · simp [enclose, outside, hcs]

theorem paired_literal {v : Literal} (hv : v.isWord = true) : Paired v.chars 0 := by
  cases v with
  | int n =>
    obtain ⟨k, hk, rfl⟩ := Literal.exists_nat_of_nonneg (by simpa [Literal.isWord] using hv)
    rw [Literal.chars_int_ofNat hk]
    refine paired_of_isPlain (List.all_eq_true.mpr fun c hc => isPlain_of_isNameChar ?_)
    exact Lexeme.isNameChar_of_isDigit (Lexeme.isDigit_of_mem_digits hc)
  | float f => cases hv
  | str s => exact paired_quoted s
  | bool b => exact paired_of_isPlain (by cases b <;> rfl)

/-- The canonical text has its pairs outside of strings. -/
theorem paired_chars {e : Expr} (he : e.isWritten = true) : Paired e.chars e.groups := by
  induction e with
  | literal v => exact paired_literal he
  | var name pos =>
    rw [isWritten, Lexeme.isName, Bool.and_eq_true, Bool.and_eq_true] at he
    have hname : name.toList.all isPlain = true :=
      List.all_eq_true.mpr fun c hc => isPlain_of_isNameChar (List.all_eq_true.mp he.1.2 c hc)
    exact paired_of_isPlain (by rw [chars, List.all_cons, hname]; rfl)
  | unary op e ih =>
    have hsymbol : Paired op.symbol.toList 0 := paired_of_isPlain (by cases op <;> rfl)
    rw [groups, ← Nat.zero_add (enclosed _ _)]
    exact hsymbol.append (paired_enclose (ih he) _)
  | binary op l r ihl ihr =>
    rw [isWritten, Bool.and_eq_true] at he
    have hblank : Paired [' '] 0 := paired_of_isPlain rfl
    have hsymbol : Paired op.symbol.toList 0 := paired_of_isPlain (by cases op <;> rfl)
    have hbetween : Paired ([' '] ++ (op.symbol.toList ++ [' '])) 0 :=
      hblank.append (hsymbol.append hblank)
    have hright := hbetween.append (paired_enclose (ihr he.2) (r.rank ≤ op.rank))
    have hall := (paired_enclose (ihl he.1) (l.rank < op.rank)).append hright
    simpa [chars, groups] using hall

/-! ## Pairs of any spelling -/

/-- How many parentheses are opened. -/
def opened (ts : List Token) : Nat := ts.countP fun t => t.kind = .opening .round

theorem opened_append (ts us : List Token) : opened (ts ++ us) = opened ts + opened us :=
  List.countP_append

theorem opened_cons_of_ne {t : Token} (h : t.kind ≠ .opening .round) (ts : List Token) :
    opened (t :: ts) = opened ts :=
  List.countP_cons_of_neg (by simpa using h)

theorem kind_of_unaryAt? {t : Token} {op : UnaryOp} (h : unaryAt? t = some op) :
    t.kind ≠ .opening .round := by
  intro hkind
  rw [unaryAt?, hkind] at h
  cases h

/-- **However an expression is spelled,** parentheses are opened at least as often as in its canonical text,
and once more if the level could not have taken that text. -/
theorem Derives.groups_le {budget levels : Nat} {ts : List Token} {e : Expr}
    (h : Derives budget levels ts e) :
    enclosed (e.rank < BinaryOp.unaryRank - levels) e.groups ≤ opened ts := by
  induction h with
  | literal budget hliteral hvalue => exact Nat.zero_le _
  | var budget hdollar hname => exact Nat.zero_le _
  | unary hop operand ih =>
    rw [opened_cons_of_ne (kind_of_unaryAt? hop)]
    exact ih
  | @group budget t u ts e hopen hclose inner ih =>
    -- Inside of parentheses every expression fits; the pair is the one more that may be asked for outside.
    have hinner : e.groups ≤ opened ts := by
      rwa [Nat.sub_self, decide_eq_false (Nat.not_lt_zero _)] at ih
    have hpair : opened (t :: (ts ++ [u])) = opened ts + 1 := by
      rw [opened, List.countP_cons_of_pos (by simpa using hopen), ← opened, opened_append,
        opened_cons_of_ne (by rw [hclose]; exact TokenKind.noConfusion)]
      rfl
    rw [hpair]
    exact Nat.le_trans (enclosed_le_succ _ _) (Nat.succ_le_succ hinner)
  | loosen inner ih =>
    refine Nat.le_trans (enclosed_le (fun hrank => ?_) _) ih
    rw [decide_eq_true_eq] at hrank ⊢
    omega
  | @binary budget levels t op ts us l r hlevels hop hrank left right hdepth ihl ihr =>
    -- The operation itself is of its level's rank. The left operand was met at the same level, the right
    -- one at the next tighter level.
    rw [← hrank] at ihl
    rw [← decide_rank_le_eq hlevels hrank] at ihr
    have hoperator : t.kind ≠ .opening .round := by
      rw [hop]
      exact TokenKind.noConfusion
    rw [rank, hrank, decide_eq_false (Nat.lt_irrefl _), opened_append, opened_cons_of_ne hoperator]
    exact Nat.add_le_add ihl ihr

/-! ## Reading the canonical text -/

/-- The passage that sets `r` to an expression. -/
def assignmentPassage (e : Expr) : Passage :=
  ⟨"A", .empty, [.assignment ⟨"r", .set, e, .unplaced⟩], .unplaced⟩

/-- The story of that passage. -/
def assignmentStory (e : Expr) : Story := ⟨none, none, .empty, [assignmentPassage e]⟩

theorem sorted_assignmentStory (e : Expr) : (assignmentStory e).sorted = [assignmentPassage e] :=
  List.mergeSort_singleton _

theorem render_assignmentStory (e : Expr) : (assignmentStory e).render = assigning e.render := by
  have hparts : (assignmentStory e).parts = [(assignmentPassage e).chars] := by
    rw [Story.parts, sorted_assignmentStory]
    rfl
  refine String.toList_inj.mp ?_
  rw [toList_assigning, Story.render, render, String.toList_ofList, String.toList_ofList, Story.chars,
    hparts]
  simp [assignmentPassage, Passage.chars, Passage.headerChars, Passage.tagChars, NameSet.isEmpty,
    NameSet.empty, renderLine, Node.charsAll, Node.chars, indentation, Assignment.chars, AssignOp.symbol]

theorem writable_assignmentStory {Q : Expr → Prop} {e : Expr} (he : Q e) :
    (assignmentStory e).Writable Q := by
  have hname : Lexeme.isPassageName "A".toList = true := by decide
  have hvariable : Lexeme.isName "r".toList = true := by decide
  have hbody : Node.Everywhere (Node.Writable Q) (assignmentPassage e).body :=
    (Node.everywhere_leaf rfl).mpr ⟨hvariable, he⟩
  have hpassage : (assignmentPassage e).Writable Q :=
    ⟨hname, fun _ h => absurd h List.not_mem_nil, hbody, rfl, Nat.zero_le _⟩
  exact ⟨fun t h => absurd h (Option.not_mem_none t), fun a h => absurd h (Option.not_mem_none a),
    fun _ h => absurd h List.not_mem_nil, fun _ h => absurd h List.not_mem_nil,
    List.forall_mem_singleton.mpr hpassage⟩

/-- What can be written is read back from a source in which it is assigned. -/
theorem ofSource_assigning_render {e : Expr} (hwritten : e.isWritten = true) (hfits : e.Fits) :
    ∃ s, Story.ofSource (assigning e.render) = .ok s ∧
      s.relocate .erase = assignmentStory (e.relocate .erase) := by
  have hwritable : (assignmentStory e).Writable fun e' => e'.isWritten = true ∧ e'.Fits :=
    writable_assignmentStory ⟨hwritten, hfits⟩
  obtain ⟨s, hsource, hsettle⟩ := Story.ofSource_render (fun _ he => he) hwritable
  rw [render_assignmentStory] at hsource
  refine ⟨s, hsource, hsettle.trans ?_⟩
  rw [Story.settle, sorted_assignmentStory]
  rfl

/-- **No spelling of an expression has fewer parentheses than its canonical text.** If a line of a source is
read as `e` from some of its tokens, as many parentheses are opened in them as `e` is written with, or
more; and what is written is read as `e` again, away from its positions. -/
theorem render_fewest_parentheses (source : String) (stop : LineEnd) {ts rest : List Token} {e : Expr}
    (hts : ts <:+: (Lexed.ofSource source).tokens.filter fun t => !t.kind.isTrivia)
    (hread : read stop ts = .ok (e, rest)) (hfree : e.isFloatFree = true) :
    (∃ used, ts = used ++ rest ∧ (outside false e.render.toList).count '(' ≤ opened used) ∧
      (outside false e.render.toList).count ')' = (outside false e.render.toList).count '(' ∧
      ∃ s, Story.ofSource (assigning e.render) = .ok s ∧
        s.relocate .erase = assignmentStory (e.relocate .erase) := by
  obtain ⟨used, rfl, hderives⟩ := read_derives stop hread
  have horderly := Lexed.orderly_tokens source
  have hinfix := (List.prefix_append used rest).isInfix.trans hts
  obtain ⟨hwritten, hfits⟩ := hderives.legible (horderly.of_infix hinfix)
  obtain ⟨bare, hopen, hclose, hbare⟩ := paired_chars (hwritten hfree)
  have houtside : outside false e.render.toList = bare := by
    have hall := hbare []
    rwa [List.append_nil, outside, List.append_nil, ← String.toList_ofList (l := e.chars)] at hall
  have hgroups : e.groups ≤ opened used := by
    have hle := hderives.groups_le
    rwa [Nat.sub_self, decide_eq_false (Nat.not_lt_zero _)] at hle
  rw [houtside, hopen, hclose]
  exact ⟨⟨used, rfl, hgroups⟩, rfl, ofSource_assigning_render (hwritten hfree) hfits⟩

/-- A line with three pairs that are not needed, one that is, and a parenthesis in a string. -/
def crowdedSource : String := ":: A\n$x = ((1) - (\"(\" * 2)) - (3 - $y)\n"

/-- The tokens of its value. -/
def crowdedTokens : List Token :=
  ((Lexed.ofSource crowdedSource).tokens.filter fun t => !t.kind.isTrivia).drop 6

/-- What they are read as. -/
def crowded : Expr :=
  .binary .sub (.binary .sub (.literal (.int 1)) (.binary .mul (.literal (.str "(")) (.literal (.int 2))))
    (.binary .sub (.literal (.int 3)) (.var "y" ⟨2, 31⟩))

theorem render_fewest_parentheses_crowded :
    crowdedTokens <:+: ((Lexed.ofSource crowdedSource).tokens.filter fun t => !t.kind.isTrivia) ∧
      read ⟨⟨2, 34⟩, none⟩ crowdedTokens = .ok (crowded, crowdedTokens.drop 18) ∧
      crowded.isFloatFree = true ∧ crowded.render = "1 - \"(\" * 2 - (3 - $y)" ∧
      opened (crowdedTokens.take 18) = 4 ∧ (outside false crowded.render.toList).count '(' = 1 ∧
      (∃ used, crowdedTokens = used ++ crowdedTokens.drop 18 ∧
        (outside false crowded.render.toList).count '(' ≤ opened used) ∧
      (outside false crowded.render.toList).count ')' = (outside false crowded.render.toList).count '(' ∧
      ∃ s, Story.ofSource (assigning crowded.render) = .ok s ∧
        s.relocate .erase = assignmentStory (crowded.relocate .erase) := by
  have hts : crowdedTokens <:+: (Lexed.ofSource crowdedSource).tokens.filter fun t => !t.kind.isTrivia :=
    (List.drop_suffix 6 _).isInfix
  have hread : read ⟨⟨2, 34⟩, none⟩ crowdedTokens = .ok (crowded, crowdedTokens.drop 18) := by
    decide +kernel
  refine ⟨hts, hread, rfl, by decide +kernel, by decide +kernel, by decide +kernel, ?_⟩
  exact render_fewest_parentheses crowdedSource ⟨⟨2, 34⟩, none⟩ hts hread rfl

end Expr

end Gamebook
