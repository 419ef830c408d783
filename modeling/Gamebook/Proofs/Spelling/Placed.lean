/-
# Gamebook.Proofs.Spelling.Placed — where the words of written lines stand

The lines of a body, of a header and of metadata are scanned apart from what follows them
(`Node.stands_charsAll`, `Spells.stands`), so the tokens of a canonical text are those of its parts, each at the
place where the part starts. A line that opens with a brace has its first token at that brace, which is behind
the indentation (`pos_of_tokensAt_brace`).
-/
import Gamebook.Proofs.Scan.Seam
import Gamebook.Proofs.Spelling.Story

namespace Gamebook

open Gamebook.Lexeme
open Gamebook.Text (isBlank splitLines)
open Gamebook.Assembly (lineOf)
open Gamebook.Outline.Tail (Lined exists_lined)

namespace Lexeme

theorem endsLine_renderLine (cs : List Char) : EndsLine (renderLine cs) := .inr ⟨cs, rfl⟩

theorem endsLine_flatMap {α : Type} {f : α → List Char} (h : ∀ x, EndsLine (f x)) (xs : List α) :
    EndsLine (xs.flatMap f) := by
  induction xs with
  | nil => exact .inl rfl
  | cons x xs ih =>
    rw [List.flatMap_cons]
    exact (h x).append ih

/-- Lines whose words do not depend on what follows them stand by themselves. -/
theorem stands_unlines {cs : List Char} {wss : List (List Token)} (hcs : EndsLine cs)
    (hinner : Line.areInner wss = true)
    (h : ∀ rest, words .lineStart (cs ++ rest) = unlines wss ++ words .lineStart rest) :
    Stands cs (unlines wss) := by
  have hread := all_isRead_unlines hinner
  rw [List.all_eq_true] at hread
  exact stands_of_words hcs (fun t ht => (Token.kind_of_isRead (hread t ht)).2.1) h

/-- The tokens of standing lines are cut into them. -/
theorem Stands.exists_lined {cs : List Char} {wss : List (List Token)} (h : Stands cs (unlines wss))
    (hinner : Line.areInner wss = true) (pos : Position) :
    ∃ ls, Lined (tokensAt pos cs) ls ∧ ls.map (Line.relocate .erase) = wss.map lineOf :=
  Outline.Tail.exists_lined hinner (h.map_erase_tokensAt pos)

/-- A line stands by itself at every indentation. -/
theorem Spells.stands {cs : List Char} {ws : List Token} (h : Spells cs ws) (hinner : ws.all Token.isInner = true)
    (depth : Nat) : Stands (renderLine (indentation depth ++ cs)) (unlines [ws]) := by
  refine stands_unlines (endsLine_renderLine _) ?_ fun rest => ?_
  · rw [Line.areInner, List.all_cons, hinner]
    rfl
  · rw [h.indented depth rest, unlines_cons, unlines_nil, List.append_assoc]
    rfl

theorem Spells.exists_line {cs : List Char} {ws : List Token} (h : Spells cs ws)
    (hinner : ws.all Token.isInner = true) (depth : Nat) (pos : Position) :
    ∃ l, Lined (tokensAt pos (renderLine (indentation depth ++ cs))) [l] ∧ l.relocate .erase = lineOf ws := by
  have hlines : Line.areInner [ws] = true := by
    rw [Line.areInner, List.all_cons, hinner]
    rfl
  obtain ⟨ls, hlined, hls⟩ := (h.stands hinner depth).exists_lined hlines pos
  obtain ⟨l, rfl, hl⟩ := List.map_eq_singleton_iff.mp hls
  exact ⟨l, hlined, hl⟩

/-! ## The first token of a line -/

/-- Blanks are passed over. -/
theorem tokensAt_blanks {bs : List Char} (hbs : ∀ b ∈ bs, isBlank b = true) {c : Char} (hc : isBlank c = false)
    (pos : Position) (cs : List Char) :
    tokensAt pos (bs ++ c :: cs) = tokensAt (pos.advance bs) (c :: cs) := by
  cases bs with
  | nil => rfl
  | cons b bs =>
    rw [List.forall_mem_cons] at hbs
    have hraw : (blanks b (bs ++ c :: cs)).raw = b :: bs := by
      simp [blanks, gap, List.takeWhile_append_of_pos hbs.2, hc]
    have hdrop : (bs ++ c :: cs).drop (bs.length + 1 - 1) = c :: cs := by
      rw [Nat.add_sub_cancel, List.drop_left]
    rw [List.cons_append, tokensAt, scan_cons, step_blank (show Mode.lineStart.skipsBlanks = true from rfl) hbs.1]
    simp only [placed, hraw, List.length_cons, hdrop]
    rfl

/-- A line that opens with a brace has its first token there. -/
theorem pos_of_tokensAt_brace {depth : Nat} {cs : List Char} {pos : Position} {t : Token} {ts : List Token}
    (h : tokensAt pos (indentation depth ++ '{' :: cs) = t :: ts) : t.pos = pos.advance (indentation depth) := by
  have hblanks : ∀ b ∈ indentation depth, isBlank b = true := by
    intro b hb
    rw [List.eq_of_mem_replicate hb]
    rfl
  rw [tokensAt_blanks hblanks (by decide), tokensAt, scan_cons] at h
  have hstep : step .lineStart '{' cs = symbolStep (.begin .statement) '{' cs := by
    rw [step, lineStep_of_opensCode rfl]
    simp [codeStep, isBlank, isDigit, isNameStart]
  have htoken : ∀ p : Position, ∃ u : Token, (step .lineStart '{' cs).1.token? p = some u ∧ u.pos = p := by
    intro p
    rw [hstep, symbolStep]
    split
    · exact ⟨_, rfl, rfl⟩
    · exact ⟨_, rfl, rfl⟩
  obtain ⟨u, hu, hpos⟩ := htoken (pos.advance (indentation depth))
  rw [placed, hu, Option.toList_some, List.singleton_append, List.cons.injEq] at h
  rw [← h.1, hpos]

end Lexeme

/-! ## Bodies -/

namespace Node

theorem endsLine_chars_leaf {n : Node} (hn : n.isConditional = false) (depth : Nat) :
    EndsLine (n.chars depth) := by
  cases n with
  | conditional => cases hn
  | text content pos =>
    rw [chars]
    exact endsLine_flatMap (fun line => endsLine_renderLine _) _
  | _ => exact endsLine_renderLine _

theorem endsLine_closingChars (depth : Nat) (closing : Option Position) :
    EndsLine (closingChars depth closing) := by
  cases closing with
  | none => exact .inl rfl
  | some pos => exact endsLine_renderLine _

theorem endsLine_charsAll (depth : Nat) (ns : List Node) : EndsLine (charsAll depth ns) := by
  induction ns using body_induction generalizing depth with
  | nil => exact .inl rfl
  | leaf n ns hn ih =>
    rw [charsAll]
    exact (endsLine_chars_leaf hn depth).append (ih depth)
  | conditional guard body otherwise opening closing ns ihBody ihBranch ih =>
    rw [charsAll]
    refine EndsLine.append ?_ (ih depth)
    have hclosing := endsLine_closingChars depth closing
    cases otherwise with
    | none =>
      rw [chars_conditional_none]
      exact (endsLine_renderLine _).append ((ihBody _).append hclosing)
    | some branch =>
      rw [chars_conditional_some]
      exact (endsLine_renderLine _).append
        ((ihBody _).append ((endsLine_renderLine _).append ((ihBranch branch rfl _).append hclosing)))

/-- A conditional is written from its brace on, behind the indentation. -/
theorem exists_chars_conditional (depth : Nat) (guard : Expr) (body : List Node)
    (otherwise : Option (List Node)) (opening : Position) (closing : Option Position) :
    ∃ cs, (conditional guard body otherwise opening closing).chars depth = indentation depth ++ '{' :: cs := by
  cases otherwise with
  | none => exact ⟨_, by rw [chars_conditional_none, renderLine, List.append_assoc, List.append_assoc]; rfl⟩
  | some branch =>
    exact ⟨_, by rw [chars_conditional_some, renderLine, List.append_assoc, List.append_assoc]; rfl⟩

/-- **A body is scanned apart from what follows it.** -/
theorem stands_charsAll {Q : Expr → Prop} (hQ : ∀ e, Q e → e.isWritten = true) {ns : List Node}
    (h : Everywhere (Writable Q) ns) (depth : Nat) : Stands (charsAll depth ns) (unlines (linesAll ns)) :=
  stands_unlines (endsLine_charsAll depth ns) (areInner_linesAll ns) (words_charsAll hQ h depth)

end Node

/-! ## Passages and metadata -/

namespace Passage

variable {Q : Expr → Prop} {p : Passage}

theorem areInner_header (p : Passage) : Line.areInner [headerSpelling p] = true := by
  rw [Line.areInner, List.all_cons, all_isInner_headerSpelling]
  rfl

theorem stands_headerChars (h : p.Spellable Q) :
    Stands p.headerChars (.word .passageMarker [':', ':'] :: unlines [headerSpelling p]) := by
  have hread := all_isRead_unlines p.areInner_header
  refine stands_of_words (endsLine_renderLine _) ?_ fun rest => ?_
  · rw [List.all_eq_true] at hread
    rw [List.forall_mem_cons]
    exact ⟨rfl, fun t ht => (Token.kind_of_isRead (hread t ht)).2.1⟩
  · rw [headerChars, renderLine, List.append_assoc, List.singleton_append, spells_header h.name h.tags,
      unlines_cons, unlines_nil]
    simp

theorem stands_chars (hQ : ∀ e, Q e → e.isWritten = true) (h : p.Spellable Q) : Stands p.chars p.spelling := by
  have hread := all_isRead_unlines p.areInner_lines
  refine stands_of_words ((endsLine_renderLine _).append (Node.endsLine_charsAll 0 p.body)) ?_ (words_chars hQ h)
  rw [List.all_eq_true] at hread
  rw [spelling, List.forall_mem_cons]
  exact ⟨rfl, fun t ht => (Token.kind_of_isRead (hread t ht)).2.1⟩

end Passage

theorem Lexeme.stands_break : Stands ['\n'] (unlines [[]]) :=
  stands_unlines (.inr ⟨[], rfl⟩) rfl words_break

namespace Story

/-- What stands before the first passage in the canonical text: the metadata, and a blank line if it divides
them from passages or if there is nothing else. -/
def lead (s : Story) : List Char :=
  s.metadataChars ++ if s.metadataChars.isEmpty = s.sorted.isEmpty then ['\n'] else []

/-- The lines before the first passage, as words. -/
def leadLines (s : Story) : List (List Token) :=
  s.entryLines ++ if s.metadataChars.isEmpty = s.sorted.isEmpty then [[]] else []

/-- The canonical text is the lead and then the passages, with blank lines between them. -/
theorem chars_eq (s : Story) : s.chars = s.lead ++ ['\n'].intercalate (s.sorted.map Passage.chars) := by
  rw [chars, parts, lead]
  cases hmetadata : s.metadataChars with
  | nil => cases s.sorted <;> rfl
  | cons c cs =>
    cases hsorted : s.sorted with
    | nil =>
      show ['\n'].intercalate [c :: cs] = _
      simp
    | cons p ps =>
      show ['\n'].intercalate (_ :: (p :: ps).map Passage.chars) = _
      rw [List.map_cons, List.intercalate_cons_cons]
      rfl

theorem areInner_leadLines (s : Story) : Line.areInner s.leadLines = true := by
  have hentries := s.areInner_entryLines
  rw [Line.areInner] at hentries ⊢
  rw [leadLines, List.all_append, hentries]
  split <;> rfl

theorem stands_lead {Q : Expr → Prop} {s : Story} (h : s.Spellable Q) : Stands s.lead (unlines s.leadLines) := by
  refine stands_unlines ?_ s.areInner_leadLines fun rest => ?_
  · have hmetadata : EndsLine s.metadataChars := by
      rw [metadataChars_eq]
      exact endsLine_flatMap (fun e => endsLine_renderLine _) _
    refine hmetadata.append ?_
    split
    · exact .inr ⟨[], rfl⟩
    · exact .inl rfl
  · rw [lead, leadLines, List.append_assoc, words_metadataChars h, unlines_append, List.append_assoc]
    congr 1
    split
    · exact words_break rest
    · rfl

end Story

end Gamebook
