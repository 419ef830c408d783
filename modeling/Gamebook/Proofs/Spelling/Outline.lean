/-
# Gamebook.Proofs.Spelling.Outline — written lines are laid out as they were meant

The words of lines are laid out as these lines, and the words of a passage as its section, up to lines
that hold nothing; the blank lines between the parts of a canonical text are such lines. A header and
the metadata are read back from their lines.
-/
import Gamebook.Proofs.Spelling.Assembly

namespace Gamebook

open Gamebook.Lexeme
open Gamebook.Assembly (lineOf)

/-! ## Words inside a line -/

/-- Whether a token is a word of the language that neither ends a line nor opens a passage. -/
def Token.isInner (t : Token) : Bool :=
  match t.kind with
  | .newline | .passageMarker | .endOfInput | .lineComment | .blockComment | .invalid _ => false
  | _ => true

/-- Whether a token is a word of the language that is read. -/
def Token.isRead (t : Token) : Bool :=
  t.isInner || t.kind = .newline || t.kind = .passageMarker

/-- Whether a token is a word inside a line other than a marker. -/
def Token.isPlain (t : Token) : Bool :=
  match t.kind with
  | .marker _ => false
  | _ => t.isInner

theorem Token.isInner_of_isPlain {t : Token} (h : t.isPlain = true) : t.isInner = true := by
  obtain ⟨kind, value, pos, raw⟩ := t
  cases kind <;> first | rfl | exact h

theorem Token.all_isInner_of_isPlain {ws : List Token} (h : ws.all Token.isPlain = true) :
    ws.all Token.isInner = true := by
  rw [List.all_eq_true] at h ⊢
  exact fun t ht => isInner_of_isPlain (h t ht)

/-- Whether every word of every line stands inside it. -/
def Line.areInner (ls : List (List Token)) : Bool := ls.all (·.all Token.isInner)

namespace Expr

theorem all_isPlain_bracketed {ws : List Token} (h : ws.all Token.isPlain = true) (needed : Bool) :
    (bracketed needed ws).all Token.isPlain = true := by
  cases needed with
  | false => exact h
  | true => simp [bracketed, Token.isPlain, Token.isInner, Token.word, h]

theorem all_isPlain_spelling (e : Expr) : e.spelling.all Token.isPlain = true := by
  induction e with
  | literal v => cases v <;> rfl
  | var name pos => rfl
  | unary op e ih =>
    rw [spelling, List.all_cons, all_isPlain_bracketed ih, Bool.and_true]
    cases op <;> rfl
  | binary op l r ihl ihr =>
    rw [spelling, List.all_append, List.all_cons, all_isPlain_bracketed ihl, all_isPlain_bracketed ihr,
      Bool.and_true, Bool.true_and]
    rfl

end Expr

theorem Lexeme.all_isPlain_guardSpelling (e : Expr) :
    (guardSpelling e).all Token.isPlain = true := by
  simp [guardSpelling, Expr.all_isPlain_spelling, Token.isPlain, Token.isInner, Token.word]

namespace Node

theorem all_isPlain_choiceSpelling (c : Choice) : (choiceSpelling c).all Token.isPlain = true := by
  have hguard : (guardPartSpelling c.guard).all Token.isPlain = true := by
    cases c.guard with
    | none => rfl
    | some g => exact all_isPlain_guardSpelling g
  have htext : (displaySpelling c.text).all Token.isPlain = true := by
    rw [displaySpelling]
    split <;> rfl
  have htarget : (targetPartSpelling c.target).all Token.isPlain = true := by
    cases c.target <;> rfl
  rw [choiceSpelling, List.all_cons, List.all_append, List.all_cons, List.all_append, List.all_cons,
    hguard, htext, htarget]
  rfl

/-- The lines of a statement that holds no body hold no marker, unless it is one. -/
theorem all_isPlain_lines_leaf {n : Node} (hn : n.isConditional = false) (hwhole : n.isWhole = true) :
    n.lines.all (·.all Token.isPlain) = true := by
  cases n with
  | conditional => cases hn
  | stray => cases hwhole
  | text content pos => simp [lines, Token.isPlain, Token.isInner, Token.textual, Token.valued]
  | choice c =>
    rw [lines, List.all_cons, all_isPlain_choiceSpelling]
    rfl
  | assignment a =>
    rw [lines, assignmentSpelling, List.all_cons, List.all_cons, List.all_cons, List.all_cons,
      Expr.all_isPlain_spelling]
    rfl
  | script code pos => rfl
  | divert target pos => rfl

theorem areInner_lines_leaf {n : Node} (hn : n.isConditional = false) :
    Line.areInner n.lines = true := by
  cases hwhole : n.isWhole with
  | true =>
    have hplain := all_isPlain_lines_leaf hn hwhole
    rw [List.all_eq_true] at hplain
    rw [Line.areInner, List.all_eq_true]
    exact fun ws hws => Token.all_isInner_of_isPlain (hplain ws hws)
  | false =>
    cases n with
    | conditional => cases hn
    | stray marker pos => rfl
    | _ => cases hwhole

theorem areInner_linesAll (ns : List Node) : Line.areInner (linesAll ns) = true := by
  have happend : ∀ ls ms, Line.areInner (ls ++ ms) = (Line.areInner ls && Line.areInner ms) :=
    fun ls ms => List.all_append
  have hcons : ∀ l ls, Line.areInner (l :: ls) = (l.all Token.isInner && Line.areInner ls) :=
    fun l ls => List.all_cons
  have hguard : ∀ guard, (guardSpelling guard).all Token.isInner = true :=
    fun guard => Token.all_isInner_of_isPlain (all_isPlain_guardSpelling guard)
  have hclosing : ∀ closing : Option Position,
      Line.areInner (closing.map fun _ => Marker.close.line).toList = true := by
    intro closing
    cases closing <;> rfl
  induction ns using body_induction with
  | nil => rfl
  | leaf n ns hn ih => rw [linesAll, happend, areInner_lines_leaf hn, ih, Bool.and_self]
  | conditional guard body otherwise opening closing ns ihBody ihBranch ih =>
    rw [linesAll, happend, ih, Bool.and_true]
    cases otherwise with
    | none =>
      rw [lines, hcons, happend, hguard, ihBody, hclosing, Bool.and_self,
        Bool.and_self]
    | some branch =>
      rw [lines, hcons, happend, hcons, happend, hguard, ihBody,
        ihBranch branch rfl, hclosing]
      rfl

end Node

theorem Lexeme.all_isInner_headerSpelling (p : Passage) :
    (headerSpelling p).all Token.isInner = true := by
  have htags : (tagsSpelling p.tags).all Token.isInner = true := by
    rw [tagsSpelling]
    split
    · rfl
    · simp [Token.isInner, Token.word]
  rw [headerSpelling, List.all_cons, htags]
  rfl

theorem Lexeme.all_isInner_entrySpelling (key value : String) :
    (entrySpelling key value).all Token.isInner = true := by
  rw [entrySpelling]
  split <;> rfl

theorem all_isRead_unlines {ls : List (List Token)} (h : Line.areInner ls = true) :
    (unlines ls).all Token.isRead = true := by
  induction ls with
  | nil => rfl
  | cons l ls ih =>
    rw [Line.areInner, List.all_cons, Bool.and_eq_true] at h
    have hline : l.all Token.isRead = true := by
      rw [List.all_eq_true] at h ⊢
      intro t ht
      rw [Token.isRead, h.1 t ht]
      rfl
    rw [unlines_cons, List.all_append, List.all_cons, hline, ih h.2]
    rfl

theorem Token.kind_of_isRead {t : Token} (h : t.isRead = true) :
    t.kind.isTrivia = false ∧ t.kind.isInvalid = false ∧ t.kind ≠ .endOfInput := by
  obtain ⟨kind, value, pos, raw⟩ := t
  cases kind <;> first | exact ⟨rfl, rfl, TokenKind.noConfusion⟩ | cases h

/-! ## Layout -/

namespace Outline

/-- Words that are read are put in front of the layout of what follows. -/
theorem tailOf_isRead {ws : List Token} (h : ws.all Token.isRead = true) :
    tailOf (ws ++ [.final]) = ws.foldr (fun t tail => tail.push t) (Tail.atEnd .unplaced) := by
  rw [List.all_eq_true] at h
  rw [tailOf_append (fun t ht => (Token.kind_of_isRead (h t ht)).2.2)
    ⟨.final, List.mem_singleton_self _, rfl⟩, filter_words fun t ht => (Token.kind_of_isRead (h t ht)).1]
  rfl

namespace Tail

/-- Words inside a line are put in front of it. -/
theorem pushAll_of_isInner (tail : Tail) {ws : List Token} (h : ws.all Token.isInner = true) :
    tail.pushAll ws = ⟨⟨ws ++ tail.line.tokens, tail.line.stop⟩, tail.more, tail.sections⟩ := by
  refine tail.pushAll_words fun t ht => ?_
  have hinner : t.isInner = true := List.all_eq_true.mp h t ht
  constructor <;> intro hkind <;> rw [Token.isInner, hkind] at hinner <;> cases hinner

/-- Tokens that are cut into lines, wherever they stand: each line ends with its break. -/
inductive Lined : List Token → List Line → Prop
  | nil : Lined [] []
  | cons {ts us : List Token} {ls : List Line} {stop : Token} (hts : ts.all Token.isInner = true)
      (hstop : stop.kind = .newline) (hus : Lined us ls) :
      Lined (ts ++ stop :: us) (⟨ts, ⟨stop.pos, none⟩⟩ :: ls)

theorem Lined.append {ts us : List Token} {ls ms : List Line} (h : Lined ts ls) (h' : Lined us ms) :
    Lined (ts ++ us) (ls ++ ms) := by
  induction h with
  | nil => exact h'
  | cons hts hstop _ ih =>
    rw [List.append_assoc, List.cons_append]
    exact .cons hts hstop ih

/-- Tokens that are cut into lines are laid out as these lines. -/
theorem Lined.toOutline_pushAll {ts : List Token} {ls : List Line} (h : Lined ts ls) (tail : Tail) :
    (tail.pushAll ts).toOutline = ⟨ls ++ tail.toOutline.preamble, tail.sections⟩ := by
  induction h with
  | nil => rfl
  | @cons ts us ls stop hts hstop _ ih =>
    have hmore : (tail.pushAll us).line :: (tail.pushAll us).more = ls ++ tail.toOutline.preamble :=
      congrArg Outline.preamble ih
    have hsections : (tail.pushAll us).sections = tail.sections := congrArg Outline.sections ih
    rw [pushAll_append, pushAll_cons, push_newline _ hstop, hmore, hsections, pushAll_of_isInner _ hts,
      List.append_nil]
    rfl

/-- Tokens that are the words of lines, up to their places, are cut into these lines. -/
theorem exists_lined {ts : List Token} {wss : List (List Token)} (hinner : Line.areInner wss = true)
    (h : ts.map (Token.relocate .erase) = unlines wss) :
    ∃ ls, Lined ts ls ∧ ls.map (Line.relocate .erase) = wss.map lineOf := by
  induction wss generalizing ts with
  | nil =>
    rw [unlines_nil, List.map_eq_nil_iff] at h
    subst h
    exact ⟨[], .nil, rfl⟩
  | cons ws wss ih =>
    rw [Line.areInner, List.all_cons, Bool.and_eq_true] at hinner
    rw [unlines_cons, List.map_eq_append_iff] at h
    obtain ⟨us, vs, rfl, rfl, hvs⟩ := h
    obtain ⟨stop, vs, rfl, hstop, hvs⟩ := List.map_eq_cons_iff.mp hvs
    obtain ⟨ls, hlined, hls⟩ := ih hinner.2 hvs
    refine ⟨_, .cons ?_ (congrArg Token.kind hstop) hlined, ?_⟩
    · rw [← hinner.1, List.all_map]
      rfl
    · rw [List.map_cons, List.map_cons, hls]
      rfl

/-- The words of lines are laid out as these lines. -/
theorem toOutline_pushAll_unlines (tail : Tail) {ls : List (List Token)}
    (h : Line.areInner ls = true) :
    (tail.pushAll (unlines ls)).toOutline
      = ⟨ls.map lineOf ++ tail.toOutline.preamble, tail.sections⟩ := by
  have hlined : Lined (unlines ls) (ls.map lineOf) := by
    induction ls with
    | nil => exact .nil
    | cons l ls ih =>
      rw [Line.areInner, List.all_cons, Bool.and_eq_true] at h
      rw [unlines_cons]
      exact .cons h.1 rfl (ih h.2)
  exact hlined.toOutline_pushAll tail

/-- A layout without the lines that hold nothing. -/
def compact (tail : Tail) : Outline := tail.toOutline.compact

/-- A blank line holds nothing. -/
theorem compact_pushAll_lineBreak (tail : Tail) : (tail.pushAll [.lineBreak]).compact = tail.compact := rfl

theorem compact_pushAll_unlines (tail : Tail) {ls : List (List Token)}
    (h : Line.areInner ls = true) :
    (tail.pushAll (unlines ls)).compact
      = ⟨(ls.map lineOf).filter Line.holds ++ tail.compact.preamble, tail.compact.sections⟩ := by
  rw [compact, toOutline_pushAll_unlines tail h, Outline.compact, List.filter_append]
  rfl

end Tail

end Outline

namespace Passage

/-- The words of a passage. -/
def spelling (p : Passage) : List Token :=
  .word .passageMarker [':', ':'] :: unlines (headerSpelling p :: Node.linesAll p.body)

/-- The section of a passage. -/
def outline (p : Passage) : Section :=
  ⟨.unplaced, lineOf (headerSpelling p), (Node.linesAll p.body).map lineOf⟩

theorem areInner_lines (p : Passage) :
    Line.areInner (headerSpelling p :: Node.linesAll p.body) = true := by
  rw [Line.areInner, List.all_cons, all_isInner_headerSpelling]
  exact Node.areInner_linesAll p.body

/-- The words of a passage are laid out as its section, with the lines up to the next one. -/
theorem compact_pushAll_spelling (p : Passage) (tail : Outline.Tail) :
    (tail.pushAll p.spelling).compact
      = ⟨[], { p.outline.compact with body := p.outline.compact.body ++ tail.compact.preamble } ::
          tail.compact.sections⟩ := by
  -- The lines are pushed first; then the marker takes the first of them as its header, and the others down
  -- to the next section as its body.
  have hlines := Outline.Tail.toOutline_pushAll_unlines tail p.areInner_lines
  obtain ⟨hline, hmore⟩ := List.cons_eq_cons.mp (congrArg Outline.preamble hlines)
  have hsections : (tail.pushAll (unlines (headerSpelling p :: Node.linesAll p.body))).sections
      = tail.sections := congrArg Outline.sections hlines
  have hpush : tail.pushAll p.spelling
      = ⟨⟨[], ⟨.unplaced, some (Token.word .passageMarker [':', ':']).describe⟩⟩, [],
          ⟨.unplaced, lineOf (headerSpelling p),
            (Node.linesAll p.body).map lineOf ++ tail.toOutline.preamble⟩ :: tail.sections⟩ := by
    rw [← hline, ← hsections]
    exact congrArg (fun more => Outline.Tail.mk _ _ (⟨_, _, more⟩ :: _)) hmore
  have hbody : ((Node.linesAll p.body).map lineOf ++ tail.toOutline.preamble).filter Line.holds
      = p.outline.compact.body ++ tail.compact.preamble := List.filter_append ..
  rw [hpush, ← hbody]
  rfl

end Passage

/-- Passages with blank lines between them are laid out as their sections. -/
theorem Outline.compact_passages (ps : List Passage) :
    ((Outline.Tail.atEnd .unplaced).pushAll ([Token.lineBreak].intercalate (ps.map Passage.spelling))).compact
      = ⟨[], ps.map fun p => p.outline.compact⟩ := by
  induction ps with
  | nil => rfl
  | cons p ps ih =>
    cases ps with
    | nil =>
      rw [List.map_singleton, List.intercalate_singleton, Passage.compact_pushAll_spelling]
      simp [Outline.Tail.compact, Outline.Tail.toOutline, Outline.Tail.atEnd, Outline.compact, Line.holds]
    | cons q ps =>
      rw [List.map_cons, List.map_cons, List.intercalate_cons_cons, ← List.map_cons, List.append_assoc,
        Outline.Tail.pushAll_append, Passage.compact_pushAll_spelling, Outline.Tail.pushAll_append,
        Outline.Tail.compact_pushAll_lineBreak, ih]
      simp

end Gamebook
