/-
# Gamebook.Proofs.Layout — how tokens are laid out in lines and sections

Laying out goes over the tokens from the last to the first, so what it makes of some tokens and more
tokens below them is pushed together from the two parts (`Outline.tailOf_append`). Lines that hold no
token do nothing, wherever they stand; an outline reads the same without them (`Outline.read_compact`).
Every line is a stretch of the tokens it was cut from (`Outline.ofTokens_within`).
-/
import Mathlib.Data.List.TakeWhile
import Gamebook.Story.Read

namespace Gamebook

/-- The end of a line at `pos`. -/
def Token.breakAt (pos : Position) : Token := ⟨.newline, none, pos, "\n"⟩

/-- The end of input at `pos`. -/
def Token.endAt (pos : Position) : Token := ⟨.endOfInput, none, pos, ""⟩

/-! ## Lines that hold nothing -/

/-- Whether a line holds a token. -/
def Line.holds (l : Line) : Bool := !l.tokens.isEmpty

/-- Going over lines one by one, those that do nothing can be left out. -/
theorem Line.foldl_filter_holds {α : Type} {f : α → Line → α} (hf : ∀ a l, l.holds = false → f a l = a)
    (ls : List Line) (a : α) : (ls.filter Line.holds).foldl f a = ls.foldl f a := by
  induction ls generalizing a with
  | nil => rfl
  | cons l ls ih =>
    cases hl : l.holds with
    | true => rw [List.filter_cons_of_pos hl, List.foldl_cons, List.foldl_cons, ih]
    | false => rw [List.filter_cons_of_neg (by simp [hl]), List.foldl_cons, hf a l hl, ih]

theorem Assembly.line_of_not_holds (a : Assembly) {l : Line} (h : l.holds = false) : a.line l = a := by
  obtain ⟨ts, stop⟩ := l
  cases ts with
  | cons t ts => cases h
  | nil =>
    obtain ⟨nodes, frames, skipping, incidents⟩ := a
    cases skipping with
    | none => simp [Assembly.line, Assembly.readLine]
    | some waiting => rfl

theorem Assembly.ofLines_filter_holds (ls : List Line) :
    Assembly.ofLines (ls.filter Line.holds) = Assembly.ofLines ls :=
  Line.foldl_filter_holds (fun a _ => Assembly.line_of_not_holds a) ls Assembly.empty

theorem Preamble.line_of_not_holds (p : Preamble) {l : Line} (h : l.holds = false) : p.line l = p := by
  obtain ⟨ts, stop⟩ := l
  cases ts with
  | cons t ts => cases h
  | nil => simp [Preamble.line]

theorem Preamble.ofLines_filter_holds (ls : List Line) :
    Preamble.ofLines (ls.filter Line.holds) = Preamble.ofLines ls :=
  Line.foldl_filter_holds (fun p _ => Preamble.line_of_not_holds p) ls Preamble.empty

/-- A section without the lines that hold nothing. -/
def Section.compact (s : Section) : Section := { s with body := s.body.filter Line.holds }

theorem Section.passage?_compact (s : Section) : s.compact.passage? = s.passage? := by
  simp only [Section.passage?, Section.compact, Assembly.ofLines_filter_holds]

theorem Section.incidents_compact (s : Section) : s.compact.incidents = s.incidents := by
  simp only [Section.incidents, Section.compact, Assembly.ofLines_filter_holds]

namespace Outline

/-- An outline without the lines that hold nothing. -/
def compact (o : Outline) : Outline :=
  ⟨o.preamble.filter Line.holds, o.sections.map Section.compact⟩

/-- An outline reads the same without the lines that hold nothing. -/
theorem read_compact (o : Outline) : o.compact.read = o.read := by
  have hpassages : (o.sections.map Section.compact).filterMap Section.passage?
      = o.sections.filterMap Section.passage? := by
    rw [List.filterMap_map]
    exact congrArg (List.filterMap · o.sections) (funext Section.passage?_compact)
  have hincidents : (o.sections.map Section.compact).flatMap Section.incidents
      = o.sections.flatMap Section.incidents := by
    rw [List.flatMap_map]
    exact congrArg (List.flatMap · o.sections) (funext Section.incidents_compact)
  simp only [Outline.read, compact, Preamble.ofLines_filter_holds, hpassages, hincidents]

/-! ## Tokens in front of others -/

/-- The layout with more tokens in front. -/
def Tail.pushAll (tail : Tail) (ts : List Token) : Tail := ts.foldr (fun t tail => tail.push t) tail

theorem Tail.pushAll_append (tail : Tail) (ts us : List Token) :
    tail.pushAll (ts ++ us) = (tail.pushAll us).pushAll ts := List.foldr_append

theorem Tail.pushAll_cons (tail : Tail) (t : Token) (ts : List Token) :
    tail.pushAll (t :: ts) = (tail.pushAll ts).push t := rfl

theorem Tail.push_newline (tail : Tail) {t : Token} (h : t.kind = .newline) :
    tail.push t = ⟨⟨[], ⟨t.pos, none⟩⟩, tail.line :: tail.more, tail.sections⟩ := by
  rw [push, h]

theorem Tail.push_marker (tail : Tail) {t : Token} (h : t.kind = .passageMarker) :
    tail.push t
      = ⟨⟨[], ⟨t.pos, some t.describe⟩⟩, [], ⟨t.pos, tail.line, tail.more⟩ :: tail.sections⟩ := by
  rw [push, h]

theorem Tail.push_word (tail : Tail) {t : Token} (hbreak : t.kind ≠ .newline)
    (hmarker : t.kind ≠ .passageMarker) :
    tail.push t = ⟨⟨t :: tail.line.tokens, tail.line.stop⟩, tail.more, tail.sections⟩ := by
  rw [push]
  split
  · next h => exact absurd h hbreak
  · next h => exact absurd h hmarker
  · rfl

theorem Tail.pushAll_words (tail : Tail) {ts : List Token}
    (hts : ∀ t ∈ ts, t.kind ≠ .newline ∧ t.kind ≠ .passageMarker) :
    tail.pushAll ts = ⟨⟨ts ++ tail.line.tokens, tail.line.stop⟩, tail.more, tail.sections⟩ := by
  induction ts with
  | nil => rfl
  | cons t ts ih =>
    obtain ⟨⟨hbreak, hmarker⟩, hts⟩ := List.forall_mem_cons.mp hts
    rw [pushAll_cons, ih hts, push_word _ hbreak hmarker]
    rfl

/-- Tokens that end a line leave what follows them on lines of its own. -/
theorem Tail.pushAll_append_newline (tail : Tail) (ts : List Token) {t : Token} (h : t.kind = .newline) :
    tail.pushAll (ts ++ [t])
      = (Tail.mk ⟨[], ⟨t.pos, none⟩⟩ (tail.line :: tail.more) tail.sections).pushAll ts := by
  rw [pushAll_append, ← tail.push_newline h]
  rfl

/-- The layout of all tokens up to the end of input, comments apart. -/
def tailOf (tokens : List Token) : Tail :=
  let words := tokens.filter fun t => !t.kind.isTrivia
  layout (ending words) (words.takeWhile fun t => !isEnd t)

/-- The outline whose preamble starts with the first line of a layout. -/
def Tail.toOutline (t : Tail) : Outline := ⟨t.line :: t.more, t.sections⟩

theorem ofTokens_eq_toOutline (tokens : List Token) :
    Outline.ofTokens tokens = (tailOf tokens).toOutline := rfl

/-- Reading ends where the last part of the tokens does, if the end of input is not before. -/
theorem ending_append {u v : List Token} (hu : ∀ t ∈ u, isEnd t = false) (hv : v ≠ []) :
    ending (u ++ v) = ending v := by
  have hnone : u.find? isEnd = none := List.find?_eq_none.mpr fun t ht => by simp [hu t ht]
  rw [ending, ending, List.find?_append, hnone, Option.none_or, List.getLast?_append,
    List.getLast?_eq_some_getLast hv, Option.some_or]

/-- Tokens before the end of input are pushed in front of the layout of the others, if those are more than
comments. -/
theorem tailOf_append_of_ne_nil {u v : List Token} (hu : ∀ t ∈ u, t.kind ≠ .endOfInput)
    (hv : v.filter (fun t => !t.kind.isTrivia) ≠ []) :
    tailOf (u ++ v) = (tailOf v).pushAll (u.filter fun t => !t.kind.isTrivia) := by
  have hnot : ∀ t ∈ u.filter fun t => !t.kind.isTrivia, isEnd t = false := by
    intro t ht
    simpa [isEnd] using hu t (List.mem_filter.mp ht).1
  rw [tailOf, List.filter_append, ending_append hnot hv,
    List.takeWhile_append_of_pos fun t ht => by rw [hnot t ht]; rfl, layout, List.foldr_append]
  rfl

/-- Tokens without comments are all words. -/
theorem filter_words {ts : List Token} (hts : ∀ t ∈ ts, t.kind.isTrivia = false) :
    ts.filter (fun t => !t.kind.isTrivia) = ts :=
  List.filter_eq_self.mpr fun t ht => by rw [hts t ht]; rfl

theorem tailOf_eq_pushAll {ts : List Token} (hcomments : ∀ t ∈ ts, t.kind.isTrivia = false)
    (hends : ∀ t ∈ ts, t.kind ≠ .endOfInput) : tailOf ts = (Tail.atEnd (ending ts)).pushAll ts := by
  have hall : ts.takeWhile (fun t => !isEnd t) = ts := by
    rw [List.takeWhile_eq_self_iff]
    intro t ht
    simpa [isEnd] using hends t ht
  rw [tailOf, filter_words hcomments, hall]
  rfl

theorem tailOf_append {u v : List Token} (hu : ∀ t ∈ u, t.kind ≠ .endOfInput)
    (hv : ∃ t ∈ v, t.kind = .endOfInput) :
    tailOf (u ++ v)
      = (u.filter fun t => !t.kind.isTrivia).foldr (fun token tail => tail.push token) (tailOf v) := by
  obtain ⟨t, ht, hk⟩ := hv
  exact tailOf_append_of_ne_nil hu (List.ne_nil_of_mem (List.mem_filter.mpr ⟨ht, by rw [hk]; rfl⟩))

end Outline

/-! ## Lines as stretches of the tokens -/

/-- A section whose header follows a passage marker among the tokens, with lines of these tokens. -/
structure Section.Within (ts : List Token) (s : Section) : Prop where
  header : ∃ marker : Token, marker.kind = .passageMarker ∧ marker :: s.header.tokens <:+: ts
  body : ∀ l ∈ s.body, l.tokens <:+: ts

theorem Section.Within.mono {ts us : List Token} {s : Section} (h : s.Within ts) (hin : ts <:+: us) :
    s.Within us := by
  obtain ⟨marker, hkind, hheader⟩ := h.header
  exact ⟨⟨marker, hkind, hheader.trans hin⟩, fun l hl => (h.body l hl).trans hin⟩

namespace Outline

theorem layout_cons (ending : Position) (t : Token) (ts : List Token) :
    layout ending (t :: ts) = (layout ending ts).push t := rfl

/-- The first line of a layout is the start of the tokens, and the others stand somewhere in them. -/
theorem layout_within (ending : Position) (ts : List Token) :
    (layout ending ts).line.tokens <+: ts ∧ (∀ l ∈ (layout ending ts).more, l.tokens <:+: ts) ∧
      ∀ s ∈ (layout ending ts).sections, s.Within ts := by
  induction ts with
  | nil => exact ⟨List.nil_prefix, List.forall_mem_nil _, List.forall_mem_nil _⟩
  | cons t ts ih =>
    have hin : ts <:+: t :: ts := (List.suffix_cons t ts).isInfix
    obtain ⟨hline, hmore, hsections⟩ := ih
    have hmore : ∀ l ∈ (layout ending ts).more, l.tokens <:+: t :: ts :=
      fun l hl => (hmore l hl).trans hin
    have hsections : ∀ s ∈ (layout ending ts).sections, s.Within (t :: ts) :=
      fun s hs => (hsections s hs).mono hin
    rw [layout_cons, Tail.push]
    split
    · refine ⟨List.nil_prefix, ?_, hsections⟩
      rw [List.forall_mem_cons]
      exact ⟨hline.isInfix.trans hin, hmore⟩
    · next hkind =>
      refine ⟨List.nil_prefix, List.forall_mem_nil _, ?_⟩
      rw [List.forall_mem_cons]
      exact ⟨⟨⟨t, hkind, (List.cons_prefix_cons.mpr ⟨rfl, hline⟩).isInfix⟩, hmore⟩, hsections⟩
    · exact ⟨List.cons_prefix_cons.mpr ⟨rfl, hline⟩, hmore, hsections⟩

/-- **Every line of an outline is a stretch of the tokens,** comments apart. -/
theorem ofTokens_within (tokens : List Token) :
    (∀ l ∈ (ofTokens tokens).preamble, l.tokens <:+: tokens.filter fun t => !t.kind.isTrivia) ∧
      ∀ s ∈ (ofTokens tokens).sections, s.Within (tokens.filter fun t => !t.kind.isTrivia) := by
  have hwords := List.takeWhile_prefix (fun t => !isEnd t) (l := tokens.filter fun t => !t.kind.isTrivia)
  obtain ⟨hline, hmore, hsections⟩ := layout_within (ending (tokens.filter fun t => !t.kind.isTrivia))
    ((tokens.filter fun t => !t.kind.isTrivia).takeWhile fun t => !isEnd t)
  refine ⟨?_, fun s hs => (hsections s hs).mono hwords.isInfix⟩
  rw [ofTokens, List.forall_mem_cons]
  exact ⟨(hline.trans hwords).isInfix, fun l hl => (hmore l hl).trans hwords.isInfix⟩

end Outline

end Gamebook
