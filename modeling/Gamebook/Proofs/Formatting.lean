/-
# Gamebook.Proofs.Formatting — formatting and the story

Formatting reads a source and writes the canonical text of the story. The story read from that text is the
story of the source, in canonical order and without places, but for one thing. Every rule that cuts prose out
of a source trims its end, except the one for text after a comment on the same line, and the canonical text
trims every line. So white space at the end of such a text is lost (`Story.format_iff`), and nothing else is.

Two facts about what is read carry this: a text of prose stands on one line, and the text of a choice is
trimmed (`Node.Tidy`). The first is a fact about tokens; the second needs the brackets of the choice counted
up to its text, through a guard that may hold any expression.
-/
import Gamebook.Proofs.Scan.Display
import Gamebook.Proofs.Stability

namespace Gamebook

open Gamebook.Text (trimEnd trim splitLines)

/-! ## What is read is tidy -/

theorem TokenKind.isFlat_of_isLiteral {t : Token} (h : Expr.isLiteral t = true) : t.kind.isFlat = true := by
  unfold Expr.isLiteral at h
  split at h
  · next hkind => rw [hkind]; rfl
  · next hkind => rw [hkind]; rfl
  · next hkind => rw [hkind]; rfl
  · cases h

theorem TokenKind.isFlat_of_unaryAt? {t : Token} {op : UnaryOp} (h : Expr.unaryAt? t = some op) :
    t.kind.isFlat = true := by
  unfold Expr.unaryAt? at h
  split at h
  · next hkind => rw [hkind]; rfl
  · next hkind => rw [hkind]; rfl
  · cases h

/-- Inside a bracket an expression is passed over: its brackets are closed again. -/
theorem Token.Shows.of_derives {budget levels depth : Nat} {used rest : List Token} {e : Expr}
    (hderives : Expr.Derives budget levels used e) (h : Token.Shows (depth + 1) (used ++ rest)) :
    Token.Shows (depth + 1) rest := by
  induction hderives generalizing depth rest with
  | literal budget hliteral hvalue =>
    exact (Token.shows_flat (TokenKind.isFlat_of_isLiteral hliteral)).mp h
  | var budget hdollar hname =>
    have hrest := (Token.shows_flat (by rw [hdollar]; rfl)).mp h
    exact (Token.shows_flat (by rw [hname]; rfl)).mp hrest
  | unary hop operand ih =>
    exact ih ((Token.shows_flat (TokenKind.isFlat_of_unaryAt? hop)).mp h)
  | @group budget t u ts e hopen hclose inner ih =>
    rw [List.cons_append, List.append_assoc, Token.shows_cons (by rw [hopen]; exact TokenKind.noConfusion)
      fun _ => Nat.succ_ne_zero _, hopen] at h
    have hrest := ih h
    rw [List.singleton_append, Token.shows_cons (by rw [hclose]; exact TokenKind.noConfusion)
      fun _ => Nat.succ_ne_zero _, hclose] at hrest
    exact hrest
  | loosen inner ih => exact ih h
  | binary hlevels hop hrank left right hdepth ihl ihr =>
    rw [List.append_assoc] at h
    exact ihr ((Token.shows_flat (by rw [hop]; rfl)).mp (ihl h))

/-- The text of a choice that is read after its marker is trimmed. -/
theorem Choice.trim_text {stop : LineEnd} {pos : Position} {ts : List Token} {c : Choice}
    (hshows : Token.Shows 0 ts) (h : Choice.read stop pos ts = .ok c) :
    trim c.text.toList = c.text.toList := by
  obtain ⟨rest, rest', hguard, htext⟩ := Choice.read_eq_ok h
  have hrest : Token.Shows 0 rest := by
    rcases Choice.readGuard_eq_ok hguard with ⟨-, rfl⟩ | ⟨t, used, u, g, hopen, hclose, hg, -, rfl⟩
    · exact hshows
    · -- The guard opens one bracket, and closes it after its expression.
      have hbrace : t.kind ≠ .opening .square := by rw [hopen]; decide
      rw [Token.shows_cons (by rw [hopen]; exact TokenKind.noConfusion) (absurd · hbrace), hopen] at hshows
      have hafter : Token.Shows 1 (u :: rest) := Token.Shows.of_derives hg hshows
      rw [Token.shows_cons (by rw [hclose]; exact TokenKind.noConfusion)
        fun _ => Nat.one_ne_zero, hclose] at hafter
      exact hafter
  obtain ⟨t, u, hopen, -, ⟨hnone, -⟩ | ⟨w, hkind, hw, rfl⟩⟩ := Choice.readText_eq_ok htext
  · rw [hnone]
    decide
  · rw [Token.Shows, if_neg (by rw [hopen]; exact TokenKind.noConfusion), if_pos ⟨hopen, rfl⟩] at hrest
    rw [hw]
    exact hrest w rfl hkind

namespace Node

/-- Prose on one line, and a choice whose text is trimmed. -/
def Tidy : Node → Prop
  | .text content _ => '\n' ∉ content.toList
  | .choice c => trim c.text.toList = c.text.toList
  | _ => True

theorem reads_tidy {words : List Token} (horderly : Token.Orderly words) (hdisplays : Token.Displays words) :
    Reads words Tidy := by
  refine ⟨fun {stop t ts n} hin hread => ?_, fun _ _ _ _ _ => trivial, fun _ _ _ _ => trivial,
    fun _ _ => trivial⟩
  refine read_cases (C := Tidy) hread (fun hkind _ => ?_) (fun _ _ => trivial) (fun _ _ _ => trivial)
    (fun c hkind hread => ?_) (fun _ _ _ _ => trivial)
  · exact ((horderly.of_infix hin).head.text hkind).1
  · -- The line of the choice goes on in the tokens of the source.
    obtain ⟨before, after, rfl⟩ := hin
    have hsuffix : t :: (ts ++ after) <:+ before ++ (t :: ts) ++ after := ⟨before, by simp⟩
    exact Choice.trim_text (hdisplays t _ hsuffix hkind).of_append hread

/-! ## Trimming the ends of texts -/

mutual

/-- A statement with the ends of its texts of prose trimmed. -/
def trimTexts : Node → Node
  | .text content pos => .text (String.ofList (trimEnd content.toList)) pos
  | .conditional guard body none opening closing =>
    .conditional guard (trimTextsAll body) none opening closing
  | .conditional guard body (some branch) opening closing =>
    .conditional guard (trimTextsAll body) (some (trimTextsAll branch)) opening closing
  | n => n

/-- A body with the ends of its texts of prose trimmed. -/
def trimTextsAll : List Node → List Node
  | [] => []
  | n :: ns => n.trimTexts :: trimTextsAll ns

end

/-- Whether a statement is no text of prose with white space at its end. -/
def isTrimmed : Node → Bool
  | .text content _ => trimEnd content.toList = content.toList
  | _ => true

/-- A tidy body is read back as it is, with the ends of its texts trimmed. -/
theorem settleAll_eq {ns : List Node} (h : Everywhere Tidy ns) :
    settleAll ns = relocateAll .erase (trimTextsAll ns) := by
  induction ns using body_induction with
  | nil => rfl
  | leaf n ns hn ih =>
    obtain ⟨hhead, htail⟩ := everywhere_cons.mp h
    have htidy : n.Tidy := (everywhere_leaf hn).mp hhead
    have hnode : n.settle = [n.trimTexts.relocate .erase] := by
      cases n with
      | conditional => cases hn
      | text content pos =>
        rw [settle, Text.splitLines_of_not_mem htidy]
        rfl
      | choice c =>
        rw [settle, Choice.settle, show trim c.text.toList = c.text.toList from htidy, String.ofList_toList]
        rfl
      | _ => rfl
    rw [settleAll, hnode, ih htail, trimTextsAll, relocateAll]
    rfl
  | conditional guard body otherwise opening closing ns ihBody ihBranch ih =>
    obtain ⟨hhead, htail⟩ := everywhere_cons.mp h
    obtain ⟨-, hbody, hbranch⟩ := everywhere_conditional.mp hhead
    rw [settleAll, ih htail, trimTextsAll, relocateAll]
    cases otherwise with
    | none =>
      rw [settle, ihBody hbody]
      rfl
    | some branch =>
      rw [settle, ihBody hbody, ihBranch branch rfl (hbranch branch rfl)]
      rfl

/-- Trimming leaves a body as it is just if every text in it is trimmed. -/
theorem relocateAll_trimTextsAll_iff {ns : List Node} :
    relocateAll .erase (trimTextsAll ns) = relocateAll .erase ns ↔
      Everywhere (fun n => n.isTrimmed = true) ns := by
  induction ns using body_induction with
  | nil => exact ⟨fun _ => everywhere_nil, fun _ => rfl⟩
  | leaf n ns hn ih =>
    have hnode : n.trimTexts.relocate .erase = n.relocate .erase ↔ n.isTrimmed = true := by
      cases n with
      | conditional => cases hn
      | text content pos =>
        simp only [trimTexts, relocate, isTrimmed, text.injEq, and_true, decide_eq_true_eq]
        rw [← String.toList_inj, String.toList_ofList]
      | _ => exact ⟨fun _ => rfl, fun _ => rfl⟩
    rw [trimTextsAll, relocateAll, relocateAll, List.cons.injEq, hnode, ih, everywhere_cons,
      everywhere_leaf hn]
  | conditional guard body otherwise opening closing ns ihBody ihBranch ih =>
    rw [trimTextsAll, relocateAll, relocateAll, List.cons.injEq, ih, everywhere_cons, everywhere_conditional]
    refine and_congr_left' ?_
    cases otherwise with
    | none =>
      simp only [trimTexts, relocate, conditional.injEq, ihBody, true_and, and_true]
      refine ⟨fun hbody => ⟨rfl, hbody, fun branch hbranch => ?_⟩, fun h => h.2.1⟩
      cases hbranch
    | some branch =>
      simp only [trimTexts, relocate, conditional.injEq, Option.some.injEq, ihBody, ihBranch branch rfl,
        true_and, and_true]
      refine ⟨fun h => ⟨rfl, h.1, fun branch' hbranch => ?_⟩, fun h => ⟨h.2.1, h.2.2 branch rfl⟩⟩
      rw [← Option.some.inj hbranch]
      exact h.2

end Node

/-! ## Stories -/

/-- A passage with the ends of its texts trimmed. -/
def Passage.trimTexts (p : Passage) : Passage := { p with body := Node.trimTextsAll p.body }

namespace Story

/-- A story with the ends of its texts trimmed. -/
def trimTexts (s : Story) : Story := { s with passages := s.passages.map Passage.trimTexts }

/-- A story in canonical order, without places. -/
def canonical (s : Story) : Story := ({ s with passages := s.sorted }).relocate .erase

/-- No text of prose in a story ends in white space. -/
def IsTrimmed (s : Story) : Prop :=
  ∀ p ∈ s.passages, Node.Everywhere (fun n => n.isTrimmed = true) p.body

instance (s : Story) : Decidable s.IsTrimmed := inferInstanceAs (Decidable (∀ p ∈ _, _))

theorem sorted_trimTexts (s : Story) : s.trimTexts.sorted = s.sorted.map Passage.trimTexts :=
  mergeSort_map Passage.trimTexts (fun _ => rfl) s.entryName s.passages

/-- A story is read back as it is, with the ends of its texts trimmed, if its bodies are tidy. -/
theorem settle_eq {s : Story} (h : ∀ p ∈ s.passages, Node.Everywhere Node.Tidy p.body) :
    s.settle = s.trimTexts.canonical := by
  have hpassages : s.sorted.map Passage.settle
      = (s.sorted.map Passage.trimTexts).map (Passage.relocate .erase) := by
    rw [List.map_map]
    refine List.map_congr_left fun p hp => ?_
    rw [Passage.settle, Node.settleAll_eq (h p (List.mem_mergeSort.mp hp))]
    rfl
  rw [settle, hpassages, canonical, sorted_trimTexts]
  rfl

/-- Trimming leaves a story as it is just if it is trimmed. -/
theorem canonical_trimTexts_iff (s : Story) : s.trimTexts.canonical = s.canonical ↔ s.IsTrimmed := by
  have hpassage : ∀ p : Passage, p.trimTexts.relocate .erase = p.relocate .erase ↔
      Node.Everywhere (fun n => n.isTrimmed = true) p.body := by
    intro p
    rw [← Node.relocateAll_trimTextsAll_iff]
    simp only [Passage.relocate, Passage.trimTexts, Passage.mk.injEq, true_and, and_true]
  have hstory : s.trimTexts.canonical = s.canonical ↔
      ∀ p ∈ s.sorted, p.trimTexts.relocate .erase = p.relocate .erase := by
    rw [canonical, sorted_trimTexts, canonical]
    simp only [relocate, trimTexts, List.map_map, mk.injEq, true_and, List.map_inj_left, Function.comp_apply]
  rw [hstory]
  simp only [hpassage, sorted, List.mem_mergeSort]
  rfl

/-- A source without errors gives the story of its tokens. -/
theorem ofSource_eq_ok_iff {source : String} {s : Story} :
    Story.ofSource source = .ok s ↔ (Lexed.ofSource source).errors = [] ∧
      (Story.ofTokens (Lexed.ofSource source).tokens).errors = [] ∧
        (Story.ofTokens (Lexed.ofSource source).tokens).story = s := by
  cases hlexed : (Lexed.ofSource source).errors with
  | cons e es => simp [Story.ofSource, hlexed]
  | nil =>
    cases hreading : (Story.ofTokens (Lexed.ofSource source).tokens).errors with
    | cons e es => simp [Story.ofSource, hlexed, hreading]
    | nil => simp [Story.ofSource, hlexed, hreading]

/-- **Formatting keeps the story but for white space at the ends of texts.** -/
theorem ofSource_render_ofSource {source : String} {s : Story} (hread : Story.ofSource source = .ok s)
    (hfree : s.FloatFree) :
    ∃ s', Story.ofSource s.render = .ok s' ∧ s'.relocate .erase = s.trimTexts.canonical := by
  obtain ⟨-, -, rfl⟩ := ofSource_eq_ok_iff.mp hread
  have htidy := everywhere_ofTokens
    (Node.reads_tidy (Lexed.orderly_tokens source) (Lexed.displays_tokens source))
  rw [← settle_eq htidy]
  exact ofSource_render (fun _ he => he) ((writable_ofSource source).of_floatFree hfree)

/-- **When formatting keeps the story.** A source without errors and decimals is formatted as a text that is
read without errors. Its story is that of the source, with its passages in canonical order, its places
forgotten and the ends of its texts trimmed; so it is the story of the source just if no text of prose there
ends in white space. -/
theorem format_iff {source : String} {s : Story} (hread : Story.ofSource source = .ok s)
    (hfree : s.FloatFree) :
    ∃ s', Story.ofSource s.render = .ok s' ∧ s'.relocate .erase = s.trimTexts.canonical ∧
      (s'.relocate .erase = s.canonical ↔ s.IsTrimmed) := by
  obtain ⟨s', hformat, hsame⟩ := ofSource_render_ofSource hread hfree
  refine ⟨s', hformat, hsame, ?_⟩
  rw [hsame]
  exact s.canonical_trimTexts_iff

/-- A source with passages out of order, prose that a backslash quotes, a choice with brackets in its guard
and white space around its text, and text after a comment. -/
theorem format_iff_hall :
    let source := ":: Hall\n\\@prose  \n* \x7b($a || $b == \")\")\x7d [ go [on\\] ] -> Hall\n" ++
      ":: Attic\n/**/ \u00e9\n"
    let s := (Story.ofTokens (Lexed.ofSource source).tokens).story
    (Story.ofSource source = .ok s ∧ s.FloatFree ∧ s.IsTrimmed) ∧
      ∃ s', Story.ofSource s.render = .ok s' ∧ s'.relocate .erase = s.trimTexts.canonical ∧
        (s'.relocate .erase = s.canonical ↔ s.IsTrimmed) := by
  intro source s
  obtain ⟨hlexed, hreading, hfree, htrimmed⟩ :
      (Lexed.ofSource source).errors = [] ∧ (Story.ofTokens (Lexed.ofSource source).tokens).errors = [] ∧
        s.FloatFree ∧ s.IsTrimmed := by
    decide +kernel
  have hread : Story.ofSource source = .ok s := ofSource_eq_ok_iff.mpr ⟨hlexed, hreading, rfl⟩
  exact ⟨⟨hread, hfree, htrimmed⟩, format_iff hread hfree⟩

/-- The text after a comment keeps a no-break space at its end, and formatting drops it. -/
theorem format_loses_space :
    ∃ s s', Story.ofSource ":: Start\n/**/ \u00e9\u00a0\n" = .ok s ∧ s.FloatFree ∧
      Story.ofSource s.render = .ok s' ∧ s'.relocate .erase ≠ s.canonical := by
  let source := ":: Start\n/**/ \u00e9\u00a0\n"
  let s := (Story.ofTokens (Lexed.ofSource source).tokens).story
  obtain ⟨hlexed, hreading, hfree, hspace⟩ :
      (Lexed.ofSource source).errors = [] ∧ (Story.ofTokens (Lexed.ofSource source).tokens).errors = [] ∧
        s.FloatFree ∧ ¬ s.IsTrimmed := by
    decide +kernel
  have hread : Story.ofSource source = .ok s := ofSource_eq_ok_iff.mpr ⟨hlexed, hreading, rfl⟩
  obtain ⟨s', hformat, hsame⟩ := ofSource_render_ofSource hread hfree
  refine ⟨s, s', hread, hfree, hformat, ?_⟩
  rw [hsame]
  exact fun h => hspace (s.canonical_trimTexts_iff.mp h)

end Story

end Gamebook
