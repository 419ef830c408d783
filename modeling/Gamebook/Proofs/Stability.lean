/-
# Gamebook.Proofs.Stability — the canonical form is stable

The canonical text of a story does not show places, and it is the same before and after settling: lines
are trimmed already when they are trimmed again, and sorted passages stay as they are
(`Story.render_settle`). Everything that is read from a source can be written, and what is written is
read back settled. So the canonical text of what was read from any source is read without an error, and
is its own canonical text (`Story.render_stable`).
-/
import Gamebook.Proofs.Reading.Story
import Gamebook.Proofs.Spelling.Source

namespace Gamebook

open Gamebook.Text (trimEnd trim splitLines)

/-! ## Places are not written -/

section

variable (f : Position → Position)

@[simp] theorem Expr.rank_relocate (e : Expr) : (e.relocate f).rank = e.rank := by
  cases e <;> rfl

@[simp] theorem Expr.chars_relocate (e : Expr) : (e.relocate f).chars = e.chars := by
  induction e with
  | literal v => rfl
  | var name pos => rfl
  | unary op e ih => simp only [Expr.relocate, Expr.chars, Expr.rank_relocate, ih]
  | binary op l r ihl ihr => simp only [Expr.relocate, Expr.chars, Expr.rank_relocate, ihl, ihr]

theorem Choice.chars_relocate (c : Choice) : (c.relocate f).chars = c.chars := by
  obtain ⟨text, guard, target, pos⟩ := c
  cases guard with
  | none => rfl
  | some g => simp only [Choice.chars, Choice.relocate, Option.map_some, Expr.chars_relocate]

theorem Assignment.chars_relocate (a : Assignment) : (a.relocate f).chars = a.chars := by
  simp only [Assignment.chars, Assignment.relocate, Expr.chars_relocate]

theorem closingChars_map (depth : Nat) (closing : Option Position) :
    closingChars depth (closing.map f) = closingChars depth closing := by
  cases closing <;> rfl

theorem Node.charsAll_relocateAll (ns : List Node) (depth : Nat) :
    Node.charsAll depth (Node.relocateAll f ns) = Node.charsAll depth ns := by
  induction ns using Node.body_induction generalizing depth with
  | nil => rfl
  | leaf n ns hn ih =>
    have hnode : (n.relocate f).chars depth = n.chars depth := by
      cases n with
      | conditional => cases hn
      | choice c => simp only [Node.relocate, Node.chars, Choice.chars_relocate]
      | assignment a => simp only [Node.relocate, Node.chars, Assignment.chars_relocate]
      | _ => rfl
    rw [Node.relocateAll, Node.charsAll, Node.charsAll, hnode, ih]
  | conditional guard body otherwise opening closing ns ihBody ihBranch ih =>
    rw [Node.relocateAll, Node.charsAll, Node.charsAll, ih]
    cases otherwise with
    | none =>
      rw [Node.relocate, Node.chars_conditional_none, Node.chars_conditional_none, Expr.chars_relocate,
        ihBody, closingChars_map]
    | some branch =>
      rw [Node.relocate, Node.chars_conditional_some, Node.chars_conditional_some, Expr.chars_relocate,
        ihBody, ihBranch branch rfl, closingChars_map]

end

/-! ## Settling changes no text -/

theorem Choice.chars_settle (c : Choice) : c.settle.chars = c.chars := by
  have htext : Choice.displayChars c.settle.text = Choice.displayChars c.text := by
    rw [Choice.displayChars, Choice.settle, String.toList_ofList, Text.trim_trim, Choice.displayChars]
  have hguard : Lexeme.guardPart c.settle.guard = Lexeme.guardPart c.guard := by
    cases hg : c.guard with
    | none => simp [Choice.settle, hg]
    | some g => simp [Choice.settle, hg, Lexeme.guardPart]
  have htarget : c.settle.target = c.target := by rw [Choice.settle]
  rw [Lexeme.chars_choice, Lexeme.chars_choice, hguard, htext, htarget]

theorem Node.charsAll_append (ns ms : List Node) (depth : Nat) :
    Node.charsAll depth (ns ++ ms) = Node.charsAll depth ns ++ Node.charsAll depth ms := by
  induction ns with
  | nil => rfl
  | cons n ns ih => rw [List.cons_append, Node.charsAll, ih, Node.charsAll, List.append_assoc]

theorem Node.charsAll_singleton (n : Node) (depth : Nat) :
    Node.charsAll depth [n] = n.chars depth := by
  rw [Node.charsAll, Node.charsAll, List.append_nil]

/-- A trimmed line of prose is written as the line itself. -/
theorem Node.chars_text_trimEnd {line : List Char} (h : '\n' ∉ line) (pos : Position) (depth : Nat) :
    (Node.text (String.ofList (trimEnd line)) pos).chars depth
      = renderLine (indentation depth ++ proseLine line) := by
  have htrim : '\n' ∉ trimEnd line := fun hmem => h (Text.trimEnd_subset line hmem)
  have hprose : proseLine (trimEnd line) = proseLine line := by
    rw [proseLine, Text.trimEnd_trimEnd, proseLine]
  rw [Node.chars, String.toList_ofList, Text.splitLines_of_not_mem htrim, List.flatMap_singleton, hprose]

theorem Node.charsAll_settle_text (content : String) (pos : Position) (depth : Nat) :
    Node.charsAll depth (Node.text content pos).settle = (Node.text content pos).chars depth := by
  have hlines : ∀ line ∈ splitLines content.toList, '\n' ∉ line :=
    fun line hline => (Text.mem_splitLines hline).1
  rw [Node.settle, Node.chars]
  -- Each line becomes a text of its own, which is written as that one line.
  generalize splitLines content.toList = ls at hlines
  induction ls with
  | nil => rfl
  | cons line ls ih =>
    rw [List.forall_mem_cons] at hlines
    rw [List.map_cons, Node.charsAll, Node.chars_text_trimEnd hlines.1, ih hlines.2, List.flatMap_cons]

theorem Node.charsAll_settleAll (ns : List Node) (depth : Nat) :
    Node.charsAll depth (Node.settleAll ns) = Node.charsAll depth ns := by
  induction ns using Node.body_induction generalizing depth with
  | nil => rfl
  | leaf n ns hn ih =>
    have hnode : Node.charsAll depth n.settle = n.chars depth := by
      cases n with
      | conditional => cases hn
      | text content pos => exact Node.charsAll_settle_text content pos depth
      | choice c => rw [Node.settle, Node.charsAll_singleton, Node.chars, Choice.chars_settle, Node.chars]
      | assignment a =>
        rw [Node.settle, Node.charsAll_singleton, Node.chars, Assignment.chars_relocate, Node.chars]
      | script code pos => rw [Node.settle, Node.charsAll_singleton, Node.chars, Node.chars]
      | divert target pos => rw [Node.settle, Node.charsAll_singleton, Node.chars, Node.chars]
      | stray marker pos => rw [Node.settle, Node.charsAll_singleton, Node.chars, Node.chars]
    rw [Node.settleAll, Node.charsAll_append, hnode, ih, Node.charsAll]
  | conditional guard body otherwise opening closing ns ihBody ihBranch ih =>
    rw [Node.settleAll, Node.charsAll_append, ih, Node.charsAll]
    congr 1
    cases otherwise with
    | none =>
      rw [Node.settle, Node.charsAll_singleton, Node.chars_conditional_none, Node.chars_conditional_none,
        Expr.chars_relocate, ihBody, closingChars_map]
    | some branch =>
      rw [Node.settle, Node.charsAll_singleton, Node.chars_conditional_some, Node.chars_conditional_some,
        Expr.chars_relocate, ihBody, ihBranch branch rfl, closingChars_map]

/-! ## The order of passages -/

namespace Passage

theorem precedes_trans (entry : String) (a b c : Passage) (hab : precedes entry a b = true)
    (hbc : precedes entry b c = true) : precedes entry a c = true := by
  unfold precedes at hab hbc ⊢
  by_cases ha : a.name = entry
  · rw [if_pos ha]
  rw [if_neg ha] at hab ⊢
  by_cases hb : b.name = entry
  · rw [if_pos hb] at hab
    cases hab
  rw [if_neg hb] at hab hbc
  by_cases hc : c.name = entry
  · rw [if_pos hc] at hbc
    cases hbc
  rw [if_neg hc] at hbc ⊢
  simp only [Bool.not_eq_true', decide_eq_false_iff_not, String.not_lt] at hab hbc ⊢
  exact String.le_trans hab hbc

theorem precedes_total (entry : String) (a b : Passage) :
    (precedes entry a b || precedes entry b a) = true := by
  unfold precedes
  by_cases ha : a.name = entry
  · rw [if_pos ha, Bool.true_or]
  by_cases hb : b.name = entry
  · rw [if_neg ha, if_pos hb, if_pos hb, Bool.or_true]
  rw [if_neg ha, if_neg hb, if_neg hb, if_neg ha]
  simp only [Bool.or_eq_true, Bool.not_eq_true', decide_eq_false_iff_not, String.not_lt]
  exact String.le_total a.name b.name

end Passage

namespace Story

/-- Changing passages without renaming them does not change their order. -/
theorem mergeSort_map (g : Passage → Passage) (hg : ∀ p, (g p).name = p.name) (entry : String)
    (ps : List Passage) :
    (ps.map g).mergeSort (Passage.precedes entry) = (ps.mergeSort (Passage.precedes entry)).map g := by
  refine (List.map_mergeSort fun a _ b _ => ?_).symm
  rw [Passage.precedes, Passage.precedes, hg, hg]

theorem sorted_settle (s : Story) : s.settle.sorted = s.sorted.map Passage.settle := by
  -- Settling renames no passage, and sorting what is in order changes nothing.
  have hordered : s.sorted.Pairwise fun a b => Passage.precedes s.entryName a b = true :=
    List.pairwise_mergeSort (Passage.precedes_trans s.entryName) (Passage.precedes_total s.entryName) _
  have hsame : s.settle.entryName = s.entryName := rfl
  have hpassages : s.settle.passages = s.sorted.map Passage.settle := rfl
  rw [Story.sorted, hsame, hpassages, mergeSort_map Passage.settle (fun _ => rfl),
    List.mergeSort_of_pairwise hordered]

/-- Two stories whose metadata agree and whose passages are written alike have one text. -/
theorem render_congr {s s' : Story} (hmetadata : s'.metadataChars = s.metadataChars)
    (hpassages : s'.sorted.map Passage.chars = s.sorted.map Passage.chars) : s'.render = s.render := by
  rw [Story.render, Story.chars, Story.parts, hmetadata, hpassages]
  rfl

/-- Passages that keep their names and are written alike leave the text of a story as it is. -/
theorem render_map {s : Story} {g : Passage → Passage} (hname : ∀ p, (g p).name = p.name)
    (hchars : ∀ p ∈ s.passages, (g p).chars = p.chars) :
    Story.render { s with passages := s.passages.map g } = s.render := by
  have hsorted : Story.sorted { s with passages := s.passages.map g } = s.sorted.map g :=
    mergeSort_map g hname s.entryName s.passages
  refine render_congr rfl ?_
  rw [hsorted, List.map_map]
  exact List.map_congr_left fun p hp => hchars p (List.mem_mergeSort.mp hp)

/-- Places do not show in the canonical text. -/
theorem render_relocate (f : Position → Position) (s : Story) : (s.relocate f).render = s.render := by
  refine render_map (fun _ => rfl) fun p _ => ?_
  show p.headerChars ++ Node.charsAll 0 (Node.relocateAll f p.body) = p.chars
  rw [Node.charsAll_relocateAll, Passage.chars]

/-- **Settling a story changes nothing in its canonical text.** -/
theorem render_settle (s : Story) : s.settle.render = s.render := by
  refine render_congr rfl ?_
  rw [sorted_settle, List.map_map]
  refine List.map_congr_left fun p _ => ?_
  show p.headerChars ++ Node.charsAll 0 (Node.settleAll p.body) = p.chars
  rw [Node.charsAll_settleAll, Passage.chars]

/-- **The canonical form is stable.** Whatever the source and the errors in it, if no decimal is written in
the story that is read from it, the canonical text of that story is read without an error, and the story
read from it has the same canonical text. -/
theorem render_stable (source : String)
    (h : (Story.ofTokens (Lexed.ofSource source).tokens).story.FloatFree) :
    ∃ s, Story.ofSource (Story.ofTokens (Lexed.ofSource source).tokens).story.render = .ok s ∧
      s.render = (Story.ofTokens (Lexed.ofSource source).tokens).story.render := by
  have hwritable := (writable_ofSource source).of_floatFree h
  obtain ⟨s, hread, hsettle⟩ := ofSource_render (fun _ he => he) hwritable
  refine ⟨s, hread, ?_⟩
  rw [← render_relocate .erase s, hsettle, render_settle]

/-- A source with an unclosed list of tags, a marker without its conditional, a string without its end, a
value that breaks off and a conditional without its end. -/
theorem render_stable_hall :
    let source := "@lang  en \n:: Hall [dark dark\n\x7b/\x7d\n$name = \"open\n$keys = 1 +\n" ++
      "* [ in [it\\] ] -> Hall\n\x7b!$a == 2 \x7d\n  \\:: prose  \n\x7belse\x7d\n<< f() >>\n:: Attic"
    let s := (Story.ofTokens (Lexed.ofSource source).tokens).story
    ((Lexed.ofSource source).errors.length = 1 ∧ s.FloatFree) ∧
      ∃ s', Story.ofSource s.render = .ok s' ∧ s'.render = s.render := by
  intro source s
  have hsource : (Lexed.ofSource source).errors.length = 1 ∧ s.FloatFree := by decide +kernel
  exact ⟨hsource, render_stable source hsource.2⟩

end Story

end Gamebook
