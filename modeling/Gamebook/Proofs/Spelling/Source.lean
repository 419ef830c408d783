/-
# Gamebook.Proofs.Spelling.Source — a story is read back from its canonical text

Nothing that can be written holds a carriage return, and no part of a canonical text starts with a byte
order mark; so the text is scanned as it stands (`Story.normalChars_render`), and the story is read back
from it (`Story.ofSource_render`).
-/
import Gamebook.Proofs.Spelling.Story

namespace Gamebook

open Gamebook.Lexeme
open Gamebook.Text (trimEnd trim trimEnd_subset trim_subset)

/-! ## Carriage returns -/

theorem Literal.not_mem_chars {v : Literal} (h : v.isWord = true) : '\r' ∉ v.chars := by
  cases v with
  | float f => cases h
  | bool b => cases b <;> decide
  | int n =>
    obtain ⟨k, hk, rfl⟩ := exists_nat_of_nonneg (of_decide_eq_true h)
    rw [chars_int_ofNat hk]
    intro hmem
    have hdigit := isDigit_of_mem_digits hmem
    cases hdigit
  | str text =>
    simp only [isWord, Bool.not_eq_true', List.contains_eq_mem, decide_eq_false_iff_not] at h
    simp only [chars, quoted, List.mem_cons, List.mem_append, List.mem_flatMap, List.not_mem_nil]
    rintro (hquote | ⟨c, hc, hmem⟩ | hquote | hnil)
    · cases hquote
    · unfold escape at hmem
      split at hmem
      · simp at hmem
      · split at hmem
        · simp at hmem
        · split at hmem
          · simp at hmem
          · split at hmem
            · simp at hmem
            · exact h (List.mem_singleton.mp hmem ▸ hc)
    · cases hquote
    · exact hnil

theorem Expr.not_mem_enclose {cs : List Char} (h : '\r' ∉ cs) (needed : Bool) :
    '\r' ∉ enclose needed cs := by
  cases needed with
  | false => exact h
  | true => simpa [enclose] using h

theorem Lexeme.not_mem_of_isName {cs : List Char} (h : isName cs = true) : '\r' ∉ cs := by
  simp only [isName, Bool.and_eq_true, List.all_eq_true] at h
  intro hmem
  have hchar := h.1.2 _ hmem
  cases hchar

theorem Expr.not_mem_chars {e : Expr} (h : e.isWritten = true) : '\r' ∉ e.chars := by
  induction e with
  | literal v => exact Literal.not_mem_chars h
  | var name pos =>
    rw [chars, List.mem_cons, not_or]
    exact ⟨by decide, not_mem_of_isName h⟩
  | unary op e ih =>
    rw [chars, List.mem_append, not_or]
    refine ⟨?_, not_mem_enclose (ih h) _⟩
    cases op <;> decide
  | binary op l r ihl ihr =>
    rw [isWritten, Bool.and_eq_true] at h
    have hsymbol : '\r' ∉ op.symbol.toList := by cases op <;> decide
    have hl := not_mem_enclose (ihl h.1) (l.rank < op.rank)
    have hr := not_mem_enclose (ihr h.2) (r.rank ≤ op.rank)
    simp [chars, hsymbol, hl, hr]

theorem Lexeme.not_mem_of_isPassageName {cs : List Char} (h : isPassageName cs = true) : '\r' ∉ cs := by
  obtain ⟨-, hall, -⟩ := isPassageName_iff.mp h
  exact fun hmem => (hall _ hmem).2.1 rfl

theorem not_mem_renderLine {cs : List Char} (h : '\r' ∉ cs) (depth : Nat) :
    '\r' ∉ renderLine (indentation depth ++ cs) := by
  simp [renderLine, indentation, h]

theorem not_mem_proseLine {line : List Char} (h : '\r' ∉ line) : '\r' ∉ proseLine line := by
  have htrim : '\r' ∉ trimEnd line := fun hmem => h (trimEnd_subset line hmem)
  rw [proseLine]
  split
  · simpa using htrim
  · exact htrim

theorem Choice.not_mem_chars {c : Choice} {Q : Expr → Prop} (hQ : ∀ e, Q e → e.isWritten = true)
    (h : c.Writable Q) : '\r' ∉ c.chars := by
  obtain ⟨hguard, ⟨-, htext⟩, htarget⟩ := h
  have hguardPart : '\r' ∉ guardPart c.guard := by
    cases hg : c.guard with
    | none => simp [guardPart]
    | some g => simpa [guardPart] using Expr.not_mem_chars (hQ g (hguard g hg))
  have htargetPart : '\r' ∉ targetPart c.target := by
    cases ht : c.target with
    | none => simp [targetPart]
    | some t => simpa [targetPart] using not_mem_of_isPassageName (htarget t ht)
  have hdisplay : '\r' ∉ displayChars c.text := by
    rw [displayChars, List.mem_flatMap]
    rintro ⟨d, hd, hmem⟩
    unfold escape at hmem
    split at hmem
    · next hquoted =>
      simp only [Bool.or_eq_true, decide_eq_true_eq] at hquoted
      rcases hquoted with (rfl | rfl) | rfl <;> simp at hmem
    · exact htext (trim_subset _ (List.mem_singleton.mp hmem ▸ hd))
  simp [chars_choice, hguardPart, htargetPart, hdisplay]

section

variable {Q : Expr → Prop} (hQ : ∀ e, Q e → e.isWritten = true)

include hQ

theorem Node.not_mem_chars_leaf {n : Node} (hn : n.isConditional = false) (h : n.Writable Q)
    (depth : Nat) : '\r' ∉ n.chars depth := by
  cases n with
  | conditional => cases hn
  | text content pos =>
    rw [Node.chars, List.mem_flatMap]
    rintro ⟨line, hline, hmem⟩
    refine not_mem_renderLine (not_mem_proseLine fun hcr => ?_) depth hmem
    exact h ((Text.mem_splitLines hline).2 hcr)
  | choice c =>
    rw [Node.chars]
    exact not_mem_renderLine (Choice.not_mem_chars hQ h) depth
  | assignment a =>
    have hname : '\r' ∉ a.name.toList := not_mem_of_isName h.1
    have hsymbol : '\r' ∉ a.op.symbol.toList := by cases a.op <;> decide
    rw [Node.chars]
    refine not_mem_renderLine ?_ depth
    simp [Assignment.chars, hname, hsymbol, Expr.not_mem_chars (hQ _ h.2)]
  | script code pos =>
    have hcode : '\r' ∉ code.toList := by
      have hscript : isScript code.toList = true := h
      exact (isScript_iff.mp hscript).1
    rw [Node.chars]
    exact not_mem_renderLine (by simp [hcode]) depth
  | divert target pos =>
    rw [Node.chars]
    exact not_mem_renderLine (by simp [not_mem_of_isPassageName h]) depth
  | stray marker pos =>
    rw [Node.chars]
    exact not_mem_renderLine (by cases marker <;> decide) depth

theorem Node.not_mem_charsAll {ns : List Node} (h : Node.Everywhere (Node.Writable Q) ns) (depth : Nat) :
    '\r' ∉ Node.charsAll depth ns := by
  induction ns using Node.body_induction generalizing depth with
  | nil => simp [Node.charsAll]
  | leaf n ns hn ih =>
    obtain ⟨hhead, htail⟩ := Node.everywhere_cons.mp h
    rw [Node.everywhere_leaf hn] at hhead
    rw [Node.charsAll, List.mem_append, not_or]
    exact ⟨Node.not_mem_chars_leaf hQ hn hhead depth, ih htail depth⟩
  | conditional guard body otherwise opening closing ns ihBody ihBranch ih =>
    obtain ⟨hhead, htail⟩ := Node.everywhere_cons.mp h
    obtain ⟨hguard, hbody, hbranch⟩ := Node.everywhere_conditional.mp hhead
    have hopen : '\r' ∉ renderLine (indentation depth ++ '{' :: (guard.chars ++ ['}'])) :=
      not_mem_renderLine (by simp [Expr.not_mem_chars (hQ guard hguard)]) depth
    have hmarker : ∀ m : Marker, '\r' ∉ renderLine (indentation depth ++ m.spelling.toList) :=
      fun m => not_mem_renderLine (by cases m <;> decide) depth
    have hclosing : '\r' ∉ closingChars depth closing := by
      cases closing with
      | none => simp [closingChars]
      | some pos => exact hmarker .close
    rw [Node.charsAll, List.mem_append, not_or]
    refine ⟨?_, ih htail depth⟩
    cases otherwise with
    | none =>
      rw [Node.chars_conditional_none]
      simp only [List.mem_append, not_or]
      exact ⟨hopen, ihBody hbody _, hclosing⟩
    | some branch =>
      rw [Node.chars_conditional_some]
      simp only [List.mem_append, not_or]
      exact ⟨hopen, ihBody hbody _, hmarker .otherwise, ihBranch branch rfl (hbranch branch rfl) _,
        hclosing⟩

theorem Passage.not_mem_chars {p : Passage} (h : p.Spellable Q) : '\r' ∉ p.chars := by
  have htags : '\r' ∉ Passage.tagChars p.tags := by
    rw [Passage.tagChars]
    split
    · simp
    · have hjoined : '\r' ∉ [' '].intercalate (p.tags.names.map String.toList) := by
        have htags := h.tags
        generalize p.tags.names = tags at htags
        induction tags with
        | nil => simp
        | cons tag tags ih =>
          rw [List.forall_mem_cons] at htags
          have htag : '\r' ∉ tag.toList := by
            obtain ⟨-, hall⟩ := isTag_iff.mp htags.1
            exact fun hmem => (hall _ hmem).2.2.2 rfl
          cases tags with
          | nil => simpa using htag
          | cons next tags =>
            have hrest := ih htags.2
            rw [List.map_cons] at hrest
            rw [List.map_cons, List.map_cons, List.intercalate_cons_cons]
            simp [htag, hrest]
      simp [hjoined]
  have hbody := Node.not_mem_charsAll hQ h.body 0
  simp [Passage.chars, Passage.headerChars, renderLine, not_mem_of_isPassageName h.name, htags, hbody]

end

namespace Story

theorem not_mem_metadataChars {Q : Expr → Prop} {s : Story} (h : s.Spellable Q) :
    '\r' ∉ s.metadataChars := by
  rw [metadataChars_eq, List.mem_flatMap]
  rintro ⟨e, he, hmem⟩
  obtain ⟨hkey, hvalue⟩ := h.entries e he
  have hkeyChars : '\r' ∉ e.1.toList := by
    intro hmem
    have hchar := (isKey_iff.mp hkey).2 _ hmem
    cases hchar
  have hvalueChars : '\r' ∉ e.2.toList := by
    obtain ⟨hall, -⟩ := isEntryValue_iff.mp hvalue
    exact fun hmem => (hall _ hmem).2 rfl
  rw [entryChars] at hmem
  split at hmem <;> simp [renderLine, hkeyChars, hvalueChars] at hmem

/-- A canonical text is a normal text. -/
theorem normalChars_render {Q : Expr → Prop} (hQ : ∀ e, Q e → e.isWritten = true) {s : Story}
    (h : s.Spellable Q) : Text.normalChars s.render = s.chars := by
  have hparts : ∀ part ∈ s.parts, '\r' ∉ part ∧ part.head? ≠ some '\uFEFF' ∧ part ≠ [] := by
    intro part hpart
    rw [parts, isEmpty_metadataChars, List.mem_append] at hpart
    rcases hpart with hpart | hpart
    · split at hpart
      · cases hpart
      · next hentries =>
        rw [List.mem_singleton.mp hpart]
        refine ⟨not_mem_metadataChars h, ?_⟩
        rw [metadataChars_eq]
        cases hcases : s.entries with
        | nil => exact absurd (by rw [hcases]; rfl) hentries
        | cons e es => exact ⟨by simp [entryChars, renderLine], by simp [entryChars, renderLine]⟩
    · obtain ⟨p, hp, rfl⟩ := List.mem_map.mp hpart
      refine ⟨Passage.not_mem_chars hQ (forall_mem_sorted h.passages p hp), ?_, ?_⟩
      · simp [Passage.chars, Passage.headerChars, renderLine]
      · simp [Passage.chars, Passage.headerChars, renderLine]
  have hchars : '\r' ∉ s.chars ∧ s.chars.head? ≠ some '\uFEFF' := by
    rw [chars]
    generalize s.parts = parts at hparts
    cases parts with
    | nil => decide
    | cons part parts =>
      show '\r' ∉ ['\n'].intercalate (part :: parts) ∧
        (['\n'].intercalate (part :: parts)).head? ≠ some '\uFEFF'
      induction parts generalizing part with
      | nil =>
        rw [List.intercalate_singleton]
        exact ⟨(hparts part List.mem_cons_self).1, (hparts part List.mem_cons_self).2.1⟩
      | cons next parts ih =>
        rw [List.forall_mem_cons] at hparts
        obtain ⟨⟨hcr, hmark, hne⟩, hrest⟩ := hparts
        rw [List.intercalate_cons_cons]
        refine ⟨by simp [hcr, (ih next hrest).1], ?_⟩
        obtain ⟨c, cs, rfl⟩ := List.exists_cons_of_ne_nil hne
        exact hmark
  have hrender : s.render.toList = s.chars := String.toList_ofList
  rw [Text.normalChars_of_not_mem] <;> rw [hrender]
  · exact hchars.1
  · exact hchars.2

/-- **A writable story is read back from its canonical text,** settled. -/
theorem ofSource_render {Q : Expr → Prop} (hQ : ∀ e, Q e → e.isWritten = true ∧ e.Fits) {s : Story}
    (h : s.Writable Q) :
    ∃ s', Story.ofSource s.render = .ok s' ∧ s'.relocate .erase = s.settle := by
  have hwords : words .lineStart (Text.normalChars s.render) = s.spelling := by
    have hwritten : ∀ e, Q e → e.isWritten = true := fun e he => (hQ e he).1
    rw [normalChars_render hwritten h.spellable, words_chars hwritten h.spellable]
  have hvalid : ∀ t ∈ s.spelling, t.kind.isInvalid = false := by
    intro t ht
    have hread := s.all_isRead_spelling
    rw [List.all_eq_true] at hread
    exact (Token.kind_of_isRead (hread t ht)).2.1
  have hread := ofTokens_spelling (fun e he => (hQ e he).2) h
  obtain ⟨s', hsource, hsettle⟩ := ofSource_of_words hwords hvalid (by rw [hread])
  exact ⟨s', hsource, by rw [hsettle, hread]⟩

end Story

end Gamebook
