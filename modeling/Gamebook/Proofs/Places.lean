/-
# Gamebook.Proofs.Places — every report points into its source

A story keeps the places of the tokens it was read from, and it has no others. This needs no look at any
reader: a map of places that leaves every token where it is leaves the story as it is, so it leaves alone
every place in the story. One such map moves everything else, so what it leaves alone is the place of a
token (`Story.exists_token_of_mem_places`). Checks report at places of the story they check.

A token stands where some beginning of the text ends. `Text.splitLines_append` tells which line that is and
how much of it lies before: at most all of it, so the place is in the line or right behind it
(`Position.within_advance`).
-/
import Gamebook.Compile
import Gamebook.Proofs.Checking
import Gamebook.Proofs.Relocation.Story
import Gamebook.Proofs.Scan.Cover
import Gamebook.Proofs.Text

namespace Gamebook

open Gamebook.Text (splitLines)

/-! ## Lines -/

namespace Position

/-- The place is in one of the lines or right behind it. -/
def Within (lines : List (List Char)) (p : Position) : Prop :=
  0 < p.line ∧ 0 < p.column ∧ ∃ line, lines[p.line - 1]? = some line ∧ p.column ≤ line.length + 1

/-- The place after a text is right behind its last line. -/
theorem advance_eq_last (text : List Char) :
    ∃ before last, splitLines text = before ++ [last] ∧
      Position.start.advance text = ⟨before.length + 1, last.length + 1⟩ := by
  induction text using List.reverseRecOn with
  | nil => exact ⟨[], [], rfl, rfl⟩
  | append_singleton text c ih =>
    obtain ⟨before, last, htext, hpos⟩ := ih
    obtain ⟨before', last', first, after, htext', hc, happend⟩ := Text.splitLines_append text [c]
    rw [htext] at htext'
    obtain ⟨rfl, hlast⟩ := List.append_inj' htext' rfl
    cases hlast
    rw [advance_append, hpos, advance_cons, advance_nil, step, happend]
    by_cases hbreak : c = '\n'
    · subst hbreak
      obtain ⟨rfl, rfl⟩ := List.cons.inj (hc : [[], []] = first :: after)
      refine ⟨before ++ [last], [], ?_, ?_⟩
      · rw [List.append_nil, List.append_assoc]
        rfl
      · rw [if_pos rfl, List.length_append]
        rfl
    · rw [Text.splitLines_of_not_mem (fun h => hbreak (List.mem_singleton.mp h).symm)] at hc
      obtain ⟨rfl, rfl⟩ := List.cons.inj hc
      refine ⟨before, last ++ [c], rfl, ?_⟩
      rw [if_neg hbreak, List.length_append]
      rfl

/-- **Where a beginning of a text ends, is within its lines.** -/
theorem within_advance (before after : List Char) :
    (Position.start.advance before).Within (splitLines (before ++ after)) := by
  obtain ⟨lines, last, hbefore, hpos⟩ := advance_eq_last before
  obtain ⟨lines', last', first, rest, hbefore', -, happend⟩ := Text.splitLines_append before after
  rw [hbefore] at hbefore'
  obtain ⟨rfl, hlast⟩ := List.append_inj' hbefore' rfl
  cases hlast
  rw [hpos, happend]
  refine ⟨Nat.succ_pos _, Nat.succ_pos _, last ++ first, ?_, ?_⟩
  · rw [Nat.add_sub_cancel, List.getElem?_append_right (Nat.le_refl _), Nat.sub_self]
    rfl
  · show last.length + 1 ≤ (last ++ first).length + 1
    rw [List.length_append]
    omega

end Position

/-! ## Tokens -/

namespace Lexeme

theorem exists_before_of_mem_tokens {pos : Position} {ls : List Lexeme} {t : Token}
    (h : t ∈ tokens pos ls) :
    ∃ before after, ls.flatMap raw = before ++ after ∧ t.pos = pos.advance before := by
  induction ls generalizing pos with
  | nil =>
    rw [tokens, List.mem_singleton] at h
    exact ⟨[], [], rfl, by rw [h]; rfl⟩
  | cons l ls ih =>
    rw [tokens, List.mem_append] at h
    rcases h with h | h
    · refine ⟨[], l.raw ++ ls.flatMap raw, List.flatMap_cons, ?_⟩
      rcases l.token?_cases pos with ⟨-, hnone⟩ | ⟨u, hu, hpos, -⟩
      · rw [hnone] at h
        cases h
      · rw [hu] at h
        rw [List.mem_singleton.mp h]
        exact hpos
    · obtain ⟨before, after, hraw, hpos⟩ := ih h
      refine ⟨l.raw ++ before, after, ?_, ?_⟩
      · rw [List.flatMap_cons, hraw, List.append_assoc]
      · rw [hpos, Position.advance_append]

/-- A lexical error stands at the token that its text becomes. -/
theorem exists_token_of_mem_errors {pos : Position} {ls : List Lexeme} {e : LexicalError}
    (h : e ∈ errors pos ls) : ∃ t ∈ tokens pos ls, t.pos = e.pos := by
  induction ls generalizing pos with
  | nil => cases h
  | cons l ls ih =>
    rw [errors, List.mem_append] at h
    rw [tokens]
    rcases h with h | h
    · obtain ⟨sort, raw⟩ := l
      cases sort with
      | fault fault =>
        rw [List.mem_singleton.mp h]
        exact ⟨_, List.mem_append_left _ (List.mem_singleton_self _), rfl⟩
      | _ => cases h
    · obtain ⟨t, ht, hpos⟩ := ih h
      exact ⟨t, List.mem_append_right _ ht, hpos⟩

end Lexeme

/-- **Every token stands within the lines of its source.** -/
theorem Lexed.within_of_mem_tokens {source : String} {t : Token} (h : t ∈ (Lexed.ofSource source).tokens) :
    t.pos.Within (splitLines (Text.normalChars source)) := by
  obtain ⟨before, after, hraw, hpos⟩ := Lexeme.exists_before_of_mem_tokens h
  have htext : Text.normalChars source = before ++ after := by
    rw [← hraw]
    exact (Lexeme.flatMap_raw_scan _ _).symm
  rw [htext, hpos]
  exact Position.within_advance before after

/-! ## Places of a story -/

/-- The places of the variables that are read. -/
def Expr.places (e : Expr) : List Position := e.reads.map Prod.snd

/-- The places of a statement itself, its markers and the variables that it reads. -/
def Node.places : Node → List Position
  | .text _ pos | .script _ pos | .divert _ pos | .stray _ pos => [pos]
  | .choice c => c.pos :: c.guard.toList.flatMap Expr.places
  | .assignment a => a.pos :: a.value.places
  | .conditional guard _ _ opening closing => opening :: (closing.toList ++ guard.places)

/-- The places of a passage, its statements and all statements inside them. -/
def Passage.places (p : Passage) : List Position := p.pos :: (Node.walkAll p.body).flatMap Node.places

/-- All places in a story. -/
def Story.places (s : Story) : List Position := s.passages.flatMap Passage.places

section

variable (f : Position → Position)

theorem Expr.reads_relocate (e : Expr) : (e.relocate f).reads = e.reads.map fun r => (r.1, f r.2) := by
  induction e with
  | literal v => rfl
  | var name pos => rfl
  | unary op e ih => exact ih
  | binary op l r ihl ihr => rw [Expr.relocate, reads, ihl, ihr, reads, List.map_append]

theorem Expr.places_relocate (e : Expr) : (e.relocate f).places = e.places.map f := by
  rw [places, reads_relocate, List.map_map, places, List.map_map]
  rfl

theorem Node.places_relocate (n : Node) : (n.relocate f).places = n.places.map f := by
  cases n with
  | choice c =>
    obtain ⟨text, guard, target, pos⟩ := c
    cases guard with
    | none => rfl
    | some g => simp [relocate, Choice.relocate, places, Expr.places_relocate]
  | assignment a => simp [relocate, Assignment.relocate, places, Expr.places_relocate]
  | conditional guard body otherwise opening closing =>
    cases closing <;> simp [relocate, places, Expr.places_relocate]
  | _ => rfl

theorem Node.walkAll_relocateAll (ns : List Node) :
    walkAll (relocateAll f ns) = (walkAll ns).map (relocate f) := by
  induction ns using body_induction with
  | nil => rfl
  | leaf n ns hn ih =>
    rw [relocateAll, walkAll, walkAll, ih, List.map_append]
    cases n with
    | conditional => cases hn
    | _ => rfl
  | conditional guard body otherwise opening closing ns ihBody ihBranch ih =>
    rw [relocateAll, walkAll, walkAll, ih, List.map_append]
    congr 1
    cases otherwise with
    | none => rw [relocate, walk, walk, ihBody, List.append_nil, List.append_nil, List.map_cons, relocate]
    | some branch =>
      rw [relocate, walk, walk, ihBody, ihBranch branch rfl, List.map_cons, List.map_append, relocate]

theorem Story.places_relocate (s : Story) : (s.relocate f).places = s.places.map f := by
  have hpassage : ∀ p : Passage, (p.relocate f).places = p.places.map f := by
    intro p
    show f p.pos :: (Node.walkAll (Node.relocateAll f p.body)).flatMap Node.places = p.places.map f
    rw [Node.walkAll_relocateAll, List.flatMap_map, Passage.places, List.map_cons, List.map_flatMap]
    simp only [Node.places_relocate]
  rw [places, places, List.map_flatMap, relocate, List.flatMap_map]
  simp only [hpassage]

end

/-- A map of places that leaves `ps` alone and moves every other place. -/
def Position.fixing (ps : List Position) (p : Position) : Position :=
  if p ∈ ps then p else ⟨p.line, p.column + 1⟩

theorem Position.fixing_eq_self_iff {ps : List Position} {p : Position} : p.fixing ps = p ↔ p ∈ ps := by
  rw [fixing]
  split
  · next h => exact iff_of_true rfl h
  · next h =>
    refine iff_of_false (fun heq => ?_) h
    have hcolumn : p.column + 1 = p.column := congrArg Position.column heq
    omega

/-- What a map that moves all but the places of some tokens leaves alone, stands at one of the tokens. -/
theorem Token.exists_of_fixing {ts : List Token} {p : Position}
    (h : p.fixing (ts.map Token.pos) = p) : ∃ t ∈ ts, t.pos = p :=
  List.mem_map.mp (Position.fixing_eq_self_iff.mp h)

theorem Token.map_relocate_fixing (ts : List Token) :
    ts.map (Token.relocate (Position.fixing (ts.map Token.pos))) = ts := by
  refine (List.map_congr_left fun t ht => ?_).trans ts.map_id
  rw [relocate, Position.fixing_eq_self_iff.mpr (List.mem_map_of_mem ht)]
  rfl

namespace Story

section

variable {ts : List Token} (h : ∃ t ∈ ts, t.kind.isTrivia = false)
include h

/-- **A story has no places but those of its tokens.** -/
theorem exists_token_of_mem_places {p : Position} (hp : p ∈ (Story.ofTokens ts).story.places) :
    ∃ t ∈ ts, t.pos = p := by
  have hmoved := ofTokens_relocate_story (Position.fixing (ts.map Token.pos)) h
  rw [Token.map_relocate_fixing] at hmoved
  have hplaces : (Story.ofTokens ts).story.places.map (Position.fixing (ts.map Token.pos))
      = (Story.ofTokens ts).story.places.map id := by
    rw [← places_relocate, ← hmoved, List.map_id]
  exact Token.exists_of_fixing (List.map_inj_left.mp hplaces p hp)

/-- A syntax error stands at a token, too. -/
theorem exists_token_of_mem_errors {e : SyntaxError} (he : e ∈ (Story.ofTokens ts).errors) :
    ∃ t ∈ ts, t.pos = e.pos := by
  have hmoved := ofTokens_relocate_incidents (Position.fixing (ts.map Token.pos)) h
  rw [Token.map_relocate_fixing] at hmoved
  have herrors : (Story.ofTokens ts).errors.map (SyntaxError.relocate (Position.fixing (ts.map Token.pos)))
      = (Story.ofTokens ts).errors.map id := by
    rw [Reading.errors, ← Incident.filterMap_reported?_relocate, ← hmoved, List.map_id]
  exact Token.exists_of_fixing (congrArg SyntaxError.pos (List.map_inj_left.mp herrors e he))

end

end Story

/-! ## Checks -/

/-- A report at one of the places, as yet without its source line. -/
structure Diagnostic.BareAt (ps : List Position) (d : Diagnostic) : Prop where
  pos : d.pos ∈ ps
  snippet : d.snippet = none

theorem Diagnostic.BareAt.mono {ps qs : List Position} {d : Diagnostic} (h : d.BareAt ps) (hsub : ps ⊆ qs) :
    d.BareAt qs :=
  ⟨hsub h.pos, h.snippet⟩

namespace Validate

theorem mem_of_mem_firstReads {d : Diagnostic} {ds : List Diagnostic} {seen : NameSet}
    (h : d ∈ firstReads seen ds) : d ∈ ds := by
  induction ds generalizing seen with
  | nil => cases h
  | cons e es ih =>
    rw [firstReads] at h
    split at h
    · split at h
      · exact List.mem_cons_of_mem _ (ih h)
      · rcases List.mem_cons.mp h with rfl | h
        · exact List.mem_cons_self
        · exact List.mem_cons_of_mem _ (ih h)
    · rcases List.mem_cons.mp h with rfl | h
      · exact List.mem_cons_self
      · exact List.mem_cons_of_mem _ (ih h)

theorem bareAt_duplicates {earlier ps : List Passage} {d : Diagnostic} (h : d ∈ duplicates earlier ps) :
    d.BareAt (ps.map Passage.pos) := by
  induction ps generalizing earlier with
  | nil => cases h
  | cons p ps ih =>
    rw [duplicates, List.mem_append] at h
    rw [List.map_cons]
    rcases h with h | h
    · obtain ⟨first, -, rfl⟩ := Option.map_eq_some_iff.mp (Option.mem_toList.mp h)
      exact ⟨List.mem_cons_self, rfl⟩
    · exact (ih h).mono (List.subset_cons_self _ _)

theorem bareAt_reads {assigned : NameSet} {e : Expr} {d : Diagnostic} (h : d ∈ reads assigned e) :
    d.BareAt e.places := by
  obtain ⟨r, hr, hd⟩ := List.mem_filterMap.mp h
  split at hd
  · cases hd
  · cases hd
    exact ⟨List.mem_map_of_mem hr, rfl⟩

theorem bareAt_reference {s : Story} {target : String} {pos : Position} {d : Diagnostic}
    (h : d ∈ reference s target pos) : d.BareAt [pos] := by
  rw [reference] at h
  split at h
  · cases h
  · rw [List.mem_singleton.mp h]
    exact ⟨List.mem_singleton_self _, rfl⟩

/-- A statement is reported on at its own places. -/
theorem bareAt_node {s : Story} {assigned : NameSet} {n : Node} {d : Diagnostic}
    (h : d ∈ node s assigned n) : d.BareAt n.places := by
  cases n with
  | text content pos => cases h
  | script code pos => cases h
  | choice c =>
    rw [node, choice, List.mem_append, List.mem_append] at h
    rcases h with (h | h) | h
    · cases hguard : c.guard with
      | none =>
        rw [hguard] at h
        cases h
      | some g =>
        rw [hguard] at h
        rw [Node.places, hguard, Option.toList_some, List.flatMap_singleton]
        exact (bareAt_reads h).mono (List.subset_cons_self _ _)
    · split at h
      · rw [List.mem_singleton.mp h]
        exact ⟨List.mem_cons_self, rfl⟩
      · cases h
    · split at h
      · cases h
      · exact (bareAt_reference h).mono (List.cons_subset_cons _ (List.nil_subset _))
  | assignment a => exact (bareAt_reads h).mono (List.subset_cons_self _ _)
  | conditional guard body otherwise opening closing =>
    rw [node, List.mem_append] at h
    rcases h with h | h
    · exact (bareAt_reads h).mono fun p hp => List.mem_cons_of_mem _ (List.mem_append_right _ hp)
    · split at h
      · rw [List.mem_singleton.mp h]
        exact ⟨List.mem_cons_self, rfl⟩
      · cases h
  | divert target pos => exact bareAt_reference h
  | stray marker pos =>
    rw [List.mem_singleton.mp h]
    exact ⟨List.mem_singleton_self _, rfl⟩

end Validate

namespace Story

theorem pos_mem_places {s : Story} {p : Passage} (h : p ∈ s.passages) : p.pos ∈ s.places :=
  List.mem_flatMap.mpr ⟨p, h, List.mem_cons_self⟩

/-- **Checks report at places of the story.** -/
theorem bareAt_validate {s : Story} {d : Diagnostic} (h : d ∈ s.validate) : d.BareAt s.places := by
  rw [validate_eq, List.mem_append, List.mem_append, List.mem_append] at h
  rcases h with ((h | h) | h) | h
  · obtain ⟨hpos, hsnippet⟩ := Validate.bareAt_duplicates h
    obtain ⟨p, hp, hpos⟩ := List.mem_map.mp hpos
    exact ⟨hpos ▸ pos_mem_places hp, hsnippet⟩
  · obtain ⟨n, hn, hd⟩ := List.mem_flatMap.mp (Validate.mem_of_mem_firstReads h)
    obtain ⟨p, hp, hn⟩ := List.mem_flatMap.mp hn
    obtain ⟨hpos, hsnippet⟩ := Validate.bareAt_node hd
    have hplace : d.pos ∈ p.places := List.mem_cons_of_mem _ (List.mem_flatMap.mpr ⟨n, hn, hpos⟩)
    exact ⟨List.mem_flatMap.mpr ⟨p, hp, hplace⟩, hsnippet⟩
  · rw [Validate.entry] at h
    split at h
    · cases h
    · next first rest hpassages =>
      split at h
      · cases h
      · rw [List.mem_singleton.mp h]
        have hfirst : first ∈ s.passages := hpassages ▸ List.mem_cons_self
        exact ⟨pos_mem_places hfirst, rfl⟩
  · obtain ⟨p, hp, hd⟩ := List.mem_filterMap.mp h
    split at hd
    · cases hd
      exact ⟨pos_mem_places hp, rfl⟩
    · cases hd

end Story

/-! ## Reports -/

/-- A source line is attached to every report that has none and a place. -/
theorem Diagnostic.mem_attachSnippets {ds : List Diagnostic} {source : String} {d : Diagnostic}
    (h : d ∈ attachSnippets ds source) :
    ∃ d₀ ∈ ds, d.pos = d₀.pos ∧
      (d₀.snippet = none → d.snippet = Text.line? (Text.normalize source) d.pos.line) := by
  obtain ⟨d₀, hd₀, rfl⟩ := List.mem_map.mp h
  refine ⟨d₀, hd₀, ?_⟩
  obtain ⟨severity, code, message, ⟨line, column⟩, suggestion, snippet⟩ := d₀
  cases snippet with
  | some s => exact ⟨by cases line <;> rfl, fun hnone => by cases hnone⟩
  | none => cases line <;> exact ⟨rfl, fun _ => rfl⟩

theorem Diagnostic.mem_suggest {ds : List Diagnostic} {s : Story} {d : Diagnostic} (h : d ∈ suggest ds s) :
    ∃ d₀ ∈ ds, d.pos = d₀.pos ∧ d.snippet = d₀.snippet := by
  obtain ⟨d₀, hd₀, rfl⟩ := List.mem_map.mp h
  refine ⟨d₀, hd₀, ?_⟩
  split <;> exact ⟨rfl, rfl⟩

/-- **Every report stands at a token** and quotes the line it points to. -/
theorem exists_token_of_mem_analyze {source name : String} {suggest : Bool} {d : Diagnostic}
    (h : d ∈ (analyze source name suggest).diagnostics) :
    (∃ t ∈ (Lexed.ofSource source).tokens, t.pos = d.pos) ∧
      d.snippet = Text.line? (Text.normalize source) d.pos.line := by
  obtain ⟨d₁, hd₁, hpos₁, hsnippet₁⟩ := Diagnostic.mem_attachSnippets h
  -- Hints change neither place nor line, so the report is one that was found.
  have hfound : ∃ d₀ ∈ (Lexed.ofSource source).errors.map Diagnostic.ofLexical ++
      ((Story.ofTokens (Lexed.ofSource source).tokens).errors.map Diagnostic.ofSyntactic ++
        (Story.ofTokens (Lexed.ofSource source).tokens).story.validate),
      d₁.pos = d₀.pos ∧ d₁.snippet = d₀.snippet := by
    split at hd₁
    · exact Diagnostic.mem_suggest hd₁
    · exact ⟨d₁, hd₁, rfl, rfl⟩
  obtain ⟨d₀, hd₀, hpos₀, hsnippet₀⟩ := hfound
  have hread : ∃ t ∈ (Lexed.ofSource source).tokens, t.kind.isTrivia = false := by
    obtain ⟨t, ht, hend⟩ := Lexeme.exists_end_mem_tokens .start (Lexed.lexemes source)
    exact ⟨t, ht, by rw [hend]; rfl⟩
  have hbare : (∃ t ∈ (Lexed.ofSource source).tokens, t.pos = d₀.pos) ∧ d₀.snippet = none := by
    rcases List.mem_append.mp hd₀ with hlexical | hd₀
    · obtain ⟨e, he, rfl⟩ := List.mem_map.mp hlexical
      exact ⟨Lexeme.exists_token_of_mem_errors he, rfl⟩
    rcases List.mem_append.mp hd₀ with hsyntactic | hcheck
    · obtain ⟨e, he, rfl⟩ := List.mem_map.mp hsyntactic
      exact ⟨Story.exists_token_of_mem_errors hread he, rfl⟩
    · have hplace := Story.bareAt_validate hcheck
      exact ⟨Story.exists_token_of_mem_places hread hplace.pos, hplace.snippet⟩
  rw [hpos₁, hpos₀]
  refine ⟨hbare.1, ?_⟩
  rw [hsnippet₁ (hsnippet₀.trans hbare.2), hpos₁, hpos₀]

/-! ## The caret -/

namespace Diagnostic

/-- The blanks and tabs before the caret. -/
def caretPad (line : String) (column : Nat) : List Char :=
  (line.toList.take (column - 1)).map fun c => if c = '\t' then '\t' else ' '

theorem caretLine_eq (line : String) (column : Nat) :
    caretLine line column = String.ofList (caretPad line column ++ ['^']) := rfl

theorem length_caretPad {line : String} {column : Nat} (h : column ≤ line.length + 1) :
    (caretPad line column).length = column - 1 := by
  rw [caretPad, List.length_map, List.length_take, String.length_toList]
  omega

/-- Tabs are kept and everything else becomes a blank. -/
theorem caretPad_getElem? {line : String} {column i : Nat} {c : Char}
    (h : (caretPad line column)[i]? = some c) :
    c = if line.toList[i]? = some '\t' then '\t' else ' ' := by
  rw [caretPad, List.getElem?_map, Option.map_eq_some_iff] at h
  obtain ⟨c', hc', rfl⟩ := h
  rw [List.getElem?_take, Option.ite_none_right_eq_some] at hc'
  rw [hc'.2]
  simp only [Option.some.injEq]

theorem break_not_mem_caretLine (line : String) (column : Nat) :
    '\n' ∉ (caretLine line column).toList := by
  rw [caretLine_eq, String.toList_ofList, List.mem_append, List.mem_singleton]
  rintro (hpad | hcaret)
  · obtain ⟨c, -, hc⟩ := List.mem_map.mp hpad
    split at hc <;> cases hc
  · cases hcaret

/-- What follows the caret line starts a new line. -/
theorem toList_format {d : Diagnostic} {source line : String}
    (h : Text.line? (Text.normalize source) d.pos.line = some line) (name : String) :
    ∃ head tail, (d.format source name).toList
        = head ++ '\n' :: (line.toList ++ '\n' :: ((caretLine line d.pos.column).toList ++ tail)) ∧
      (tail = [] ∨ ∃ rest, tail = '\n' :: rest) := by
  have hexcerpt : excerpt (Text.normalize source) d.pos
      = "\n" ++ line ++ "\n" ++ caretLine line d.pos.column := by
    rw [excerpt, h]
  obtain ⟨head, hhead⟩ : ∃ head : String, d.format source name
      = head ++ excerpt (Text.normalize source) d.pos ++
        d.suggestion.elim "" ("\n = help: " ++ ·) := by
    unfold format
    cases d.suggestion <;> exact ⟨_, rfl⟩
  rw [hhead, hexcerpt]
  cases d.suggestion with
  | none =>
    refine ⟨head.toList, [], ?_, .inl rfl⟩
    simp only [String.toList_append, List.append_assoc]
    rfl
  | some hint =>
    refine ⟨head.toList, '\n' :: (" = help: " ++ hint).toList, ?_, .inr ⟨_, rfl⟩⟩
    simp only [Option.elim_some, String.toList_append, List.append_assoc]
    rfl

/-- **The source line and the caret line are consecutive lines of the text of a diagnostic.** -/
theorem infix_lines_format {d : Diagnostic} {source line : String}
    (h : Text.line? (Text.normalize source) d.pos.line = some line) (name : String) :
    [line, caretLine line d.pos.column] <:+: Text.lines (d.format source name) := by
  obtain ⟨head, tail, hformat, htail⟩ := toList_format h name
  have hline : splitLines line.toList = [line.toList] :=
    Text.splitLines_of_not_mem (Text.break_not_mem_line? h)
  have hcaret : ∃ more, splitLines ((caretLine line d.pos.column).toList ++ tail)
      = (caretLine line d.pos.column).toList :: more := by
    have halone := Text.splitLines_of_not_mem (break_not_mem_caretLine line d.pos.column)
    rcases htail with rfl | ⟨rest, rfl⟩
    · exact ⟨[], by rw [List.append_nil, halone]⟩
    · exact ⟨splitLines rest, by rw [Text.splitLines_append_break, halone]; rfl⟩
  obtain ⟨more, hmore⟩ := hcaret
  refine ⟨(splitLines head).map String.ofList, more.map String.ofList, ?_⟩
  rw [Text.lines, hformat, Text.splitLines_append_break, Text.splitLines_append_break, hline, hmore]
  simp only [List.map_append, List.map_cons, List.map_nil, String.ofList_toList, List.append_assoc]
  rfl

end Diagnostic

/-- **Every report points into its source.** Its line is one of the lines of the source in normal form and
its column is in that line or right behind it; the line is quoted with the report; and in the text of the
report, under whatever name, the line is followed by a caret line, which has the caret in the column of the
report, a tab wherever the source line has one before it, and blanks otherwise. -/
theorem check_points_into_source {source name : String} {d : Diagnostic} (h : d ∈ check source name)
    (file : String) :
    (1 ≤ d.pos.line ∧ d.pos.line ≤ (Text.lines (Text.normalize source)).length) ∧
      ∃ line, (Text.lines (Text.normalize source))[d.pos.line - 1]? = some line ∧
        (1 ≤ d.pos.column ∧ d.pos.column ≤ line.length + 1) ∧
        d.snippet = some line ∧
        ∃ pad : List Char, pad.length = d.pos.column - 1 ∧
          (∀ (i : Nat) c, pad[i]? = some c → c = if line.toList[i]? = some '\t' then '\t' else ' ') ∧
          [line, String.ofList (pad ++ ['^'])] <:+: Text.lines (d.format source file) := by
  obtain ⟨⟨t, ht, hpos⟩, hsnippet⟩ := exists_token_of_mem_analyze h
  have hwithin := Lexed.within_of_mem_tokens ht
  rw [hpos] at hwithin
  obtain ⟨hline, hcolumn, chars, hchars, hle⟩ := hwithin
  have hlines : (Text.lines (Text.normalize source))[d.pos.line - 1]? = some (String.ofList chars) := by
    rw [Text.lines, Text.normalize, String.toList_ofList, List.getElem?_map, hchars]
    rfl
  have hline? : Text.line? (Text.normalize source) d.pos.line = some (String.ofList chars) := by
    rw [← hlines, Text.line?_of_pos hline]
  have hle : d.pos.column ≤ (String.ofList chars).length + 1 := by
    rw [String.length_ofList]
    exact hle
  obtain ⟨hbound, -⟩ := List.getElem?_eq_some_iff.mp hlines
  refine ⟨⟨hline, by omega⟩, _, hlines, ⟨hcolumn, hle⟩, hsnippet.trans hline?, ?_⟩
  exact ⟨_, Diagnostic.length_caretPad hle, fun i c hc => Diagnostic.caretPad_getElem? hc,
    Diagnostic.infix_lines_format hline? file⟩

/-- A source with a byte order mark, three kinds of line ends and tabs: the error is at the end of its
line, behind the second tab. -/
theorem check_points_into_source_tabs :
    let source := "\uFEFF:: Start\r\n\t$x = $y +\t\r\r* [] -> Start\n"
    let line := "\t$x = $y +\t"
    ∃ d ∈ check source "tale", d.pos = ⟨2, 12⟩ ∧ d.snippet = some line ∧
      ∃ pad : List Char, pad.length = 11 ∧
        (∀ (i : Nat) c, pad[i]? = some c → c = if line.toList[i]? = some '\t' then '\t' else ' ') ∧
        [line, String.ofList (pad ++ ['^'])] <:+: Text.lines (d.format source "tale") := by
  intro source line
  have hfound : ∃ d ∈ check source "tale", d.pos = ⟨2, 12⟩ ∧ d.snippet = some line := by decide +kernel
  obtain ⟨d, hd, hpos, hsnippet⟩ := hfound
  obtain ⟨-, line', -, -, hline, pad, hlength, hpad, hinfix⟩ := check_points_into_source hd "tale"
  rw [hsnippet] at hline
  cases hline
  rw [hpos] at hlength
  exact ⟨d, hd, hpos, hsnippet, pad, hlength, hpad, hinfix⟩

end Gamebook
