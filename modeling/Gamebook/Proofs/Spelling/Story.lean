/-
# Gamebook.Proofs.Spelling.Story — a story is read back from its words

`Story.Writable` collects what a story must look like to be written so that it is read again. Its
canonical text is cut into the words of its parts; laid out, they are its metadata and its sections, from
which the story is read back without an incident (`Story.ofTokens_spelling`). What is read back is
`Story.settle`: the passages in canonical order, with their bodies settled and places forgotten.
-/
import Gamebook.Proofs.Spelling.Outline

namespace Gamebook

open Gamebook.Lexeme
open Gamebook.Assembly (lineOf)

/-! ## Ordered containers are refilled in order -/

namespace NameSet

theorem place_of_forall_lt {x : String} {ys : List String} (h : ∀ y ∈ ys, y < x) :
    place x ys = ys ++ [x] := by
  induction ys with
  | nil => rfl
  | cons y ys ih =>
    rw [List.forall_mem_cons] at h
    have hlt : ¬ x < y := String.lt_asymm h.1
    have hne : x ≠ y := fun heq => String.lt_irrefl y (heq ▸ h.1)
    rw [place, if_neg hlt, if_neg hne, ih h.2]
    rfl

theorem names_foldl_insert {xs : List String} {s : NameSet} (h : (s.names ++ xs).Pairwise (· < ·)) :
    (xs.foldl insert s).names = s.names ++ xs := by
  induction xs generalizing s with
  | nil => simp
  | cons x xs ih =>
    have hlt : ∀ y ∈ s.names, y < x := by
      intro y hy
      exact (List.pairwise_append.mp h).2.2 y hy x List.mem_cons_self
    have hnames : (s.insert x).names = s.names ++ [x] := place_of_forall_lt hlt
    rw [List.append_cons, ← hnames] at h
    rw [List.foldl_cons, ih h, hnames, ← List.append_cons]

/-- A set is made of its names. -/
theorem ofList_names (s : NameSet) : ofList s.names = s := by
  have hnames : (ofList s.names).names = s.names := names_foldl_insert s.ordered
  exact NameSet.mk.injEq .. ▸ hnames

end NameSet

namespace Metadata

theorem place_of_forall_lt {key value : String} {es : List (String × String)}
    (h : ∀ e ∈ es, e.1 < key) : place key value es = es ++ [(key, value)] := by
  induction es with
  | nil => rfl
  | cons e es ih =>
    rw [List.forall_mem_cons] at h
    have hlt : ¬ key < e.1 := String.lt_asymm h.1
    have hne : key ≠ e.1 := fun heq => String.lt_irrefl key (by rw [heq] at h ⊢; exact h.1)
    rw [place, if_neg hlt, if_neg hne, ih h.2]
    rfl

theorem entries_foldl_insert {es : List (String × String)} {m : Metadata}
    (h : ((m.entries ++ es).map Prod.fst).Pairwise (· < ·)) :
    (es.foldl (fun m e => m.insert e.1 e.2) m).entries = m.entries ++ es := by
  induction es generalizing m with
  | nil => simp
  | cons e es ih =>
    have hlt : ∀ e' ∈ m.entries, e'.1 < e.1 := by
      intro e' he'
      rw [List.map_append, List.map_cons] at h
      exact (List.pairwise_append.mp h).2.2 e'.1 (List.mem_map_of_mem he') e.1 List.mem_cons_self
    have hentries : (m.insert e.1 e.2).entries = m.entries ++ [e] := place_of_forall_lt hlt
    rw [List.append_cons, ← hentries] at h
    rw [List.foldl_cons, ih h, hentries, ← List.append_cons]

/-- Metadata are made of their entries. -/
theorem ofList_entries (m : Metadata) : ofList m.entries = m := by
  have hentries : (ofList m.entries).entries = m.entries := entries_foldl_insert m.ordered
  exact Metadata.mk.injEq .. ▸ hentries

end Metadata

/-! ## What can be written -/

/-- A passage can be written, if its expressions are of the class `Q`. -/
structure Passage.Writable (Q : Expr → Prop) (p : Passage) : Prop where
  name : isPassageName p.name.toList = true
  tags : ∀ tag ∈ p.tags.names, isTag tag.toList = true
  body : Node.Everywhere (Node.Writable Q) p.body
  shaped : Node.shapedAll .body true p.body = true
  height : Node.heightAll p.body ≤ maxNesting

/-- A story can be written, if its expressions are of the class `Q`. -/
structure Story.Writable (Q : Expr → Prop) (s : Story) : Prop where
  title : ∀ t ∈ s.title, isEntryValue t.toList = true
  author : ∀ a ∈ s.author, isEntryValue a.toList = true
  keys : ∀ e ∈ s.metadata.entries, isKey e.1.toList = true ∧ e.1 ≠ "title" ∧ e.1 ≠ "author"
  values : ∀ e ∈ s.metadata.entries, isEntryValue e.2.toList = true
  passages : ∀ p ∈ s.passages, p.Writable Q

/-- The words of a passage can be written, however its conditionals stand inside one another. -/
structure Passage.Spellable (Q : Expr → Prop) (p : Passage) : Prop where
  name : isPassageName p.name.toList = true
  tags : ∀ tag ∈ p.tags.names, isTag tag.toList = true
  body : Node.Everywhere (Node.Writable Q) p.body

/-- The words of a story can be written, however the conditionals of its passages stand inside one another. -/
structure Story.Spellable (Q : Expr → Prop) (s : Story) : Prop where
  title : ∀ t ∈ s.title, isEntryValue t.toList = true
  author : ∀ a ∈ s.author, isEntryValue a.toList = true
  keys : ∀ e ∈ s.metadata.entries, isKey e.1.toList = true ∧ e.1 ≠ "title" ∧ e.1 ≠ "author"
  values : ∀ e ∈ s.metadata.entries, isEntryValue e.2.toList = true
  passages : ∀ p ∈ s.passages, p.Spellable Q

theorem Passage.Writable.spellable {Q : Expr → Prop} {p : Passage} (h : p.Writable Q) : p.Spellable Q :=
  ⟨h.name, h.tags, h.body⟩

theorem Story.Writable.spellable {Q : Expr → Prop} {s : Story} (h : s.Writable Q) : s.Spellable Q :=
  ⟨h.title, h.author, h.keys, h.values, fun p hp => (h.passages p hp).spellable⟩

section

variable (Q : Expr → Prop) [DecidablePred Q]

instance : DecidablePred (Passage.Spellable Q) := fun p =>
  decidable_of_iff
    (isPassageName p.name.toList = true ∧ (∀ tag ∈ p.tags.names, isTag tag.toList = true) ∧
      Node.Everywhere (Node.Writable Q) p.body)
    ⟨fun ⟨name, tags, body⟩ => ⟨name, tags, body⟩, fun ⟨name, tags, body⟩ => ⟨name, tags, body⟩⟩

instance : DecidablePred (Story.Spellable Q) := fun s =>
  decidable_of_iff
    ((∀ t ∈ s.title, isEntryValue t.toList = true) ∧ (∀ a ∈ s.author, isEntryValue a.toList = true) ∧
      (∀ e ∈ s.metadata.entries, isKey e.1.toList = true ∧ e.1 ≠ "title" ∧ e.1 ≠ "author") ∧
      (∀ e ∈ s.metadata.entries, isEntryValue e.2.toList = true) ∧ ∀ p ∈ s.passages, p.Spellable Q)
    ⟨fun ⟨title, author, keys, values, passages⟩ => ⟨title, author, keys, values, passages⟩,
      fun ⟨title, author, keys, values, passages⟩ => ⟨title, author, keys, values, passages⟩⟩

instance : DecidablePred (Passage.Writable Q) := fun p =>
  decidable_of_iff
    (isPassageName p.name.toList = true ∧ (∀ tag ∈ p.tags.names, isTag tag.toList = true) ∧
      Node.Everywhere (Node.Writable Q) p.body ∧ Node.shapedAll .body true p.body = true ∧
      Node.heightAll p.body ≤ maxNesting)
    ⟨fun ⟨name, tags, body, shaped, height⟩ => ⟨name, tags, body, shaped, height⟩,
      fun ⟨name, tags, body, shaped, height⟩ => ⟨name, tags, body, shaped, height⟩⟩

instance : DecidablePred (Story.Writable Q) := fun s =>
  decidable_of_iff
    ((∀ t ∈ s.title, isEntryValue t.toList = true) ∧ (∀ a ∈ s.author, isEntryValue a.toList = true) ∧
      (∀ e ∈ s.metadata.entries, isKey e.1.toList = true ∧ e.1 ≠ "title" ∧ e.1 ≠ "author") ∧
      (∀ e ∈ s.metadata.entries, isEntryValue e.2.toList = true) ∧ ∀ p ∈ s.passages, p.Writable Q)
    ⟨fun ⟨title, author, keys, values, passages⟩ => ⟨title, author, keys, values, passages⟩,
      fun ⟨title, author, keys, values, passages⟩ => ⟨title, author, keys, values, passages⟩⟩

end

/-- A passage as it is read back. -/
def Passage.settle (p : Passage) : Passage := ⟨p.name, p.tags, Node.settleAll p.body, .unplaced⟩

/-- A story as it is read back. -/
def Story.settle (s : Story) : Story := { s with passages := s.sorted.map Passage.settle }

/-! ## Headers -/

theorem Header.readTags_spelling (tags : NameSet) (stop : LineEnd) :
    Header.readTags stop (tagsSpelling tags) = (tags, .ok ()) := by
  rw [tagsSpelling]
  by_cases hempty : tags.isEmpty = true
  · have htags : tags = .empty := by
      obtain ⟨names, ordered⟩ := tags
      cases names with
      | nil => rfl
      | cons name names => cases hempty
    rw [if_pos hempty, htags]
    rfl
  · have hwords : ∀ w ∈ tags.names.map (fun tag => Token.word .identifier tag.toList),
        decide (w.kind = .identifier) = true := by
      intro w hw
      obtain ⟨tag, -, rfl⟩ := List.mem_map.mp hw
      rfl
    have hraw : (tags.names.map (fun tag => Token.word .identifier tag.toList)).map Token.raw
        = tags.names := by
      rw [List.map_map]
      refine (List.map_congr_left fun tag _ => ?_).trans (List.map_id _)
      exact String.ofList_toList
    have hopen : (Token.word (.opening .square) ['[']).kind = .opening .square := rfl
    rw [if_neg hempty, Header.readTags, if_pos hopen, List.takeWhile_append_of_pos hwords,
      List.dropWhile_append_of_pos hwords]
    simp only [Token.word, List.takeWhile_cons] at hraw ⊢
    rw [if_neg (by decide), List.append_nil, hraw, NameSet.ofList_names]
    rfl

theorem Header.ofLine_spelling (p : Passage) :
    Header.ofLine (lineOf (headerSpelling p)) = ⟨some p.name, p.tags, []⟩ := by
  have hname : LineEnd.expectName ⟨.unplaced, none⟩ .expectedPassageName (headerSpelling p)
      = .ok (String.ofList p.name.toList, tagsSpelling p.tags) := rfl
  simp only [Header.ofLine, lineOf, hname, Header.readTags_spelling, String.ofList_toList]

/-- A passage is read back from its section. -/
theorem Passage.outline_read {Q : Expr → Prop} (hQ : ∀ e, Q e → e.Fits) {p : Passage}
    (h : p.Writable Q) : p.outline.passage? = some p.settle ∧ p.outline.incidents = [] := by
  obtain ⟨hbody, hincidents⟩ := Assembly.ofLines_linesAll hQ h.body h.shaped h.height
  constructor
  · rw [Section.passage?, Passage.outline, Header.ofLine_spelling, hbody]
    rfl
  · rw [Section.incidents, Passage.outline, Header.ofLine_spelling, hincidents]
    rfl

/-! ## Metadata -/

/-- The metadata of a story with its title and author, in the order in which they are written. -/
def Story.entries (s : Story) : List (String × String) :=
  (s.title.map fun t => ("title", t)).toList ++ (s.author.map fun a => ("author", a)).toList ++
    s.metadata.entries

namespace Preamble

theorem line_entry {p : Preamble} (hopen : p.closed = false) {key : String} (hkey : key ≠ "")
    (value : String) : p.line (lineOf (entrySpelling key value)) = p.set key value := by
  have hcontent : (Token.textual .metaKey key.toList ('@' :: key.toList)).content = key :=
    String.ofList_toList
  have hread : readEntry ⟨.unplaced, none⟩ (.textual .metaKey key.toList ('@' :: key.toList))
      (if value = "" then [] else [.textual .text value.toList value.toList]) = .ok (key, value) := by
    by_cases hvalue : value = ""
    · rw [if_pos hvalue, readEntry, hcontent, if_neg hkey, hvalue]
      rfl
    · have htext : (Token.textual .text value.toList value.toList).content = value :=
        String.ofList_toList
      rw [if_neg hvalue, readEntry, hcontent, if_neg hkey, htext]
      rfl
  rw [line, hopen, if_neg Bool.false_ne_true, lineOf, entrySpelling]
  show readLine p _ _ _ = _
  rw [readLine, hread]
  rfl

theorem foldl_line_entries {es : List (String × String)} (h : ∀ e ∈ es, e.1 ≠ "") {p : Preamble}
    (hopen : p.closed = false) :
    ((es.map fun e => entrySpelling e.1 e.2).map lineOf).foldl line p
      = es.foldl (fun p e => p.set e.1 e.2) p := by
  induction es generalizing p with
  | nil => rfl
  | cons e es ih =>
    rw [List.forall_mem_cons] at h
    have hset : (p.set e.1 e.2).closed = false := by
      rw [set]
      split
      · exact hopen
      · split <;> exact hopen
    rw [List.map_cons, List.map_cons, List.foldl_cons, line_entry hopen h.1, ih h.2 hset, List.foldl_cons]

theorem foldl_set_metadata {es : List (String × String)}
    (h : ∀ e ∈ es, e.1 ≠ "title" ∧ e.1 ≠ "author") (p : Preamble) :
    es.foldl (fun p e => p.set e.1 e.2) p
      = { p with metadata := es.foldl (fun m e => m.insert e.1 e.2) p.metadata } := by
  induction es generalizing p with
  | nil => rfl
  | cons e es ih =>
    rw [List.forall_mem_cons] at h
    rw [List.foldl_cons, ih h.2, set, if_neg h.1.1, if_neg h.1.2]
    rfl

end Preamble

section

variable {Q : Expr → Prop} {s : Story}

theorem Story.Spellable.entries (h : s.Spellable Q) :
    ∀ e ∈ s.entries, isKey e.1.toList = true ∧ isEntryValue e.2.toList = true := by
  intro e he
  simp only [Story.entries, List.mem_append, Option.mem_toList,
    Option.map_eq_some_iff] at he
  rcases he with (⟨t, ht, rfl⟩ | ⟨a, ha, rfl⟩) | he
  · exact ⟨show isKey "title".toList = true by decide, h.title t ht⟩
  · exact ⟨show isKey "author".toList = true by decide, h.author a ha⟩
  · exact ⟨(h.keys e he).1, h.values e he⟩

/-- The metadata of a story are read back from their lines. -/
theorem Preamble.ofLines_entries (h : s.Spellable Q) :
    Preamble.ofLines ((s.entries.map fun e => entrySpelling e.1 e.2).map lineOf)
      = ⟨s.title, s.author, s.metadata, #[], false⟩ := by
  have hne : ∀ e ∈ s.entries, e.1 ≠ "" := by
    rintro e he hempty
    have hkey := (h.entries e he).1
    rw [hempty] at hkey
    cases hkey
  have hstart : ∀ p : Preamble, p.title = none → p.author = none →
      ((s.title.map fun t => ("title", t)).toList ++ (s.author.map fun a => ("author", a)).toList).foldl
          (fun p e => p.set e.1 e.2) p
        = { p with title := s.title, author := s.author } := by
    rintro ⟨title, author, metadata, incidents, closed⟩ rfl rfl
    cases s.title <;> cases s.author <;> rfl
  rw [Preamble.ofLines, foldl_line_entries hne rfl, Story.entries, List.foldl_append,
    hstart .empty rfl rfl, foldl_set_metadata fun e he => (h.keys e he).2]
  exact congrArg (Preamble.mk _ _ · _ _) (Metadata.ofList_entries s.metadata)

end

/-! ## The text of a story -/

section

variable {Q : Expr → Prop} (hQ : ∀ e, Q e → e.isWritten = true)

include hQ

/-- The canonical text of a passage is cut into its words. -/
theorem Passage.words_chars {p : Passage} (h : p.Spellable Q) (rest : List Char) :
    words .lineStart (p.chars ++ rest) = p.spelling ++ words .lineStart rest := by
  rw [Passage.chars, Passage.headerChars, renderLine, List.append_assoc, List.append_assoc,
    List.singleton_append, spells_header h.name h.tags, Node.words_charsAll hQ h.body, Passage.spelling,
    unlines_cons]
  simp

/-- Passages are written with blank lines between them. -/
theorem words_passages {ps : List Passage} (h : ∀ p ∈ ps, p.Spellable Q) :
    words .lineStart (['\n'].intercalate (ps.map Passage.chars))
      = [Token.lineBreak].intercalate (ps.map Passage.spelling) := by
  induction ps with
  | nil => simp
  | cons p ps ih =>
    rw [List.forall_mem_cons] at h
    cases ps with
    | nil =>
      have hlast := Passage.words_chars hQ h.1 []
      rw [List.append_nil, words_nil, List.append_nil] at hlast
      rw [List.map_singleton, List.intercalate_singleton, List.map_singleton,
        List.intercalate_singleton, hlast]
    | cons q ps =>
      rw [List.map_cons, List.map_cons, List.intercalate_cons_cons, ← List.map_cons, List.append_assoc,
        Passage.words_chars hQ h.1, List.singleton_append, words_break, ih h.2, List.map_cons,
        List.map_cons, List.map_cons, List.intercalate_cons_cons, List.append_assoc]
      rfl

end

namespace Story

/-- The lines of metadata, as words. -/
def entryLines (s : Story) : List (List Token) := s.entries.map fun e => entrySpelling e.1 e.2

theorem areInner_entryLines (s : Story) : Line.areInner s.entryLines = true := by
  simp [Line.areInner, entryLines, all_isInner_entrySpelling]

theorem metadataChars_eq (s : Story) :
    s.metadataChars = s.entries.flatMap fun e => entryChars e.1 e.2 := by
  obtain ⟨title, author, metadata, passages⟩ := s
  cases title <;> cases author <;> simp [metadataChars, entries]

theorem isEmpty_metadataChars (s : Story) : s.metadataChars.isEmpty = s.entries.isEmpty := by
  rw [metadataChars_eq]
  cases s.entries with
  | nil => rfl
  | cons e es => rfl

theorem words_metadataChars {Q : Expr → Prop} {s : Story} (h : s.Spellable Q) (rest : List Char) :
    words .lineStart (s.metadataChars ++ rest) = unlines s.entryLines ++ words .lineStart rest := by
  rw [metadataChars_eq, entryLines]
  have hentries := h.entries
  generalize s.entries = es at hentries
  induction es with
  | nil => rfl
  | cons e es ih =>
    rw [List.forall_mem_cons] at hentries
    rw [List.flatMap_cons, entryChars, renderLine, List.append_assoc, List.append_assoc,
      List.singleton_append, spells_entry hentries.1.1 hentries.1.2, ih hentries.2, List.map_cons,
      unlines_cons, List.append_assoc]
    rfl

/-- The words of the parts of a story. -/
def partWords (s : Story) : List (List Token) :=
  (if s.entries.isEmpty then [] else [unlines s.entryLines]) ++ s.sorted.map Passage.spelling

/-- The words of a story. -/
def spelling (s : Story) : List Token :=
  match s.partWords with
  | [] => [.lineBreak]
  | parts => [Token.lineBreak].intercalate parts

theorem forall_mem_sorted {P : Passage → Prop} {s : Story} (h : ∀ p ∈ s.passages, P p) :
    ∀ p ∈ s.sorted, P p := by
  intro p hp
  exact h p (List.mem_mergeSort.mp hp)

/-- The canonical text of a story is cut into its words. -/
theorem words_chars {Q : Expr → Prop} (hQ : ∀ e, Q e → e.isWritten = true) {s : Story}
    (h : s.Spellable Q) : words .lineStart s.chars = s.spelling := by
  have hpassages := words_passages hQ (forall_mem_sorted h.passages)
  -- There is a line break between two parts, so the cases are whether there are metadata and passages.
  rw [chars, parts, isEmpty_metadataChars, spelling, partWords]
  cases hentries : s.entries.isEmpty with
  | true =>
    rw [if_pos rfl, if_pos rfl, List.nil_append, List.nil_append]
    cases hsorted : s.sorted with
    | nil =>
      show words .lineStart ['\n'] = [.lineBreak]
      rw [words_break, words_nil]
    | cons p ps =>
      rw [hsorted] at hpassages
      exact hpassages
  | false =>
    rw [if_neg Bool.false_ne_true, if_neg Bool.false_ne_true, List.singleton_append,
      List.singleton_append]
    cases hsorted : s.sorted with
    | nil =>
      have hlast := words_metadataChars h []
      rw [List.append_nil, words_nil, List.append_nil] at hlast
      show words .lineStart (['\n'].intercalate [_]) = [Token.lineBreak].intercalate [_]
      rw [List.intercalate_singleton, List.intercalate_singleton, hlast]
    | cons p ps =>
      rw [hsorted] at hpassages
      show words .lineStart (['\n'].intercalate (_ :: _ :: _))
        = [Token.lineBreak].intercalate (_ :: _ :: _)
      rw [List.intercalate_cons_cons, List.append_assoc, words_metadataChars h, List.singleton_append,
        words_break, List.intercalate_cons_cons, List.append_assoc]
      exact congrArg (fun ws => _ ++ Token.lineBreak :: ws) hpassages

/-! ## Reading a story back -/

theorem all_isRead_spelling (s : Story) : s.spelling.all Token.isRead = true := by
  have hparts : ∀ part ∈ s.partWords, part.all Token.isRead = true := by
    intro part hpart
    rw [partWords, List.mem_append] at hpart
    rcases hpart with hpart | hpart
    · split at hpart
      · cases hpart
      · rw [List.mem_singleton.mp hpart]
        exact all_isRead_unlines s.areInner_entryLines
    · obtain ⟨p, -, rfl⟩ := List.mem_map.mp hpart
      rw [Passage.spelling, List.all_cons, all_isRead_unlines p.areInner_lines]
      rfl
  rw [spelling]
  generalize s.partWords = parts at hparts
  cases parts with
  | nil => rfl
  | cons part parts =>
    show ([Token.lineBreak].intercalate (part :: parts)).all Token.isRead = true
    induction parts generalizing part with
    | nil =>
      rw [List.intercalate_singleton]
      exact hparts part List.mem_cons_self
    | cons next parts ih =>
      rw [List.forall_mem_cons] at hparts
      rw [List.intercalate_cons_cons, List.all_append, List.all_append, hparts.1, ih next hparts.2]
      rfl

/-- The words of a story are laid out as its metadata and its sections. -/
theorem compact_spelling (s : Story) :
    ((Outline.Tail.atEnd .unplaced).pushAll s.spelling).compact
      = Outline.compact ⟨s.entryLines.map lineOf, s.sorted.map Passage.outline⟩ := by
  have hpassages := Outline.compact_passages s.sorted
  have hmetadata := fun tail => Outline.Tail.compact_pushAll_unlines tail s.areInner_entryLines
  rw [Outline.compact, List.map_map, spelling, partWords]
  cases hentries : s.entries.isEmpty with
  | true =>
    have hlines : s.entryLines = [] := by
      rw [entryLines, List.isEmpty_iff.mp hentries]
      rfl
    rw [if_pos rfl, List.nil_append, hlines]
    cases hsorted : s.sorted with
    | nil => rfl
    | cons p ps =>
      rw [hsorted] at hpassages
      exact hpassages
  | false =>
    rw [if_neg Bool.false_ne_true, List.singleton_append]
    cases hsorted : s.sorted with
    | nil =>
      show ((Outline.Tail.atEnd .unplaced).pushAll ([Token.lineBreak].intercalate [_])).compact = _
      rw [List.intercalate_singleton, hmetadata]
      exact congrArg (Outline.mk · []) (List.append_nil _)
    | cons p ps =>
      rw [hsorted] at hpassages
      show ((Outline.Tail.atEnd .unplaced).pushAll
        ([Token.lineBreak].intercalate (_ :: (p :: ps).map Passage.spelling))).compact = _
      rw [List.map_cons, List.intercalate_cons_cons, ← List.map_cons, List.append_assoc,
        Outline.Tail.pushAll_append, hmetadata, Outline.Tail.pushAll_append,
        Outline.Tail.compact_pushAll_lineBreak, hpassages, List.append_nil]
      rfl

/-- **A story is read back from its words,** without an incident. -/
theorem ofTokens_spelling {Q : Expr → Prop} (hQ : ∀ e, Q e → e.Fits) {s : Story} (h : s.Writable Q) :
    Story.ofTokens (s.spelling ++ [.final]) = ⟨s.settle, []⟩ := by
  have hlayout : (Outline.ofTokens (s.spelling ++ [.final])).compact
      = Outline.compact ⟨s.entryLines.map lineOf, s.sorted.map Passage.outline⟩ := by
    rw [Outline.ofTokens_eq_toOutline, Outline.tailOf_isRead s.all_isRead_spelling]
    exact s.compact_spelling
  have hpassages : (s.sorted.map Passage.outline).filterMap Section.passage?
      = s.sorted.map Passage.settle := by
    have hsorted := forall_mem_sorted h.passages
    generalize s.sorted = ps at hsorted
    induction ps with
    | nil => rfl
    | cons p ps ih =>
      rw [List.forall_mem_cons] at hsorted
      rw [List.map_cons, List.filterMap_cons, (Passage.outline_read hQ hsorted.1).1, ih hsorted.2,
        List.map_cons]
  have hincidents : (s.sorted.map Passage.outline).flatMap Section.incidents = [] := by
    rw [List.flatMap_map, List.flatMap_eq_nil_iff]
    exact fun p hp => (Passage.outline_read hQ (forall_mem_sorted h.passages p hp)).2
  rw [Story.ofTokens, ← Outline.read_compact, hlayout, Outline.read_compact, Outline.read, hpassages,
    hincidents, entryLines, Preamble.ofLines_entries h.spellable]
  rfl

end Story

end Gamebook
