/-
# Gamebook.Proofs.LineEndings — how lines end does not matter

A text without carriage returns can be spelled in many ways: each of its line feeds may be written as a line
feed, as a carriage return or as both, and a byte order mark may stand in front. The normal form undoes exactly
this (`Text.normalize_eq_iff`). Whatever is made of a source is made of its normal form: tokens, errors and the
lines that reports quote all come from there, so all spellings of a text compile alike (`compile_respelled`).
-/
import Gamebook.Compile
import Gamebook.Diagnostic.Report
import Gamebook.Proofs.Scan.Order

namespace Gamebook

namespace Text

/-! ## Spellings of line ends -/

/-- The first text is the second with each line feed spelled in one of three ways. A carriage return alone does
not stand before a line feed, as the two would be one line end. -/
inductive Respells : List Char → List Char → Prop
  | nil : Respells [] []
  | char {c : Char} {s t : List Char} (hc : c ≠ '\n') (h : Respells s t) : Respells (c :: s) (c :: t)
  | lf {s t : List Char} (h : Respells s t) : Respells ('\n' :: s) ('\n' :: t)
  | crlf {s t : List Char} (h : Respells s t) : Respells ('\r' :: '\n' :: s) ('\n' :: t)
  | cr {s t : List Char} (h : Respells s t) (hnext : s.head? ≠ some '\n') : Respells ('\r' :: s) ('\n' :: t)

/-- The source is the text with its line ends respelled, perhaps behind one byte order mark. -/
def Respelled (source text : String) : Prop :=
  ∃ body, Respells body text.toList ∧ (source.toList = body ∨ source.toList = '\uFEFF' :: body)

/-- Every line end becomes a line feed again. -/
theorem Respells.unifyBreaks_eq {s t : List Char} (h : Respells s t) (ht : '\r' ∉ t) : unifyBreaks s = t := by
  induction h with
  | nil => rfl
  | @char c s t hc h ih =>
    rw [List.mem_cons, not_or] at ht
    rw [unifyBreaks_cons (Ne.symm ht.1), ih ht.2]
  | lf h ih => rw [unifyBreaks_cons (by decide), ih (List.not_mem_of_not_mem_cons ht)]
  | crlf h ih => rw [unifyBreaks, ih (List.not_mem_of_not_mem_cons ht)]
  | cr h hnext ih => rw [unifyBreaks_return hnext, ih (List.not_mem_of_not_mem_cons ht)]

/-- There are no other texts of which the line ends become these line feeds. -/
theorem respells_unifyBreaks (s : List Char) : Respells s (unifyBreaks s) := by
  fun_induction unifyBreaks s with
  | case1 => exact .nil
  | case2 s ih => exact .crlf ih
  | case3 s hnext ih =>
    refine .cr ih fun hhead => ?_
    obtain ⟨rest, rfl⟩ := List.head?_eq_some_iff.mp hhead
    exact hnext rest rfl
  | case4 c s hpair hreturn ih =>
    by_cases hc : c = '\n'
    · rw [hc]
      exact .lf ih
    · exact .char hc ih

/-- A respelled text starts with a byte order mark only if the text does. -/
theorem Respells.head?_ne {s t : List Char} (h : Respells s t) (ht : t.head? ≠ some '\uFEFF') :
    s.head? ≠ some '\uFEFF' := by
  cases h with
  | nil => exact ht
  | char hc h => exact ht
  | _ => simp

/-- A mark was dropped or there was none. -/
theorem eq_or_eq_of_dropMark (cs : List Char) : cs = dropMark cs ∨ cs = '\uFEFF' :: dropMark cs := by
  by_cases h : cs.head? = some '\uFEFF'
  · obtain ⟨rest, rfl⟩ := List.head?_eq_some_iff.mp h
    exact .inr (by rw [dropMark_mark])
  · exact .inl (dropMark_of_head? h).symm

/-- **The sources with a given normal form are its spellings,** if it holds no carriage return and starts with no
byte order mark. -/
theorem normalize_eq_iff {source text : String} (hcr : '\r' ∉ text.toList)
    (hmark : text.toList.head? ≠ some '\uFEFF') : normalize source = text ↔ Respelled source text := by
  constructor
  · rintro rfl
    rw [normalize, normalChars_eq, Respelled, String.toList_ofList]
    exact ⟨_, respells_unifyBreaks _, eq_or_eq_of_dropMark source.toList⟩
  · rintro ⟨body, hbody, hsource⟩
    have hdrop : dropMark source.toList = body := by
      rcases hsource with hsource | hsource
      · rw [hsource, dropMark_of_head? (hbody.head?_ne hmark)]
      · rw [hsource, dropMark_mark]
    rw [normalize, normalChars_eq, hdrop, hbody.unifyBreaks_eq hcr, String.ofList_toList]

theorem normalize_of_not_mem {text : String} (hcr : '\r' ∉ text.toList)
    (hmark : text.toList.head? ≠ some '\uFEFF') : normalize text = text := by
  rw [normalize, normalChars_of_not_mem hcr hmark, String.ofList_toList]

end Text

/-! ## What is made of a source -/

section

variable {source source' : String} (h : Text.normalize source = Text.normalize source')
include h

theorem Lexed.ofSource_of_normalize : Lexed.ofSource source = Lexed.ofSource source' := by
  have hchars : Text.normalChars source = Text.normalChars source' := String.ofList_injective h
  rw [Lexed.ofSource, Lexed.lexemes, hchars, Lexed.ofSource, Lexed.lexemes]

theorem Diagnostic.attachSnippets_of_normalize (ds : List Diagnostic) :
    Diagnostic.attachSnippets ds source = Diagnostic.attachSnippets ds source' := by
  rw [Diagnostic.attachSnippets, Diagnostic.attachSnippets, h]

theorem Diagnostic.format_of_normalize (d : Diagnostic) (name : String) :
    d.format source name = d.format source' name := by
  rw [Diagnostic.format, Diagnostic.format, h]

theorem analyze_of_normalize (name : String) (suggest : Bool) :
    analyze source name suggest = analyze source' name suggest := by
  simp only [analyze, Lexed.ofSource_of_normalize h, Diagnostic.attachSnippets_of_normalize h]

/-- **A source is compiled by its normal form alone.** -/
theorem compile_of_normalize (name : String) (options : CompileOptions) :
    compile source name options = compile source' name options := by
  rw [compile, compile, analyze_of_normalize h]

end

/-- **How lines end does not matter, nor does a byte order mark.** Take a text without carriage returns that starts
with no byte order mark. Any source that spells its line feeds as line feeds, carriage returns or both, perhaps
behind one byte order mark, has the text as its normal form and compiles to the same result, with the same story,
reports, module and log, under every name and with all options; it is checked with the same reports; and every
report about it is shown in the same way. -/
theorem compile_respelled {source text : String} (hcr : '\r' ∉ text.toList)
    (hmark : text.toList.head? ≠ some '\uFEFF') (h : Text.Respelled source text) :
    Text.normalize source = text ∧
      (∀ name options, compile source name options = compile text name options) ∧
      (∀ name, check source name = check text name) ∧
      ∀ (d : Diagnostic) name, d.format source name = d.format text name := by
  have hsource : Text.normalize source = text := (Text.normalize_eq_iff hcr hmark).mpr h
  have hnormal : Text.normalize source = Text.normalize text :=
    hsource.trans (Text.normalize_of_not_mem hcr hmark).symm
  refine ⟨hsource, fun name options => compile_of_normalize hnormal name options, fun name => ?_,
    fun d name => Diagnostic.format_of_normalize hnormal d name⟩
  rw [check, check, analyze_of_normalize hnormal]

/-- All three line ends behind a byte order mark, the first two of them next to each other. -/
theorem compile_respelled_mixed :
    let text := ":: A\n\n-> B\n"
    let source := "\uFEFF:: A\r\r\n-> B\n"
    Text.Respelled source text ∧ Text.normalize source = text ∧
      ∀ name options, compile source name options = compile text name options := by
  intro text source
  have hspelled : Text.Respelled source text := by
    have htext : text.toList = [':', ':', ' ', 'A', '\n', '\n', '-', '>', ' ', 'B', '\n'] := by decide
    have hsource : source.toList = '\uFEFF' ::
        [':', ':', ' ', 'A', '\r', '\r', '\n', '-', '>', ' ', 'B', '\n'] := by decide
    rw [Text.Respelled, htext]
    refine ⟨_, ?_, .inr hsource⟩
    exact .char (by decide) <| .char (by decide) <| .char (by decide) <| .char (by decide) <|
      .cr (.crlf <| .char (by decide) <| .char (by decide) <| .char (by decide) <| .char (by decide) <|
        .lf .nil) (by decide)
  obtain ⟨hnormal, hcompile, -⟩ := compile_respelled (by decide) (by decide) hspelled
  exact ⟨hspelled, hnormal, hcompile⟩

end Gamebook
