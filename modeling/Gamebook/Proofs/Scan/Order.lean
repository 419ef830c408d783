/-
# Gamebook.Proofs.Scan.Order — which token may follow which

What an identifier looks like depends on the mode in which it was scanned, and the mode shows in the token
before it: a passage name follows a passage marker or an arrow, a tag an opening bracket or another tag, a
variable name a `$`. Likewise a text that follows a metadata key is the value of an entry. `Token.Follows`
says this of a token and the kind before it.

The scanner's side of it is `Ready`: what the mode says about the kind of the last token. Every step
keeps it (`step_admits`), so the tokens of every text follow one another (`isChain_tokens`), comments
apart, since a comment leaves no trace but a line of code.
-/
import Gamebook.Proofs.Scan.Shape
import Gamebook.Proofs.Spelling.Line
import Mathlib.Data.List.Chain

namespace Gamebook

open Gamebook.Lexeme
open Gamebook.Text (isBlank isSpace trimEnd)

/-- What a token looks like after a token of the given kind. -/
structure Token.Follows (before : TokenKind) (t : Token) : Prop where
  passage : t.kind = .identifier → before = .arrow ∨ before = .passageMarker →
    isPassageName t.raw.toList = true
  tag : t.kind = .identifier → before = .opening .square ∨ before = .identifier →
    isTag t.raw.toList = true
  name : t.kind = .identifier → before = .dollar → isName t.raw.toList = true
  value : t.kind = .text → before = .metaKey → isEntryValue t.content.toList = true

/-- A token that is neither an identifier nor a text may follow any other. -/
theorem Token.follows_of_ne {before : TokenKind} {t : Token} (hname : t.kind ≠ .identifier)
    (htext : t.kind ≠ .text) : t.Follows before :=
  ⟨fun h => absurd h hname, fun h => absurd h hname, fun h => absurd h hname, fun h => absurd h htext⟩

namespace Lexeme

/-! ## Names -/

/-- A beginning that is not empty starts like the whole. -/
theorem head?_of_isPrefix {xs ys : List Char} {d : Char} (h : xs <+: ys) (hd : xs.head? = some d) :
    ys.head? = some d := by
  obtain ⟨rest, rfl⟩ := h
  rw [List.head?_append, hd]
  rfl

/-- What a run of a name leaves out. -/
theorem nameRun_spec (cs : List Char) :
    (∀ c ∈ nameRun cs, c ≠ '\n' ∧ c ≠ '[' ∧ c ≠ '{') ∧
      ¬ ['/', '/'] <:+: nameRun cs ∧ ¬ ['/', '*'] <:+: nameRun cs := by
  induction cs with
  | nil => simp [nameRun]
  | cons c cs ih =>
    rw [nameRun]
    split
    · simp
    · next hchar =>
      split
      · simp
      · next hcomment =>
        simp only [Bool.or_eq_true, decide_eq_true_eq, not_or] at hchar
        simp only [Bool.and_eq_true, Bool.or_eq_true, decide_eq_true_eq, not_and, not_or] at hcomment
        have hpair : ∀ d, (c = '/' → cs.head? ≠ some d) → ¬ ['/', d] <:+: nameRun cs →
            ¬ ['/', d] <:+: c :: nameRun cs := by
          intro d hd hinside hin
          rcases List.infix_cons_iff.mp hin with hstart | hlater
          · -- The run goes on with the characters that were looked at.
            obtain ⟨hc, hrest⟩ := List.cons_prefix_cons.mp hstart
            exact hd hc.symm (head?_of_isPrefix (hrest.trans (nameRun_isPrefix cs)) rfl)
          · exact hinside hlater
        refine ⟨?_, hpair '/' (fun hc => (hcomment hc).1) ih.2.1,
          hpair '*' (fun hc => (hcomment hc).2) ih.2.2⟩
        intro d hd
        rcases List.mem_cons.mp hd with rfl | hd
        · exact ⟨hchar.1.1, hchar.1.2, hchar.2⟩
        · exact ih.1 d hd

/-- A name that is due is a passage name. -/
theorem isPassageName_passageName {c : Char} {cs : List Char} (hblank : isBlank c = false)
    (hcr : '\r' ∉ c :: cs) (hne : passageName (c :: cs) ≠ []) :
    isPassageName (passageName (c :: cs)) = true := by
  obtain ⟨hall, hline, hblock⟩ := nameRun_spec (c :: cs)
  have hrun : passageName (c :: cs) <+: nameRun (c :: cs) := Text.dropEndWhile_isPrefix _ _
  have htext : passageName (c :: cs) <+: c :: cs := passageName_isPrefix _
  have hlast : ∀ d ∈ (passageName (c :: cs)).getLast?, isBlank d = false := Text.getLast?_dropEndWhile
  have hhead : ∀ d ∈ (passageName (c :: cs)).head?, isBlank d = false := by
    intro d hd
    cases head?_of_isPrefix htext hd
    exact hblank
  refine isPassageName_iff.mpr ⟨hne, ?_, ?_, ?_, hhead, hlast⟩
  · intro d hd
    obtain ⟨hbreak, hsquare, hbrace⟩ := hall d (hrun.subset hd)
    refine ⟨hbreak, ?_, hsquare, hbrace⟩
    rintro rfl
    exact hcr (htext.subset hd)
  · exact fun h => hline (h.trans hrun.isInfix)
  · exact fun h => hblock (h.trans hrun.isInfix)

/-- A word of name characters is a tag and a passage name. -/
theorem isTag_of_isName {cs : List Char} (h : isName cs = true) :
    isTag cs = true ∧ isPassageName cs = true := by
  simp only [isName, Bool.and_eq_true, List.all_eq_true] at h
  obtain ⟨⟨hhead, hall⟩, -⟩ := h
  have hne : cs ≠ [] := by
    rintro rfl
    cases hhead
  have hother : ∀ c ∈ cs, ∀ d, isNameChar d = false → c ≠ d :=
    fun c hc d hd => ne_of_class (hall c hc) hd
  have hblank : ∀ c ∈ cs, isBlank c = false := by
    intro c hc
    simp [isBlank, hother c hc ' ' (by decide), hother c hc '\t' (by decide)]
  -- No comment can start, since a slash is no name character.
  have hpair : ∀ d, ¬ ['/', d] <:+: cs := by
    intro d hin
    exact hother '/' (hin.subset List.mem_cons_self) '/' (by decide) rfl
  refine ⟨isTag_iff.mpr ⟨hne, fun c hc => ?_⟩,
    isPassageName_iff.mpr ⟨hne, fun c hc => ?_, hpair '/', hpair '*', ?_, ?_⟩⟩
  · exact ⟨hblank c hc, hother c hc ']' (by decide), hother c hc '\n' (by decide),
      hother c hc '\r' (by decide)⟩
  · exact ⟨hother c hc '\n' (by decide), hother c hc '\r' (by decide), hother c hc '[' (by decide),
      hother c hc '{' (by decide)⟩
  · exact fun c hc => hblank c (List.mem_of_mem_head? hc)
  · exact fun c hc => hblank c (List.mem_of_getLast? hc)

/-! ## Steps -/

/-- What a mode says about the kind of the last token. Only the end of its line can follow a key at the
start of a line. -/
def Ready (last : TokenKind) (ahead : List Char) : Mode → Prop
  | .lineStart => last = .metaKey → ∀ c ∈ ahead.head?, c = '\n'
  | .metaValue => True
  | .code _ | .display => last ≠ .metaKey
  | .name _ => last = .arrow ∨ last = .passageMarker
  | .tags => last = .opening .square ∨ last = .identifier

/-- A lexeme may follow a token of kind `last` and leaves the scanner ready. -/
def Admits (last : TokenKind) (l : Lexeme) (next : Mode) (ahead : List Char) : Prop :=
  match l.sort with
  | .gap => Ready last ahead next
  | .token kind value =>
    if kind.isTrivia then Ready last ahead next
    else Token.Follows last ⟨kind, value, .unplaced, String.ofList l.raw⟩ ∧ Ready kind ahead next
  | .fault fault => Ready (.invalid fault.message) ahead next

section

variable {last : TokenKind} {ahead : List Char} {next : Mode}

/-- Tokens that are neither comments nor identifiers nor texts. -/
theorem admits_plain {kind : TokenKind} {raw : List Char} (hkind : kind.isTrivia = false)
    (hname : kind ≠ .identifier) (htext : kind ≠ .text) (hready : Ready kind ahead next) :
    Admits last (plain kind raw) next ahead := by
  simp only [Admits, plain, hkind, Bool.false_eq_true, if_false]
  exact ⟨Token.follows_of_ne hname htext, hready⟩

theorem admits_withText {text raw : List Char} (hvalue : last = .metaKey → isEntryValue text = true)
    (hready : Ready .text ahead next) : Admits last (withText .text text raw) next ahead := by
  refine ⟨⟨TokenKind.noConfusion, TokenKind.noConfusion, TokenKind.noConfusion, fun _ h => ?_⟩, hready⟩
  show isEntryValue (String.ofList text).toList = true
  rw [String.toList_ofList]
  exact hvalue h

theorem admits_identifier {raw : List Char}
    (hpassage : last = .arrow ∨ last = .passageMarker → isPassageName raw = true)
    (htag : last = .opening .square ∨ last = .identifier → isTag raw = true)
    (hname : last = .dollar → isName raw = true) (hready : Ready .identifier ahead next) :
    Admits last (plain .identifier raw) next ahead := by
  have hraw : (String.ofList raw).toList = raw := String.toList_ofList
  refine ⟨⟨fun _ h => ?_, fun _ h => ?_, fun _ h => ?_, TokenKind.noConfusion⟩, hready⟩
  · show isPassageName (String.ofList raw).toList = true
    rw [hraw]
    exact hpassage h
  · show isTag (String.ofList raw).toList = true
    rw [hraw]
    exact htag h
  · show isName (String.ofList raw).toList = true
    rw [hraw]
    exact hname h

theorem isName_takeWhile {c : Char} {cs : List Char} (h : isNameStart c = true)
    (hkeyword : keyword? ((c :: cs).takeWhile isNameChar) = none) :
    isName ((c :: cs).takeWhile isNameChar) = true := by
  have hc : isNameChar c = true := by rw [isNameChar, h, Bool.true_or]
  simp only [isName, Bool.and_eq_true, List.all_eq_true, Option.isNone_iff_eq_none]
  refine ⟨⟨?_, fun d hd => List.all_eq_true.mp List.all_takeWhile d hd⟩, hkeyword⟩
  rw [List.takeWhile_cons_of_pos hc]
  exact h

/-- A word that is neither an identifier nor a text nor a key may stand wherever a line of code goes on;
so may a comment. -/
theorem admits_word {kind : TokenKind} {value : Option Literal} {raw : List Char} {s : CodeState}
    (hlast : last ≠ .metaKey) (hname : kind ≠ .identifier) (htext : kind ≠ .text) (hkey : kind ≠ .metaKey) :
    Admits last ⟨.token kind value, raw⟩ (.code s) ahead := by
  simp only [Admits]
  split
  · exact hlast
  · exact ⟨Token.follows_of_ne hname htext, hkey⟩

theorem admits_faulty {fault : LexicalFault} {raw : List Char} {s : CodeState} :
    Admits last (faulty fault raw) (.code s) ahead := TokenKind.noConfusion

theorem admits_nameWord {c : Char} {cs : List Char} {s : CodeState} (hlast : last ≠ .metaKey)
    (h : isNameStart c = true) : Admits last (nameWord (c :: cs)) (.code s) ahead := by
  refine nameWord_cases (P := fun l => Admits last l (.code s) ahead) _ (fun b raw => ?_)
    (fun kind raw hkind => ?_) (fun hnone => ?_)
  · exact admits_word hlast TokenKind.noConfusion TokenKind.noConfusion TokenKind.noConfusion
  · rcases hkind with rfl | rfl | rfl <;>
      exact admits_word hlast TokenKind.noConfusion TokenKind.noConfusion TokenKind.noConfusion
  · have hword := isName_takeWhile h hnone
    exact admits_identifier (fun _ => (isTag_of_isName hword).2) (fun _ => (isTag_of_isName hword).1)
      (fun _ => hword) TokenKind.noConfusion

theorem admits_numberWord {cs : List Char} {s : CodeState} (hlast : last ≠ .metaKey) :
    Admits last (numberWord cs) (.code s) ahead := by
  refine numberWord_cases (P := fun l => Admits last l (.code s) ahead) cs (fun n raw _ => ?_)
    (fun f raw => ?_) (fun text raw => admits_faulty)
  · exact admits_word hlast TokenKind.noConfusion TokenKind.noConfusion TokenKind.noConfusion
  · exact admits_word hlast TokenKind.noConfusion TokenKind.noConfusion TokenKind.noConfusion

theorem admits_symbolStep {s : CodeState} {c : Char} {cs : List Char} (hlast : last ≠ .metaKey) :
    Admits last (symbolStep s c cs).1 (symbolStep s c cs).2 ahead := by
  have hkinds : ∀ t ∈ symbols, t.2 ≠ .identifier ∧ t.2 ≠ .text ∧ t.2 ≠ .metaKey := by
    decide
  rw [symbolStep]
  split
  · next spelling kind h =>
    obtain ⟨hname, htext, hkey⟩ := hkinds _ (List.mem_of_find?_eq_some h)
    exact admits_word hlast hname htext hkey
  · exact admits_withText (absurd · hlast) TokenKind.noConfusion

/-- Inside a line of code every step leaves the scanner ready. -/
theorem codeStep_admits (s : CodeState) (c : Char) (cs : List Char) (hlast : last ≠ .metaKey) :
    Admits last (codeStep s c cs).1 (codeStep s c cs).2 ahead := by
  apply codeStep_cases (P := fun r => Admits last r.1 r.2 ahead)
  case blank => exact fun _ => hlast
  case folded => exact fun _ _ _ => hlast
  case ended =>
    refine fun _ _ => admits_plain rfl TokenKind.noConfusion TokenKind.noConfusion ?_
    exact fun h => TokenKind.noConfusion h
  case lineComment => exact fun _ _ => hlast
  case comment =>
    intro _ _
    rw [blockComment]
    split
    · exact hlast
    · exact admits_faulty
  case script =>
    intro _ _
    rw [scriptBlock]
    split
    · exact admits_word hlast TokenKind.noConfusion TokenKind.noConfusion TokenKind.noConfusion
    · exact admits_faulty
  case arrow =>
    exact fun _ _ => admits_plain rfl TokenKind.noConfusion TokenKind.noConfusion (.inl rfl)
  case string =>
    intro _
    rw [stringWord]
    split
    · exact admits_word hlast TokenKind.noConfusion TokenKind.noConfusion TokenKind.noConfusion
    · exact admits_faulty
  case number => exact fun _ => admits_numberWord hlast
  case name => exact fun h => admits_nameWord hlast h
  case display =>
    exact fun _ _ _ => admits_plain rfl TokenKind.noConfusion TokenKind.noConfusion TokenKind.noConfusion
  case tags =>
    exact fun _ _ _ => admits_plain rfl TokenKind.noConfusion TokenKind.noConfusion (.inl rfl)
  case symbol => exact fun _ _ _ => admits_symbolStep hlast

/-- At the start of a line every step leaves the scanner ready. -/
theorem lineStep_admits {c : Char} {cs : List Char} (h : last = .metaKey → c = '\n') :
    Admits last (lineStep c cs).1 (lineStep c cs).2 ahead := by
  have hlast : c ≠ '\n' → last ≠ .metaKey := fun hc hkey => hc (h hkey)
  have hready : ∀ {kind : TokenKind}, kind ≠ .metaKey → Ready kind ahead .lineStart :=
    fun hkind hkey => absurd hkey hkind
  apply lineStep_cases (P := fun r => Admits last r.1 r.2 ahead)
  case blank =>
    intro hblank
    refine hready (hlast ?_)
    rintro rfl
    cases hblank
  case ended =>
    intro _
    exact admits_plain rfl TokenKind.noConfusion TokenKind.noConfusion (hready TokenKind.noConfusion)
  case passage =>
    exact fun _ _ => admits_plain rfl TokenKind.noConfusion TokenKind.noConfusion (.inr rfl)
  case choice =>
    exact fun _ => admits_plain rfl TokenKind.noConfusion TokenKind.noConfusion TokenKind.noConfusion
  case code => exact fun hc => codeStep_admits _ c cs (hlast hc)
  case key => exact fun _ => ⟨Token.follows_of_ne TokenKind.noConfusion TokenKind.noConfusion, trivial⟩
  case quoted =>
    rintro rfl
    exact admits_withText (absurd · (hlast (by decide))) (hready TokenKind.noConfusion)
  case prose => exact fun _ hc => admits_withText (absurd · (hlast hc)) (hready TokenKind.noConfusion)

end

/-- The value of a key is trimmed and starts where the blanks end. -/
theorem isEntryValue_trimEnd {c : Char} {cs : List Char} (hblank : isBlank c = false) (hbreak : c ≠ '\n')
    (hcr : '\r' ∉ c :: cs) : isEntryValue (trimEnd (restOfLine c cs)) = true := by
  have hline : trimEnd (restOfLine c cs) <+: restOfLine c cs := Text.dropEndWhile_isPrefix _ _
  have htext : restOfLine c cs <+: c :: cs := takeWhile_cons_isPrefix _ c cs
  have hlast : ∀ d ∈ (trimEnd (restOfLine c cs)).getLast?, isSpace d = false := Text.getLast?_dropEndWhile
  have hhead : ∀ d ∈ (trimEnd (restOfLine c cs)).head?, isBlank d = false := by
    intro d hd
    cases head?_of_isPrefix hline hd
    exact hblank
  refine isEntryValue_iff.mpr ⟨fun d hd => ⟨?_, ?_⟩, hhead, hlast⟩
  · rintro rfl
    exact break_not_mem_restOfLine hbreak cs (hline.subset hd)
  · rintro rfl
    exact hcr (htext.subset (hline.subset hd))

/-- A word between the square brackets of a passage line is a tag. -/
theorem isTag_takeWhile {c : Char} {cs : List Char} (hblank : isBlank c = false) (hsquare : c ≠ ']')
    (hbreak : c ≠ '\n') (hcr : '\r' ∉ c :: cs) :
    isTag (c :: cs.takeWhile fun d => !isBlank d && d ≠ ']' && isInline d) = true := by
  rw [List.mem_cons, not_or] at hcr
  refine isTag_iff.mpr ⟨List.cons_ne_nil _ _, List.forall_mem_cons.mpr ⟨?_, fun d hd => ?_⟩⟩
  · exact ⟨hblank, hsquare, hbreak, Ne.symm hcr.1⟩
  · have hword := List.all_eq_true.mp List.all_takeWhile d hd
    simp only [Bool.and_eq_true, Bool.not_eq_true', decide_eq_true_eq, isInline] at hword
    refine ⟨hword.1.1, hword.1.2, hword.2, ?_⟩
    rintro rfl
    exact hcr.2 ((List.takeWhile_sublist _).subset hd)

/-- The rest of a line is followed by its end. -/
theorem head?_drop_restOfLine {c d : Char} {cs : List Char}
    (h : (cs.drop ((restOfLine c cs).length - 1)).head? = some d) : d = '\n' := by
  have hlength : (restOfLine c cs).length - 1 = (cs.takeWhile isInline).length := by
    rw [restOfLine, List.length_cons, Nat.add_sub_cancel]
  rw [hlength, drop_length_takeWhile] at h
  have hnot := List.head?_dropWhile_not isInline cs
  rw [h] at hnot
  simpa [isInline] using hnot

/-- **Every step leaves the scanner ready.** -/
theorem step_admits {last : TokenKind} {mode : Mode} {c : Char} {cs : List Char} (hcr : '\r' ∉ c :: cs)
    (h : Ready last (c :: cs) mode) :
    Admits last (step mode c cs).1 (step mode c cs).2
      (cs.drop ((step mode c cs).1.raw.length - 1)) := by
  cases mode with
  | lineStart => exact lineStep_admits fun hkey => h hkey c rfl
  | code s => exact codeStep_admits s c cs h
  | metaValue =>
    apply metaStep_cases (P := fun r => Admits last r.1 r.2 (cs.drop (r.1.raw.length - 1)))
    case blank => intro _; trivial
    case ended =>
      intro _
      exact admits_plain rfl TokenKind.noConfusion TokenKind.noConfusion fun h => TokenKind.noConfusion h
    case nothing =>
      -- A line of white space is no value; nothing but its end lies ahead.
      intro _ _ _ _ d hd
      exact head?_drop_restOfLine hd
    case value =>
      intro hblank hbreak
      exact admits_withText (fun _ => isEntryValue_trimEnd hblank hbreak hcr)
        fun h => TokenKind.noConfusion h
  | name s =>
    have hlast : last ≠ .metaKey := by
      rintro rfl
      rcases h with h | h <;> cases h
    apply nameStep_cases (P := fun r => Admits last r.1 r.2 (cs.drop (r.1.raw.length - 1)))
    case blank => intro _; exact h
    case code => intro _; exact codeStep_admits s c cs hlast
    case name =>
      intro hblank hne
      refine admits_identifier (fun _ => isPassageName_passageName hblank hcr hne) (fun hbefore => ?_)
        (fun hbefore => ?_) TokenKind.noConfusion
      -- No tag and no variable is due after an arrow or a passage marker.
      · rcases h with rfl | rfl <;> rcases hbefore with h | h <;> cases h
      · rcases h with rfl | rfl <;> cases hbefore
  | display =>
    apply displayStep_cases (P := fun r => Admits last r.1 r.2 (cs.drop (r.1.raw.length - 1)))
    case closed =>
      intro _
      exact admits_plain rfl TokenKind.noConfusion TokenKind.noConfusion TokenKind.noConfusion
    case code => exact fun _ => codeStep_admits _ c cs h
    case nothing => intro _ _; exact h
    case text => intro _; exact admits_withText (absurd · h) TokenKind.noConfusion
  | tags =>
    have hlast : last ≠ .metaKey := by
      rintro rfl
      rcases h with h | h <;> cases h
    apply tagStep_cases (P := fun r => Admits last r.1 r.2 (cs.drop (r.1.raw.length - 1)))
    case blank => intro _; exact h
    case code => exact codeStep_admits _ c cs hlast
    case closed =>
      intro _
      exact admits_plain rfl TokenKind.noConfusion TokenKind.noConfusion TokenKind.noConfusion
    case tag =>
      intro hblank hbreak hsquare
      refine admits_identifier (fun hbefore => ?_) (fun _ => isTag_takeWhile hblank hsquare hbreak hcr)
        (fun hbefore => ?_) (.inr rfl)
      · rcases h with rfl | rfl <;> rcases hbefore with h | h <;> cases h
      · rcases h with rfl | rfl <;> cases hbefore

end Lexeme

/-! ## Texts -/

/-- A token of a text without carriage returns, carrying what its kind says. -/
structure Token.Sound (t : Token) : Prop where
  raw : '\r' ∉ t.raw.toList
  carries : t.kind.isInvalid = false → t.kind ≠ .endOfInput → Carries t.raw.toList t.kind t.value

/-- What a token of a known kind carries. -/
theorem Token.Sound.carries_of_kind {t : Token} (h : t.Sound) {kind : TokenKind} (hkind : t.kind = kind)
    (hvalid : kind.isInvalid = false) (hend : kind ≠ .endOfInput) : Carries t.raw.toList kind t.value := by
  subst hkind
  exact h.carries hvalid hend

/-- Tokens that carry what their kinds say and follow one another. -/
structure Token.Orderly (ts : List Token) : Prop where
  sound : ∀ t ∈ ts, t.Sound
  chain : ts.IsChain fun t u => u.Follows t.kind

namespace Token.Orderly

theorem of_infix {ts us : List Token} (h : Token.Orderly us) (hin : ts <:+: us) : Token.Orderly ts :=
  ⟨fun t ht => h.sound t (hin.subset ht), List.IsChain.infix h.chain hin⟩

theorem of_suffix {ts us : List Token} (h : Token.Orderly us) (hin : ts <:+ us) : Token.Orderly ts :=
  h.of_infix hin.isInfix

theorem tail {t : Token} {ts : List Token} (h : Token.Orderly (t :: ts)) : Token.Orderly ts :=
  h.of_suffix (List.suffix_cons t ts)

theorem head {t : Token} {ts : List Token} (h : Token.Orderly (t :: ts)) : t.Sound :=
  h.sound t List.mem_cons_self

/-- The second token follows the first. -/
theorem follows {t u : Token} {ts : List Token} (h : Token.Orderly (t :: u :: ts)) :
    u.Follows t.kind :=
  (List.isChain_cons_cons.mp h.chain).1

end Token.Orderly

namespace Lexeme

theorem sound_tokens {ls : List Lexeme} (h : ∀ l ∈ ls, l.Sound ∧ '\r' ∉ l.raw) (pos : Position) :
    ∀ t ∈ tokens pos ls, t.Sound := by
  induction ls generalizing pos with
  | nil =>
    intro t ht
    rw [List.mem_singleton.mp ht]
    exact ⟨show '\r' ∉ "".toList by decide, fun _ hend => absurd rfl hend⟩
  | cons l ls ih =>
    rw [List.forall_mem_cons] at h
    obtain ⟨⟨hsound, hcr⟩, hrest⟩ := h
    intro t ht
    rw [tokens, List.mem_append] at ht
    rcases ht with ht | ht
    · have hraw : (String.ofList l.raw).toList = l.raw := String.toList_ofList
      obtain ⟨sort, raw⟩ := l
      cases sort with
      | gap => cases ht
      | token kind value =>
        rw [List.mem_singleton.mp ht]
        refine ⟨by rw [hraw]; exact hcr, fun _ _ => ?_⟩
        rw [hraw]
        exact hsound
      | fault fault =>
        rw [List.mem_singleton.mp ht]
        refine ⟨by rw [hraw]; exact hcr, fun hvalid => ?_⟩
        cases hvalid
    · exact ih hrest _ t ht

/-- **The tokens of a text follow one another,** comments apart. -/
theorem isChain_tokens {mode : Mode} {cs : List Char} (hcr : '\r' ∉ cs) (pos : Position) {before : Token}
    (h : Ready before.kind cs mode) :
    (before :: (tokens pos (scan mode cs)).filter fun t => !t.kind.isTrivia).IsChain
      fun t u => u.Follows t.kind := by
  induction mode, cs using scan_induction generalizing pos before with
  | nil mode =>
    rw [scan_nil]
    refine List.isChain_cons_cons.mpr ⟨?_, List.isChain_singleton _⟩
    exact Token.follows_of_ne TokenKind.noConfusion TokenKind.noConfusion
  | cons mode c cs ih =>
    have hadmits := step_admits hcr h
    have hrest : '\r' ∉ cs.drop ((step mode c cs).1.raw.length - 1) :=
      fun hmem => hcr (List.mem_cons_of_mem _ ((List.drop_subset _ cs) hmem))
    rw [scan_cons, tokens, List.filter_append]
    -- What matters of the step is what its lexeme is: only a token that is no comment is compared with the
    -- token before it, and takes its place.
    revert ih hadmits
    generalize step mode c cs = r at hrest ⊢
    obtain ⟨⟨sort, raw⟩, next⟩ := r
    intro ih hadmits
    cases sort with
    | gap => exact ih hrest _ hadmits
    | token kind value =>
      cases hkind : kind.isTrivia with
      | true =>
        simp only [Admits, hkind, if_true] at hadmits
        simp only [token?, Option.toList_some, List.filter_cons, hkind, Bool.not_true,
          Bool.false_eq_true, if_false, List.filter_nil, List.nil_append]
        exact ih hrest _ hadmits
      | false =>
        simp only [Admits, hkind, Bool.false_eq_true, if_false] at hadmits
        obtain ⟨hfollows, hready⟩ := hadmits
        simp only [token?, Option.toList_some, List.filter_cons, hkind, Bool.not_false, if_true,
          List.filter_nil, List.singleton_append]
        refine List.isChain_cons_cons.mpr ⟨?_, ih hrest _ hready⟩
        exact ⟨hfollows.passage, hfollows.tag, hfollows.name, hfollows.value⟩
    | fault fault =>
      refine List.isChain_cons_cons.mpr ⟨?_, ih hrest _ hadmits⟩
      exact Token.follows_of_ne TokenKind.noConfusion TokenKind.noConfusion

end Lexeme

theorem Text.not_mem_normalChars (source : String) : '\r' ∉ normalChars source := by
  rw [normalChars_eq]
  generalize dropMark source.toList = cs
  fun_induction unifyBreaks cs with
  | case1 => simp
  | case2 cs ih => simpa using ih
  | case3 cs h ih => simpa using ih
  | case4 c cs h1 h2 ih =>
    rw [List.mem_cons, not_or]
    exact ⟨fun heq => h2 heq.symm, ih⟩

/-- **The tokens of every source are orderly,** comments apart. -/
theorem Lexed.orderly_tokens (source : String) :
    Token.Orderly ((Lexed.ofSource source).tokens.filter fun t => !t.kind.isTrivia) := by
  have hcr := Text.not_mem_normalChars source
  constructor
  · intro t ht
    refine Lexeme.sound_tokens (fun l hl => ⟨Lexeme.scan_sound _ _ l hl, fun hmem => ?_⟩) .start t
      (List.mem_filter.mp ht).1
    have hall := Lexeme.flatMap_raw_scan .lineStart (Text.normalChars source)
    exact hcr (hall ▸ List.mem_flatMap.mpr ⟨l, hl, hmem⟩)
  · have hready : Ready Token.lineBreak.kind (Text.normalChars source) .lineStart :=
      fun h => TokenKind.noConfusion h
    exact (Lexeme.isChain_tokens hcr .start hready).tail

end Gamebook
