/-
# Gamebook.Proofs.Scan.Shape — what tokens carry

The kind of a token decides what value it carries: prose and names of keys a text of their own line,
numbers an integer in range or a decimal, and most kinds nothing. `Lexeme.Sound` says this of a lexeme
and `scan_sound` of every lexeme of every text. The readers of statements rely on it when they take the
value of a token for granted.
-/
import Gamebook.Proofs.Scan

namespace Gamebook.Lexeme

open Gamebook.Text (isBlank trimEnd trim trimEnd_subset trim_subset)

/-- What a token of a kind carries, when it covers `raw`. The end of input is no lexeme, and invalid
tokens come from faults alone. -/
def Carries (raw : List Char) : TokenKind → Option Literal → Prop
  | .text, v => ∃ s : String, v = some (.str s) ∧ '\n' ∉ raw ∧ s.toList ⊆ raw
  | .string, v => ∃ s : String, v = some (.str s) ∧ ∀ c ∈ s.toList, c ∈ raw ∨ c = '\n' ∨ c = '\t'
  | .number, v =>
    (∃ n : Nat, n ≤ maxInteger ∧ v = some (.int (Int64.ofNat n))) ∨ ∃ f, v = some (.float f)
  | .boolean b, v => v = some (.bool b)
  | .metaKey, v =>
    ∃ key : List Char, v = some (.str (String.ofList key)) ∧ ∀ c ∈ key, isKeyChar c = true
  | .script, v =>
    ∃ code : List Char, v = some (.str (String.ofList code)) ∧ code ⊆ raw ∧
      ¬ ['>', '>'] <:+: code ++ ['>']
  | .invalid _, _ => False
  | .endOfInput, _ => False
  | _, v => v = none

/-- A token carries what its kind says. -/
def Sound (l : Lexeme) : Prop :=
  match l.sort with
  | .token kind value => Carries l.raw kind value
  | _ => True

/-! ## Words -/

theorem blockComment_sound (cs : List Char) : (blockComment cs).Sound := by
  rw [blockComment]
  split
  · exact rfl
  · trivial

theorem scriptBlock_sound (cs : List Char) : (scriptBlock cs).Sound := by
  rw [scriptBlock]
  split
  · next inside rest h =>
    -- The script ends at the first pair, so it holds none, not even with the first closing angle.
    obtain ⟨-, -, hno⟩ := splitAtPair_eq_some h
    refine ⟨inside, rfl, ?_, hno⟩
    intro c hc
    simp [withText, hc]
  · trivial

theorem mem_unescape {c d : Char} (h : d ∈ unescape c) : d = '\\' ∨ d = c ∨ d = '\n' ∨ d = '\t' := by
  unfold unescape at h
  split at h
  · simp_all
  split at h
  · simp_all
  split at h
  · simp_all
  split at h
  · simp_all
  · simp_all only [List.mem_cons, List.not_mem_nil, or_false]
    rcases h with h | h
    · exact Or.inl h
    · exact Or.inr (Or.inl h)

theorem mem_stringBody {cs value : List Char} (h : (stringBody cs).2 = some value) :
    ∀ c ∈ value, c ∈ (stringBody cs).1 ∨ c = '\n' ∨ c = '\t' := by
  fun_induction stringBody cs generalizing value with
  | case1 => cases h
  | case2 => cases h
  | case3 =>
    cases h
    intro c hc
    cases hc
  | case4 cs => cases h
  | case5 c cs hc raw value' hbody ih =>
    rw [hbody] at ih
    simp only [Option.map_eq_some_iff] at h
    obtain ⟨v, rfl, rfl⟩ := h
    intro d hd
    simp only [List.mem_cons]
    rcases List.mem_append.mp hd with hd | hd
    · rcases mem_unescape hd with h | h | h | h
      · exact Or.inl (Or.inl h)
      · exact Or.inl (Or.inr (Or.inl h))
      · exact Or.inr (Or.inl h)
      · exact Or.inr (Or.inr h)
    · rcases ih rfl d hd with h | h
      · exact Or.inl (Or.inr (Or.inr h))
      · exact Or.inr h
  | case6 c cs h1 h2 h3 raw value' hbody ih =>
    rw [hbody] at ih
    simp only [Option.map_eq_some_iff] at h
    obtain ⟨v, rfl, rfl⟩ := h
    intro d hd
    simp only [List.mem_cons] at hd ⊢
    rcases hd with rfl | hd
    · exact Or.inl (Or.inl rfl)
    · rcases ih rfl d hd with h | h
      · exact Or.inl (Or.inr h)
      · exact Or.inr h

theorem stringWord_sound (cs : List Char) : (stringWord cs).Sound := by
  rw [stringWord]
  split
  · next raw value hbody =>
    have hvalue : (stringBody cs).2 = some value := by rw [hbody]
    have hmem := mem_stringBody hvalue
    rw [hbody] at hmem
    refine ⟨_, rfl, ?_⟩
    intro c hc
    rw [String.toList_ofList] at hc
    rcases hmem c hc with h | h
    · exact Or.inl (List.mem_cons_of_mem _ h)
    · exact Or.inr h
  · trivial

theorem numberWord_sound (cs : List Char) : (numberWord cs).Sound :=
  numberWord_cases (P := Sound) cs (fun _ _ h => Or.inl ⟨_, h, rfl⟩) (fun _ _ => Or.inr ⟨_, rfl⟩) fun _ _ => trivial

theorem nameWord_sound (cs : List Char) : (nameWord cs).Sound := by
  refine nameWord_cases (P := Sound) cs (fun _ _ => rfl) (fun kind raw hkind => ?_) (fun _ => rfl)
  rcases hkind with rfl | rfl | rfl <;> exact rfl

theorem mem_displayText (cs : List Char) : ∀ c ∈ (displayText cs).2, c ∈ (displayText cs).1 := by
  fun_induction displayText cs with
  | case1 => intro c hc; exact hc
  | case2 c cs hc raw text hrest ih =>
    rw [hrest] at ih
    intro d hd
    rcases List.mem_cons.mp hd with rfl | hd
    · simp
    · simp [ih d hd]
  | case3 c cs hc raw text hrest ih =>
    rw [hrest] at ih
    intro d hd
    rcases List.mem_cons.mp hd with rfl | hd
    · simp
    · simp [ih d hd]
  | case4 c cs h hc => intro d hd; exact hd
  | case5 c cs h hc raw text hrest ih =>
    rw [hrest] at ih
    intro d hd
    rcases List.mem_cons.mp hd with rfl | hd
    · simp
    · simp [ih d hd]

theorem break_not_mem_displayText (cs : List Char) : '\n' ∉ (displayText cs).1 := by
  fun_induction displayText cs with
  | case1 => simp
  | case2 c cs hc raw text hrest ih =>
    rw [hrest] at ih
    have hne : c ≠ '\n' := by
      rintro rfl
      exact absurd hc (by decide)
    simp [ih, hne.symm]
  | case3 c cs hc raw text hrest ih =>
    rw [hrest] at ih
    simp [ih]
  | case4 c cs h hc => simp
  | case5 c cs h hc raw text hrest ih =>
    rw [hrest] at ih
    simp only [Bool.or_eq_true, decide_eq_true_eq, not_or] at hc
    simp [ih, Ne.symm hc.1]

/-! ## Steps -/

theorem break_not_mem_takeWhile {p : Char → Bool} (hp : p '\n' = false) (cs : List Char) :
    '\n' ∉ cs.takeWhile p := by
  intro h
  have := List.all_eq_true.mp (List.all_takeWhile (l := cs) (p := p)) _ h
  rw [hp] at this
  cases this

theorem break_not_mem_restOfLine {c : Char} (hc : c ≠ '\n') (cs : List Char) :
    '\n' ∉ restOfLine c cs := by
  rw [restOfLine, List.mem_cons, not_or]
  exact ⟨hc.symm, break_not_mem_takeWhile (by decide) cs⟩

/-- A text token carries characters that it covers. -/
theorem sound_withText {text raw : List Char} (hbreak : '\n' ∉ raw) (hsub : text ⊆ raw) :
    (withText .text text raw).Sound := by
  refine ⟨_, rfl, hbreak, ?_⟩
  rw [String.toList_ofList]
  exact hsub

theorem symbolStep_sound (s : CodeState) {c : Char} (cs : List Char) (hc : c ≠ '\n') :
    (symbolStep s c cs).1.Sound := by
  have hkind : ∀ t ∈ symbols, Carries t.1 t.2 none := by
    simp [symbols, Carries]
  rw [symbolStep]
  split
  · next spelling kind h => exact hkind _ (List.mem_of_find?_eq_some h)
  · refine sound_withText ?_ (List.Subset.refl _)
    rw [List.mem_cons, not_or]
    exact ⟨hc.symm, break_not_mem_takeWhile (by decide) cs⟩

theorem codeStep_sound (s : CodeState) (c : Char) (cs : List Char) : (codeStep s c cs).1.Sound := by
  apply codeStep_cases (P := fun r => r.1.Sound)
  case comment => exact fun _ _ => blockComment_sound _
  case script => exact fun _ _ => scriptBlock_sound _
  case string => exact fun _ => stringWord_sound _
  case number => exact fun _ => numberWord_sound _
  case name => exact fun _ => nameWord_sound _
  case symbol => exact fun _ hc _ => symbolStep_sound s cs hc
  case blank => intro _; trivial
  case folded => intro _ _ _; trivial
  all_goals
    intros
    exact rfl

theorem lineStep_sound (c : Char) (cs : List Char) : (lineStep c cs).1.Sound := by
  apply lineStep_cases (P := fun r => r.1.Sound)
  case blank => intro _; trivial
  case code => exact fun _ => codeStep_sound _ c cs
  case key =>
    refine fun _ => ⟨_, rfl, ?_⟩
    intro d hd
    exact List.all_eq_true.mp List.all_takeWhile d hd
  case quoted =>
    intro _
    apply sound_withText
    · rw [List.mem_cons, not_or]
      exact ⟨by decide, break_not_mem_takeWhile (by decide) cs⟩
    · exact List.Subset.trans (trimEnd_subset _) (List.subset_cons_self _ _)
  case prose => exact fun _ hc => sound_withText (break_not_mem_restOfLine hc cs) (trimEnd_subset _)
  all_goals
    intros
    exact rfl

/-- The lexeme of a step carries what its kind says. -/
theorem step_sound (mode : Mode) (c : Char) (cs : List Char) : (step mode c cs).1.Sound := by
  cases mode with
  | lineStart => exact lineStep_sound c cs
  | code s => exact codeStep_sound s c cs
  | metaValue =>
    apply metaStep_cases (P := fun r => r.1.Sound)
    case blank => intro _; trivial
    case ended => intro _; exact rfl
    case nothing => intro _ _ _; trivial
    case value =>
      intro _ hbreak
      exact sound_withText (break_not_mem_restOfLine hbreak cs) (trimEnd_subset _)
  | name s =>
    apply nameStep_cases (P := fun r => r.1.Sound)
    case blank => intro _; trivial
    case code => intro _; exact codeStep_sound s c cs
    case name => intro _ _; exact rfl
  | display =>
    apply displayStep_cases (P := fun r => r.1.Sound)
    case closed => intro _; exact rfl
    case code => exact fun _ => codeStep_sound _ c cs
    case nothing => intro _ _; trivial
    case text =>
      intro _
      exact sound_withText (break_not_mem_displayText (c :: cs))
        (List.Subset.trans (trim_subset _) (mem_displayText (c :: cs)))
  | tags =>
    apply tagStep_cases (P := fun r => r.1.Sound)
    case blank => intro _; trivial
    case code => exact codeStep_sound _ c cs
    case closed => intro _; exact rfl
    case tag => intro _ _ _; exact rfl

/-- Every lexeme of every text carries what its kind says. -/
theorem scan_sound (mode : Mode) (cs : List Char) : ∀ l ∈ scan mode cs, l.Sound :=
  forall_mem_scan step_sound mode cs

end Gamebook.Lexeme
