/-
# Gamebook.Proofs.Text — trimming, normal form and lines

A trimmed text has no white space at the ends in question and trimming it again changes nothing. The normal form
is made by two replacements, one after the other, which come to one reading from left to right
(`Text.replace_replace`). A text with neither a carriage return nor a byte order mark at its start is its own
normal form. The lines of a text hold no line feed, and a text without one is a single line.
-/
import Gamebook.Text.Blank
import Gamebook.Text.LineBreak

namespace Gamebook.Text

/-! ## Trimming -/

section

variable {p : Char → Bool} {cs : List Char}

theorem dropEndWhile_isPrefix (p : Char → Bool) (cs : List Char) : dropEndWhile p cs <+: cs := by
  have h : cs.reverse.dropWhile p <:+ cs.reverse := List.dropWhile_suffix p
  exact List.reverse_suffix.mp (by simpa [dropEndWhile] using h)

theorem dropEndWhile_eq_self (h : ∀ c ∈ cs.getLast?, p c = false) : dropEndWhile p cs = cs := by
  rw [dropEndWhile]
  cases hr : cs.reverse with
  | nil => rw [List.reverse_eq_nil_iff.mp hr]; rfl
  | cons c rs =>
    have hlast : cs.getLast? = some c := by rw [← List.head?_reverse, hr]; rfl
    rw [List.dropWhile_cons_of_neg (by simp [h c hlast]), ← hr, List.reverse_reverse]

theorem getLast?_dropEndWhile : ∀ c ∈ (dropEndWhile p cs).getLast?, p c = false := by
  intro c hc
  rw [dropEndWhile, List.getLast?_reverse] at hc
  have := List.head?_dropWhile_not p cs.reverse
  rw [Option.mem_def.mp hc] at this
  simpa using this

theorem dropEndWhile_append_of_pos {ds : List Char} (h : ∀ c ∈ ds, p c = true) :
    dropEndWhile p (cs ++ ds) = dropEndWhile p cs := by
  rw [dropEndWhile, List.reverse_append, List.dropWhile_append_of_pos]
  · rfl
  · intro c hc
    exact h c (List.mem_reverse.mp hc)

theorem dropEndWhile_dropEndWhile : dropEndWhile p (dropEndWhile p cs) = dropEndWhile p cs :=
  dropEndWhile_eq_self getLast?_dropEndWhile

end

theorem trimEnd_subset (cs : List Char) : trimEnd cs ⊆ cs := (dropEndWhile_isPrefix _ cs).subset

theorem trim_subset (cs : List Char) : trim cs ⊆ cs :=
  List.Subset.trans (List.dropWhile_suffix _).subset (trimEnd_subset cs)

theorem trimEnd_trimEnd (cs : List Char) : trimEnd (trimEnd cs) = trimEnd cs :=
  dropEndWhile_dropEndWhile

/-- A trimmed text ends in no white space. -/
theorem getLast?_trim (cs : List Char) : ∀ c ∈ (trim cs).getLast?, isSpace c = false := by
  intro c hc
  show isSpace c = false
  refine getLast?_dropEndWhile c (?_ : c ∈ (dropEndWhile isSpace cs).getLast?)
  -- What is left after trimming the start has the same end.
  have hsuffix : (trimEnd cs).dropWhile isSpace <:+ trimEnd cs := List.dropWhile_suffix _
  obtain ⟨before, hbefore⟩ := hsuffix
  rw [trim] at hc
  rw [← trimEnd, ← hbefore, List.getLast?_append]
  rw [Option.mem_def.mp hc]
  rfl

theorem trim_trim (cs : List Char) : trim (trim cs) = trim cs := by
  have hend : trimEnd (trim cs) = trim cs := dropEndWhile_eq_self (getLast?_trim cs)
  have hstart : (trim cs).dropWhile isSpace = trim cs := by
    have hhead := List.head?_dropWhile_not isSpace (trimEnd cs)
    cases ht : trim cs with
    | nil => rfl
    | cons c ds =>
      rw [trim] at ht
      rw [ht] at hhead
      exact List.dropWhile_cons_of_neg (by simpa using hhead)
  rw [trim, hend, hstart]

/-! ## Replacing -/

section

variable (old new : List Char)

theorem replaceAfter_eq (past : Nat) (cs : List Char) :
    replaceAfter old new past cs = replace old new (cs.drop past) := by
  induction past generalizing cs with
  | zero => rfl
  | succ past ih =>
    cases cs with
    | nil => rfl
    | cons c cs =>
      rw [replaceAfter, ih]
      rfl

/-- An occurrence in front is replaced, and what follows it is a text of its own. -/
theorem replace_append (h : old ≠ []) (cs : List Char) :
    replace old new (old ++ cs) = new ++ replace old new cs := by
  obtain ⟨c, tail, rfl⟩ := List.exists_cons_of_ne_nil h
  have hfront : (c :: tail).isPrefixOf (c :: tail ++ cs) = true := by simp
  rw [replace, List.cons_append, replaceAfter]
  refine (if_pos hfront).trans ?_
  rw [replaceAfter_eq, List.length_cons, Nat.add_sub_cancel, List.drop_left]

theorem replace_cons {c : Char} {cs : List Char} (h : old.isPrefixOf (c :: cs) = false) :
    replace old new (c :: cs) = c :: replace old new cs := by
  rw [replace, replaceAfter, h]
  rfl

end

/-- Every single character is replaced on its own. -/
theorem replace_char (a b : Char) (cs : List Char) :
    replace [a] [b] cs = cs.map fun c => if c = a then b else c := by
  induction cs with
  | nil => rfl
  | cons c cs ih =>
    rw [List.map_cons, ← ih]
    by_cases hc : c = a
    · rw [if_pos hc, hc]
      exact replace_append [a] [b] (List.cons_ne_nil a []) cs
    · rw [if_neg hc]
      exact replace_cons [a] [b] (by simp [List.isPrefixOf, Ne.symm hc])

/-! ## Normal form -/

/-- Every carriage return, with the line feed after it if there is one, becomes a line feed. -/
def unifyBreaks : List Char → List Char
  | [] => []
  | '\r' :: '\n' :: cs => '\n' :: unifyBreaks cs
  | '\r' :: cs => '\n' :: unifyBreaks cs
  | c :: cs => c :: unifyBreaks cs

/-- **The two replacements of the normal form are one reading from left to right.** The second one finds no line
feed that the first one has left behind a carriage return. -/
theorem replace_replace (cs : List Char) :
    replace ['\r'] ['\n'] (replace ['\r', '\n'] ['\n'] cs) = unifyBreaks cs := by
  simp only [replace_char]
  fun_induction unifyBreaks cs with
  | case1 => rfl
  | case2 cs ih =>
    have hpair := replace_append ['\r', '\n'] ['\n'] (List.cons_ne_nil _ _) cs
    simp only [List.cons_append, List.nil_append] at hpair
    rw [hpair, List.map_cons, ih]
    rfl
  | case3 cs hnext ih =>
    have halone : ['\r', '\n'].isPrefixOf ('\r' :: cs) = false := by
      cases cs with
      | nil => rfl
      | cons d ds =>
        have hd : d ≠ '\n' := fun hd => hnext ds (by rw [hd])
        simp [List.isPrefixOf, Ne.symm hd]
    rw [replace_cons _ _ halone, List.map_cons, ih]
    rfl
  | case4 c cs hpair hreturn ih =>
    have hother : ['\r', '\n'].isPrefixOf (c :: cs) = false := by
      simp [List.isPrefixOf, Ne.symm hreturn]
    rw [replace_cons _ _ hother, List.map_cons, ih, if_neg hreturn]

theorem normalChars_eq (source : String) : normalChars source = unifyBreaks (dropMark source.toList) :=
  replace_replace _

theorem unifyBreaks_cons {c : Char} (h : c ≠ '\r') (cs : List Char) :
    unifyBreaks (c :: cs) = c :: unifyBreaks cs := by
  rw [unifyBreaks]
  · exact fun ds hc => absurd hc h
  · exact h

/-- A carriage return alone is a line end. -/
theorem unifyBreaks_return {cs : List Char} (h : cs.head? ≠ some '\n') :
    unifyBreaks ('\r' :: cs) = '\n' :: unifyBreaks cs := by
  rw [unifyBreaks]
  rintro ds rfl
  exact h rfl

theorem unifyBreaks_of_not_mem {cs : List Char} (h : '\r' ∉ cs) : unifyBreaks cs = cs := by
  induction cs with
  | nil => rfl
  | cons c cs ih =>
    rw [List.mem_cons, not_or] at h
    rw [unifyBreaks_cons (Ne.symm h.1), ih h.2]

theorem dropMark_mark (cs : List Char) : dropMark ('\uFEFF' :: cs) = cs := by
  rw [dropMark, if_pos rfl]

theorem dropMark_of_head? {cs : List Char} (h : cs.head? ≠ some '\uFEFF') : dropMark cs = cs := by
  cases cs with
  | nil => rfl
  | cons c cs =>
    rw [dropMark, if_neg]
    rintro rfl
    exact h rfl

/-- A text with neither a carriage return nor a byte order mark at its start is normal. -/
theorem normalChars_of_not_mem {source : String} (hcr : '\r' ∉ source.toList)
    (hmark : source.toList.head? ≠ some '\uFEFF') : normalChars source = source.toList := by
  rw [normalChars_eq, dropMark_of_head? hmark, unifyBreaks_of_not_mem hcr]

/-! ## Lines -/

theorem splitLines_break (cs : List Char) : splitLines ('\n' :: cs) = [] :: splitLines cs := rfl

theorem splitLines_ne_nil (cs : List Char) : splitLines cs ≠ [] := by
  rw [splitLines.eq_def]
  split
  · exact List.cons_ne_nil _ _
  · split <;> exact List.cons_ne_nil _ _

/-- A character that is no line feed belongs to the first line. -/
theorem splitLines_cons {c : Char} (h : c ≠ '\n') (cs : List Char) :
    ∃ line rest, splitLines cs = line :: rest ∧ splitLines (c :: cs) = (c :: line) :: rest := by
  cases hcs : splitLines cs with
  | nil => exact absurd hcs (splitLines_ne_nil cs)
  | cons line rest => exact ⟨line, rest, rfl, splitLines.eq_4 cs c line rest h hcs⟩

/-- Every line is a part of the text without line feeds. -/
theorem mem_splitLines {cs line : List Char} (h : line ∈ splitLines cs) :
    '\n' ∉ line ∧ line ⊆ cs := by
  induction cs generalizing line with
  | nil =>
    rw [splitLines, List.mem_singleton] at h
    subst h
    simp
  | cons c cs ih =>
    by_cases hc : c = '\n'
    · subst hc
      rw [splitLines_break, List.mem_cons] at h
      rcases h with rfl | h
      · simp
      · exact ⟨(ih h).1, fun d hd => List.mem_cons_of_mem _ ((ih h).2 hd)⟩
    · obtain ⟨first, rest, hcs, hsplit⟩ := splitLines_cons hc cs
      rw [hsplit, List.mem_cons] at h
      rcases h with rfl | h
      · have hfirst := ih (show first ∈ splitLines cs by rw [hcs]; exact List.mem_cons_self)
        refine ⟨?_, List.cons_subset_cons c hfirst.2⟩
        rw [List.mem_cons, not_or]
        exact ⟨Ne.symm hc, hfirst.1⟩
      · have hline := ih (show line ∈ splitLines cs by rw [hcs]; exact List.mem_cons_of_mem _ h)
        exact ⟨hline.1, fun d hd => List.mem_cons_of_mem _ (hline.2 hd)⟩

theorem splitLines_of_not_mem {cs : List Char} (h : '\n' ∉ cs) : splitLines cs = [cs] := by
  induction cs with
  | nil => rfl
  | cons c cs ih =>
    rw [List.mem_cons, not_or] at h
    obtain ⟨line, rest, hcs, hsplit⟩ := splitLines_cons (Ne.symm h.1) cs
    rw [ih h.2, List.cons.injEq] at hcs
    rw [hsplit, ← hcs.1, ← hcs.2]

/-- Where two texts meet, the last line of the one goes on with the first line of the other. -/
theorem splitLines_append (a b : List Char) :
    ∃ before last first after, splitLines a = before ++ [last] ∧ splitLines b = first :: after ∧
      splitLines (a ++ b) = before ++ (last ++ first) :: after := by
  induction a with
  | nil =>
    obtain ⟨first, after, hb⟩ := List.exists_cons_of_ne_nil (splitLines_ne_nil b)
    exact ⟨[], [], first, after, rfl, hb, hb⟩
  | cons c a ih =>
    obtain ⟨before, last, first, after, ha, hb, hab⟩ := ih
    by_cases hc : c = '\n'
    · subst hc
      refine ⟨[] :: before, last, first, after, ?_, hb, ?_⟩
      · rw [splitLines_break, ha, List.cons_append]
      · rw [List.cons_append, splitLines_break, hab, List.cons_append]
    · obtain ⟨line, rest, hrest, hcons⟩ := splitLines_cons hc a
      obtain ⟨line', rest', hrest', hcons'⟩ := splitLines_cons hc (a ++ b)
      rw [ha] at hrest
      rw [hab] at hrest'
      -- The character belongs to the line where the texts meet if that is the first one.
      cases before with
      | nil =>
        obtain ⟨rfl, rfl⟩ := List.cons.inj hrest
        obtain ⟨rfl, rfl⟩ := List.cons.inj hrest'
        exact ⟨[], c :: last, first, after, hcons, hb, hcons'⟩
      | cons l before =>
        obtain ⟨rfl, rfl⟩ := List.cons.inj hrest
        obtain ⟨rfl, rfl⟩ := List.cons.inj hrest'
        exact ⟨(c :: l) :: before, last, first, after, hcons, hb, hcons'⟩

/-- A line feed ends the line before it and belongs to no line. -/
theorem splitLines_append_break (a b : List Char) :
    splitLines (a ++ '\n' :: b) = splitLines a ++ splitLines b := by
  obtain ⟨before, last, first, after, ha, hb, hab⟩ := splitLines_append a ('\n' :: b)
  rw [splitLines_break] at hb
  obtain ⟨rfl, rfl⟩ := List.cons.inj hb
  rw [hab, ha, List.append_nil, List.append_assoc, List.singleton_append]

theorem line?_of_pos {text : String} {number : Nat} (h : 0 < number) :
    line? text number = (lines text)[number - 1]? := by
  obtain ⟨n, rfl⟩ := Nat.exists_eq_add_one_of_ne_zero (Nat.ne_of_gt h)
  rfl

theorem break_not_mem_line? {text line : String} {number : Nat} (h : line? text number = some line) :
    '\n' ∉ line.toList := by
  cases number with
  | zero => cases h
  | succ n =>
    obtain ⟨chars, hmem, rfl⟩ := List.mem_map.mp (List.mem_of_getElem? h)
    rw [String.toList_ofList]
    exact (mem_splitLines hmem).1

end Gamebook.Text
