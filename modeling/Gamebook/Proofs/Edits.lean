/-
# Gamebook.Proofs.Edits — the edit distance as a number of edits

An edit inserts, deletes or replaces one character. The edit distance is the least number of edits, one after the
other, that turn one text into the other (`Text.isLeast_edited`): the edits of an alignment can be made from left
to right (`Text.Aligned.edited`), and an edit in front of an alignment costs at most one more
(`Text.Edit.exists_aligned`).

The rows need no more room than two of them. `Text.editDistance?` keeps two rows that take turns, so a row that is
being filled still holds the entries of the row before the last one. It looks entries up by their index and gives
nothing where a row has no such entry. That never happens, and no old entry is read (`Text.fill?_rowOf`): it always
gives the edit distance.
-/
import Mathlib.Order.Bounds.Defs
import Gamebook.Proofs.EditDistance

namespace Gamebook.Text

/-! ## Edits one after the other -/

/-- One text from another by inserting, deleting or replacing one character, at the front or later on. -/
inductive Edit : List Char → List Char → Prop
  | insert (d : Char) (a : List Char) : Edit a (d :: a)
  | delete (c : Char) (a : List Char) : Edit (c :: a) a
  | replace (c d : Char) (a : List Char) : Edit (c :: a) (d :: a)
  | later {a b : List Char} (c : Char) (h : Edit a b) : Edit (c :: a) (c :: b)

/-- One text from another by as many edits, one after the other. -/
inductive Edited : (count : Nat) → List Char → List Char → Prop
  | done (a : List Char) : Edited 0 a a
  | edit {n : Nat} {a b c : List Char} (h : Edit a b) (more : Edited n b c) : Edited (n + 1) a c

/-- The same edits behind one more character. -/
theorem Edited.later {n : Nat} {a b : List Char} (h : Edited n a b) (c : Char) : Edited n (c :: a) (c :: b) := by
  induction h with
  | done a => exact .done (c :: a)
  | edit h _ ih => exact .edit (.later c h) ih

/-- The differences in an alignment can be edited one by one. -/
theorem Aligned.edited {n : Nat} {a b : List Char} (h : Aligned n a b) : Edited n a b := by
  induction h with
  | nil => exact .done []
  | keep c _ ih => exact ih.later c
  | @replace n a b c d _ ih => exact .edit (.replace c d a) (ih.later d)
  | @delete n a b c _ ih => exact .edit (.delete c a) ih
  | @insert n a b d _ ih => exact .edit (.insert d a) (ih.later d)

theorem aligned_refl (a : List Char) : Aligned 0 a a := by
  induction a with
  | nil => exact .nil
  | cons c a ih => exact .keep c ih

/-- Without its first character a text is at most one further away. -/
theorem Aligned.exists_tail {n : Nat} {d : Char} {b c : List Char} (h : Aligned n (d :: b) c) :
    ∃ m ≤ n + 1, Aligned m b c := by
  generalize htext : d :: b = text at h
  induction h with
  | nil => cases htext
  | @keep n _ c _ h _ =>
    cases htext
    exact ⟨n + 1, Nat.le_refl _, .insert d h⟩
  | @replace n _ c _ e h _ =>
    cases htext
    exact ⟨n + 1, Nat.le_succ _, .insert e h⟩
  | @delete n _ c _ h _ =>
    cases htext
    exact ⟨n, by omega, h⟩
  | @insert n _ c e _ ih =>
    obtain ⟨m, hm, h⟩ := ih htext
    exact ⟨m + 1, Nat.succ_le_succ hm, .insert e h⟩

/-- With a text `a` in the place of `b`, behind some first character each, an alignment costs at most one more if
that is so of every alignment of `b` alone. -/
theorem Aligned.exists_cons {n : Nat} {x : Char} {a b c : List Char}
    (hab : ∀ {n : Nat} {c : List Char}, Aligned n b c → ∃ m ≤ n + 1, Aligned m a c) (h : Aligned n (x :: b) c) :
    ∃ m ≤ n + 1, Aligned m (x :: a) c := by
  generalize htext : x :: b = text at h
  induction h with
  | nil => cases htext
  | keep _ h _ =>
    cases htext
    obtain ⟨m, hm, h⟩ := hab h
    exact ⟨m, hm, .keep x h⟩
  | replace _ e h _ =>
    cases htext
    obtain ⟨m, hm, h⟩ := hab h
    exact ⟨m + 1, Nat.succ_le_succ hm, .replace x e h⟩
  | delete _ h _ =>
    cases htext
    obtain ⟨m, hm, h⟩ := hab h
    exact ⟨m + 1, Nat.succ_le_succ hm, .delete x h⟩
  | insert e _ ih =>
    obtain ⟨m, hm, h⟩ := ih htext
    exact ⟨m + 1, Nat.succ_le_succ hm, .insert e h⟩

/-- With another first character an alignment costs at most one more. -/
theorem Aligned.exists_replace {n : Nat} {x : Char} {b c : List Char} (h : Aligned n (x :: b) c) (y : Char) :
    ∃ m ≤ n + 1, Aligned m (y :: b) c := by
  generalize htext : x :: b = text at h
  induction h with
  | nil => cases htext
  | @keep n _ _ z h _ =>
    cases htext
    exact ⟨n + 1, Nat.le_refl _, .replace y x h⟩
  | @replace n _ _ z e h _ =>
    cases htext
    exact ⟨n + 1, Nat.le_succ _, .replace y e h⟩
  | @delete n _ _ z h _ =>
    cases htext
    exact ⟨n + 1, Nat.le_succ _, .delete y h⟩
  | insert e _ ih =>
    obtain ⟨m, hm, h⟩ := ih htext
    exact ⟨m + 1, Nat.succ_le_succ hm, .insert e h⟩

/-- **An edit in front of an alignment costs at most one more.** -/
theorem Edit.exists_aligned {a b : List Char} (hedit : Edit a b) {n : Nat} {c : List Char} (h : Aligned n b c) :
    ∃ m ≤ n + 1, Aligned m a c := by
  induction hedit generalizing n c with
  | insert d a => exact h.exists_tail
  | delete x a => exact ⟨n + 1, Nat.le_refl _, .delete x h⟩
  | replace x d a => exact h.exists_replace x
  | later x _ ih => exact Aligned.exists_cons ih h

/-- No number of edits is below the distance. -/
theorem Edited.edits_le {n : Nat} {a b : List Char} (h : Edited n a b) : edits a b ≤ n := by
  have hcheap : ∃ m ≤ n, Aligned m a b := by
    induction h with
    | done a => exact ⟨0, Nat.le_refl 0, aligned_refl a⟩
    | edit hedit _ ih =>
      obtain ⟨m, hm, h⟩ := ih
      obtain ⟨k, hk, h⟩ := hedit.exists_aligned h
      exact ⟨k, Nat.le_trans hk (Nat.succ_le_succ hm), h⟩
  obtain ⟨m, hm, h⟩ := hcheap
  exact Nat.le_trans h.edits_le hm

/-- **The edit distance is the least number of edits.** -/
theorem isLeast_edited (a b : List Char) : IsLeast {n | Edited n a b} (edits a b) :=
  ⟨(aligned_edits a b).edited, fun _ h => h.edits_le⟩

/-! ## Entries of a row -/

theorem length_rowOf (a done ds : List Char) : (rowOf a done ds).length = ds.length + 1 := by
  induction ds generalizing done with
  | nil => rfl
  | cons d ds ih => rw [rowOf, List.length_cons, ih, List.length_cons]

/-- The entries of a row, one for each beginning of the second text. -/
theorem rowOf_eq_map (a done ds : List Char) :
    rowOf a done ds = (List.range (ds.length + 1)).map fun j => edits a ((ds.take j).reverse ++ done) := by
  induction ds generalizing done with
  | nil => rfl
  | cons d ds ih =>
    have hrange : List.range ((d :: ds).length + 1) = 0 :: (List.range (ds.length + 1)).map Nat.succ :=
      List.range_succ_eq_map
    rw [rowOf, ih (d :: done), hrange, List.map_cons, List.map_map]
    refine congrArg (edits a done :: ·) (List.map_congr_left fun j _ => ?_)
    rw [Function.comp_apply, List.take_succ_cons, List.reverse_cons, List.append_assoc, List.singleton_append]

/-- The first row, from which both ways of filling rows start. -/
theorem range_eq_rowOf (b : List Char) : List.range (b.length + 1) = rowOf [] [] b := by
  rw [rowOf_nil, List.range_eq_range']
  rfl

/-- **The row after some text** holds its distances to every beginning of the second text. -/
theorem foldl_nextRow_eq_map (a b : List Char) :
    a.foldl (nextRow b) (List.range (b.length + 1))
      = (List.range (b.length + 1)).map fun j => edits a (b.take j) := by
  have hrow : a.foldl (nextRow b) (List.range (b.length + 1)) = rowOf a.reverse [] b := by
    rw [range_eq_rowOf, foldl_nextRow, List.append_nil]
  rw [hrow, rowOf_eq_map]
  apply List.map_congr_left
  intro j _
  rw [List.append_nil, edits_reverse]

theorem getElem?_length_rowOf (a done ds : List Char) :
    (rowOf a done ds)[ds.length]? = some (edits a (ds.reverse ++ done)) := by
  rw [rowOf_eq_map, List.getElem?_map, List.getElem?_range (Nat.lt_succ_self _), Option.map_some, List.take_length]

/-! ## Two rows that take turns -/

/-- Writes an entry of a row, if the row has it. -/
def put? (row : List Nat) (j entry : Nat) : Option (List Nat) :=
  if j < row.length then some (row.set j entry) else none

/-- Fills a row behind its entry `j`, for a character `c` of the first text and what is left of the second text
there. -/
def fill? (c : Char) (previous : List Nat) : (j : Nat) → List Char → (row : List Nat) → Option (List Nat)
  | _, [], row => some row
  | j, d :: ds, row => do
    let corner ← previous[j]?
    let up ← previous[j + 1]?
    let left ← row[j]?
    let row ← put? row (j + 1) (min (min (corner + if c = d then 0 else 1) (up + 1)) (left + 1))
    fill? c previous (j + 1) ds row

/-- Fills a row for each character of the first text from its character `i` on. The row that was filled last is
the previous one for the next, which is written over the one before. -/
def fillAll? (b : List Char) : (i : Nat) → List Char → (previous row : List Nat) → Option Nat
  | _, [], previous, _ => previous[b.length]?
  | i, c :: cs, previous, row => do
    let row ← put? row 0 (i + 1)
    let row ← fill? c previous 0 b row
    fillAll? b (i + 1) cs row previous

/-- The edit distance of two texts from two rows, unless an index lies outside its row. -/
def editDistance? (a b : List Char) : Option Nat :=
  fillAll? b 0 a (List.range (b.length + 1)) (List.replicate (b.length + 1) 0)

/-- A row is filled in, whatever it held behind the entry reached. -/
theorem fill?_rowOf (c : Char) (a done ds : List Char) (front front' stale : List Nat) {j : Nat}
    (hfront : front.length = j) (hfront' : front'.length = j) (hstale : stale.length = ds.length) :
    fill? c (front ++ rowOf a done ds) j ds (front' ++ edits (c :: a) done :: stale)
      = some (front' ++ rowOf (c :: a) done ds) := by
  -- The induction is on what is left of the second text; what stands in front has been filled already.
  induction ds generalizing done front front' stale j with
  | nil =>
    obtain rfl := List.eq_nil_of_length_eq_zero hstale
    rfl
  | cons d ds ih =>
    obtain ⟨old, stale, rfl⟩ := List.exists_cons_of_length_eq_add_one hstale
    obtain ⟨more, hmore⟩ := rowOf_eq_cons a (d :: done) ds
    have hcorner : (front ++ rowOf a done (d :: ds))[j]? = some (edits a done) := by
      rw [rowOf, List.getElem?_append_right (Nat.le_of_eq hfront), hfront, Nat.sub_self, List.getElem?_cons_zero]
    have hup : (front ++ rowOf a done (d :: ds))[j + 1]? = some (edits a (d :: done)) := by
      rw [rowOf, hmore, List.getElem?_append_right (by omega), hfront, Nat.add_sub_cancel_left,
        List.getElem?_cons_succ, List.getElem?_cons_zero]
    have hleft : (front' ++ edits (c :: a) done :: old :: stale)[j]? = some (edits (c :: a) done) := by
      rw [List.getElem?_append_right (Nat.le_of_eq hfront'), hfront', Nat.sub_self, List.getElem?_cons_zero]
    have hput : put? (front' ++ edits (c :: a) done :: old :: stale) (j + 1) (edits (c :: a) (d :: done))
        = some ((front' ++ [edits (c :: a) done]) ++ edits (c :: a) (d :: done) :: stale) := by
      rw [put?, if_pos (by simp only [List.length_append, List.length_cons]; omega),
        List.set_append_right _ _ (by omega), hfront', Nat.add_sub_cancel_left, List.set_cons_succ,
        List.set_cons_zero, List.append_assoc, List.singleton_append]
    have hnext := ih (d :: done) (front ++ [edits a done]) (front' ++ [edits (c :: a) done]) stale (j := j + 1)
      (by simp [hfront]) (by simp [hfront']) (Nat.succ.inj hstale)
    rw [fill?, hcorner, hup, hleft]
    simp only [Option.bind_eq_bind, Option.bind_some]
    rw [← edits, hput, Option.bind_some, rowOf, List.append_cons front, hnext, rowOf, List.append_assoc,
      List.singleton_append]

/-- Row after row is filled in, whatever the row to be written over holds. -/
theorem fillAll?_rowOf (b a done : List Char) (row : List Nat) (hrow : row.length = b.length + 1) :
    fillAll? b done.length a (rowOf done [] b) row = some (edits (a.reverse ++ done) b.reverse) := by
  induction a generalizing done row with
  | nil => rw [fillAll?, getElem?_length_rowOf, List.append_nil, List.reverse_nil, List.nil_append]
  | cons c a ih =>
    obtain ⟨old, stale, rfl⟩ := List.exists_cons_of_length_eq_add_one hrow
    have hput : put? (old :: stale) 0 (done.length + 1) = some (edits (c :: done) [] :: stale) := by
      rw [put?, if_pos (by simp), List.set_cons_zero, edits_nil_right, List.length_cons]
    have hfill : fill? c (rowOf done [] b) 0 b (edits (c :: done) [] :: stale) = some (rowOf (c :: done) [] b) :=
      fill?_rowOf c done [] b [] [] stale rfl rfl (Nat.succ.inj hrow)
    have hnext := ih (c :: done) (rowOf done [] b) (length_rowOf done [] b)
    rw [List.length_cons] at hnext
    rw [fillAll?, hput]
    simp only [Option.bind_eq_bind, Option.bind_some]
    rw [hfill, Option.bind_some, hnext, List.reverse_cons, List.append_assoc, List.singleton_append]

/-- **No index lies outside its row.** -/
theorem editDistance?_eq_some (a b : List Char) : editDistance? a b = some (edits a b) := by
  have hfill := fillAll?_rowOf b a [] (List.replicate (b.length + 1) 0) List.length_replicate
  rw [List.length_nil] at hfill
  rw [editDistance?, range_eq_rowOf, hfill, List.append_nil, edits_reverse]

/-- **The edit distance of two texts.** It follows the rule on their first characters, and it is the least number of
characters to insert, delete or replace, one after the other. The row after any part of the first text has one entry
for each beginning of the second, their distance. With only two rows, which take turns, and every index checked,
the result is the same. -/
theorem editDistance_least (a b : List Char) :
    editDistance a b = edits a b ∧ IsLeast {n | Edited n a b} (editDistance a b) ∧
      (∀ done, done.foldl (nextRow b) (List.range (b.length + 1))
        = (List.range (b.length + 1)).map fun j => edits done (b.take j)) ∧
      editDistance? a b = some (editDistance a b) := by
  rw [editDistance_eq_edits]
  exact ⟨rfl, isLeast_edited a b, fun done => foldl_nextRow_eq_map done b, editDistance?_eq_some a b⟩

example : editDistance ['k', 'i', 't', 't', 'e', 'n'] ['s', 'i', 't', 't', 'i', 'n', 'g'] = 3 := by decide

end Gamebook.Text
