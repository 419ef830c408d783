/-
# Gamebook.Proofs.EditDistance — the rows add up to the edit distance

The edit distance has a rule on the first characters of two texts (`Text.edits`), and it is the least cost of an
alignment of the two (`Text.Aligned`, `Text.aligned_edits`, `Text.Aligned.edits_le`). The rows go the other way: each
entry is about beginnings of the two texts, and a row is made from the one above it and the entry to its left. On
beginnings read backwards this is the same rule, so the entries are distances of texts read backwards (`rowOf`).
Alignments can be read backwards too, so this changes no distance (`Text.editDistance_eq_edits`).
-/
import Gamebook.Text.EditDistance

namespace Gamebook.Text

/-! ## The distance and its alignments -/

/-- How many characters to insert, delete or replace at least to turn one text into the other. -/
def edits : List Char → List Char → Nat
  | [], b => b.length
  | a, [] => a.length
  | c :: a, d :: b =>
    min (min (edits a b + if c = d then 0 else 1) (edits a (d :: b) + 1)) (edits (c :: a) b + 1)

/-- The texts can be written one above the other with `cost` characters that have no equal above or below
them, two characters that stand one above the other counting once. -/
inductive Aligned : (cost : Nat) → List Char → List Char → Prop
  | nil : Aligned 0 [] []
  | keep {n : Nat} {a b : List Char} (c : Char) (h : Aligned n a b) : Aligned n (c :: a) (c :: b)
  | replace {n : Nat} {a b : List Char} (c d : Char) (h : Aligned n a b) : Aligned (n + 1) (c :: a) (d :: b)
  | delete {n : Nat} {a b : List Char} (c : Char) (h : Aligned n a b) : Aligned (n + 1) (c :: a) b
  | insert {n : Nat} {a b : List Char} (d : Char) (h : Aligned n a b) : Aligned (n + 1) a (d :: b)

theorem edits_nil_left (b : List Char) : edits [] b = b.length := by rw [edits]

theorem edits_nil_right (a : List Char) : edits a [] = a.length := by
  cases a <;> simp [edits]

theorem edits_cons_cons_le (c d : Char) (a b : List Char) :
    edits (c :: a) (d :: b) ≤ edits a b + if c = d then 0 else 1 := by
  rw [edits]
  exact Nat.le_trans (Nat.min_le_left _ _) (Nat.min_le_left _ _)

theorem edits_cons_left_le (c : Char) (a b : List Char) : edits (c :: a) b ≤ edits a b + 1 := by
  cases b with
  | nil =>
    rw [edits_nil_right, edits_nil_right]
    exact Nat.le_refl _
  | cons d b =>
    rw [edits]
    exact Nat.le_trans (Nat.min_le_left _ _) (Nat.min_le_right _ _)

theorem edits_cons_right_le (d : Char) (a b : List Char) : edits a (d :: b) ≤ edits a b + 1 := by
  cases a with
  | nil =>
    rw [edits_nil_left, edits_nil_left]
    exact Nat.le_refl _
  | cons c a =>
    rw [edits]
    exact Nat.min_le_right _ _

/-- No alignment costs less than the distance. -/
theorem Aligned.edits_le {n : Nat} {a b : List Char} (h : Aligned n a b) : edits a b ≤ n := by
  induction h with
  | nil =>
    rw [edits_nil_left]
    exact Nat.le_refl 0
  | @keep n a b c h ih =>
    have hle := edits_cons_cons_le c c a b
    rw [if_pos rfl] at hle
    exact Nat.le_trans hle ih
  | @replace n a b c d h ih =>
    have hle := edits_cons_cons_le c d a b
    split at hle <;> omega
  | @delete n a b c h ih => exact Nat.le_trans (edits_cons_left_le c a b) (Nat.succ_le_succ ih)
  | @insert n a b d h ih => exact Nat.le_trans (edits_cons_right_le d a b) (Nat.succ_le_succ ih)

theorem Aligned.cheaper {m n : Nat} {a b : List Char} (h : Aligned m a b) (h' : Aligned n a b) :
    Aligned (min m n) a b := by
  rw [Nat.min_def]
  split
  · exact h
  · exact h'

theorem aligned_nil_left (b : List Char) : Aligned b.length [] b := by
  induction b with
  | nil => exact .nil
  | cons d b ih => exact .insert d ih

theorem aligned_nil_right (a : List Char) : Aligned a.length a [] := by
  induction a with
  | nil => exact .nil
  | cons c a ih => exact .delete c ih

/-- There is an alignment that costs the distance. -/
theorem aligned_edits (a b : List Char) : Aligned (edits a b) a b := by
  fun_induction edits a b with
  | case1 b => exact aligned_nil_left b
  | case2 a hne => exact aligned_nil_right a
  | case3 c a d b ihBoth ihDelete ihInsert =>
    -- Both texts may begin with a character, or only one of them may; the cheapest of the three will do.
    have hboth : Aligned (edits a b + if c = d then 0 else 1) (c :: a) (d :: b) := by
      split
      · next heq =>
        rw [heq]
        exact .keep d ihBoth
      · exact .replace c d ihBoth
    exact (hboth.cheaper (.delete c ihDelete)).cheaper (.insert d ihInsert)

/-! ## Reading backwards -/

theorem Aligned.append {m n : Nat} {a a' b b' : List Char} (h : Aligned m a b) (h' : Aligned n a' b') :
    Aligned (m + n) (a ++ a') (b ++ b') := by
  induction h with
  | nil =>
    rw [Nat.zero_add]
    exact h'
  | keep c h ih => exact .keep c ih
  | replace c d h ih =>
    rw [Nat.add_right_comm]
    exact .replace c d ih
  | delete c h ih =>
    rw [Nat.add_right_comm]
    exact .delete c ih
  | insert d h ih =>
    rw [Nat.add_right_comm]
    exact .insert d ih

theorem Aligned.reverse {n : Nat} {a b : List Char} (h : Aligned n a b) : Aligned n a.reverse b.reverse := by
  induction h with
  | nil => exact .nil
  | keep c h ih =>
    rw [List.reverse_cons, List.reverse_cons]
    exact ih.append (.keep c .nil)
  | replace c d h ih =>
    rw [List.reverse_cons, List.reverse_cons]
    exact ih.append (.replace c d .nil)
  | @delete n a b c h ih =>
    rw [List.reverse_cons, ← List.append_nil b.reverse]
    exact ih.append (.delete c .nil)
  | @insert n a b d h ih =>
    rw [List.reverse_cons, ← List.append_nil a.reverse]
    exact ih.append (.insert d .nil)

/-- Reading both texts backwards changes no distance. -/
theorem edits_reverse (a b : List Char) : edits a.reverse b.reverse = edits a b := by
  refine Nat.le_antisymm (aligned_edits a b).reverse.edits_le ?_
  have hback := (aligned_edits a.reverse b.reverse).reverse.edits_le
  rwa [List.reverse_reverse, List.reverse_reverse] at hback

/-! ## Rows -/

/-- The distances from one text to another that grows at its front, character by character. -/
def rowOf (a done : List Char) : List Char → List Nat
  | [] => [edits a done]
  | d :: ds => edits a done :: rowOf a (d :: done) ds

theorem rowOf_eq_cons (a done ds : List Char) : ∃ more, rowOf a done ds = edits a done :: more := by
  cases ds <;> exact ⟨_, rfl⟩

/-- The entries of a row from the second on, made from the row above. -/
theorem rowFrom_rowOf (c : Char) (a done ds : List Char) :
    edits (c :: a) done :: rowFrom c (edits (c :: a) done) ds (rowOf a done ds) = rowOf (c :: a) done ds := by
  induction ds generalizing done with
  | nil => rfl
  | cons d ds ih =>
    obtain ⟨more, hmore⟩ := rowOf_eq_cons a (d :: done) ds
    have hnext := ih (d :: done)
    -- The new entry looks at the corner, the one above and the one to its left, as the rule does.
    rw [rowOf, hmore, rowFrom, ← edits, ← hmore, hnext, rowOf]

/-- **A row and one more character give the next row.** -/
theorem nextRow_rowOf (b : List Char) (c : Char) (a : List Char) :
    nextRow b (rowOf a [] b) c = rowOf (c :: a) [] b := by
  obtain ⟨more, hmore⟩ := rowOf_eq_cons a [] b
  have hfirst : (rowOf a [] b).headD 0 + 1 = edits (c :: a) [] := by
    rw [hmore, List.headD_cons, edits_nil_right, edits_nil_right, List.length_cons]
  rw [nextRow, hfirst, rowFrom_rowOf]

/-- The first row counts up. -/
theorem rowOf_nil (done ds : List Char) : rowOf [] done ds = List.range' done.length (ds.length + 1) := by
  induction ds generalizing done with
  | nil => rw [rowOf, edits_nil_left, List.length_nil, List.range'_one]
  | cons d ds ih =>
    rw [rowOf, ih (d :: done), edits_nil_left, List.length_cons, List.length_cons, ← List.range'_succ]

theorem foldl_nextRow (b a done : List Char) :
    a.foldl (nextRow b) (rowOf done [] b) = rowOf (a.reverse ++ done) [] b := by
  induction a generalizing done with
  | nil => rfl
  | cons c a ih => rw [List.foldl_cons, nextRow_rowOf, ih, List.reverse_cons, List.append_assoc, List.singleton_append]

theorem getLastD_rowOf (a done ds : List Char) : (rowOf a done ds).getLastD 0 = edits a (ds.reverse ++ done) := by
  induction ds generalizing done with
  | nil => rfl
  | cons d ds ih =>
    obtain ⟨more, hmore⟩ := rowOf_eq_cons a (d :: done) ds
    have hlast := ih (d :: done)
    rw [rowOf, List.reverse_cons, List.append_assoc, List.singleton_append, ← hlast, hmore, List.getLastD_cons,
      List.getLastD_cons, List.getLastD_cons]

/-- **The last entry of the last row is the edit distance.** -/
theorem editDistance_eq_edits (a b : List Char) : editDistance a b = edits a b := by
  have hfirst : List.range (b.length + 1) = rowOf [] [] b := by
    rw [rowOf_nil, List.range_eq_range']
    rfl
  rw [editDistance, hfirst, foldl_nextRow, getLastD_rowOf, List.append_nil, List.append_nil, edits_reverse]

end Gamebook.Text
