/-
# Gamebook.NameSet — sets of names in code point order

Tags and assigned variables are sets of names that are always shown in order. A `NameSet` is the
ordered list itself with the proof that it is strictly increasing, so two sets with the same members
are equal.
-/

namespace Gamebook

/-- Names in strictly increasing code point order. -/
structure NameSet where
  names : List String
  ordered : names.Pairwise (· < ·)
  deriving DecidableEq

namespace NameSet

/-- The empty set. -/
def empty : NameSet := ⟨[], .nil⟩

instance : Inhabited NameSet := ⟨empty⟩

instance : Membership String NameSet := ⟨fun s x => x ∈ s.names⟩

/-- Puts a name in its place in an increasing list; a name that is there already stays. -/
def place (x : String) : List String → List String
  | [] => [x]
  | y :: ys => if x < y then x :: y :: ys else if x = y then y :: ys else y :: place x ys

theorem mem_place {x z : String} {ys : List String} : z ∈ place x ys ↔ z = x ∨ z ∈ ys := by
  induction ys with
  | nil => simp [place]
  | cons y ys ih =>
    by_cases hlt : x < y
    · simp [place, hlt]
    · by_cases heq : x = y
      · simp [place, heq]
      · simp only [place, hlt, heq, if_false, List.mem_cons, ih]
        constructor
        · rintro (h | h | h) <;> simp [h]
        · rintro (h | h | h) <;> simp [h]

/-- Of two different names one comes first. -/
theorem lt_of_not_lt_of_ne {x y : String} (hlt : ¬ x < y) (hne : x ≠ y) : y < x := by
  refine String.not_le.mp fun hle => hne ?_
  exact String.le_antisymm hle (String.not_lt.mp hlt)

theorem place_ordered (x : String) {ys : List String} (h : ys.Pairwise (· < ·)) :
    (place x ys).Pairwise (· < ·) := by
  induction ys with
  | nil => simp [place]
  | cons y ys ih =>
    obtain ⟨hy, hys⟩ := List.pairwise_cons.mp h
    by_cases hlt : x < y
    · simp only [place, hlt, if_true]
      refine List.pairwise_cons.mpr ⟨?_, h⟩
      intro z hz
      rcases List.mem_cons.mp hz with rfl | hz
      · exact hlt
      · exact String.lt_trans hlt (hy z hz)
    · by_cases heq : x = y
      · subst heq
        simpa only [place, String.lt_irrefl, if_true, if_false] using h
      · simp only [place, hlt, heq, if_false]
        refine List.pairwise_cons.mpr ⟨?_, ih hys⟩
        intro z hz
        rcases mem_place.mp hz with rfl | hz
        · exact lt_of_not_lt_of_ne hlt heq
        · exact hy z hz

/-- The set with one more name. -/
def insert (s : NameSet) (x : String) : NameSet :=
  ⟨place x s.names, place_ordered x s.ordered⟩

/-- The set of the names in a list. -/
def ofList (xs : List String) : NameSet := xs.foldl insert empty

/-- Whether a name is in the set. -/
def contains (s : NameSet) (x : String) : Bool := s.names.contains x

/-- Whether the set has no name. -/
def isEmpty (s : NameSet) : Bool := s.names.isEmpty

theorem mem_insert {s : NameSet} {x z : String} : z ∈ s.insert x ↔ z = x ∨ z ∈ s := mem_place

theorem mem_foldl_insert {xs : List String} {s : NameSet} {z : String} :
    z ∈ xs.foldl insert s ↔ z ∈ s ∨ z ∈ xs := by
  induction xs generalizing s with
  | nil => simp
  | cons x xs ih =>
    rw [List.foldl_cons, ih, mem_insert, List.mem_cons, or_comm (a := z = x), or_assoc]

theorem mem_ofList {xs : List String} {z : String} : z ∈ ofList xs ↔ z ∈ xs := by
  have hempty : z ∉ empty := List.not_mem_nil
  rw [ofList, mem_foldl_insert, or_iff_right hempty]

end NameSet

end Gamebook
