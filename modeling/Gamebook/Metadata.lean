/-
# Gamebook.Metadata — keys with their values

The metadata of a story other than title and author: each key once, in code point order, with the
value last given for it.
-/
import Gamebook.NameSet

namespace Gamebook

/-- Keys in strictly increasing code point order, each with its value. -/
structure Metadata where
  entries : List (String × String)
  ordered : (entries.map Prod.fst).Pairwise (· < ·)
  deriving DecidableEq

namespace Metadata

/-- No keys. -/
def empty : Metadata := ⟨[], NameSet.empty.ordered⟩

instance : Inhabited Metadata := ⟨empty⟩

/-- Puts an entry in its place among increasing keys; a key that is there already takes the value. -/
def place (key value : String) : List (String × String) → List (String × String)
  | [] => [(key, value)]
  | e :: es =>
    if key < e.1 then (key, value) :: e :: es
    else if key = e.1 then (key, value) :: es
    else e :: place key value es

/-- The keys after `place` are the keys before it with the new key in its place. -/
theorem map_fst_place (key value : String) (es : List (String × String)) :
    (place key value es).map Prod.fst = NameSet.place key (es.map Prod.fst) := by
  induction es with
  | nil => rfl
  | cons e es ih =>
    by_cases hlt : key < e.1
    · simp [place, NameSet.place, hlt]
    · by_cases heq : key = e.1
      · simp [place, NameSet.place, heq]
      · simp [place, NameSet.place, hlt, heq, ih]

/-- The metadata with the value of one key set. -/
def insert (m : Metadata) (key value : String) : Metadata :=
  ⟨place key value m.entries, by
    rw [map_fst_place]
    exact NameSet.place_ordered key m.ordered⟩

/-- The entries of a list, a later one for the same key replacing an earlier one. -/
def ofList (es : List (String × String)) : Metadata :=
  es.foldl (fun m e => m.insert e.1 e.2) empty

/-- The value of a key. -/
def get? (m : Metadata) (key : String) : Option String := m.entries.lookup key

/-- Whether there are no keys. -/
def isEmpty (m : Metadata) : Bool := m.entries.isEmpty

end Metadata

end Gamebook
