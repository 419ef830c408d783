/-
# Gamebook.Text.Lowercase — lower-casing

The full Unicode lower-case mapping of a text. It goes character by character with two exceptions: the
capital I with a dot becomes two characters, and a capital sigma takes its final form at the end of a
word, which is where a letter stands before it and none after it, characters that case ignores passed
over on both sides.
-/
import Gamebook.Text.CaseTable

namespace Gamebook.Text

/-- Whether one of the closed intervals holds a code point. -/
def inRanges (ranges : List (Nat × Nat)) (n : Nat) : Bool :=
  ranges.any fun r => r.1 ≤ n && n ≤ r.2

/-- The property `Cased`. -/
def isCased (c : Char) : Bool := inRanges CaseTable.casedRanges c.toNat

/-- The property `Case_Ignorable`. -/
def isCaseIgnorable (c : Char) : Bool := inRanges CaseTable.ignorableRanges c.toNat

/-- The lower-case form of a character outside any context. The runs are in increasing order, so only
the first one that does not end before the character can hold it. -/
def lowerChar (c : Char) : List Char :=
  let n := c.toNat
  if n = 0x130 then ['i', '\u0307']
  else
    match CaseTable.lowerRuns.find? fun r => n ≤ r.2.1 with
    | some (first, _, step, offset) =>
      if first ≤ n && (n - first) % step = 0 then [Char.ofNat (n + offset).toNat] else [c]
    | none => [c]

/-- Whether the first character that case does not ignore is a letter with case. -/
def meetsCased (cs : List Char) : Bool :=
  match cs.dropWhile isCaseIgnorable with
  | c :: _ => isCased c
  | [] => false

/-- The form of a capital sigma between the text before it, read backwards, and the text after it. -/
def lowerSigma (before after : List Char) : Char :=
  if meetsCased before && !meetsCased after then 'ς' else 'σ'

/-- Lower-cases a text that follows the text `before`, read backwards. -/
def lowerFrom (before : List Char) : List Char → List Char
  | [] => []
  | c :: cs =>
    (if c = 'Σ' then [lowerSigma before cs] else lowerChar c) ++ lowerFrom (c :: before) cs

/-- The lower-case form of a text. -/
def lower (cs : List Char) : List Char := lowerFrom [] cs

end Gamebook.Text
