/-
# Gamebook.Text.Blank — blanks and white space

Two classes of character separate words. *Blanks*, the space and the tab, separate the words of code.
*White space*, the Unicode property of that name, is what trimming removes from prose, metadata and
choice texts. Every blank is white space; the line feed is white space and no blank.
-/

namespace Gamebook.Text

/-- Space or tab. -/
def isBlank (c : Char) : Bool := c = ' ' || c = '\t'

/-- The Unicode property `White_Space`. -/
def isSpace (c : Char) : Bool :=
  let n := c.toNat
  (0x09 ≤ n && n ≤ 0x0D) || n = 0x20 || n = 0x85 || n = 0xA0 || n = 0x1680 ||
    (0x2000 ≤ n && n ≤ 0x200A) || n = 0x2028 || n = 0x2029 || n = 0x202F || n = 0x205F || n = 0x3000

/-- Every blank is white space. -/
theorem isSpace_of_isBlank {c : Char} (h : isBlank c = true) : isSpace c = true := by
  simp only [isBlank, Bool.or_eq_true, decide_eq_true_eq] at h
  rcases h with rfl | rfl <;> decide

/-! ## Trimming -/

/-- The text without the characters of class `p` at its end. -/
def dropEndWhile (p : Char → Bool) (cs : List Char) : List Char :=
  (cs.reverse.dropWhile p).reverse

/-- The text without white space at its end. -/
def trimEnd (cs : List Char) : List Char := dropEndWhile isSpace cs

/-- The text without white space at either end. -/
def trim (cs : List Char) : List Char := (trimEnd cs).dropWhile isSpace

@[simp] theorem trimEnd_nil : trimEnd [] = [] := rfl

@[simp] theorem trim_nil : trim [] = [] := rfl

end Gamebook.Text
