/-
# Gamebook.Proofs.RoundTrip — writing a story and reading it again

A story whose texts belong to the classes of the language, whose expressions and conditionals keep to the
nesting limit and whose open conditionals and stray markers stand where the reader would leave them is
read back from its canonical text (`Story.ofSource_render_eq_settle`).
-/
import Gamebook.Story.Build
import Gamebook.Proofs.Spelling.Source

namespace Gamebook

/-- An expression of literals and names that can be written, nested no deeper than the reader goes. -/
def Expr.Writable (e : Expr) : Prop := e.isWritten = true ∧ e.depth ≤ maxNesting

instance : DecidablePred Expr.Writable :=
  fun e => inferInstanceAs (Decidable (e.isWritten = true ∧ e.depth ≤ maxNesting))

/-- **Writing a story and reading it again gives the story back.** Up to places, what is read from the
canonical text of a writable story is the story itself, with its passages in canonical order, prose cut
into lines and trimmed at their ends, and the texts of choices trimmed. -/
theorem Story.ofSource_render_eq_settle {s : Story} (h : s.Writable Expr.Writable) :
    ∃ s', Story.ofSource s.render = .ok s' ∧ s'.relocate .erase = s.settle := by
  refine Story.ofSource_render (fun e he => ?_) h
  exact ⟨he.1, Expr.fits_of_depth_le he.2⟩

/-- A story with prose over two lines, an open conditional, a marker without one and passages out of
order. -/
theorem Story.ofSource_render_eq_settle_hall :
    let guard : Expr := .binary .mul (.binary .add (.named "keys") (.int 1)) (.unary .not (.str "a \"b\""))
    let hall : Passage := ⟨"Hall /of mirrors", .ofList ["dark", "cold"],
      [.text ":: no passage \n\n  \\" .unplaced, .stray .close .unplaced,
        .choice ⟨"  go [on] ", some guard, some "Start", .unplaced⟩,
        .conditional guard [.script "f(1 > 0) " .unplaced]
          (some [.stray .otherwise .unplaced, .conditional (.bool true) [] none .unplaced none])
          .unplaced none],
      .unplaced⟩
    let start : Passage := ⟨"Start", .empty, [.divert "Hall /of mirrors" .unplaced], .unplaced⟩
    let s : Story := ⟨some "", none, .ofList [("z-1", "v: @w"), ("lang", "")], [hall, start]⟩
    s.Writable Expr.Writable ∧
      ∃ s', Story.ofSource s.render = .ok s' ∧ s'.relocate .erase = s.settle := by
  intro guard hall start s
  have hwritable : s.Writable Expr.Writable := by decide +kernel
  exact ⟨hwritable, Story.ofSource_render_eq_settle hwritable⟩

end Gamebook
