/-
# Gamebook.Proofs.Spelling.Skipped — written lines while a conditional is skipped

Skipping only counts: a brace that opens a line makes one closing marker more to wait for, and a closing marker
makes it one less. The lines of a written body that lacks no marker count up and down by the same amount
(`Assembly.passes_linesAll`). So a conditional that is skipped ends at its own closing marker
(`Assembly.Passes.closed`).
-/
import Gamebook.Proofs.Reading.Line
import Gamebook.Proofs.Spelling.Outline

namespace Gamebook.Assembly

open Gamebook.Lexeme

/-! ## Skipping along a line -/

/-- Nothing is waited for more or less along words without a marker, after the start of the line. -/
theorem skip_of_isPlain {ws : List Token} (h : ws.all Token.isPlain = true) (waiting : Nat) :
    skip waiting false ws = .inl waiting := by
  induction ws with
  | nil => rfl
  | cons t ts ih =>
    rw [List.all_cons, Bool.and_eq_true] at h
    rw [skip]
    split
    · exact ih h.2
    · next hclose =>
      rw [Token.isPlain, hclose] at h
      cases h.1
    · exact ih h.2

theorem skip_guardSpelling (e : Expr) (waiting : Nat) :
    skip waiting true (guardSpelling e) = .inl (waiting + 1) := by
  have hplain := all_isPlain_guardSpelling e
  rw [guardSpelling, List.all_cons, Bool.and_eq_true] at hplain
  rw [guardSpelling]
  exact skip_of_isPlain hplain.2 (waiting + 1)

variable {a : Assembly}

/-- The same state, waiting for so many closing markers. -/
def wait (a : Assembly) (waiting : Nat) : Assembly := { a with skipping := some waiting }

theorem wait_of_skipping {waiting : Nat} (h : a.skipping = some waiting) : a.wait waiting = a := by
  obtain ⟨nodes, frames, skipping, incidents⟩ := a
  subst h
  rfl

/-- A line along which skipping goes on. -/
theorem line_of_skip {w w' : Nat} (h : a.skipping = some w) {ws : List Token}
    (hskip : skip w true ws = .inl w') : a.line (lineOf ws) = a.wait w' := by
  simp only [line, h, lineOf, hskip, wait]

/-! ## Lines that are passed over -/

/-- Lines that leave the state as it is while a conditional is skipped. -/
def Passes (wss : List (List Token)) : Prop :=
  ∀ (a : Assembly) (waiting : Nat), a.skipping = some (waiting + 1) → (wss.map lineOf).foldl line a = a

theorem passes_nil : Passes [] := fun _ _ _ => rfl

theorem Passes.append {wss vss : List (List Token)} (h : Passes wss) (h' : Passes vss) : Passes (wss ++ vss) := by
  intro a waiting hskip
  rw [List.map_append, List.foldl_append, h a waiting hskip, h' a waiting hskip]

theorem passes_line {ws : List Token} (h : ∀ waiting, skip (waiting + 1) true ws = .inl (waiting + 1)) :
    Passes [ws] := by
  intro a waiting hskip
  exact (line_of_skip hskip (h waiting)).trans (wait_of_skipping hskip)

/-- A conditional and its closing marker count up and down. -/
theorem Passes.enclosed {wss : List (List Token)} (h : Passes wss) (guard : Expr) :
    Passes (guardSpelling guard :: (wss ++ [Marker.close.line])) := by
  intro a waiting hskip
  have hopen : a.line (lineOf (guardSpelling guard)) = a.wait (waiting + 2) :=
    line_of_skip hskip (skip_guardSpelling guard _)
  have hclose : (a.wait (waiting + 2)).line (lineOf Marker.close.line)
      = (a.wait (waiting + 2)).wait (waiting + 1) :=
    line_of_skip rfl rfl
  rw [List.map_cons, List.foldl_cons, hopen, List.map_append, List.foldl_append, h _ (waiting + 1) rfl]
  exact hclose.trans (wait_of_skipping hskip)

/-- Words without a marker are passed over, unless they open a conditional. -/
theorem passes_plain {t : Token} {ts : List Token} (hbrace : t.kind ≠ .opening .brace)
    (h : (t :: ts).all Token.isPlain = true) : Passes [t :: ts] := by
  rw [List.all_cons, Bool.and_eq_true] at h
  refine passes_line fun waiting => ?_
  rw [skip]
  split
  · next hkind => exact absurd hkind hbrace
  · next hclose =>
    rw [Token.isPlain, hclose] at h
    cases h.1
  · exact skip_of_isPlain h.2 _

theorem passes_prose (ls : List (List Char)) :
    Passes (ls.map fun line => [Token.textual .text (Text.trimEnd line) (proseLine line)]) := by
  induction ls with
  | nil => exact passes_nil
  | cons l ls ih =>
    rw [List.map_cons]
    exact (passes_plain (fun hkind => TokenKind.noConfusion hkind) rfl).append ih

theorem passes_lines_leaf {n : Node} (hn : n.isConditional = false) (hwhole : n.isWhole = true) :
    Passes n.lines := by
  have hplain := Node.all_isPlain_lines_leaf hn hwhole
  have hone : ∀ {t : Token} {ts : List Token}, t.kind ≠ .opening .brace →
      [t :: ts].all (·.all Token.isPlain) = true → Passes [t :: ts] := by
    intro t ts hbrace h
    rw [List.all_cons, Bool.and_eq_true] at h
    exact passes_plain hbrace h.1
  cases n with
  | conditional => cases hn
  | stray => cases hwhole
  | text content pos =>
    rw [Node.lines]
    exact passes_prose _
  | _ =>
    rw [Node.lines] at hplain ⊢
    exact hone (fun hkind => TokenKind.noConfusion hkind) hplain

/-- A closed conditional is written as its guard, lines that are passed over, and its closing marker. -/
theorem exists_lines_conditional (guard : Expr) {body : List Node} {otherwise : Option (List Node)}
    (opening : Position) {closing : Option Position} (hclosed : closing.isSome = true)
    (hbody : Passes (Node.linesAll body))
    (hbranch : ∀ branch, otherwise = some branch → Passes (Node.linesAll branch)) :
    ∃ wss, Passes wss ∧ (Node.conditional guard body otherwise opening closing).lines
      = guardSpelling guard :: (wss ++ [Marker.close.line]) := by
  obtain ⟨pos, rfl⟩ := Option.isSome_iff_exists.mp hclosed
  cases otherwise with
  | none => exact ⟨_, hbody, by rw [Node.lines]; rfl⟩
  | some branch =>
    have hdivide : Passes [Marker.otherwise.line] := passes_line fun _ => rfl
    refine ⟨_, hbody.append (hdivide.append (hbranch branch rfl)), ?_⟩
    rw [Node.lines, List.append_assoc, List.append_assoc]
    rfl

/-- **A body that lacks no marker is passed over.** -/
theorem passes_linesAll {ns : List Node} (h : Node.Everywhere (fun n => n.isWhole = true) ns) :
    Passes (Node.linesAll ns) := by
  induction ns using Node.body_induction with
  | nil => exact passes_nil
  | leaf n ns hn ih =>
    obtain ⟨hhead, htail⟩ := Node.everywhere_cons.mp h
    rw [Node.everywhere_leaf hn] at hhead
    exact (passes_lines_leaf hn hhead).append (ih htail)
  | conditional guard body otherwise opening closing ns ihBody ihBranch ih =>
    obtain ⟨hhead, htail⟩ := Node.everywhere_cons.mp h
    obtain ⟨hclosed, hbody, hbranch⟩ := Node.everywhere_conditional.mp hhead
    obtain ⟨wss, hpasses, hlines⟩ := exists_lines_conditional guard opening hclosed
      (ihBody hbody) fun branch hsome => ihBranch branch hsome (hbranch branch hsome)
    rw [Node.linesAll, hlines]
    exact (hpasses.enclosed guard).append (ih htail)

/-- The last closing marker that is waited for ends skipping. -/
theorem Passes.closed {wss : List (List Token)} (h : Passes wss) (hskip : a.skipping = some 1) :
    ((wss ++ [Marker.close.line]).map lineOf).foldl line a = { a with skipping := none } := by
  have hclose : a.line (lineOf Marker.close.line) = { a with skipping := none } := by
    rw [line, hskip]
    exact readLine_nil _ _
  rw [List.map_append, List.foldl_append, h a 0 hskip]
  exact hclose

end Gamebook.Assembly
