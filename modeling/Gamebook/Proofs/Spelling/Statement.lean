/-
# Gamebook.Proofs.Spelling.Statement — statements as written and as read back

What a story must look like to be written so that it is read again: the texts in it belong to the classes
that the scanner expects, conditionals do not nest too deep, and markers without a conditional and
conditionals without a closing marker stand only where the reader leaves them (`Node.shapedAll`).

`Node.settleAll` is the body that is read back. It is the body written, with prose cut into lines and
trimmed, choice texts trimmed and places forgotten.
-/
import Gamebook.Story.Statement
import Gamebook.Proofs.Body
import Gamebook.Proofs.Spelling.Line
import Gamebook.Proofs.Spelling.Read

namespace Gamebook

open Gamebook.Lexeme
open Gamebook.Text (trimEnd trim splitLines)

/-! ## What can be written -/

section

variable (Q : Expr → Prop)

/-- A choice can be written, if its expressions are of the class `Q`. -/
def Choice.Writable (c : Choice) : Prop :=
  (∀ g ∈ c.guard, Q g) ∧ ('\n' ∉ c.text.toList ∧ '\r' ∉ c.text.toList) ∧
    ∀ t ∈ c.target, isPassageName t.toList = true

/-- The texts of a statement itself can be written, if its expressions are of the class `Q`. -/
def Node.Writable : Node → Prop
  | .text content _ => '\r' ∉ content.toList
  | .choice c => c.Writable Q
  | .assignment a => isName a.name.toList = true ∧ Q a.value
  | .conditional guard _ _ _ _ => Q guard
  | .script code _ => isScript code.toList = true
  | .divert target _ => isPassageName target.toList = true
  | .stray _ _ => True

instance [DecidablePred Q] : DecidablePred (Choice.Writable Q) :=
  fun c => inferInstanceAs (Decidable ((∀ g ∈ c.guard, Q g) ∧ _ ∧ ∀ t ∈ c.target, _))

instance [DecidablePred Q] : DecidablePred (Node.Writable Q) := fun n =>
  match n with
  | .text content _ => inferInstanceAs (Decidable ('\r' ∉ content.toList))
  | .choice c => inferInstanceAs (Decidable (c.Writable Q))
  | .assignment a => inferInstanceAs (Decidable (_ ∧ Q a.value))
  | .conditional guard _ _ _ _ => inferInstanceAs (Decidable (Q guard))
  | .script code _ => inferInstanceAs (Decidable (isScript code.toList = true))
  | .divert target _ => inferInstanceAs (Decidable (isPassageName target.toList = true))
  | .stray _ _ => inferInstanceAs (Decidable True)

end

/-- What a block is: the body of a passage or one of the branches of a conditional. -/
inductive BlockRole where
  | body
  | first
  | second
  deriving DecidableEq

mutual

/-- Whether a statement may stand in a block of this role. Only the last one of a block may lack its
closing marker. -/
def Node.shaped (role : BlockRole) (last : Bool) : Node → Bool
  | .conditional _ body none _ closing =>
    (closing.isSome || last) && Node.shapedAll .first closing.isNone body
  | .conditional _ body (some branch) _ closing =>
    (closing.isSome || last) && Node.shapedAll .first false body &&
      Node.shapedAll .second closing.isNone branch
  | .stray .close _ => role = .body
  | .stray .otherwise _ => role ≠ .first
  | .text _ _ | .choice _ | .assignment _ | .script _ _ | .divert _ _ => true

/-- Whether the statements may make up a block of this role. -/
def Node.shapedAll (role : BlockRole) (last : Bool) : List Node → Bool
  | [] => true
  | n :: ns => n.shaped role (last && ns.isEmpty) && Node.shapedAll role last ns

end

mutual

/-- How many conditionals stand around one another in a statement. -/
def Node.height : Node → Nat
  | .conditional _ body none _ _ => Node.heightAll body + 1
  | .conditional _ body (some branch) _ _ => max (Node.heightAll body) (Node.heightAll branch) + 1
  | _ => 0

/-- How many conditionals stand around one another in a block. -/
def Node.heightAll : List Node → Nat
  | [] => 0
  | n :: ns => max n.height (Node.heightAll ns)

end

/-! ## What is read back -/

/-- A choice as it is read back. -/
def Choice.settle (c : Choice) : Choice :=
  ⟨String.ofList (trim c.text.toList), c.guard.map (Expr.relocate .erase), c.target, .unplaced⟩

mutual

/-- A statement as it is read back. -/
def Node.settle : Node → List Node
  | .text content _ =>
    (splitLines content.toList).map fun line => .text (String.ofList (trimEnd line)) .unplaced
  | .choice c => [.choice c.settle]
  | .assignment a => [.assignment (a.relocate .erase)]
  | .conditional guard body none _ closing =>
    [.conditional (guard.relocate .erase) (Node.settleAll body) none .unplaced (closing.map .erase)]
  | .conditional guard body (some branch) _ closing =>
    [.conditional (guard.relocate .erase) (Node.settleAll body) (some (Node.settleAll branch)) .unplaced
      (closing.map .erase)]
  | .script code _ => [.script code .unplaced]
  | .divert target _ => [.divert target .unplaced]
  | .stray marker _ => [.stray marker .unplaced]

/-- A body as it is read back. -/
def Node.settleAll : List Node → List Node
  | [] => []
  | n :: ns => n.settle ++ Node.settleAll ns

end

/-! ## Lines of words -/

/-- The line of a marker. -/
def Marker.line (m : Marker) : List Token := [.word (.marker m) m.spelling.toList]

mutual

/-- The lines of a statement, as words. -/
def Node.lines : Node → List (List Token)
  | .text content _ =>
    (splitLines content.toList).map fun line => [.textual .text (trimEnd line) (proseLine line)]
  | .choice c => [choiceSpelling c]
  | .assignment a => [assignmentSpelling a]
  | .conditional guard body none _ closing =>
    guardSpelling guard :: (Node.linesAll body ++ (closing.map fun _ => Marker.close.line).toList)
  | .conditional guard body (some branch) _ closing =>
    guardSpelling guard :: (Node.linesAll body ++ Marker.otherwise.line :: (Node.linesAll branch ++
      (closing.map fun _ => Marker.close.line).toList))
  | .script code _ => [[.textual .script code.toList (scriptChars code)]]
  | .divert target _ => [jump target]
  | .stray marker _ => [marker.line]

/-- The lines of a body, as words. -/
def Node.linesAll : List Node → List (List Token)
  | [] => []
  | n :: ns => n.lines ++ Node.linesAll ns

end

/-- The words of lines, each with its line break. -/
def unlines (ls : List (List Token)) : List Token := ls.flatMap (· ++ [.lineBreak])

@[simp] theorem unlines_nil : unlines [] = [] := rfl

@[simp] theorem unlines_cons (l : List Token) (ls : List (List Token)) :
    unlines (l :: ls) = l ++ .lineBreak :: unlines ls := by simp [unlines]

@[simp] theorem unlines_append (ls ms : List (List Token)) :
    unlines (ls ++ ms) = unlines ls ++ unlines ms := by simp [unlines]

/-! ## The text of a body -/

/-- Lines of prose are written one by one. -/
theorem words_prose {ls : List (List Char)} (h : ∀ l ∈ ls, '\n' ∉ l) (depth : Nat) (rest : List Char) :
    Lexeme.words .lineStart
        (ls.flatMap (fun line => renderLine (indentation depth ++ proseLine line)) ++ rest)
      = unlines (ls.map fun line => [.textual .text (trimEnd line) (proseLine line)]) ++
        Lexeme.words .lineStart rest := by
  induction ls with
  | nil => rfl
  | cons l ls ih =>
    rw [List.forall_mem_cons] at h
    rw [List.flatMap_cons, List.append_assoc, (spells_prose h.1).indented, ih h.2, List.map_cons,
      unlines_cons, List.append_assoc]
    rfl

/-- The closing line of a conditional as written, if there is one. -/
def closingChars (depth : Nat) : Option Position → List Char
  | none => []
  | some _ => renderLine (indentation depth ++ Marker.close.spelling.toList)

theorem words_closingChars (depth : Nat) (closing : Option Position) (rest : List Char) :
    Lexeme.words .lineStart (closingChars depth closing ++ rest)
      = unlines (closing.map fun _ => Marker.close.line).toList ++ Lexeme.words .lineStart rest := by
  cases closing with
  | none => rfl
  | some pos =>
    rw [closingChars, (spells_marker .close).indented]
    rfl

theorem Node.chars_conditional_none (depth : Nat) (guard : Expr) (body : List Node)
    (opening : Position) (closing : Option Position) :
    (Node.conditional guard body none opening closing).chars depth
      = renderLine (indentation depth ++ '{' :: (guard.chars ++ ['}'])) ++
        (Node.charsAll (depth + 1) body ++ closingChars depth closing) := by
  cases closing <;> simp [Node.chars, closingChars]

theorem Node.chars_conditional_some (depth : Nat) (guard : Expr) (body branch : List Node)
    (opening : Position) (closing : Option Position) :
    (Node.conditional guard body (some branch) opening closing).chars depth
      = renderLine (indentation depth ++ '{' :: (guard.chars ++ ['}'])) ++
        (Node.charsAll (depth + 1) body ++
          (renderLine (indentation depth ++ Marker.otherwise.spelling.toList) ++
            (Node.charsAll (depth + 1) branch ++ closingChars depth closing))) := by
  cases closing <;> simp [Node.chars, closingChars]

section

variable {Q : Expr → Prop} (hQ : ∀ e, Q e → e.isWritten = true)

include hQ

/-- A statement that holds no body is written in its lines. -/
theorem Node.words_chars_leaf {n : Node} (hn : n.isConditional = false) (h : n.Writable Q) (depth : Nat)
    (rest : List Char) :
    Lexeme.words .lineStart (n.chars depth ++ rest)
      = unlines n.lines ++ Lexeme.words .lineStart rest := by
  have hline : ∀ {cs : List Char} {ws : List Token}, Spells cs ws →
      Lexeme.words .lineStart (renderLine (indentation depth ++ cs) ++ rest)
        = unlines [ws] ++ Lexeme.words .lineStart rest := by
    intro cs ws hspells
    rw [hspells.indented, unlines_cons, unlines_nil, List.append_assoc]
    rfl
  cases n with
  | conditional => cases hn
  | text content pos =>
    rw [Node.chars, Node.lines]
    exact words_prose (fun l hl => (Text.mem_splitLines hl).1) depth rest
  | choice c =>
    rw [Node.chars, Node.lines]
    exact hline (spells_choice (fun g hg => hQ g (h.1 g hg)) h.2.1.1 h.2.2)
  | assignment a =>
    rw [Node.chars, Node.lines]
    exact hline (spells_assignment h.1 (hQ _ h.2))
  | script code pos =>
    rw [Node.chars, Node.lines]
    exact hline (spells_script h)
  | divert target pos =>
    rw [Node.chars, Node.lines]
    exact hline (spells_divert h)
  | stray marker pos =>
    rw [Node.chars, Node.lines]
    exact hline (spells_marker marker)

/-- **The canonical text of a body is cut into its lines.** -/
theorem Node.words_charsAll {ns : List Node} (h : Node.Everywhere (Node.Writable Q) ns) (depth : Nat)
    (rest : List Char) :
    Lexeme.words .lineStart (Node.charsAll depth ns ++ rest)
      = unlines (Node.linesAll ns) ++ Lexeme.words .lineStart rest := by
  induction ns using Node.body_induction generalizing depth rest with
  | nil => rfl
  | leaf n ns hn ih =>
    obtain ⟨hhead, htail⟩ := Node.everywhere_cons.mp h
    rw [Node.everywhere_leaf hn] at hhead
    rw [Node.charsAll, List.append_assoc, Node.words_chars_leaf hQ hn hhead, ih htail, Node.linesAll,
      unlines_append, List.append_assoc]
  | conditional guard body otherwise opening closing ns ihBody ihBranch ih =>
    obtain ⟨hhead, htail⟩ := Node.everywhere_cons.mp h
    obtain ⟨hguard, hbody, hbranch⟩ := Node.everywhere_conditional.mp hhead
    have hopen := (spells_condition (hQ guard hguard)).indented depth
    cases otherwise with
    | none =>
      rw [Node.charsAll, Node.chars_conditional_none, List.append_assoc, List.append_assoc,
        List.append_assoc, hopen, ihBody hbody, words_closingChars, ih htail, Node.linesAll, Node.lines]
      simp
    | some branch =>
      have hdivide := (spells_marker .otherwise).indented depth
      rw [Node.charsAll, Node.chars_conditional_some, List.append_assoc, List.append_assoc,
        List.append_assoc, List.append_assoc, List.append_assoc, hopen, ihBody hbody, hdivide,
        ihBranch branch rfl (hbranch branch rfl), words_closingChars, ih htail, Node.linesAll,
        Node.lines]
      simp [Marker.line]

end

end Gamebook
