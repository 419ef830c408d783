/-
# Gamebook.Proofs.Pruning — a story without the conditionals that are nested too deep

Reading skips a conditional that stands inside `maxNesting` others. Told of the story itself, what is left is
`Story.prune`, and `Story.deepPlaces` lists the places in the canonical text of the braces that open what was cut
away, in the order of the text. These are braces indeed (`Story.braceAt_deepPlaces`).
-/
import Gamebook.Proofs.Spelling.Placed

namespace Gamebook

open Gamebook.Lexeme

/-! ## What is left, and where it was cut -/

namespace Node

mutual

/-- What is left of a statement inside `depth` conditionals without the conditionals that are nested too deep. -/
def prune (depth : Nat) : Node → List Node
  | conditional guard body none opening closing =>
    if maxNesting ≤ depth then []
    else [conditional guard (pruneAll (depth + 1) body) none opening closing]
  | conditional guard body (some branch) opening closing =>
    if maxNesting ≤ depth then []
    else [conditional guard (pruneAll (depth + 1) body) (some (pruneAll (depth + 1) branch)) opening closing]
  | n => [n]

/-- What is left of a body inside `depth` conditionals. -/
def pruneAll (depth : Nat) : List Node → List Node
  | [] => []
  | n :: ns => n.prune depth ++ pruneAll depth ns

end

/-- The line that opens a conditional, as written. -/
def guardLine (depth : Nat) (guard : Expr) : List Char :=
  renderLine (indentation depth ++ '{' :: (guard.chars ++ ['}']))

/-- The line of a marker, as written. -/
def markerLine (depth : Nat) (marker : Marker) : List Char :=
  renderLine (indentation depth ++ marker.spelling.toList)

mutual

/-- Where the braces stand that open the conditionals nested too deep, in a statement that is written inside
`depth` conditionals from `pos` on. Inside such a conditional there is nothing more to find. -/
def deepPlaces (depth : Nat) (pos : Position) : Node → List Position
  | conditional guard body none _ _ =>
    if maxNesting ≤ depth then [pos.advance (indentation depth)]
    else deepPlacesAll (depth + 1) (pos.advance (guardLine depth guard)) body
  | conditional guard body (some branch) _ _ =>
    if maxNesting ≤ depth then [pos.advance (indentation depth)]
    else
      let first := pos.advance (guardLine depth guard)
      let second := (first.advance (charsAll (depth + 1) body)).advance (markerLine depth .otherwise)
      deepPlacesAll (depth + 1) first body ++ deepPlacesAll (depth + 1) second branch
  | _ => []

/-- Where these braces stand in a body. -/
def deepPlacesAll (depth : Nat) (pos : Position) : List Node → List Position
  | [] => []
  | n :: ns => n.deepPlaces depth pos ++ deepPlacesAll depth (pos.advance (n.chars depth)) ns

end

end Node

namespace Passage

/-- A passage without the conditionals that are nested too deep. -/
def prune (p : Passage) : Passage := { p with body := Node.pruneAll 0 p.body }

/-- Where the braces of these conditionals stand in a passage that is written from `pos` on. -/
def deepPlaces (pos : Position) (p : Passage) : List Position :=
  Node.deepPlacesAll 0 (pos.advance p.headerChars) p.body

/-- Where they stand in passages that are written from `pos` on, with blank lines between them. -/
def deepPlacesAll (pos : Position) : List Passage → List Position
  | [] => []
  | p :: ps => p.deepPlaces pos ++ deepPlacesAll ((pos.advance p.chars).advance ['\n']) ps

end Passage

namespace Story

/-- A story without the conditionals that are nested too deep. -/
def prune (s : Story) : Story := { s with passages := s.passages.map Passage.prune }

/-- Where the braces of these conditionals stand in the canonical text. -/
def deepPlaces (s : Story) : List Position := Passage.deepPlacesAll (Position.start.advance s.lead) s.sorted

end Story

/-! ## What pruning leaves -/

namespace Node

theorem deepPlaces_leaf {n : Node} (hn : n.isConditional = false) (depth : Nat) (pos : Position) :
    n.deepPlaces depth pos = [] := by
  cases n with
  | conditional => cases hn
  | _ => rfl

theorem pruneAll_append (depth : Nat) (ns ms : List Node) :
    pruneAll depth (ns ++ ms) = pruneAll depth ns ++ pruneAll depth ms := by
  induction ns with
  | nil => rfl
  | cons n ns ih => rw [List.cons_append, pruneAll, pruneAll, ih, List.append_assoc]

theorem pruneAll_settle_tooDeep {depth : Nat} (hdepth : maxNesting ≤ depth) (guard : Expr) (body : List Node)
    (otherwise : Option (List Node)) (opening : Position) (closing : Option Position) :
    pruneAll depth (conditional guard body otherwise opening closing).settle = [] := by
  cases otherwise <;> simp [settle, pruneAll, prune, hdepth]

theorem deepPlaces_tooDeep {depth : Nat} (hdepth : maxNesting ≤ depth) (pos : Position) (guard : Expr)
    (body : List Node) (otherwise : Option (List Node)) (opening : Position) (closing : Option Position) :
    (conditional guard body otherwise opening closing).deepPlaces depth pos
      = [pos.advance (indentation depth)] := by
  cases otherwise <;> simp [deepPlaces, hdepth]

theorem pruneAll_settle_conditional {depth : Nat} (hdepth : depth < maxNesting) (guard : Expr) (body : List Node)
    (otherwise : Option (List Node)) (opening closing : Position) :
    pruneAll depth (conditional guard body otherwise opening (some closing)).settle
      = [conditional (guard.relocate .erase) (pruneAll (depth + 1) (settleAll body))
          (otherwise.map fun branch => pruneAll (depth + 1) (settleAll branch)) .unplaced (some .unplaced)] := by
  cases otherwise <;> simp [settle, pruneAll, prune, Nat.not_le.mpr hdepth, Position.erase]

theorem pruneAll_settle_leaf {n : Node} (hn : n.isConditional = false) (depth : Nat) :
    pruneAll depth n.settle = n.settle := by
  cases n with
  | conditional => cases hn
  | text content pos =>
    rw [settle]
    generalize Text.splitLines content.toList = ls
    induction ls with
    | nil => rfl
    | cons l ls ih =>
      rw [List.map_cons, pruneAll, ih]
      rfl
  | _ => rfl

end Node

/-! ## Where the braces stand -/

/-- A brace stands at `place` in a text that is written from `pos` on. -/
def BraceAt (text : List Char) (pos place : Position) : Prop :=
  ∃ before after, text = before ++ '{' :: after ∧ place = pos.advance before

namespace BraceAt

variable {text : List Char} {pos place : Position}

theorem append (h : BraceAt text pos place) (more : List Char) : BraceAt (text ++ more) pos place := by
  obtain ⟨before, after, rfl, hplace⟩ := h
  exact ⟨before, after ++ more, by rw [List.append_assoc, List.cons_append], hplace⟩

theorem behind {lead : List Char} (h : BraceAt text (pos.advance lead) place) :
    BraceAt (lead ++ text) pos place := by
  obtain ⟨before, after, rfl, hplace⟩ := h
  exact ⟨lead ++ before, after, by rw [List.append_assoc], by rw [hplace, Position.advance_append]⟩

end BraceAt

theorem Node.braceAt_deepPlacesAll {ns : List Node} {depth : Nat} {pos : Position} :
    ∀ place ∈ deepPlacesAll depth pos ns, BraceAt (charsAll depth ns) pos place := by
  induction ns using body_induction generalizing depth pos with
  | nil =>
    intro place hplace
    cases hplace
  | leaf n ns hn ih =>
    intro place hplace
    rw [deepPlacesAll, deepPlaces_leaf hn, List.nil_append] at hplace
    rw [charsAll]
    exact (ih place hplace).behind
  | conditional guard body otherwise opening closing ns ihBody ihBranch ih =>
    intro place hplace
    rw [deepPlacesAll, List.mem_append] at hplace
    rw [charsAll]
    rcases hplace with hplace | hplace
    · refine BraceAt.append ?_ _
      rcases Nat.lt_or_ge depth maxNesting with hdepth | hdepth
      · cases otherwise with
        | none =>
          rw [deepPlaces, if_neg (Nat.not_le.mpr hdepth)] at hplace
          rw [chars_conditional_none]
          exact ((ihBody place hplace).append _).behind
        | some branch =>
          rw [deepPlaces, if_neg (Nat.not_le.mpr hdepth), List.mem_append] at hplace
          rw [chars_conditional_some]
          rcases hplace with hplace | hplace
          · exact ((ihBody place hplace).append _).behind
          · exact ((ihBranch branch rfl place hplace).append _).behind.behind.behind
      · rw [deepPlaces_tooDeep hdepth, List.mem_singleton] at hplace
        obtain ⟨text, htext⟩ := exists_chars_conditional depth guard body otherwise opening closing
        exact ⟨indentation depth, text, htext, hplace⟩
    · exact (ih place hplace).behind

theorem Passage.braceAt_deepPlacesAll {ps : List Passage} {pos : Position} :
    ∀ place ∈ deepPlacesAll pos ps, BraceAt (['\n'].intercalate (ps.map chars)) pos place := by
  induction ps generalizing pos with
  | nil =>
    intro place hplace
    cases hplace
  | cons p ps ih =>
    intro place hplace
    have hhead : place ∈ p.deepPlaces pos → BraceAt p.chars pos place :=
      fun h => (Node.braceAt_deepPlacesAll place h).behind
    rw [deepPlacesAll, List.mem_append] at hplace
    cases ps with
    | nil =>
      rw [List.map_singleton, List.intercalate_singleton]
      exact hhead (hplace.resolve_right List.not_mem_nil)
    | cons q ps =>
      rw [List.map_cons, List.map_cons, List.intercalate_cons_cons, ← List.map_cons, List.append_assoc]
      rcases hplace with hplace | hplace
      · exact (hhead hplace).append _
      · exact (ih place hplace).behind.behind

theorem Story.braceAt_deepPlaces (s : Story) : ∀ place ∈ s.deepPlaces, BraceAt s.chars .start place := by
  intro place hplace
  rw [chars_eq]
  exact (Passage.braceAt_deepPlacesAll place hplace).behind

end Gamebook
