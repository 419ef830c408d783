/-
# Gamebook.Proofs.Mistakes — simplifying a story adds no error

The errors of a statement itself depend on the names of the passages, on where the statement leads and on how
it is closed, never on the expressions in it (`Validate.mistakes`). Simplifying keeps all names, folds
expressions and otherwise only takes statements away, so the errors that stay are those the story had, in their
order. Where nothing is taken away, all of them stay (`Story.errors_simplify_sublist`).
-/
import Gamebook.Lexed
import Gamebook.Proofs.Simplify
import Gamebook.Proofs.Validation
import Gamebook.Story.Read

namespace Gamebook

namespace Validate

/-! ## The errors of one statement -/

/-- The errors of a statement, those of the statements inside it left out. -/
def mistakes (s : Story) (n : Node) : List Diagnostic := (node s .empty n).filter Diagnostic.isError

variable {s s' : Story}

/-- Which variables are assigned is nothing to the errors. -/
theorem filter_isError_node (s : Story) (assigned : NameSet) (n : Node) :
    (node s assigned n).filter Diagnostic.isError = mistakes s n := by
  cases n with
  | choice c => rw [mistakes, node, node, filter_isError_choice, filter_isError_choice]
  | assignment a => rw [mistakes, node, node, filter_isError_reads, filter_isError_reads]
  | conditional guard body otherwise opening closing =>
    rw [mistakes, node, node, List.filter_append, List.filter_append, filter_isError_reads, filter_isError_reads]
  | _ => rfl

/-- Of the story only the names of its passages matter. -/
theorem mistakes_congr (h : s'.names = s.names) (n : Node) : mistakes s' n = mistakes s n := by
  have hreference : ∀ target pos, reference s' target pos = reference s target pos := by
    intro target pos
    rw [reference_eq, reference_eq, h]
  cases n with
  | choice c =>
    rw [mistakes, mistakes, node, node, filter_isError_choice, filter_isError_choice]
    simp only [hreference]
  | divert target pos => rw [mistakes, mistakes, node, node, hreference]
  | _ => rfl

theorem mistakes_choice_guard (s : Story) (c : Choice) (guard : Option Expr) :
    mistakes s (.choice { c with guard := guard }) = mistakes s (.choice c) := by
  rw [mistakes, mistakes, node, node, filter_isError_choice, filter_isError_choice]

theorem mistakes_assignment (s : Story) (a : Assignment) : mistakes s (.assignment a) = [] :=
  filter_isError_reads a.value

theorem mistakes_conditional (s : Story) (guard guard' : Expr) (body body' : List Node)
    (otherwise otherwise' : Option (List Node)) (opening : Position) (closing : Option Position) :
    mistakes s (.conditional guard body otherwise opening closing)
      = mistakes s (.conditional guard' body' otherwise' opening closing) := by
  rw [mistakes, mistakes, node, node, List.filter_append, List.filter_append, filter_isError_reads,
    filter_isError_reads]

/-! ## The errors of a body -/

/-- The errors of the statements of a body, at every depth. -/
def mistakesAll (s : Story) (ns : List Node) : List Diagnostic := (Node.walkAll ns).flatMap (mistakes s)

theorem mistakesAll_nil (s : Story) : mistakesAll s [] = [] := rfl

theorem mistakesAll_cons (s : Story) (n : Node) (ns : List Node) :
    mistakesAll s (n :: ns) = n.walk.flatMap (mistakes s) ++ mistakesAll s ns := by
  rw [mistakesAll, Node.walkAll, List.flatMap_append, mistakesAll]

theorem mistakesAll_append (s : Story) (ns ms : List Node) :
    mistakesAll s (ns ++ ms) = mistakesAll s ns ++ mistakesAll s ms := by
  induction ns with
  | nil => rfl
  | cons n ns ih => rw [List.cons_append, mistakesAll_cons, mistakesAll_cons, ih, List.append_assoc]

theorem mistakesAll_leaf (s : Story) {n : Node} (h : n.isConditional = false) :
    mistakesAll s [n] = mistakes s n := by
  rw [mistakesAll_cons, Node.walk_leaf h, List.flatMap_singleton, mistakesAll_nil, List.append_nil]

theorem mistakesAll_conditional (s : Story) (guard : Expr) (body : List Node)
    (otherwise : Option (List Node)) (opening : Position) (closing : Option Position) :
    mistakesAll s [.conditional guard body otherwise opening closing]
      = mistakes s (.conditional guard body otherwise opening closing) ++
        (mistakesAll s body ++ mistakesAll s (otherwise.getD [])) := by
  have hbranch : ((otherwise.map Node.walkAll).getD []).flatMap (mistakes s)
      = mistakesAll s (otherwise.getD []) := by
    cases otherwise <;> rfl
  rw [mistakesAll_cons, Node.walk_conditional, List.flatMap_cons, List.flatMap_append, hbranch, mistakesAll_nil,
    List.append_nil]
  rfl

/-- A statement that holds no body loses its errors only if it goes. -/
theorem mistakesAll_simplify_leaf (s : Story) {n : Node} (h : n.isConditional = false) :
    (mistakesAll s n.simplify).Sublist (mistakes s n) ∧
      (n.removals = [] → mistakesAll s n.simplify = mistakes s n) := by
  cases n with
  | conditional => cases h
  | choice c =>
    rw [Node.simplify, Node.removals]
    cases c.simplify?_cases with
    | free _ hc =>
      rw [hc, mistakesAll_leaf s rfl, mistakes_choice_guard]
      exact ⟨.refl _, fun _ => rfl⟩
    | gone _ hc =>
      rw [hc]
      exact ⟨List.nil_sublist _, fun hnone => absurd hnone (List.cons_ne_nil _ _)⟩
    | kept hc =>
      rw [hc, mistakesAll_leaf s rfl, mistakes_choice_guard]
      exact ⟨.refl _, fun _ => rfl⟩
  | assignment a =>
    rw [Node.simplify, mistakesAll_leaf s rfl, mistakes_assignment, mistakes_assignment]
    exact ⟨.refl _, fun _ => rfl⟩
  | _ =>
    rw [Node.simplify, mistakesAll_leaf s rfl]
    exact ⟨.refl _, fun _ => rfl⟩

/-- A conditional whose guard is known loses its own errors and those of the other branch. -/
theorem mistakesAll_select_sublist (s : Story) (guard : Expr) (body : List Node)
    (otherwise : Option (List Node)) (opening : Position) (closing : Option Position) :
    (mistakesAll s (Node.select guard body otherwise opening closing)).Sublist
      (mistakesAll s [.conditional guard body otherwise opening closing]) := by
  unfold Node.select
  split
  · rw [mistakesAll_conditional]
    exact (List.sublist_append_left _ _).trans (List.sublist_append_right _ _)
  · rw [mistakesAll_conditional]
    exact (List.sublist_append_right _ _).trans (List.sublist_append_right _ _)
  · exact .refl _

/-- Nothing goes with a conditional if nothing goes inside it and its guard is not known. -/
theorem removals_conditional_eq_nil_iff {guard : Expr} {body : List Node} {otherwise : Option (List Node)}
    {opening : Position} {closing : Option Position} :
    (Node.conditional guard body otherwise opening closing).removals = [] ↔
      Node.removalsAll body = [] ∧ (∀ branch ∈ otherwise, Node.removalsAll branch = []) ∧
        Node.selected? guard.fold closing = none := by
  cases otherwise <;> cases hselected : Node.selected? guard.fold closing <;> simp [Node.removals, hselected]

theorem select_eq_of_selected? {guard : Expr} {closing : Option Position}
    (h : Node.selected? guard closing = none) (body : List Node) (otherwise : Option (List Node))
    (opening : Position) :
    Node.select guard body otherwise opening closing = [.conditional guard body otherwise opening closing] := by
  unfold Node.select
  split
  · cases h
  · cases h
  · rfl

/-- **Simplifying a body adds no error,** and takes one away only with something that goes. -/
theorem mistakesAll_simplifyAll (s : Story) (ns : List Node) :
    (mistakesAll s (Node.simplifyAll ns)).Sublist (mistakesAll s ns) ∧
      (Node.removalsAll ns = [] → mistakesAll s (Node.simplifyAll ns) = mistakesAll s ns) := by
  induction ns using Node.body_induction with
  | nil => exact ⟨.slnil, fun _ => rfl⟩
  | leaf n ns hn ih =>
    obtain ⟨hsub, heq⟩ := mistakesAll_simplify_leaf s hn
    rw [Node.simplifyAll, mistakesAll_append, Node.removalsAll, mistakesAll_cons, Node.walk_leaf hn,
      List.flatMap_singleton]
    refine ⟨hsub.append ih.1, fun hnone => ?_⟩
    obtain ⟨hhead, htail⟩ := List.append_eq_nil_iff.mp hnone
    rw [heq hhead, ih.2 htail]
  | conditional guard body otherwise opening closing ns ihBody ihBranch ih =>
    have hbranch : (mistakesAll s ((otherwise.map Node.simplifyAll).getD [])).Sublist
        (mistakesAll s (otherwise.getD [])) := by
      cases otherwise with
      | none => exact .slnil
      | some branch => exact (ihBranch branch rfl).1
    -- The conditional with simplified parts stands between the given one and what takes its place.
    have hparts := (mistakesAll_select_sublist s guard.fold (Node.simplifyAll body)
      (otherwise.map Node.simplifyAll) opening closing)
    rw [mistakesAll_conditional, mistakes_conditional s guard.fold guard _ body _ otherwise] at hparts
    rw [Node.simplifyAll, Node.simplify_conditional, mistakesAll_append, ← List.singleton_append (l := ns),
      mistakesAll_append, mistakesAll_conditional, List.singleton_append, Node.removalsAll]
    refine ⟨(hparts.trans ((List.Sublist.refl _).append (ihBody.1.append hbranch))).append ih.1, fun hnone => ?_⟩
    obtain ⟨hhead, htail⟩ := List.append_eq_nil_iff.mp hnone
    obtain ⟨hbody, hother, hkept⟩ := removals_conditional_eq_nil_iff.mp hhead
    have hbranchEq :
        mistakesAll s ((otherwise.map Node.simplifyAll).getD []) = mistakesAll s (otherwise.getD []) := by
      cases otherwise with
      | none => rfl
      | some branch => exact (ihBranch branch rfl).2 (hother branch rfl)
    rw [select_eq_of_selected? hkept, mistakesAll_conditional,
      mistakes_conditional s guard.fold guard _ body _ otherwise, ihBody.2 hbody, hbranchEq, ih.2 htail]

end Validate

/-! ## Stories -/

namespace Story

theorem names_simplify (s : Story) : s.simplify.names = s.names := by
  rw [names, names, simplify, List.map_map]
  rfl

/-- The errors of a check: those of the passages, then those of the bodies. -/
theorem filter_isError_validate_eq (s : Story) :
    s.validate.filter Diagnostic.isError
      = Validate.duplicates [] s.passages ++ s.passages.flatMap fun p => Validate.mistakesAll s p.body := by
  rw [Validate.filter_isError_validate, walk, List.flatMap_assoc]
  simp only [Validate.filter_isError_node, Validate.mistakesAll]

end Story

/-- Names and places of passages are all that repeated names are told by. -/
theorem Validate.duplicates_map_simplify (earlier ps : List Passage) :
    duplicates (earlier.map Passage.simplify) (ps.map Passage.simplify) = duplicates earlier ps := by
  induction ps generalizing earlier with
  | nil => rfl
  | cons p ps ih =>
    have hrest := ih (earlier ++ [p])
    rw [List.map_append, List.map_singleton] at hrest
    rw [List.map_cons, duplicates, hrest, duplicates, List.find?_map, Option.map_map]
    rfl

/-- **Simplifying a story adds no error.** The errors of the simplified story are errors of the story, the same
reports in the same order. All of them stay if nothing goes. -/
theorem Story.errors_simplify_sublist (s : Story) :
    (s.simplify.validate.filter Diagnostic.isError).Sublist (s.validate.filter Diagnostic.isError) ∧
      (s.removals = [] →
        s.simplify.validate.filter Diagnostic.isError = s.validate.filter Diagnostic.isError) := by
  have hnames : ∀ p : Passage, Validate.mistakesAll s.simplify p.body = Validate.mistakesAll s p.body := by
    intro p
    exact List.flatMap_congr fun n _ => Validate.mistakes_congr s.names_simplify n
  have hduplicates : Validate.duplicates [] s.simplify.passages = Validate.duplicates [] s.passages :=
    Validate.duplicates_map_simplify [] s.passages
  have hbodies : s.simplify.passages.flatMap (fun p => Validate.mistakesAll s.simplify p.body)
      = s.passages.flatMap fun p => Validate.mistakesAll s (Node.simplifyAll p.body) := by
    simp only [hnames]
    exact List.flatMap_map Passage.simplify _ s.passages
  rw [filter_isError_validate_eq, filter_isError_validate_eq, hduplicates, hbodies]
  constructor
  · refine (List.Sublist.refl _).append ?_
    induction s.passages with
    | nil => exact .slnil
    | cons p ps ih =>
      rw [List.flatMap_cons, List.flatMap_cons]
      exact (Validate.mistakesAll_simplifyAll s p.body).1.append ih
  · intro hnone
    refine congrArg _ (List.flatMap_congr fun p hp => ?_)
    exact (Validate.mistakesAll_simplifyAll s p.body).2 (List.flatMap_eq_nil_iff.mp hnone p hp)

/-- A target that is no passage: its error stays where the guard is not known, and goes with the branch of a
guard that is. -/
theorem Story.errors_simplify_sublist_gate :
    let gate := fun guard : String =>
      (Story.ofTokens (Lexed.ofSource (":: Hall\n\x7b" ++ guard ++ "\x7d\n-> Attic\n\x7b/\x7d\n")).tokens).story
    (gate "$open").removals = [] ∧
      (gate "$open").simplify.validate.filter Diagnostic.isError
        = (gate "$open").validate.filter Diagnostic.isError ∧
      ((gate "1 > 2").simplify.validate.filter Diagnostic.isError).Sublist
        ((gate "1 > 2").validate.filter Diagnostic.isError) ∧
      (gate "1 > 2").simplify.validate.filter Diagnostic.isError
        ≠ (gate "1 > 2").validate.filter Diagnostic.isError := by
  intro gate
  have hnone : (gate "$open").removals = [] := by decide +kernel
  exact ⟨hnone, (Story.errors_simplify_sublist _).2 hnone, (Story.errors_simplify_sublist _).1,
    by decide +kernel⟩

end Gamebook
