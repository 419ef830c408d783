/-
# Gamebook.Proofs.Checking — what a checker reports

A checker takes what it has met from statement to statement, into conditionals and out of them. Here its reports are
said without that state (`Story.validate_eq`). The reports on a statement come from the story alone
(`Validate.node`), the statements are those of `Story.walk` in its order, and of the reports on one variable only
the first is kept (`Validate.firstReads`).

A checker changes in one way only, by reports and targets that are added to it (`Checker.add`), and what two parts of
a story add one after the other is added by both together. So its recursion over the statements is a walk
(`Checker.nodes_eq`).
-/
import Gamebook.Diagnostic.Validate
import Gamebook.Proofs.Body

namespace Gamebook

theorem Story.isSome_find? (s : Story) (name : String) : (s.find? name).isSome = s.defines name := by
  rw [Bool.eq_iff_iff, Story.find?, List.find?_isSome, Story.defines, Story.names, List.contains_iff_mem, List.mem_map]
  simp only [decide_eq_true_eq]

namespace Validate

/-! ## Reports, one by one -/

/-- The reports of repeated names, when the passages `earlier` come before. -/
def duplicates (earlier : List Passage) : List Passage → List Diagnostic
  | [] => []
  | p :: ps =>
    ((earlier.find? fun q => q.name = p.name).map fun first => duplicate first.pos p).toList ++
      duplicates (earlier ++ [p]) ps

/-- The reports of all readings of unassigned variables. -/
def reads (assigned : NameSet) (e : Expr) : List Diagnostic :=
  e.reads.filterMap fun r => if assigned.contains r.1 then none else some (unassigned r.1 r.2)

/-- The report of a target that is no passage. -/
def reference (s : Story) (target : String) (pos : Position) : List Diagnostic :=
  if s.defines target then [] else [unknown target pos]

/-- The reports on a choice. -/
def choice (s : Story) (assigned : NameSet) (c : Choice) : List Diagnostic :=
  (match c.guard with
    | none => []
    | some g => reads assigned g) ++
  (if (Text.trim c.text.toList).isEmpty then [untitled c.pos] else []) ++
  (match c.target with
    | none => []
    | some t => reference s t c.pos)

/-- The reports on one statement, those inside it left out. A variable may be reported more than
once. -/
def node (s : Story) (assigned : NameSet) : Node → List Diagnostic
  | .text _ _ | .script _ _ => []
  | .choice c => choice s assigned c
  | .assignment a => reads assigned a.value
  | .conditional guard _ _ opening closing =>
    reads assigned guard ++ if closing.isNone then [unterminated opening] else []
  | .divert target pos => reference s target pos
  | .stray marker pos => [unmatched marker pos]

/-- Keeps of the reports of each variable the first, when the variables `seen` have been reported. -/
def firstReads (seen : NameSet) : List Diagnostic → List Diagnostic
  | [] => []
  | d :: ds =>
    match d.code with
    | .unassignedVariable name =>
      if seen.contains name then firstReads seen ds else d :: firstReads (seen.insert name) ds
    | _ => d :: firstReads seen ds

/-- The reports on all statements. -/
def statements (s : Story) : List Diagnostic :=
  firstReads .empty (s.walk.flatMap (node s s.assigned))

/-- The report of a missing entry, at the first passage. -/
def entry (s : Story) : List Diagnostic :=
  match s.passages with
  | [] => []
  | first :: _ => if s.defines s.entryName then [] else [missing s.entryName first.pos]

/-- Whether a passage stands where the first of its name does. -/
def isFirst (s : Story) (p : Passage) : Bool := (s.find? p.name).map Passage.pos = some p.pos

/-- The reports of passages that nothing leads to. -/
def unreachable (s : Story) : List Diagnostic :=
  s.passages.filterMap fun p =>
    if isFirst s p && p.name ≠ s.entryName && !s.targets.contains p.name then some (unreferenced p) else none

/-! ## Reports, one after another -/

/-- The variables that have been reported once `firstReads` has kept what it keeps of the reports. -/
def seenAfter (seen : NameSet) : List Diagnostic → NameSet
  | [] => seen
  | d :: ds =>
    match d.code with
    | .unassignedVariable name =>
      if seen.contains name then seenAfter seen ds else seenAfter (seen.insert name) ds
    | _ => seenAfter seen ds

theorem firstReads_append (seen : NameSet) (ds es : List Diagnostic) :
    firstReads seen (ds ++ es) = firstReads seen ds ++ firstReads (seenAfter seen ds) es := by
  induction ds generalizing seen with
  | nil => rfl
  | cons d ds ih =>
    rw [List.cons_append, firstReads, firstReads, seenAfter]
    split
    · split
      · exact ih seen
      · rw [ih, List.cons_append]
    · rw [ih, List.cons_append]

theorem seenAfter_append (seen : NameSet) (ds es : List Diagnostic) :
    seenAfter seen (ds ++ es) = seenAfter (seenAfter seen ds) es := by
  induction ds generalizing seen with
  | nil => rfl
  | cons d ds ih =>
    rw [List.cons_append, seenAfter, seenAfter]
    split
    · split
      · exact ih seen
      · exact ih _
    · exact ih seen

namespace Checker

/-- The checker after a part of a story with these reports, later ones of a variable among them, and these targets. -/
def add (c : Checker) (ds : List Diagnostic) (targets : List String) : Checker :=
  { c with
    referenced := targets.foldl NameSet.insert c.referenced
    reported := seenAfter c.reported ds
    diagnostics := c.diagnostics ++ (firstReads c.reported ds).toArray }

theorem add_nil (c : Checker) : c.add [] [] = c := by
  rw [add, firstReads, seenAfter, List.foldl_nil, Array.append_empty]

theorem add_add (c : Checker) (ds es : List Diagnostic) (ts us : List String) :
    (c.add ds ts).add es us = c.add (ds ++ es) (ts ++ us) := by
  simp only [add, firstReads_append, seenAfter_append, List.foldl_append, ← List.append_toArray, Array.append_assoc]

theorem report_eq (c : Checker) {d : Diagnostic} (h : ∀ name, d.code ≠ .unassignedVariable name) :
    c.report d = c.add [d] [] := by
  have hfirst : firstReads c.reported [d] = [d] := by
    rw [firstReads]
    split
    · next name hcode => exact absurd hcode (h name)
    · rfl
  have hseen : seenAfter c.reported [d] = c.reported := by
    rw [seenAfter]
    split
    · next name hcode => exact absurd hcode (h name)
    · rfl
  rw [report, add, hfirst, hseen, List.foldl_nil, Array.push_eq_append]

/-! ## The checker's steps -/

theorem reading_eq (c : Checker) (r : String × Position) :
    c.reading r = c.add (if c.assigned.contains r.1 then [] else [unassigned r.1 r.2]) [] := by
  rw [reading]
  cases hassigned : c.assigned.contains r.1 with
  | true => exact c.add_nil.symm
  | false =>
    simp only [Bool.false_or]
    cases hreported : c.reported.contains r.1 with
    | true => simp [add, firstReads, seenAfter, unassigned, Diagnostic.warning, hreported]
    | false => simp [report, add, firstReads, seenAfter, unassigned, Diagnostic.warning, hreported]

theorem reads_eq (c : Checker) (e : Expr) : c.reads e = c.add (Validate.reads c.assigned e) [] := by
  rw [reads, Validate.reads]
  induction e.reads generalizing c with
  | nil => exact c.add_nil.symm
  | cons r rs ih =>
    rw [List.foldl_cons, ih, reading_eq, add_add]
    congr 1
    show _ = List.filterMap _ (r :: rs)
    rw [List.filterMap_cons]
    cases c.assigned.contains r.1 <;> simp [add]

/-- The checker knows the passages of a story and what its statements assign. -/
structure Knows (c : Checker) (s : Story) : Prop where
  defined : ∀ name, c.defined.lookup name = (s.find? name).map Passage.pos
  assigned : c.assigned = s.assigned

theorem Knows.add {c : Checker} {s : Story} (h : c.Knows s) (ds : List Diagnostic) (targets : List String) :
    (c.add ds targets).Knows s := ⟨h.defined, h.assigned⟩

section

variable {c : Checker} {s : Story}

theorem reference_eq (h : c.Knows s) (target : String) (pos : Position) :
    c.reference target pos = c.add (Validate.reference s target pos) [target] := by
  have hdefined : (c.defined.lookup target).isSome = s.defines target := by
    rw [h.defined, Option.isSome_map, Story.isSome_find?]
  have hreference : c.reference target pos
      = if s.defines target then c.add [] [target] else (c.add [] [target]).report (unknown target pos) := by
    rw [← hdefined, add, firstReads, seenAfter, Array.append_empty]
    rfl
  rw [hreference, Validate.reference]
  split
  · rfl
  · rw [report_eq _ fun name => Code.noConfusion, add_add]
    rfl

theorem choice_eq (h : c.Knows s) (offer : Choice) :
    c.choice offer = c.add (Validate.choice s s.assigned offer) offer.target.toList := by
  have htext : ∀ c : Checker, (if (Text.trim offer.text.toList).isEmpty then c.report (untitled offer.pos) else c)
      = c.add (if (Text.trim offer.text.toList).isEmpty then [untitled offer.pos] else []) [] := by
    intro c
    split
    · exact c.report_eq fun name => Code.noConfusion
    · exact c.add_nil.symm
  obtain ⟨text, guard, target, pos⟩ := offer
  simp only [choice, htext]
  cases guard with
  | none =>
    cases target with
    | none => simp [Validate.choice]
    | some target => simp [Validate.choice, reference_eq (h.add _ _), add_add]
  | some guard =>
    simp only [reads_eq, h.assigned, add_add]
    cases target with
    | none => simp [Validate.choice]
    | some target => simp [Validate.choice, reference_eq (h.add _ _), add_add]

/-- A statement with none inside it. -/
theorem node_leaf (h : c.Knows s) {n : Node} (hn : n.isConditional = false) :
    c.node n = c.add (Validate.node s s.assigned n) n.target?.toList := by
  cases n with
  | conditional => cases hn
  | text | script => exact c.add_nil.symm
  | choice offer => rw [node]; exact choice_eq h offer
  | assignment a => rw [node, reads_eq, h.assigned]; rfl
  | divert target pos => rw [node]; exact reference_eq h target pos
  | stray marker pos => rw [node]; exact c.report_eq fun name => Code.noConfusion

theorem node_conditional (c : Checker) (guard : Expr) (body : List Node) (otherwise : Option (List Node))
    (opening : Position) (closing : Option Position) :
    c.node (.conditional guard body otherwise opening closing)
      = otherwise.elim
        (nodes (if closing.isNone then (c.reads guard).report (unterminated opening) else c.reads guard) body)
        (nodes
          (nodes (if closing.isNone then (c.reads guard).report (unterminated opening) else c.reads guard) body)) := by
  cases otherwise <;> rw [node] <;> rfl

/-- **The recursion over the statements of a body is a walk.** What it adds are the reports on the statements one by
one, and their targets. -/
theorem nodes_eq (h : c.Knows s) (ns : List Node) :
    c.nodes ns = c.add ((Node.walkAll ns).flatMap (Validate.node s s.assigned))
      ((Node.walkAll ns).filterMap Node.target?) := by
  induction ns using Node.body_induction generalizing c with
  | nil => rw [nodes]; exact c.add_nil.symm
  | leaf n ns hn ih =>
    have htarget : [n].filterMap Node.target? = n.target?.toList := by
      cases htarget : n.target? <;> simp [htarget]
    rw [nodes, node_leaf h hn, ih (h.add _ _), add_add, Node.walkAll, Node.walk_leaf hn, List.flatMap_append,
      List.filterMap_append, htarget, List.flatMap_singleton]
  | conditional guard body otherwise opening closing ns ihBody ihBranch ih =>
    have hself : (if closing.isNone then (c.reads guard).report (unterminated opening) else c.reads guard)
        = c.add (Validate.node s s.assigned (.conditional guard body otherwise opening closing)) [] := by
      rw [reads_eq, h.assigned, Validate.node]
      split
      · rw [report_eq _ fun name => Code.noConfusion, add_add]
        rfl
      · rw [List.append_nil]
    have hbranch : ∀ {c : Checker}, c.Knows s → otherwise.elim c c.nodes
          = c.add (((otherwise.map Node.walkAll).getD []).flatMap (Validate.node s s.assigned))
            (((otherwise.map Node.walkAll).getD []).filterMap Node.target?) := by
      intro c hc
      cases otherwise with
      | none => exact c.add_nil.symm
      | some branch => exact ihBranch branch rfl hc
    have hnode : c.node (.conditional guard body otherwise opening closing)
        = c.add ((Node.conditional guard body otherwise opening closing).walk.flatMap (Validate.node s s.assigned))
          ((Node.conditional guard body otherwise opening closing).walk.filterMap Node.target?) := by
      have hnone : (Node.conditional guard body otherwise opening closing).target? = none := rfl
      rw [node_conditional, hself, ihBody (h.add _ _), hbranch ((h.add _ _).add _ _), add_add, add_add,
        Node.walk_conditional, List.flatMap_cons, List.flatMap_append, List.filterMap_cons_none hnone,
        List.filterMap_append, List.nil_append]
    rw [nodes, hnode, ih (h.add _ _), add_add, Node.walkAll, List.flatMap_append, List.filterMap_append]

/-- The bodies of the passages, one after another. -/
theorem foldl_nodes_eq (h : c.Knows s) (ps : List Passage) :
    ps.foldl (fun c p => c.nodes p.body) c
      = c.add ((ps.flatMap fun p => Node.walkAll p.body).flatMap (Validate.node s s.assigned))
        ((ps.flatMap fun p => Node.walkAll p.body).filterMap Node.target?) := by
  induction ps generalizing c with
  | nil => exact c.add_nil.symm
  | cons p ps ih =>
    rw [List.foldl_cons, nodes_eq h, ih (h.add _ _), add_add, List.flatMap_cons, List.flatMap_append,
      List.filterMap_append]

end

/-! ## Passages -/

/-- The checker has met the names of these passages. -/
def Met (c : Checker) (ps : List Passage) : Prop :=
  ∀ name, c.defined.lookup name = (ps.find? fun p => p.name = name).map Passage.pos

theorem Met.define {c : Checker} {earlier : List Passage} (h : c.Met earlier) (p : Passage) :
    (c.define p).Met (earlier ++ [p]) := by
  intro name
  have hp := h p.name
  rw [List.find?_append, List.find?_singleton, Checker.define]
  by_cases hname : p.name = name
  · subst hname
    cases hfirst : earlier.find? fun q => q.name = p.name with
    | some first =>
      rw [hfirst, Option.map_some] at hp
      rw [hp, Option.some_or]
      exact hp
    | none =>
      rw [hfirst, Option.map_none] at hp
      rw [hp, Option.none_or, if_pos (decide_eq_true rfl)]
      exact List.lookup_cons_self
  · rw [if_neg (by simp [hname]), Option.or_none, ← h name]
    cases c.defined.lookup p.name with
    | some first => rfl
    | none =>
      show List.lookup name ((p.name, p.pos) :: c.defined) = _
      rw [List.lookup_cons, beq_false_of_ne (Ne.symm hname)]

theorem Met.foldl_define {c : Checker} {earlier : List Passage} (h : c.Met earlier) (ps : List Passage) :
    (ps.foldl Checker.define c).Met (earlier ++ ps) := by
  induction ps generalizing c earlier with
  | nil => rwa [List.append_nil]
  | cons p ps ih =>
    rw [List.foldl_cons, List.append_cons]
    exact ih (h.define p)

theorem define_eq {c : Checker} {earlier : List Passage} (h : c.Met earlier) (p : Passage) :
    c.define p = { c with
      defined := (c.define p).defined
      diagnostics := c.diagnostics ++
        ((earlier.find? fun q => q.name = p.name).map fun first => duplicate first.pos p).toList.toArray } := by
  have hp := h p.name
  rw [define]
  cases hfirst : earlier.find? fun q => q.name = p.name with
  | some first =>
    rw [hfirst, Option.map_some] at hp
    rw [hp]
    simp [report]
  | none =>
    rw [hfirst, Option.map_none] at hp
    rw [hp]
    simp

/-- Repeated names are reported, and nothing else is changed but the names that have been met. -/
theorem foldl_define_eq {c : Checker} {earlier : List Passage} (h : c.Met earlier) (ps : List Passage) :
    ps.foldl define c = { c with
      defined := (ps.foldl define c).defined
      diagnostics := c.diagnostics ++ (duplicates earlier ps).toArray } := by
  induction ps generalizing c earlier with
  | nil => simp [duplicates]
  | cons p ps ih =>
    rw [List.foldl_cons, ih (h.define p), define_eq h p, duplicates]
    simp only [Array.append_assoc, List.append_toArray]

/-! ## The end of a check -/

theorem entry_eq (c : Checker) (s : Story) :
    c.entry s = { c with diagnostics := c.diagnostics ++ (Validate.entry s).toArray } := by
  rw [entry, Validate.entry]
  cases s.passages with
  | nil => simp
  | cons first ps =>
    simp only [← Option.not_isSome, Story.isSome_find?]
    cases s.defines s.entryName <;> simp [report]

theorem foldl_reached {c : Checker} {s : Story} (hmet : c.Met s.passages)
    (htargets : ∀ name, c.referenced.contains name = s.targets.contains name) (ps : List Passage) :
    ps.foldl (reached s) c = { c with diagnostics := c.diagnostics ++ (ps.filterMap fun p =>
      if isFirst s p && p.name ≠ s.entryName && !s.targets.contains p.name then some (unreferenced p)
      else none).toArray } := by
  induction ps generalizing c with
  | nil => simp
  | cons p ps ih =>
    have hreached : reached s c p = if isFirst s p && p.name ≠ s.entryName && !s.targets.contains p.name
        then c.report (unreferenced p) else c := by
      rw [reached, hmet p.name, htargets, isFirst, Story.find?]
    rw [List.foldl_cons, List.filterMap_cons, hreached]
    cases isFirst s p && p.name ≠ s.entryName && !s.targets.contains p.name with
    | true =>
      rw [if_pos rfl, if_pos rfl, ih (c := c.report (unreferenced p)) hmet htargets]
      simp [report]
    | false => rw [if_neg Bool.false_ne_true, if_neg Bool.false_ne_true, ih hmet htargets]

end Checker

end Validate

/-- **The reports of a check, one by one:** those of repeated names, then those on the statements in the order of a
walk, of each variable the first, then that of a missing entry and those of passages that nothing leads to. -/
theorem Story.validate_eq (s : Story) :
    s.validate = Validate.duplicates [] s.passages ++ Validate.statements s ++ Validate.entry s ++
      Validate.unreachable s := by
  have hstart : (Validate.Checker.start s).Met [] := fun _ => rfl
  have hmet := hstart.foldl_define s.passages
  have hdefine := Validate.Checker.foldl_define_eq hstart s.passages
  rw [Story.validate]
  generalize s.passages.foldl Validate.Checker.define (.start s) = c at hmet hdefine ⊢
  generalize c.defined = defined at hmet hdefine
  subst hdefine
  -- The set of targets is empty so far, so it comes to hold the targets of the story.
  have htargets : ∀ name, (s.targets.foldl NameSet.insert .empty).contains name = s.targets.contains name := by
    intro name
    rw [Bool.eq_iff_iff, List.contains_iff_mem]
    exact List.contains_iff_mem.trans NameSet.mem_ofList
  rw [Validate.Checker.foldl_nodes_eq ⟨hmet, rfl⟩, Validate.Checker.entry_eq, Validate.Checker.foldl_reached]
  · simp [Validate.Checker.add, Validate.Checker.start, Validate.statements, Validate.unreachable, Story.walk]
  · exact hmet
  · exact htargets

end Gamebook
