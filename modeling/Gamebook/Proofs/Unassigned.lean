/-
# Gamebook.Proofs.Unassigned — which variables are reported as never assigned, and where

A variable is unassigned if a guard or an assigned value reads it and no assignment of the story sets it, both
at any depth (`Story.Unassigned`). The readings of a story stand in the order in which it is written: passage by
passage, a conditional's guard before its body and its body before its other branch, within an expression from
left to right (`Story.readings`).

The check reports every reading of an unassigned variable and then keeps of the reports on each variable the
first (`Validate.filter_firstReads_eq`). So every unassigned variable is reported once, where it is read first,
and no other variable is reported (`Story.unassigned_reports`).
-/
import Gamebook.Lexed
import Gamebook.Proofs.Validation
import Gamebook.Story.Read

namespace Gamebook

/-! ## Sets of names -/

namespace NameSet

theorem contains_iff {s : NameSet} {x : String} : s.contains x = true ↔ x ∈ s := List.contains_iff_mem

end NameSet

/-! ## Readings -/

mutual

/-- The variables that a statement and the statements inside it read, with the places. -/
def Node.readings : Node → List (String × Position)
  | .conditional guard body otherwise _ _ =>
    guard.reads ++ (Node.readingsAll body ++
      match otherwise with
      | none => []
      | some branch => Node.readingsAll branch)
  | .choice c =>
    match c.guard with
    | none => []
    | some guard => guard.reads
  | .assignment a => a.value.reads
  | .text _ _ | .script _ _ | .divert _ _ | .stray _ _ => []

/-- The variables that the statements of a body read, at every depth. -/
def Node.readingsAll : List Node → List (String × Position)
  | [] => []
  | n :: ns => n.readings ++ Node.readingsAll ns

end

namespace Node

theorem readings_leaf {n : Node} (h : n.isConditional = false) : n.readings = n.exprs.flatMap Expr.reads := by
  cases n with
  | conditional => cases h
  | choice c =>
    rw [readings, exprs]
    cases c.guard <;> simp
  | assignment a => simp [readings, exprs]
  | _ => rfl

theorem readings_conditional (guard : Expr) (body : List Node) (otherwise : Option (List Node))
    (opening : Position) (closing : Option Position) :
    (conditional guard body otherwise opening closing).readings
      = guard.reads ++ (readingsAll body ++ (otherwise.map readingsAll).getD []) := by
  cases otherwise <;> rw [readings] <;> rfl

/-- Readings stand in the order of the walk over the statements. -/
theorem readingsAll_eq (ns : List Node) :
    readingsAll ns = (walkAll ns).flatMap fun n => n.exprs.flatMap Expr.reads := by
  induction ns using body_induction with
  | nil => rfl
  | leaf n ns hn ih =>
    rw [readingsAll, walkAll, walk_leaf hn, List.flatMap_append, List.flatMap_singleton, readings_leaf hn, ih]
  | conditional guard body otherwise opening closing ns ihBody ihBranch ih =>
    have hbranch : (otherwise.map readingsAll).getD []
        = ((otherwise.map walkAll).getD []).flatMap fun n => n.exprs.flatMap Expr.reads := by
      cases otherwise with
      | none => rfl
      | some branch => exact ihBranch branch rfl
    have hguard : (conditional guard body otherwise opening closing).exprs.flatMap Expr.reads = guard.reads :=
      List.flatMap_singleton _ _
    rw [readingsAll, walkAll, walk_conditional, readings_conditional, List.flatMap_append, List.flatMap_cons,
      List.flatMap_append, hguard, ihBody, hbranch, ih]

end Node

namespace Story

/-- The variables that a story reads, with the places, in the order in which it is written. -/
def readings (s : Story) : List (String × Position) := s.passages.flatMap fun p => Node.readingsAll p.body

theorem readings_eq (s : Story) : s.readings = s.walk.flatMap fun n => n.exprs.flatMap Expr.reads := by
  rw [readings, walk, List.flatMap_assoc]
  simp only [Node.readingsAll_eq]

/-- Some guard or assigned value reads the variable, and no assignment sets it. -/
def Unassigned (s : Story) (name : String) : Prop :=
  (∃ p ∈ s.passages, ∃ n : Node, n.Occurs p.body ∧ ∃ e ∈ n.exprs, ∃ pos, (name, pos) ∈ e.reads) ∧
    ∀ p ∈ s.passages, ∀ n : Node, n.Occurs p.body → n.assigned? ≠ some name

theorem unassigned_iff {s : Story} {name : String} :
    s.Unassigned name ↔ name ∈ s.readings.map Prod.fst ∧ s.assigned.contains name = false := by
  have hread : (∃ p ∈ s.passages, ∃ n : Node, n.Occurs p.body ∧ ∃ e ∈ n.exprs, ∃ pos, (name, pos) ∈ e.reads) ↔
      name ∈ s.readings.map Prod.fst := by
    simp only [readings_eq, List.mem_map, List.mem_flatMap, mem_walk_iff, Prod.exists, exists_and_right,
      exists_eq_right]
    constructor
    · rintro ⟨p, hp, n, hn, e, he, pos, hpos⟩
      exact ⟨pos, n, ⟨p, hp, hn⟩, e, he, hpos⟩
    · rintro ⟨pos, n, ⟨p, hp, hn⟩, e, he, hpos⟩
      exact ⟨p, hp, n, hn, e, he, pos, hpos⟩
  have hassigned : (∀ p ∈ s.passages, ∀ n : Node, n.Occurs p.body → n.assigned? ≠ some name) ↔
      s.assigned.contains name = false := by
    rw [← Bool.not_eq_true, NameSet.contains_iff, mem_assigned_iff]
    constructor
    · rintro h ⟨p, hp, n, hn, hset⟩
      exact h p hp n hn hset
    · exact fun h p hp n hn hset => h ⟨p, hp, n, hn, hset⟩
  rw [Unassigned, hread, hassigned]

instance (s : Story) (name : String) : Decidable (s.Unassigned name) :=
  decidable_of_iff _ unassigned_iff.symm

end Story

/-! ## Reports -/

namespace Validate

variable {s : Story} {assigned : NameSet}

/-- Whether a report is on a variable of this name. -/
def isOn (name : String) (d : Diagnostic) : Bool := d.code = .unassignedVariable name

/-- The report of a reading. -/
def unassignedAt (r : String × Position) : Diagnostic := unassigned r.1 r.2

/-- **Of the reports on a variable the first is kept,** and none if it has been reported before. -/
theorem filter_firstReads_eq (name : String) (seen : NameSet) (ds : List Diagnostic) :
    (firstReads seen ds).filter (isOn name)
      = if seen.contains name then [] else (ds.filter (isOn name)).take 1 := by
  induction ds generalizing seen with
  | nil => simp [firstReads]
  | cons d ds ih =>
    rw [firstReads]
    split
    · next other hcode =>
      by_cases hother : other = name
      · subst hother
        have hd : isOn other d = true := decide_eq_true hcode
        have hinsert : (seen.insert other).contains other = true :=
          NameSet.contains_iff.mpr (NameSet.mem_insert.mpr (.inl rfl))
        split
        · next hseen => rw [ih, if_pos hseen]
        · rw [List.filter_cons_of_pos hd, ih, if_pos hinsert, List.filter_cons_of_pos hd, List.take_succ_cons,
            List.take_zero]
      · have hd : ¬ isOn name d = true := by
          simpa [isOn, hcode] using hother
        have hinsert : (seen.insert other).contains name = seen.contains name := by
          rw [Bool.eq_iff_iff, NameSet.contains_iff, NameSet.contains_iff, NameSet.mem_insert,
            or_iff_right (Ne.symm hother)]
        split
        · rw [ih, List.filter_cons_of_neg hd]
        · rw [List.filter_cons_of_neg hd, ih, hinsert, List.filter_cons_of_neg hd]
    · next hcode =>
      have hd : ¬ isOn name d = true := fun h => hcode name (of_decide_eq_true h)
      rw [List.filter_cons_of_neg hd, ih, List.filter_cons_of_neg hd]

/-- The reports on a variable in an expression: all its readings, if nothing assigns it. -/
theorem filter_reads (name : String) (e : Expr) :
    (reads assigned e).filter (isOn name)
      = if assigned.contains name then [] else (e.reads.filter fun r => r.1 = name).map unassignedAt := by
  rw [reads]
  induction e.reads with
  | nil => simp
  | cons r rs ih =>
    by_cases hr : r.1 = name
    · subst hr
      cases hassigned : assigned.contains r.1 with
      | true => simpa [hassigned] using ih
      | false =>
        have hon : isOn r.1 (unassigned r.1 r.2) = true := decide_eq_true rfl
        simpa [hassigned, hon, unassignedAt] using ih
    · have hon : isOn name (unassigned r.1 r.2) = false := by
        simpa [isOn, unassigned, Diagnostic.warning] using hr
      cases hassigned : assigned.contains r.1 <;> simpa [hassigned, hr, hon] using ih

theorem filter_reference (name target : String) (pos : Position) :
    (reference s target pos).filter (isOn name) = [] := by
  rw [reference_eq]
  split <;> rfl

/-- A statement is reported for a variable only where one of its expressions reads the variable. -/
theorem filter_node (name : String) (n : Node) :
    (node s assigned n).filter (isOn name)
      = n.exprs.flatMap fun e => (reads assigned e).filter (isOn name) := by
  cases n with
  | choice c =>
    have htext : (if (Text.trim c.text.toList).isEmpty then [untitled c.pos] else []).filter (isOn name)
        = [] := by
      split <;> rfl
    rw [node, choice, List.filter_append, List.filter_append, htext, Node.exprs]
    have htarget : ∀ target, (reference s target c.pos).filter (isOn name) = [] :=
      fun target => filter_reference name target c.pos
    cases c.target with
    | none => cases c.guard <;> simp
    | some target => cases c.guard <;> simp [htarget]
  | conditional guard body otherwise opening closing =>
    have hclosing : (if closing.isNone then [unterminated opening] else []).filter (isOn name) = [] := by
      split <;> rfl
    rw [node, List.filter_append, hclosing, Node.exprs, List.flatMap_singleton, List.append_nil]
  | assignment a => rw [node, Node.exprs, List.flatMap_singleton]
  | divert target pos => exact filter_reference name target pos
  | _ => rfl

/-- The reports on a variable before the later ones are dropped. -/
theorem filter_flatMap_node (s : Story) (name : String) :
    (s.walk.flatMap (node s s.assigned)).filter (isOn name)
      = if s.assigned.contains name then []
        else (s.readings.filter fun r => r.1 = name).map unassignedAt := by
  rw [List.filter_flatMap, Story.readings_eq]
  simp only [filter_node, filter_reads]
  split
  · simp
  · simp only [List.filter_flatMap, List.map_flatMap]

/-- **Only readings of the variable are reported, of them the first.** -/
theorem filter_isOn_validate (s : Story) (name : String) :
    s.validate.filter (isOn name)
      = if s.assigned.contains name then []
        else ((s.readings.find? fun r => r.1 = name).map unassignedAt).toList := by
  have hduplicates : (duplicates [] s.passages).filter (isOn name) = [] := by
    refine List.filter_eq_nil_iff.mpr fun d hd => ?_
    obtain ⟨-, other, hcode⟩ := isError_of_mem_duplicates hd
    simp [isOn, hcode]
  have hentry : (entry s).filter (isOn name) = [] := by
    rw [entry]
    split
    · rfl
    · split <;> rfl
  have hunreachable : (unreachable s).filter (isOn name) = [] := by
    refine List.filter_eq_nil_iff.mpr fun d hd => ?_
    obtain ⟨p, -, hd⟩ := List.mem_filterMap.mp hd
    split at hd
    · cases hd
      exact Bool.false_ne_true
    · cases hd
  have hstatements : (statements s).filter (isOn name)
      = if s.assigned.contains name then []
        else ((s.readings.find? fun r => r.1 = name).map unassignedAt).toList := by
    have hempty : ¬ NameSet.empty.contains name = true := Bool.false_ne_true
    rw [statements, filter_firstReads_eq, if_neg hempty, filter_flatMap_node]
    split
    · rfl
    · rw [← List.map_take, List.take_one, List.head?_filter, Option.toList_map]
  rw [Story.validate_eq, List.filter_append, List.filter_append, List.filter_append, hduplicates, hentry,
    hunreachable, hstatements, List.nil_append, List.append_nil, List.append_nil]

end Validate

/-- **Which variables are reported as never assigned, how often, and where.** An unassigned variable has
exactly one report, a warning at the first of its readings; any other variable has none. -/
theorem Story.unassigned_reports (s : Story) (name : String) :
    let reports := s.validate.filter fun d => d.code = .unassignedVariable name
    (s.Unassigned name → ∃ before pos after,
        s.readings = before ++ (name, pos) :: after ∧ (∀ r ∈ before, r.1 ≠ name) ∧
          reports = [Validate.unassigned name pos]) ∧
      (¬ s.Unassigned name → reports = []) := by
  intro reports
  have hreports : reports = if s.assigned.contains name then []
      else ((s.readings.find? fun r => r.1 = name).map Validate.unassignedAt).toList :=
    Validate.filter_isOn_validate s name
  rw [Story.unassigned_iff]
  constructor
  · rintro ⟨hread, hassigned⟩
    obtain ⟨r, hr, hname⟩ := List.mem_map.mp hread
    have hfound : (s.readings.find? fun r => r.1 = name).isSome = true :=
      List.find?_isSome.mpr ⟨r, hr, decide_eq_true hname⟩
    obtain ⟨⟨other, first⟩, hfirst⟩ := Option.isSome_iff_exists.mp hfound
    obtain ⟨hname, before, after, hsplit, hbefore⟩ := List.find?_eq_some_iff_append.mp hfirst
    obtain rfl : other = name := of_decide_eq_true hname
    refine ⟨before, first, after, hsplit, fun r hr => ?_, ?_⟩
    · simpa using hbefore r hr
    · rw [hreports, hassigned, hfirst]
      rfl
  · intro hnot
    rw [hreports]
    split
    · rfl
    · next hassigned =>
      have hunread : (s.readings.find? fun r => r.1 = name) = none := by
        refine List.find?_eq_none.mpr fun r hr hname => hnot ⟨?_, Bool.not_eq_true _ ▸ hassigned⟩
        exact List.mem_map.mpr ⟨r, hr, of_decide_eq_true hname⟩
      rw [hunread]
      rfl

/-- A variable that is read twice and one that is set after it is read: only the first has a report, at the
reading in the conditional's other branch. -/
theorem Story.unassigned_reports_key :
    let source := ":: Hall\n\x7b$lamp\x7d\n\x7belse\x7d\n* \x7b$key\x7d [Up] -> Hall\n\x7b/\x7d\n" ++
      "$lamp = $key && $lamp\n"
    let s := (Story.ofTokens (Lexed.ofSource source).tokens).story
    s.Unassigned "key" ∧ ¬ s.Unassigned "lamp" ∧
      (s.validate.filter fun d => d.code = .unassignedVariable "key") = [Validate.unassigned "key" ⟨4, 4⟩] ∧
      (s.validate.filter fun d => d.code = .unassignedVariable "lamp") = [] := by
  intro source s
  have hkey : s.Unassigned "key" := by decide +kernel
  have hlamp : ¬ s.Unassigned "lamp" := by decide +kernel
  have hfirst : (s.readings.find? fun r => r.1 = "key") = some ("key", ⟨4, 4⟩) := by decide +kernel
  obtain ⟨before, pos, after, hsplit, hbefore, hreports⟩ := (Story.unassigned_reports s "key").1 hkey
  have hfound : (s.readings.find? fun r => r.1 = "key") = some ("key", pos) :=
    List.find?_eq_some_iff_append.mpr ⟨decide_eq_true rfl, before, after, hsplit, by simpa using hbefore⟩
  obtain rfl : ⟨4, 4⟩ = pos := congrArg Prod.snd (Option.some.inj (hfirst.symm.trans hfound))
  exact ⟨hkey, hlamp, hreports, (Story.unassigned_reports s "lamp").2 hlamp⟩

end Gamebook
