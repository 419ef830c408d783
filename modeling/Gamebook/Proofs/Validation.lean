/-
# Gamebook.Proofs.Validation — the errors of a check are what is wrong with the story

What is wrong with a story is said here without the checks. A passage has the name of an earlier one
(`Story.repeated`); a statement leads to no passage, lacks its closing marker, or is a marker that belongs to
no conditional (`Node.fault?`). Statements count at every depth, a conditional before its body and its body
before its other branch (`Node.faultsAll`).

The checks report exactly that as errors, in this order (`Story.errors_validate`). Warnings stand between
the errors, and of the warnings about one variable all but the first are dropped, but a code is always
reported with one severity (`Validate.severity_of_mem_node`), so dropping warnings drops no error.
-/
import Gamebook.Proofs.Checking
import Mathlib.Data.List.Basic

namespace Gamebook

/-! ## Statements at any depth -/

namespace Node

/-- A statement stands in a body, or in a body inside it. -/
inductive Occurs (n : Node) : List Node → Prop
  | here (ns : List Node) : Occurs n (n :: ns)
  | later (m : Node) {ns : List Node} (h : Occurs n ns) : Occurs n (m :: ns)
  | body {guard : Expr} {body : List Node} {otherwise : Option (List Node)} {opening : Position}
      {closing : Option Position} (ns : List Node) (h : Occurs n body) :
      Occurs n (conditional guard body otherwise opening closing :: ns)
  | branch {guard : Expr} {body branch : List Node} {opening : Position} {closing : Option Position}
      (ns : List Node) (h : Occurs n branch) :
      Occurs n (conditional guard body (some branch) opening closing :: ns)

/-- **Walking over a body passes the statements at every depth, and no others.** -/
theorem mem_walkAll_iff {n : Node} {ns : List Node} : n ∈ walkAll ns ↔ n.Occurs ns := by
  constructor
  · intro h
    induction ns using body_induction with
    | nil => cases h
    | leaf m ns hm ih =>
      rw [walkAll, walk_leaf hm] at h
      rcases List.mem_cons.mp h with rfl | h
      · exact .here ns
      · exact .later m (ih h)
    | conditional guard body otherwise opening closing ns ihBody ihBranch ih =>
      rw [walkAll, walk_conditional, List.mem_append, List.mem_cons, List.mem_append] at h
      rcases h with (rfl | h | h) | h
      · exact .here ns
      · exact .body ns (ihBody h)
      · cases otherwise with
        | none => cases h
        | some branch => exact .branch ns (ihBranch branch rfl h)
      · exact .later _ (ih h)
  · intro h
    induction h with
    | here ns =>
      rw [walkAll, List.mem_append]
      refine .inl ?_
      cases n with
      | conditional => rw [walk_conditional]; exact List.mem_cons_self
      | _ => exact List.mem_singleton_self _
    | later m h ih => rw [walkAll]; exact List.mem_append_right _ ih
    | body ns h ih =>
      rw [walkAll, walk_conditional]
      exact List.mem_append_left _ (List.mem_cons_of_mem _ (List.mem_append_left _ ih))
    | branch ns h ih =>
      rw [walkAll, walk_conditional]
      exact List.mem_append_left _ (List.mem_cons_of_mem _ (List.mem_append_right _ ih))

end Node

theorem Story.mem_walk_iff {s : Story} {n : Node} : n ∈ s.walk ↔ ∃ p ∈ s.passages, n.Occurs p.body := by
  simp only [Story.walk, List.mem_flatMap, Node.mem_walkAll_iff]

theorem Story.mem_assigned_iff {s : Story} {name : String} :
    name ∈ s.assigned ↔ ∃ p ∈ s.passages, ∃ n : Node, n.Occurs p.body ∧ n.assigned? = some name := by
  have hmem : name ∈ s.assigned ↔ ∃ n ∈ s.walk, n.assigned? = some name := by
    rw [Story.assigned, NameSet.mem_ofList, List.mem_filterMap]
  refine hmem.trans ⟨?_, ?_⟩
  · rintro ⟨n, hn, hset⟩
    obtain ⟨p, hp, hn⟩ := Story.mem_walk_iff.mp hn
    exact ⟨p, hp, n, hn, hset⟩
  · rintro ⟨p, hp, n, hn, hset⟩
    exact ⟨n, Story.mem_walk_iff.mpr ⟨p, hp, hn⟩, hset⟩

/-! ## What is wrong with a story -/

/-- What is wrong with a statement itself, with its place, when these are the names of the passages. -/
def Node.fault? (names : List String) : Node → Option (Code × Position)
  | .choice c => (c.target.filter (· ∉ names)).map fun target => (.unknownPassage target, c.pos)
  | .divert target pos => if target ∈ names then none else some (.unknownPassage target, pos)
  | .conditional _ _ _ opening none => some (.unterminatedConditional, opening)
  | .stray marker pos => some (.unmatched marker, pos)
  | _ => none

mutual

/-- What is wrong with a statement and the statements inside it. -/
def Node.faults (names : List String) : Node → List (Code × Position)
  | .conditional guard body otherwise opening closing =>
    ((Node.conditional guard body otherwise opening closing).fault? names).toList ++
      (Node.faultsAll names body ++
        match otherwise with
        | none => []
        | some branch => Node.faultsAll names branch)
  | .text content pos => ((Node.text content pos).fault? names).toList
  | .choice c => ((Node.choice c).fault? names).toList
  | .assignment a => ((Node.assignment a).fault? names).toList
  | .script code pos => ((Node.script code pos).fault? names).toList
  | .divert target pos => ((Node.divert target pos).fault? names).toList
  | .stray marker pos => ((Node.stray marker pos).fault? names).toList

/-- What is wrong with the statements of a body, at every depth. -/
def Node.faultsAll (names : List String) : List Node → List (Code × Position)
  | [] => []
  | n :: ns => n.faults names ++ Node.faultsAll names ns

end

/-- The passages that have the name of an earlier passage. -/
def Story.repeated (s : Story) : List Passage :=
  (s.passages.zipIdx.filter fun p => (s.passages.take p.2).any fun q => q.name = p.1.name).map Prod.fst

namespace Node

variable {names : List String}

theorem faults_conditional (guard : Expr) (body : List Node) (otherwise : Option (List Node))
    (opening : Position) (closing : Option Position) :
    (conditional guard body otherwise opening closing).faults names
      = ((conditional guard body otherwise opening closing).fault? names).toList ++
        (faultsAll names body ++ (otherwise.map (faultsAll names)).getD []) := by
  cases otherwise <;> rw [faults] <;> rfl

theorem faultsAll_eq (ns : List Node) : faultsAll names ns = (walkAll ns).filterMap (fault? names) := by
  induction ns using body_induction with
  | nil => rfl
  | leaf n ns hn ih =>
    have hfaults : n.faults names = (n.fault? names).toList := by
      cases n with
      | conditional => cases hn
      | _ => rfl
    rw [faultsAll, walkAll, walk_leaf hn, List.filterMap_append, ih, hfaults]
    cases hfault : n.fault? names <;> simp [hfault]
  | conditional guard body otherwise opening closing ns ihBody ihBranch ih =>
    have hbranch : (otherwise.map (faultsAll names)).getD []
        = ((otherwise.map walkAll).getD []).filterMap (fault? names) := by
      cases otherwise with
      | none => rfl
      | some branch => exact ihBranch branch rfl
    rw [faultsAll, walkAll, walk_conditional, List.filterMap_append, ← ih, faults_conditional, ihBody, hbranch,
      ← List.filterMap_append]
    congr 1
    cases hfault : (conditional guard body otherwise opening closing).fault? names <;> simp [hfault]

/-- A statement by itself is in order if it leads to a passage or nowhere, is no conditional without its
closing marker, and no marker without its conditional. -/
theorem fault?_eq_none_iff {n : Node} :
    n.fault? names = none ↔
      (∀ target ∈ n.target?, target ∈ names) ∧
        (∀ guard body otherwise opening, n ≠ conditional guard body otherwise opening none) ∧
        ∀ marker pos, n ≠ stray marker pos := by
  cases n with
  | choice c => simp [fault?, target?, Option.filter_eq_none_iff]
  | divert target pos => simp [fault?, target?]
  | conditional guard body otherwise opening closing => cases closing <;> simp [fault?, target?]
  | _ => simp [fault?, target?]

end Node

/-! ## Codes and severities -/

/-- How bad what a code stands for is. -/
def Code.severity : Code → Severity
  | lexical _ | syntactic | duplicatePassage _ | unknownPassage _ | unterminatedConditional | unmatched _ =>
    .error
  | unreachablePassage _ | missingEntry _ | unassignedVariable _ | emptyChoiceText => .warning

/-- Whether a code is about a single statement. -/
def Code.isStatement : Code → Bool
  | unknownPassage _ | unterminatedConditional | unmatched _ | unassignedVariable _ | emptyChoiceText => true
  | _ => false

namespace Validate

variable {s : Story} {assigned : NameSet} {d : Diagnostic}

theorem code_of_mem_reads {e : Expr} (h : d ∈ reads assigned e) :
    d.severity = .warning ∧ ∃ name, d.code = .unassignedVariable name := by
  obtain ⟨r, -, hd⟩ := List.mem_filterMap.mp h
  split at hd
  · cases hd
  · cases hd
    exact ⟨rfl, _, rfl⟩

theorem reference_eq (s : Story) (target : String) (pos : Position) :
    reference s target pos
      = if target ∈ s.names then []
        else [unknown target pos] := by
  simp only [reference, Story.defines, List.contains_eq_mem, decide_eq_true_eq]

/-- **What is reported about a statement has the severity of its code,** and a code about statements. -/
theorem severity_of_mem_node {n : Node} (h : d ∈ node s assigned n) :
    d.severity = d.code.severity ∧ d.code.isStatement = true := by
  have hreads : ∀ {e}, d ∈ reads assigned e → d.severity = d.code.severity ∧ d.code.isStatement = true := by
    intro e he
    obtain ⟨hwarning, name, hcode⟩ := code_of_mem_reads he
    rw [hwarning, hcode]
    exact ⟨rfl, rfl⟩
  have hreference : ∀ {target pos}, d ∈ reference s target pos →
      d.severity = d.code.severity ∧ d.code.isStatement = true := by
    intro target pos hd
    rw [reference] at hd
    split at hd
    · cases hd
    · rw [List.mem_singleton.mp hd]
      exact ⟨rfl, rfl⟩
  cases n with
  | text content pos => cases h
  | script code pos => cases h
  | choice c =>
    rw [node, choice, List.mem_append, List.mem_append] at h
    rcases h with (h | h) | h
    · split at h
      · cases h
      · exact hreads h
    · split at h
      · rw [List.mem_singleton.mp h]
        exact ⟨rfl, rfl⟩
      · cases h
    · split at h
      · cases h
      · exact hreference h
  | assignment a => exact hreads h
  | conditional guard body otherwise opening closing =>
    rw [node, List.mem_append] at h
    rcases h with h | h
    · exact hreads h
    · split at h
      · rw [List.mem_singleton.mp h]
        exact ⟨rfl, rfl⟩
      · cases h
  | divert target pos => exact hreference h
  | stray marker pos =>
    rw [List.mem_singleton.mp h]
    exact ⟨rfl, rfl⟩

/-! ## Errors of statements -/

theorem filter_isError_reads (e : Expr) : (reads assigned e).filter Diagnostic.isError = [] := by
  refine List.filter_eq_nil_iff.mpr fun d hd => ?_
  rw [Diagnostic.isError, (code_of_mem_reads hd).1]
  decide

/-- Of a choice only the target can be wrong: the guard and the text are warned about. -/
theorem filter_isError_choice (s : Story) (assigned : NameSet) (c : Choice) :
    (choice s assigned c).filter Diagnostic.isError
      = (c.target.toList.flatMap fun target => reference s target c.pos).filter Diagnostic.isError := by
  have htext : (if (Text.trim c.text.toList).isEmpty then [untitled c.pos] else []).filter Diagnostic.isError
      = [] := by
    split <;> rfl
  have hguard : ∀ e, (reads assigned e).filter Diagnostic.isError = [] := filter_isError_reads
  rw [choice, List.filter_append, List.filter_append, htext]
  cases c.guard <;> cases c.target <;> simp [hguard]

theorem errors_reference (target : String) (pos : Position) :
    ((reference s target pos).filter Diagnostic.isError).map (fun d => (d.code, d.pos))
      = if target ∈ s.names then [] else [(.unknownPassage target, pos)] := by
  rw [reference_eq]
  split <;> rfl

/-- The errors of a statement are what is wrong with it. -/
theorem errors_node (n : Node) :
    ((node s assigned n).filter Diagnostic.isError).map (fun d => (d.code, d.pos))
      = (n.fault? s.names).toList := by
  cases n with
  | text content pos => rfl
  | script code pos => rfl
  | choice c =>
    rw [node, filter_isError_choice, Node.fault?]
    cases c.target with
    | none => rfl
    | some target =>
      rw [Option.toList_some, List.flatMap_singleton, errors_reference]
      by_cases hmem : target ∈ s.names <;> simp [Option.filter, hmem]
  | assignment a => exact congrArg (List.map _) (filter_isError_reads a.value)
  | conditional guard body otherwise opening closing =>
    rw [node, List.filter_append, filter_isError_reads]
    cases closing <;> rfl
  | divert target pos =>
    rw [node, errors_reference, Node.fault?]
    split <;> rfl
  | stray marker pos => rfl

/-- Dropping the later reports of a variable drops nothing of a sort that no report of a variable is of. -/
theorem filter_firstReads {p : Diagnostic → Bool} {ds : List Diagnostic}
    (h : ∀ d ∈ ds, ∀ name, d.code = .unassignedVariable name → p d = false) (seen : NameSet) :
    (firstReads seen ds).filter p = ds.filter p := by
  induction ds generalizing seen with
  | nil => rfl
  | cons d ds ih =>
    obtain ⟨hd, hds⟩ := List.forall_mem_cons.mp h
    rw [firstReads]
    split
    · next name hcode =>
      split
      · rw [ih hds, List.filter_cons_of_neg (by rw [hd name hcode]; exact Bool.false_ne_true)]
      · rw [List.filter_cons, List.filter_cons, ih hds]
    · rw [List.filter_cons, List.filter_cons, ih hds]

/-- **The errors of all statements are those of the statements one by one.** -/
theorem filter_isError_statements (s : Story) :
    (statements s).filter Diagnostic.isError
      = s.walk.flatMap fun n => (node s s.assigned n).filter Diagnostic.isError := by
  rw [statements, filter_firstReads, List.filter_flatMap]
  intro d hd name hcode
  obtain ⟨n, -, hd⟩ := List.mem_flatMap.mp hd
  rw [Diagnostic.isError, (severity_of_mem_node hd).1, hcode]
  rfl

/-! ## Errors of passages -/

theorem isError_of_mem_duplicates {earlier ps : List Passage} (h : d ∈ duplicates earlier ps) :
    d.isError = true ∧ ∃ name, d.code = .duplicatePassage name := by
  induction ps generalizing earlier with
  | nil => cases h
  | cons p ps ih =>
    rw [duplicates, List.mem_append] at h
    rcases h with h | h
    · obtain ⟨first, -, rfl⟩ := Option.map_eq_some_iff.mp (Option.mem_toList.mp h)
      exact ⟨rfl, _, rfl⟩
    · exact ih h

/-- Repeated names are reported of the passages that repeat them, those before counted in. -/
theorem duplicates_eq (earlier ps : List Passage) :
    (duplicates earlier ps).map (fun d => (d.code, d.pos))
      = ((ps.zipIdx earlier.length).filter fun p =>
          ((earlier ++ ps).take p.2).any fun q => q.name = p.1.name).map
        fun p => (.duplicatePassage p.1.name, p.1.pos) := by
  induction ps generalizing earlier with
  | nil => rfl
  | cons p ps ih =>
    have hrest := ih (earlier ++ [p])
    rw [List.length_append, List.length_singleton, List.append_assoc, List.singleton_append] at hrest
    rw [duplicates, List.map_append, hrest, List.zipIdx_cons, List.filter_cons, List.take_left]
    cases hfind : earlier.find? fun q => q.name = p.name with
    | none =>
      have hany : (earlier.any fun q => q.name = p.name) = false := by
        rw [List.any_eq_false]
        exact List.find?_eq_none.mp hfind
      rw [hany]
      rfl
    | some first =>
      have hname := List.find?_some hfind
      have hany : (earlier.any fun q => q.name = p.name) = true :=
        List.any_eq_true.mpr ⟨first, List.mem_of_find?_eq_some hfind, hname⟩
      rw [hany]
      rfl

theorem duplicates_eq_nil_iff {earlier ps : List Passage} :
    duplicates earlier ps = [] ↔
      (∀ p ∈ ps, ∀ q ∈ earlier, q.name ≠ p.name) ∧ (ps.map Passage.name).Nodup := by
  induction ps generalizing earlier with
  | nil => simp [duplicates]
  | cons p ps ih =>
    rw [duplicates, List.append_eq_nil_iff, ih, List.map_cons, List.nodup_cons, List.forall_mem_cons]
    simp only [Option.toList_eq_nil_iff, Option.map_eq_none_iff, List.find?_eq_none, decide_eq_true_eq,
      List.mem_append, List.mem_singleton, List.mem_map, not_exists, not_and]
    constructor
    · rintro ⟨hp, hps, hnodup⟩
      exact ⟨⟨hp, fun p' hp' q hq => hps p' hp' q (.inl hq)⟩,
        fun p' hp' heq => hps p' hp' p (.inr rfl) heq.symm, hnodup⟩
    · rintro ⟨⟨hp, hps⟩, hfresh, hnodup⟩
      refine ⟨hp, fun p' hp' q hq => ?_, hnodup⟩
      rcases hq with hq | rfl
      · exact hps p' hp' q hq
      · exact fun heq => hfresh p' hp' heq.symm

theorem filter_isError_entry (s : Story) : (entry s).filter Diagnostic.isError = [] := by
  rw [entry]
  split
  · rfl
  · split <;> rfl

theorem filter_isError_unreachable (s : Story) : (unreachable s).filter Diagnostic.isError = [] := by
  refine List.filter_eq_nil_iff.mpr fun d hd => ?_
  obtain ⟨p, -, hd⟩ := List.mem_filterMap.mp hd
  split at hd
  · cases hd
    exact Bool.false_ne_true
  · cases hd

/-- The errors of a check: those of the passages, then those of the statements. -/
theorem filter_isError_validate (s : Story) :
    s.validate.filter Diagnostic.isError
      = duplicates [] s.passages ++
        s.walk.flatMap fun n => (node s s.assigned n).filter Diagnostic.isError := by
  have hduplicates : (duplicates [] s.passages).filter Diagnostic.isError = duplicates [] s.passages :=
    List.filter_eq_self.mpr fun d hd => (isError_of_mem_duplicates hd).1
  rw [Story.validate_eq, List.filter_append, List.filter_append, List.filter_append, hduplicates,
    filter_isError_statements, filter_isError_entry, filter_isError_unreachable, List.append_nil,
    List.append_nil]

end Validate

/-! ## Stories -/

/-- **The errors of a check are what is wrong with the story, in order:** each passage with the name of an
earlier one, then, passage by passage and at every depth, each statement that leads to no passage, each
conditional without a closing marker and each marker without a conditional. So there is no error exactly if
the names are distinct, all targets are passages, all conditionals are closed and no marker is stray. -/
theorem Story.errors_validate (s : Story) :
    ((s.validate.filter Diagnostic.isError).map fun d => (d.code, d.pos))
        = (s.repeated.map fun p => (.duplicatePassage p.name, p.pos)) ++
          s.passages.flatMap (fun p => Node.faultsAll s.names p.body) ∧
      (Diagnostic.hasErrors s.validate = false ↔
        s.names.Nodup ∧ ∀ p ∈ s.passages, ∀ n : Node, n.Occurs p.body →
          (∀ target ∈ n.target?, target ∈ s.names) ∧
            (∀ guard body otherwise opening, n ≠ .conditional guard body otherwise opening none) ∧
            ∀ marker pos, n ≠ .stray marker pos) := by
  have hstatements : ∀ n, ((Validate.node s s.assigned n).filter Diagnostic.isError).map
      (fun d => (d.code, d.pos)) = (n.fault? s.names).toList := fun n => Validate.errors_node n
  constructor
  · have hrepeated := Validate.duplicates_eq [] s.passages
    have hfaults : s.passages.flatMap (fun p => Node.faultsAll s.names p.body)
        = s.walk.flatMap fun n => (n.fault? s.names).toList := by
      rw [Story.walk, List.flatMap_assoc]
      simp only [Node.faultsAll_eq, List.filterMap_eq_flatMap_toList]
    rw [Validate.filter_isError_validate, List.map_append, hrepeated, List.map_flatMap, hfaults,
      Story.repeated, List.map_map]
    simp only [hstatements]
    rfl
  · have hnone : Diagnostic.hasErrors s.validate = false ↔ s.validate.filter Diagnostic.isError = [] := by
      rw [Diagnostic.hasErrors, List.any_eq_false, List.filter_eq_nil_iff]
    have hnode : ∀ n, (Validate.node s s.assigned n).filter Diagnostic.isError = [] ↔
        n.fault? s.names = none := by
      intro n
      rw [← Option.toList_eq_nil_iff, ← hstatements, List.map_eq_nil_iff]
    rw [hnone, Validate.filter_isError_validate, List.append_eq_nil_iff, Validate.duplicates_eq_nil_iff,
      List.flatMap_eq_nil_iff]
    simp only [hnode, Node.fault?_eq_none_iff, Story.mem_walk_iff, Story.names]
    constructor
    · rintro ⟨⟨-, hnames⟩, hall⟩
      exact ⟨hnames, fun p hp n hn => hall n ⟨p, hp, hn⟩⟩
    · rintro ⟨hnames, hall⟩
      refine ⟨⟨fun p _ q hq => absurd hq List.not_mem_nil, hnames⟩, ?_⟩
      rintro n ⟨p, hp, hn⟩
      exact hall p hp n hn

end Gamebook
