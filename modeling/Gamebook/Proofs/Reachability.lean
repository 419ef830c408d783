/-
# Gamebook.Proofs.Reachability — which passages are reported as never referenced

A name is unreferenced if some passage has it, the story does not start there and no choice or divert leads
there, at any depth (`Story.Unreferenced`). Unreferenced names are reported and no others. Of the passages of
one name the first is meant; it is told by its place, so every passage at that place is reported
(`Story.unreachable_reports`).

In a story that was read from a source no two passages share a place, since they begin at different tokens
and places increase from token to token (`Story.nodup_pos_ofSource`): there every unreferenced name is reported
exactly once. Passages that were built in code all stand at `Position.unplaced`, and an unreferenced name that
two of them have is reported twice (`Story.unreachable_built_twice`).
-/
import Gamebook.Proofs.Layout
import Gamebook.Proofs.Scan.Lines
import Gamebook.Proofs.Validation
import Gamebook.Story.Build

namespace Gamebook

/-! ## Places of passages -/

namespace Outline

/-- Sections begin at different tokens. -/
theorem pos_sections_sublist (e : Position) (ts : List Token) :
    ((layout e ts).sections.map Section.pos).Sublist (ts.map Token.pos) := by
  induction ts with
  | nil => exact .slnil
  | cons t ts ih =>
    rw [layout_cons, Tail.push, List.map_cons]
    split
    · exact ih.cons t.pos
    · exact ih.cons_cons t.pos
    · exact ih.cons t.pos

/-- A passage stands where its section begins. -/
theorem pos_passages_sublist (ss : List Section) :
    ((ss.filterMap Section.passage?).map Passage.pos).Sublist (ss.map Section.pos) := by
  induction ss with
  | nil => exact .slnil
  | cons s ss ih =>
    rw [List.filterMap_cons, List.map_cons]
    split
    · exact ih.cons s.pos
    · next p hp =>
      obtain ⟨name, -, rfl⟩ := Option.map_eq_some_iff.mp hp
      exact ih.cons_cons s.pos

end Outline

namespace Story

/-- **No two passages of a source share a place.** -/
theorem nodup_pos_ofSource (source : String) :
    ((Story.ofTokens (Lexed.ofSource source).tokens).story.passages.map Passage.pos).Nodup := by
  have htokens : ((Lexed.ofSource source).tokens.map Token.pos).Nodup :=
    List.pairwise_map.mpr ((Lexed.pairwise_before source).imp Position.Before.ne)
  have hwords := (List.takeWhile_sublist fun t => !Outline.isEnd t).trans
    (List.filter_sublist (p := fun t => !t.kind.isTrivia) (l := (Lexed.ofSource source).tokens))
  refine List.Nodup.sublist ?_ htokens
  exact (Outline.pos_passages_sublist _).trans ((Outline.pos_sections_sublist _ _).trans (hwords.map _))

/-! ## Names that nothing leads to -/

/-- A passage has the name, the story does not start there, and no choice or divert leads there. -/
def Unreferenced (s : Story) (name : String) : Prop :=
  name ∈ s.names ∧ name ≠ s.entryName ∧
    ∀ p ∈ s.passages, ∀ n : Node, n.Occurs p.body → n.target? ≠ some name

theorem unreferenced_iff {s : Story} {name : String} :
    s.Unreferenced name ↔ name ∈ s.names ∧ name ≠ s.entryName ∧ name ∉ s.targets := by
  have htargets : name ∈ s.targets ↔ ∃ p ∈ s.passages, ∃ n : Node, n.Occurs p.body ∧ n.target? = some name := by
    simp only [targets, List.mem_filterMap, mem_walk_iff]
    constructor
    · rintro ⟨n, ⟨p, hp, hn⟩, htarget⟩
      exact ⟨p, hp, n, hn, htarget⟩
    · rintro ⟨p, hp, n, hn, htarget⟩
      exact ⟨n, ⟨p, hp, hn⟩, htarget⟩
  rw [Unreferenced, htargets]
  push Not
  rfl

instance (s : Story) (name : String) : Decidable (s.Unreferenced name) :=
  decidable_of_iff _ unreferenced_iff.symm

/-- The passages of a name that stand where the first of them does. -/
def atFirst (s : Story) (name : String) : List Passage :=
  s.passages.filter fun p => p.name = name ∧ (s.find? name).map Passage.pos = some p.pos

theorem find?_mem_atFirst {s : Story} {name : String} (h : name ∈ s.names) :
    ∃ p ∈ s.atFirst name, s.find? name = some p := by
  obtain ⟨q, hq, hname⟩ := List.mem_map.mp h
  have hsome : (s.find? name).isSome = true :=
    List.find?_isSome.mpr ⟨q, hq, decide_eq_true hname⟩
  obtain ⟨p, hp⟩ := Option.isSome_iff_exists.mp hsome
  have hpname := List.find?_some (show s.passages.find? (fun p => p.name = name) = some p from hp)
  rw [decide_eq_true_eq] at hpname
  refine ⟨p, List.mem_filter.mpr ⟨List.mem_of_find?_eq_some hp, decide_eq_true ⟨hpname, ?_⟩⟩, hp⟩
  rw [hp, Option.map_some]

/-- Where no two passages share a place, only the first passage of a name stands where it does. -/
theorem length_atFirst {s : Story} {name : String} (hpos : (s.passages.map Passage.pos).Nodup)
    (h : name ∈ s.names) : (s.atFirst name).length = 1 := by
  obtain ⟨first, hfirst, hfind⟩ := find?_mem_atFirst h
  have hsame : ∀ pos ∈ (s.atFirst name).map Passage.pos, pos = first.pos := by
    intro pos hmem
    obtain ⟨p, hp, rfl⟩ := List.mem_map.mp hmem
    have hplace := (of_decide_eq_true (List.mem_filter.mp hp).2).2
    rw [hfind] at hplace
    exact (Option.some.inj hplace).symm
  have hnodup : ((s.atFirst name).map Passage.pos).Nodup :=
    (List.filter_sublist.map Passage.pos).nodup hpos
  have hle : (s.atFirst name).length ≤ 1 := by
    rw [List.eq_replicate_of_mem hsame, List.nodup_replicate, List.length_map] at hnodup
    exact hnodup
  have hlt : 0 < (s.atFirst name).length := List.length_pos_of_mem hfirst
  omega

end Story

/-! ## Reports -/

namespace Validate

theorem unreachable_eq (s : Story) :
    unreachable s
      = (s.passages.filter fun p => isFirst s p && p.name ≠ s.entryName && !s.targets.contains p.name).map
        unreferenced := by
  rw [unreachable, ← List.filterMap_eq_map, List.filterMap_filter]
  rfl

/-- Of the reports of passages, those on one name. -/
theorem filter_unreachable (s : Story) (name : String) :
    (unreachable s).filter (fun d => d.code = .unreachablePassage name)
      = if s.Unreferenced name then (s.atFirst name).map unreferenced else [] := by
  rw [unreachable_eq, List.filter_map, List.filter_filter]
  split
  · next h =>
    obtain ⟨-, hentry, htargets⟩ := Story.unreferenced_iff.mp h
    congr 1
    refine List.filter_congr fun p _ => ?_
    by_cases hname : p.name = name
    · subst hname
      simp [unreferenced, Diagnostic.warning, isFirst, hentry, htargets]
    · simp [unreferenced, Diagnostic.warning, hname]
  · next h =>
    rw [List.map_eq_nil_iff, List.filter_eq_nil_iff]
    intro p hp hreported
    simp only [Function.comp_apply, unreferenced, Diagnostic.warning, Code.unreachablePassage.injEq,
      Bool.and_eq_true, decide_eq_true_eq, Bool.not_eq_true', List.contains_eq_mem,
      decide_eq_false_iff_not] at hreported
    obtain ⟨rfl, ⟨-, hentry⟩, htargets⟩ := hreported
    exact h (Story.unreferenced_iff.mpr ⟨List.mem_map_of_mem hp, hentry, htargets⟩)

/-- **Only passages are reported as never referenced.** -/
theorem filter_validate (s : Story) (name : String) :
    s.validate.filter (fun d => d.code = .unreachablePassage name)
      = if s.Unreferenced name then (s.atFirst name).map unreferenced else [] := by
  have hduplicates : (duplicates [] s.passages).filter (fun d => d.code = .unreachablePassage name) = [] := by
    refine List.filter_eq_nil_iff.mpr fun d hd => ?_
    obtain ⟨-, other, hcode⟩ := isError_of_mem_duplicates hd
    simp [hcode]
  have hstatements : (statements s).filter (fun d => d.code = .unreachablePassage name) = [] := by
    rw [statements, filter_firstReads fun d _ other hcode => by simp [hcode]]
    refine List.filter_eq_nil_iff.mpr fun d hd hcode => ?_
    obtain ⟨n, -, hd⟩ := List.mem_flatMap.mp hd
    have hstatement := (severity_of_mem_node hd).2
    rw [of_decide_eq_true hcode] at hstatement
    cases hstatement
  have hentry : (entry s).filter (fun d => d.code = .unreachablePassage name) = [] := by
    rw [entry]
    split
    · rfl
    · split
      · rfl
      · simp [missing, Diagnostic.warning]
  rw [Story.validate_eq, List.filter_append, List.filter_append, List.filter_append, hduplicates, hstatements,
    hentry, filter_unreachable]
  rfl

end Validate

/-- **Which names are reported as never referenced, and how often.** All these reports are warnings, and a
name that is not unreferenced has none. An unreferenced name has one for every passage of the name that stands
where the first of them does, so at least one. In a story that was read from a source it has exactly one. -/
theorem Story.unreachable_reports (s : Story) (name : String) :
    let reports := s.validate.filter fun d => d.code = .unreachablePassage name
    (∀ d ∈ reports, d.severity = .warning) ∧
      (¬ s.Unreferenced name → reports = []) ∧
      (s.Unreferenced name →
        reports.map Diagnostic.pos = (s.atFirst name).map Passage.pos ∧ 0 < reports.length) ∧
      ∀ source, s = (Story.ofTokens (Lexed.ofSource source).tokens).story → s.Unreferenced name →
        reports.length = 1 := by
  intro reports
  have hreports : reports
      = if s.Unreferenced name then (s.atFirst name).map Validate.unreferenced else [] :=
    Validate.filter_validate s name
  have hlength : s.Unreferenced name → reports.length = (s.atFirst name).length := by
    intro h
    rw [hreports, if_pos h, List.length_map]
  refine ⟨fun d hd => ?_, fun h => by rw [hreports, if_neg h], fun h => ⟨?_, ?_⟩, fun source hs h => ?_⟩
  · rw [hreports] at hd
    split at hd
    · obtain ⟨p, -, rfl⟩ := List.mem_map.mp hd
      rfl
    · cases hd
  · rw [hreports, if_pos h, List.map_map]
    rfl
  · obtain ⟨p, hp, -⟩ := Story.find?_mem_atFirst h.1
    rw [hlength h]
    exact List.length_pos_of_mem hp
  · rw [hlength h]
    exact Story.length_atFirst (hs ▸ Story.nodup_pos_ofSource source) h.1

/-- Two passages of one name in a source: the name is reported once. -/
theorem Story.unreachable_reports_attic :
    let source := ":: Start\n:: Attic\n:: Attic\n-> Start\n"
    let s := (Story.ofTokens (Lexed.ofSource source).tokens).story
    s.Unreferenced "Attic" ∧
      (s.validate.filter fun d => d.code = .unreachablePassage "Attic").length = 1 := by
  intro source s
  have hunreferenced : s.Unreferenced "Attic" := by decide +kernel
  exact ⟨hunreferenced, (Story.unreachable_reports s "Attic").2.2.2 source rfl hunreferenced⟩

/-- Two passages of one name that were built in code: it is reported of both that nothing leads there. -/
theorem Story.unreachable_built_twice :
    let s := (Story.empty.add (.named "Start")).add (.named "Attic") |>.add (.named "Attic")
    s.Unreferenced "Attic" ∧
      (s.validate.filter fun d => d.code = .unreachablePassage "Attic").length = 2 := by
  decide +kernel

end Gamebook
