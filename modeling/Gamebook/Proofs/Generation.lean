/-
# Gamebook.Proofs.Generation — when a module comes out of a source

Writing a story in Lua stops at the first marker that belongs to no conditional, in the order in which
`Story.walk` lists the statements, and at nothing else (`Lua.ofStory_stops`). Checking reports an error for
every such marker, and simplifying makes none. So a source without errors always gives a module, and a
source with errors gives one, when it is asked for all the same, unless such a marker is left
(`compile_outcome`).

Three recursions over bodies have to agree here: the one that writes, the one that checks and the one
that simplifies. Each is compared with the walk over the body, and never with another one.
-/
import Gamebook.Compile
import Gamebook.Proofs.Simplify
import Gamebook.Proofs.Validation

namespace Gamebook

/-! ## Markers without a conditional -/

/-- The marker and place of a statement that is a marker without a conditional. -/
def Node.stray? : Node → Option Lua.Unsupported
  | .stray marker pos => some ⟨marker, pos⟩
  | _ => none

theorem Node.stray?_eq_some {n : Node} {u : Lua.Unsupported} :
    n.stray? = some u ↔ n = .stray u.marker u.pos := by
  cases n with
  | stray marker pos =>
    obtain ⟨marker', pos'⟩ := u
    simp [stray?]
  | _ => simp [stray?]

/-- Some statement of a story, inside however many conditionals, is a marker without one. -/
def Story.HoldsStray (s : Story) : Prop := ∃ marker pos, Node.stray marker pos ∈ s.walk

theorem Story.not_holdsStray_iff {s : Story} :
    ¬ s.HoldsStray ↔ ∀ p ∈ s.passages, Node.Everywhere (fun n => n.stray? = none) p.body := by
  constructor
  · intro h p hp n hn
    cases hstray : n.stray? with
    | none => rfl
    | some u =>
      rw [Node.stray?_eq_some] at hstray
      exact absurd ⟨u.marker, u.pos, List.mem_flatMap.mpr ⟨p, hp, hstray ▸ hn⟩⟩ h
  · rintro h ⟨marker, pos, hmem⟩
    obtain ⟨p, hp, hn⟩ := List.mem_flatMap.mp hmem
    exact absurd (h p hp _ hn) (Option.some_ne_none _)

/-! ## Writing -/

namespace Lua

/-- Writing stops at what was found, and comes to its end if nothing was. -/
def Stops {α : Type} (found : Option Unsupported) (outcome : Except Unsupported α) : Prop :=
  match found with
  | some u => outcome = .error u
  | none => ∃ a, outcome = .ok a

section

variable {α β : Type} {found found' : Option Unsupported}

theorem stops_ok (a : α) : Stops none (.ok a : Except Unsupported α) := ⟨a, rfl⟩

/-- What comes first stops first. -/
theorem Stops.bind {x : Except Unsupported α} {f : α → Except Unsupported β} (hx : Stops found x)
    (hf : ∀ a, Stops found' (f a)) : Stops (found.or found') (x >>= f) := by
  cases found with
  | some u =>
    have herror : x = .error u := hx
    rw [herror]
    exact rfl
  | none =>
    obtain ⟨a, ha⟩ := hx
    rw [ha]
    exact hf a

/-- Arranging what was written stops at nothing more. -/
theorem Stops.map {x : Except Unsupported α} (hx : Stops found x) (f : α → β) :
    Stops found (do let a ← x; return f a) := by
  rw [← Option.or_none (o := found)]
  exact hx.bind fun a => stops_ok (f a)

end

/-- **Writing a body stops at its first marker without a conditional.** -/
theorem nodes_stops (depth : Nat) (ns : List Node) :
    Stops ((Node.walkAll ns).findSome? Node.stray?) (nodes depth ns) := by
  induction ns using Node.body_induction generalizing depth with
  | nil => exact stops_ok _
  | leaf n ns hn ih =>
    have hnode : Stops (n.walk.findSome? Node.stray?) (node depth n) := by
      cases n with
      | conditional => cases hn
      | stray marker pos => exact rfl
      | _ => exact stops_ok _
    rw [Node.walkAll, List.findSome?_append, nodes]
    exact hnode.bind fun lines => (ih depth).map _
  | conditional guard body otherwise opening closing ns ihBody ihBranch ih =>
    have hnode : Stops ((Node.conditional guard body otherwise opening closing).walk.findSome? Node.stray?)
        (node depth (.conditional guard body otherwise opening closing)) := by
      -- The walk goes on with the body and then with the other branch, and so does writing.
      cases otherwise with
      | none =>
        rw [Node.walk, List.findSome?_cons_of_isNone rfl, List.findSome?_append, node]
        exact (ihBody (depth + 1)).bind fun first => Stops.map (stops_ok []) _
      | some branch =>
        rw [Node.walk, List.findSome?_cons_of_isNone rfl, List.findSome?_append, node]
        exact (ihBody (depth + 1)).bind fun first => ((ihBranch branch rfl (depth + 1)).map _).map _
    rw [Node.walkAll, List.findSome?_append, nodes]
    exact hnode.bind fun lines => (ih depth).map _

theorem routines_stops (ps : List Passage) :
    Stops ((ps.flatMap fun p => Node.walkAll p.body).findSome? Node.stray?) (routines ps) := by
  induction ps with
  | nil => exact stops_ok _
  | cons p ps ih =>
    rw [List.flatMap_cons, List.findSome?_append, routines]
    exact ((nodes_stops 1 p.body).map _).bind fun first => ih.map _

/-- **Writing a story stops at its first marker without a conditional,** and at nothing else. -/
theorem ofStory_stops (s : Story) : Stops (s.walk.findSome? Node.stray?) (ofStory s) :=
  (routines_stops s.passages).map _

/-- A failure names the first marker without a conditional. -/
theorem ofStory_eq_error {s : Story} {u : Unsupported} (h : ofStory s = .error u) :
    ∃ before after, s.walk = before ++ .stray u.marker u.pos :: after ∧
      ∀ marker pos, Node.stray marker pos ∉ before := by
  have hstops := ofStory_stops s
  cases hfound : s.walk.findSome? Node.stray? with
  | none =>
    rw [hfound] at hstops
    obtain ⟨text, htext⟩ := hstops
    rw [h] at htext
    cases htext
  | some v =>
    rw [hfound] at hstops
    have hv : v = u := Except.error.inj (hstops.symm.trans h)
    obtain ⟨before, n, after, hwalk, hn, hbefore⟩ := List.findSome?_eq_some_iff.mp hfound
    rw [Node.stray?_eq_some, hv] at hn
    refine ⟨before, after, hn ▸ hwalk, fun marker pos hmem => ?_⟩
    exact absurd (hbefore _ hmem) (Option.some_ne_none _)

/-- A story has no module just when it holds a marker without a conditional. -/
theorem exists_error_iff (s : Story) : (∃ u, ofStory s = .error u) ↔ s.HoldsStray := by
  constructor
  · rintro ⟨u, hu⟩
    obtain ⟨before, after, hwalk, -⟩ := ofStory_eq_error hu
    refine ⟨u.marker, u.pos, ?_⟩
    rw [hwalk]
    exact List.mem_append_right _ List.mem_cons_self
  · rintro ⟨marker, pos, hmem⟩
    have hstops := ofStory_stops s
    cases hfound : s.walk.findSome? Node.stray? with
    | none => exact absurd (List.findSome?_eq_none_iff.mp hfound _ hmem) (Option.some_ne_none _)
    | some u =>
      rw [hfound] at hstops
      exact ⟨u, hstops⟩

end Lua

/-! ## Simplifying -/

/-- Simplifying makes no marker. -/
theorem Node.everywhere_stray?_simplifyAll {ns : List Node} (h : Everywhere (fun n => n.stray? = none) ns) :
    Everywhere (fun n => n.stray? = none) (simplifyAll ns) := by
  refine everywhere_simplifyAll (fun n hn hnone => ?_) (fun _ _ _ _ _ _ _ _ _ => rfl) h
  cases n with
  | conditional => cases hn
  | choice c => exact everywhere_simplify_choice rfl rfl
  | stray marker pos => cases hnone
  | _ => exact (everywhere_leaf rfl).mpr rfl

theorem Story.HoldsStray.of_simplify {s : Story} (h : s.simplify.HoldsStray) : s.HoldsStray := by
  refine Classical.byContradiction fun hnone => ?_
  rw [not_holdsStray_iff] at hnone
  refine not_holdsStray_iff.mpr (fun p hp => ?_) h
  obtain ⟨q, hq, rfl⟩ := List.mem_map.mp hp
  exact Node.everywhere_stray?_simplifyAll (hnone q hq)

/-! ## Checking -/

/-- Only reports of variables are ever dropped as repeated. -/
theorem Validate.mem_firstReads {d : Diagnostic} (hcode : ∀ name, d.code ≠ .unassignedVariable name)
    {ds : List Diagnostic} (h : d ∈ ds) (seen : NameSet) : d ∈ firstReads seen ds := by
  have hkept : (firstReads seen ds).filter (fun e => e.code = d.code) = ds.filter fun e => e.code = d.code :=
    filter_firstReads (fun e _ name he => decide_eq_false (by rw [he]; exact (hcode name).symm)) seen
  have hmem : d ∈ ds.filter fun e => e.code = d.code := List.mem_filter.mpr ⟨h, decide_eq_true rfl⟩
  rw [← hkept] at hmem
  exact (List.mem_filter.mp hmem).1

/-- A report on a statement is a report on its story, unless a variable may have been reported before. -/
theorem Story.mem_validate_of_node {s : Story} {n : Node} {d : Diagnostic} (hn : n ∈ s.walk)
    (hd : d ∈ Validate.node s s.assigned n) (hcode : ∀ name, d.code ≠ .unassignedVariable name) :
    d ∈ s.validate := by
  have hstatement : d ∈ Validate.statements s :=
    Validate.mem_firstReads hcode (List.mem_flatMap.mpr ⟨n, hn, hd⟩) .empty
  rw [Story.validate_eq]
  exact List.mem_append_left _ (List.mem_append_left _ (List.mem_append_right _ hstatement))

/-- Every marker without a conditional is reported as an error. -/
theorem Story.hasErrors_validate {s : Story} (h : s.HoldsStray) : Diagnostic.hasErrors s.validate = true := by
  obtain ⟨marker, pos, hmem⟩ := h
  refine List.any_eq_true.mpr ⟨_, Story.mem_validate_of_node hmem (List.mem_singleton_self _) ?_, rfl⟩
  exact fun _ => Code.noConfusion

namespace Diagnostic

/-- What keeps the severity of every diagnostic makes no error and removes none. -/
theorem hasErrors_map {f : Diagnostic → Diagnostic} (hf : ∀ d, (f d).severity = d.severity)
    (ds : List Diagnostic) : hasErrors (ds.map f) = hasErrors ds := by
  have hsame : isError ∘ f = isError := funext fun d => by rw [Function.comp_apply, isError, hf, isError]
  rw [hasErrors, hasErrors, List.any_map, hsame]

theorem hasErrors_suggest (ds : List Diagnostic) (s : Story) : hasErrors (suggest ds s) = hasErrors ds := by
  refine hasErrors_map (fun d => ?_) ds
  split <;> rfl

theorem hasErrors_attachSnippets (ds : List Diagnostic) (source : String) :
    hasErrors (attachSnippets ds source) = hasErrors ds := by
  refine hasErrors_map (fun d => ?_) ds
  split <;> rfl

theorem hasErrors_eq_false {ds : List Diagnostic} :
    hasErrors ds = false ↔ ∀ d ∈ ds, d.severity ≠ .error := by
  simp [hasErrors, isError]

end Diagnostic

/-- An error in the story is an error of its source. -/
theorem hasErrors_analyze_of_validate {source name : String} {suggest : Bool}
    (h : Diagnostic.hasErrors (analyze source name suggest).story.validate = true) :
    Diagnostic.hasErrors (analyze source name suggest).diagnostics = true := by
  rw [analyze, Diagnostic.hasErrors_attachSnippets]
  have hfound : ∀ found : List Diagnostic, Diagnostic.hasErrors found = true →
      Diagnostic.hasErrors (if suggest then Diagnostic.suggest found
        (Story.ofTokens (Lexed.ofSource source).tokens).story else found) = true := by
    intro found herror
    split
    · rw [Diagnostic.hasErrors_suggest]
      exact herror
    · exact herror
  refine hfound _ ?_
  rw [Diagnostic.hasErrors, List.any_append, List.any_append]
  have hany :
      (Story.ofTokens (Lexed.ofSource source).tokens).story.validate.any Diagnostic.isError = true := h
  rw [hany, Bool.or_true, Bool.or_true]

/-- A story that holds a marker without a conditional is never analysed without an error. -/
theorem hasErrors_analyze {source name : String} {suggest : Bool}
    (h : (analyze source name suggest).story.HoldsStray) :
    Diagnostic.hasErrors (analyze source name suggest).diagnostics = true :=
  hasErrors_analyze_of_validate (Story.hasErrors_validate h)

/-! ## Compiling -/

theorem Lua.toOption_ofStory_eq_none_iff (s : Story) : (Lua.ofStory s).toOption = none ↔ s.HoldsStray := by
  rw [← Lua.exists_error_iff]
  cases Lua.ofStory s <;> simp [Except.toOption]

/-- What is written, and whether that is a success. -/
theorem generate_eq (a : Analysis) (name : String) (optimize : Bool) :
    let story := if optimize then a.story.simplify else a.story
    let output := (Lua.ofStory story).toOption
    ∃ log, generate a name optimize
      = ⟨story, a.diagnostics, output.isSome && !Diagnostic.hasErrors a.diagnostics, output, log⟩ := by
  simp only [generate]
  generalize (if optimize then a.story.simplify else a.story) = story
  cases Lua.ofStory story with
  | ok text => exact ⟨_, rfl⟩
  | error u => exact ⟨_, rfl⟩

/-- With errors there is no module unless it is asked for; otherwise the story is written. -/
theorem compile_cases (source name : String) (options : CompileOptions) :
    let a := analyze source name options.suggest
    let story := if options.optimize then a.story.simplify else a.story
    let output := (Lua.ofStory story).toOption
    (Diagnostic.hasErrors a.diagnostics = true ∧ options.force = false ∧
        compile source name options = ⟨a.story, a.diagnostics, false, none, a.log⟩) ∨
      ((Diagnostic.hasErrors a.diagnostics = false ∨ options.force = true) ∧ ∃ log,
        compile source name options
          = ⟨story, a.diagnostics, output.isSome && !Diagnostic.hasErrors a.diagnostics, output, log⟩) := by
  intro a story output
  have hcompile : compile source name options = if Diagnostic.hasErrors a.diagnostics && !options.force
      then ⟨a.story, a.diagnostics, false, none, a.log⟩ else generate a name options.optimize := rfl
  obtain ⟨log, hgenerate⟩ := generate_eq a name options.optimize
  rw [hcompile, hgenerate]
  cases Diagnostic.hasErrors a.diagnostics <;> cases options.force <;> simp [story, output]

/-- Without errors the story that is written holds no marker without a conditional. -/
theorem isSome_ofStory {source name : String} {suggest : Bool}
    (h : Diagnostic.hasErrors (analyze source name suggest).diagnostics = false) (optimize : Bool) :
    let story := (analyze source name suggest).story
    (Lua.ofStory (if optimize then story.simplify else story)).toOption.isSome = true := by
  intro story
  have hread : ¬ story.HoldsStray := by
    intro hstray
    rw [hasErrors_analyze hstray] at h
    cases h
  rw [← Option.not_isNone, Bool.not_eq_true', Bool.eq_false_iff, ne_eq, Option.isNone_iff_eq_none,
    Lua.toOption_ofStory_eq_none_iff]
  split
  · exact fun hstray => hread hstray.of_simplify
  · exact hread

theorem diagnostics_compile (source name : String) (options : CompileOptions) :
    (compile source name options).diagnostics = (analyze source name options.suggest).diagnostics := by
  rcases compile_cases source name options with ⟨-, -, hr⟩ | ⟨-, log, hr⟩ <;> rw [hr]

/-- Compiling succeeds just when no error is reported. -/
theorem succeeded_compile (source name : String) (options : CompileOptions) :
    (compile source name options).succeeded = !Diagnostic.hasErrors (compile source name options).diagnostics := by
  rcases compile_cases source name options with ⟨herrors, -, hr⟩ | ⟨-, log, hr⟩
  · rw [hr, herrors]
    rfl
  · rw [hr]
    cases hnone : Diagnostic.hasErrors (analyze source name options.suggest).diagnostics with
    | true => exact Bool.and_false _
    | false =>
      rw [isSome_ofStory hnone]
      rfl

/-- The story and the module that come out of a source. -/
theorem compile_result (source name : String) (options : CompileOptions) :
    let r := compile source name options
    let story := (Story.ofTokens (Lexed.ofSource source).tokens).story
    let written := if options.optimize then story.simplify else story
    (r.story, r.output) = if Diagnostic.hasErrors r.diagnostics && !options.force then (story, none)
      else (written, (Lua.ofStory written).toOption) := by
  intro r story written
  have hdiagnostics : r.diagnostics = (analyze source name options.suggest).diagnostics :=
    diagnostics_compile source name options
  rw [hdiagnostics]
  rcases compile_cases source name options with ⟨herrors, hforce, hr⟩ | ⟨hgo, log, hr⟩
  · rw [herrors, hforce]
    exact congrArg (fun c : Compilation => (c.story, c.output)) hr
  · have hpass : (Diagnostic.hasErrors (analyze source name options.suggest).diagnostics && !options.force)
        = false := by
      rcases hgo with hnone | hforce
      · rw [hnone, Bool.false_and]
      · rw [hforce, Bool.not_true, Bool.and_false]
    rw [hpass]
    exact congrArg (fun c : Compilation => (c.story, c.output)) hr

/-- **Compiling succeeds exactly on sources without errors.** Then there is a module. With errors there is
none unless it is asked for, and if it is, there is none just when the story, simplified if that is
wanted, holds a marker without a conditional. Such markers are all that keeps a story from being written,
and the failure names the first of them. What is reported is what the analysis has found, and the module is the
story written in Lua. -/
theorem compile_outcome (source name : String) (options : CompileOptions) :
    let r := compile source name options
    let story := (Story.ofTokens (Lexed.ofSource source).tokens).story
    let written := if options.optimize then story.simplify else story
    (r.succeeded = true ↔ ∀ d ∈ r.diagnostics, d.severity ≠ .error) ∧
      (r.succeeded = true → ∃ text, r.output = some text) ∧
      ((∃ d ∈ r.diagnostics, d.severity = .error) → options.force = false → r.output = none) ∧
      (options.force = true →
        r.story = (if options.optimize then story.simplify else story) ∧
          (r.output = none ↔ r.story.HoldsStray)) ∧
      (r.diagnostics = (analyze source name options.suggest).diagnostics ∧
        (r.story, r.output) = if Diagnostic.hasErrors r.diagnostics && !options.force then (story, none)
          else (written, (Lua.ofStory written).toOption)) ∧
      ∀ s : Story, ((∃ u, Lua.ofStory s = .error u) ↔ s.HoldsStray) ∧
        ∀ u, Lua.ofStory s = .error u →
          ∃ before after, s.walk = before ++ .stray u.marker u.pos :: after ∧
            ∀ marker pos, Node.stray marker pos ∉ before := by
  intro r story written
  have hdiagnostics : r.diagnostics = (analyze source name options.suggest).diagnostics :=
    diagnostics_compile source name options
  have hresult : (r.story, r.output) = if Diagnostic.hasErrors r.diagnostics && !options.force then (story, none)
      else (written, (Lua.ofStory written).toOption) := compile_result source name options
  have hsucceeded : r.succeeded = true ↔ ∀ d ∈ r.diagnostics, d.severity ≠ .error := by
    rw [succeeded_compile, Bool.not_eq_true', Diagnostic.hasErrors_eq_false]
  refine ⟨hsucceeded, fun h => ?_, fun ⟨d, hd, hsevere⟩ hforce => ?_, fun hforce => ?_, ⟨hdiagnostics, hresult⟩,
    fun s => ⟨Lua.exists_error_iff s, fun u hu => Lua.ofStory_eq_error hu⟩⟩
  · have hnone : Diagnostic.hasErrors r.diagnostics = false :=
      Diagnostic.hasErrors_eq_false.mpr (hsucceeded.mp h)
    rw [hnone] at hresult
    rw [hdiagnostics] at hnone
    rw [(Prod.mk.inj hresult).2]
    exact Option.isSome_iff_exists.mp (isSome_ofStory hnone options.optimize)
  · have herrors : Diagnostic.hasErrors r.diagnostics = true := by
      rw [← Bool.not_eq_false, Diagnostic.hasErrors_eq_false]
      exact fun hall => hall d hd hsevere
    rw [herrors, hforce] at hresult
    exact (Prod.mk.inj hresult).2
  · rw [hforce, Bool.not_true, Bool.and_false] at hresult
    obtain ⟨hstory, houtput⟩ := Prod.mk.inj hresult
    refine ⟨hstory, ?_⟩
    rw [houtput, hstory]
    exact Lua.toOption_ofStory_eq_none_iff written

end Gamebook
