/-
# Gamebook.Proofs.Effects — what commands do to files, and how they end

A file system is anything that lets paths be read and written such that a read changes nothing, a write
that fails changes nothing, and a write that succeeds changes the one file that its path leads to
(`FileAccess.Lawful`). Which reads and writes fail is left open. The disk in memory is such a file system
(`Disk.lawful_access`).

A command that compiles comes to its end if its input can be read, a module comes out and the module can be
written (`Compiles`). Whether this happens is decided in one place for `compile` and in another for
`watch`, and `check` never looks at the module at all. What they have in common is
`Gamebook.Proofs.Generation`: a module comes out just when no error is reported, or when it is forced.
-/
import Gamebook.Command.Disk
import Gamebook.Command.Run
import Gamebook.Proofs.Generation

namespace Gamebook

variable {σ κ : Type}

/-! ## File systems -/

/-- How the states of a file system are looked at: which file a path leads to, and what a file holds. -/
structure FileModel (σ κ : Type) where
  locate : σ → String → Option κ
  content : σ → κ → Option Content

namespace FileModel

/-- The path leads to a file that holds the text. -/
def Holds (model : FileModel σ κ) (s : σ) (path text : String) : Prop :=
  ∃ k, model.locate s path = some k ∧ model.content s k = some (.text text)

/-- From `s` to `s'` the file that the path leads to gets the text, and no other file changes. -/
def Sets (model : FileModel σ κ) (path text : String) (s s' : σ) : Prop :=
  ∃ k, model.locate s path = some k ∧ model.content s' k = some (.text text) ∧
    ∀ k', k' ≠ k → model.content s' k' = model.content s k'

end FileModel

/-- Reads change nothing and give what the file holds; writes change nothing if they fail, and else the one
file only. -/
structure FileAccess.Lawful (files : FileAccess (StateM σ)) (model : FileModel σ κ) : Prop where
  read_keeps : ∀ path s, ((files.read path).run s).2 = s
  read_holds : ∀ path s text, ((files.read path).run s).1 = .ok text → model.Holds s path text
  present_keeps : ∀ path s, ((files.present path).run s).2 = s
  write_keeps : ∀ path text s e, ((files.write path text).run s).1 = .error e →
    ((files.write path text).run s).2 = s
  write_sets : ∀ path text s, ((files.write path text).run s).1 = .ok () →
    model.Sets path text s ((files.write path text).run s).2

/-- The same access with a journal of the writes that succeed. -/
def FileAccess.journaled (files : FileAccess (StateM σ)) :
    FileAccess (StateM (σ × List (String × String))) where
  read path := fun s => (((files.read path).run s.1).1, ((files.read path).run s.1).2, s.2)
  write path text := fun s =>
    (((files.write path text).run s.1).1, ((files.write path text).run s.1).2,
      match ((files.write path text).run s.1).1 with
      | .ok () => s.2 ++ [(path, text)]
      | .error _ => s.2)
  present path := fun s => (((files.present path).run s.1).1, ((files.present path).run s.1).2, s.2)

theorem FileAccess.run_journaled_write (files : FileAccess (StateM σ)) (path text : String) (s : σ)
    (journal : List (String × String)) :
    (files.journaled.write path text).run (s, journal)
      = (((files.write path text).run s).1, ((files.write path text).run s).2,
          match ((files.write path text).run s).1 with
          | .ok () => journal ++ [(path, text)]
          | .error _ => journal) := rfl

/-! ## The disk -/

namespace Disk

/-- A disk as a file system: paths are followed, and files are known by the names on the way to them. -/
def model : FileModel Disk (List String) where
  locate d path :=
    match d.find path with
    | .ok (.file target _) | .ok (.free target) => some target
    | _ => none
  content := Disk.get?

theorem get?_put_self (d : Disk) (path : List String) (content : Content) :
    (d.put path content).get? path = some content := by
  simp [get?, put]

theorem get?_put_of_ne (d : Disk) {path other : List String} (content : Content) (h : other ≠ path) :
    (d.put path content).get? other = d.get? other := by
  obtain ⟨files⟩ := d
  have hrest : (files.filter fun f => f.1 ≠ path).lookup other = files.lookup other := by
    induction files with
    | nil => rfl
    | cons f files ih =>
      obtain ⟨name, held⟩ := f
      by_cases hname : name = path
      · have hskip : (other == name) = false := beq_false_of_ne (hname ▸ h)
        rw [List.filter_cons_of_neg (by simpa using hname), ih, List.lookup_cons, hskip]
      · rw [List.filter_cons_of_pos (by simpa using hname), List.lookup_cons, List.lookup_cons, ih]
  have hhead : (other == path) = false := beq_false_of_ne h
  simp only [get?, put, List.lookup_cons, hhead, hrest]

theorem get?_of_place {d : Disk} {path target : List String} {content : Content}
    (h : d.place path = .file target content) : d.get? target = some content := by
  rw [place] at h
  split at h
  · cases h
  · split at h
    · next hget =>
      cases h
      exact hget
    · cases h

/-- A file that a path leads to is a file of the disk. -/
theorem get?_of_follow {d : Disk} {start : Option (List String)} {steps target : List String}
    {content : Content} (h : d.follow start steps = .ok (.file target content)) :
    d.get? target = some content := by
  fun_induction Disk.follow d start steps with
  | case1 => cases h
  | case2 step steps hstay ih => exact ih h
  | case3 => cases h
  | case4 here steps ih => exact ih h
  | case5 here steps hup ih => exact ih h
  | case6 here step steps hstay hup hdirectory ih => exact ih h
  | case7 here step hstay hup hfound => exact get?_of_place (Except.ok.inj h)
  | case8 => cases h
  | case9 => cases h

theorem holds_of_read {d : Disk} {path text : String} (h : d.read path = .ok text) :
    Disk.model.Holds d path text := by
  rw [Disk.read] at h
  cases hfind : d.find path with
  | error e =>
    rw [hfind] at h
    cases h
  | ok place =>
    rw [hfind] at h
    cases place with
    | directory => cases h
    | free target => cases h
    | file target content =>
      have hlocate : Disk.model.locate d path = some target := by simp only [Disk.model, hfind]
      have hget : d.get? target = some content := get?_of_follow hfind
      simp only [bind, Except.bind] at h
      split at h
      · cases h
      · cases content with
        | text held =>
          cases h
          exact ⟨target, hlocate, hget⟩
        | bytes held => cases h

theorem sets_of_write {d d' : Disk} {path text : String} (h : d.write path text = .ok d') :
    Disk.model.Sets path text d d' := by
  have hput : ∀ target, Disk.model.locate d path = some target → d' = d.put target (.text text) →
      Disk.model.Sets path text d d' := by
    intro target hlocate hd'
    rw [hd']
    exact ⟨target, hlocate, get?_put_self d target _, fun other hother => get?_put_of_ne d _ hother⟩
  rw [Disk.write] at h
  cases hfind : d.find path with
  | error e =>
    rw [hfind] at h
    cases h
  | ok place =>
    rw [hfind] at h
    simp only [bind, Except.bind] at h
    cases place with
    | directory => cases h
    | free target | file target content =>
      simp only at h
      split at h
      · cases h
      · exact hput target (by simp only [Disk.model, hfind]) (Except.ok.inj h).symm

theorem run_write (d : Disk) (path text : String) :
    (Disk.access.write path text).run d
      = match d.write path text with
        | .ok d' => (.ok (), d')
        | .error e => (.error e, d) := by
  have hrun : (Disk.access.write path text).run d
      = StateT.run (m := Id) (σ := Disk) (match d.write path text with
          | .ok d' => do
            set d'
            return .ok ()
          | .error e => return .error e) d := rfl
  rw [hrun]
  cases d.write path text <;> rfl

/-- **The disk is a file system.** -/
theorem lawful_access : Disk.access.Lawful Disk.model where
  read_keeps _ _ := rfl
  read_holds _ _ _ h := holds_of_read h
  present_keeps _ _ := rfl
  write_keeps path text d e h := by
    rw [run_write] at h ⊢
    cases hwrite : d.write path text with
    | ok d' =>
      rw [hwrite] at h
      cases h
    | error e' => rfl
  write_sets path text d h := by
    rw [run_write] at h ⊢
    cases hwrite : d.write path text with
    | ok d' => exact sets_of_write hwrite
    | error e' =>
      rw [hwrite] at h
      cases h

end Disk

/-! ## What comes out of a source -/

theorem hasErrors_analyze_suggest (source name : String) (suggest : Bool) :
    Diagnostic.hasErrors (analyze source name suggest).diagnostics
      = Diagnostic.hasErrors (analyze source name true).diagnostics := by
  cases suggest with
  | true => rfl
  | false =>
    simp only [analyze, Diagnostic.hasErrors_attachSnippets, if_true, Diagnostic.hasErrors_suggest,
      Bool.false_eq_true, if_false]

/-- What comes out does not depend on the hints. -/
theorem output_compile (source name : String) (options : CompileOptions) :
    (compile source name options).output
      = if Diagnostic.hasErrors (analyze source name true).diagnostics && !options.force then none
        else
          (Lua.ofStory
            (if options.optimize then (Story.ofTokens (Lexed.ofSource source).tokens).story.simplify
            else (Story.ofTokens (Lexed.ofSource source).tokens).story)).toOption := by
  have hresult := congrArg Prod.snd (compile_result source name options)
  rw [apply_ite Prod.snd, diagnostics_compile, hasErrors_analyze_suggest] at hresult
  exact hresult

/-- Compiling is accepted just when a module comes out: no error was reported, or it was asked for in spite of
errors. -/
theorem accepted_compile (source name : String) (options : CompileOptions) :
    ((compile source name options).succeeded || (options.force && (compile source name options).output.isSome))
      = (compile source name options).output.isSome := by
  rcases compile_cases source name options with ⟨-, hforce, hr⟩ | ⟨hnone | hforce, log, hr⟩
  · rw [hr, hforce]
    rfl
  · rw [hr, hnone, Bool.not_false, Bool.and_true]
    cases options.force with
    | true => exact Bool.or_self _
    | false => exact Bool.or_false _
  · rw [hr, hforce, Bool.true_and]
    cases (Lua.ofStory _).toOption.isSome with
    | true => exact Bool.or_true _
    | false => rfl

/-- Unless it is forced a module comes out just when no error is reported. -/
theorem exists_output_iff {source name : String} {options : CompileOptions} (hforce : options.force = false) :
    (∃ lua, (compile source name options).output = some lua) ↔
      Diagnostic.hasErrors (analyze source name true).diagnostics = false := by
  rw [← Option.isSome_iff_exists, ← accepted_compile, hforce, Bool.false_and, Bool.or_false, succeeded_compile,
    diagnostics_compile, hasErrors_analyze_suggest, Bool.not_eq_true']

/-! ## Commands -/

/-- The outcome of one action after another, and the state after both. -/
theorem run_bind_eq {α β : Type} (x : StateM σ α) (f : α → StateM σ β) (s : σ) :
    (x >>= f).run s = (f (x.run s).1).run (x.run s).2 := rfl

namespace Command

/-- The input can be read, a module comes out of it, and the module can be written if it goes to a file. -/
structure Compiles (files : FileAccess (StateM σ)) (s : σ) (input : String) (output : Option String)
    (options : CompileOptions) (source lua : String) : Prop where
  read : ((files.read input).run s).1 = .ok source
  generated : (Gamebook.compile source input options).output = some lua
  written : ∀ path ∈ output, ((files.write path lua).run s).1 = .ok ()

/-- The one thing that can be compiled, if anything can: the source is what is read. -/
theorem Compiles.unique {files : FileAccess (StateM σ)} {s : σ} {input : String} {output : Option String}
    {options : CompileOptions} {source source' lua : String}
    (hc : Compiles files s input output options source' lua)
    (hread : ((files.read input).run s).1 = .ok source) :
    (Gamebook.compile source input options).output = some lua := by
  obtain rfl : source' = source := Except.ok.inj (hc.read.symm.trans hread)
  exact hc.generated

section

variable {files : FileAccess (StateM σ)} {s : σ} {input : String} {output : Option String}
  {options : CompileOptions}

/-! Compiling stops at the first of its three steps that fails. -/

theorem not_compiles_of_unread {e : FileError} (hread : ((files.read input).run s).1 = .error e)
    (source lua : String) : ¬ Compiles files s input output options source lua := by
  intro hc
  rw [hc.read] at hread
  cases hread

theorem not_compiles_of_ungenerated {source : String} (hread : ((files.read input).run s).1 = .ok source)
    (houtput : (Gamebook.compile source input options).output = none) (source' lua : String) :
    ¬ Compiles files s input output options source' lua := by
  intro hc
  rw [hc.unique hread] at houtput
  cases houtput

theorem not_compiles_of_unwritten {source lua path : String} {e : FileError}
    (hread : ((files.read input).run s).1 = .ok source)
    (houtput : (Gamebook.compile source input options).output = some lua) (hpath : path ∈ output)
    (hwrite : ((files.write path lua).run s).1 = .error e) (source' lua' : String) :
    ¬ Compiles files s input output options source' lua' := by
  intro hc
  obtain rfl : lua = lua' := Option.some.inj (houtput.symm.trans (hc.unique hread))
  rw [hc.written path hpath] at hwrite
  cases hwrite

end

/-- Hints make no difference. -/
theorem Compiles.of_suggest {files : FileAccess (StateM σ)} {s : σ} {input : String} {output : Option String}
    {optimize force suggest : Bool} {source lua : String}
    (hc : Compiles files s input output ⟨optimize, force, suggest⟩ source lua) (suggest' : Bool) :
    Compiles files s input output ⟨optimize, force, suggest'⟩ source lua := by
  refine ⟨hc.read, ?_, hc.written⟩
  rw [← hc.generated, output_compile, output_compile]

/-- The state after a text has been written, if it goes to a file. -/
def delivered (files : FileAccess (StateM σ)) (output : Option String) (text : String) (s : σ) : σ :=
  match output with
  | none => s
  | some path => ((files.write path text).run s).2

section

variable {files : FileAccess (StateM σ)} {model : FileModel σ κ} (h : files.Lawful model) (s : σ)
  (input : String) (output : Option String) (options : CompileOptions) (format : ReportFormat)
  (verbosity : Verbosity)

include h

theorem run_read_bind {α : Type} (path : String) (f : Except FileError String → StateM σ α) :
    (files.read path >>= f).run s = (f ((files.read path).run s).1).run s := by
  rw [run_bind_eq, h.read_keeps]

/-- Delivering ends as it was told to, or fails and changes nothing. -/
theorem run_deliver (text said : String) (exit : Exit) :
    ((∀ path ∈ output, ((files.write path text).run s).1 = .ok ()) ∧
        ((deliver files output text said exit).run s).1.exit = exit ∧
        ((deliver files output text said exit).run s).2 = delivered files output text s) ∨
      ((∃ path ∈ output, ∃ e, ((files.write path text).run s).1 = .error e) ∧
        ((deliver files output text said exit).run s).1.exit = .failure ∧
        ((deliver files output text said exit).run s).2 = s) := by
  cases output with
  | none => exact .inl ⟨fun path hpath => absurd hpath (Option.not_mem_none path), rfl, rfl⟩
  | some path =>
    have hwrite : (deliver files (some path) text said exit).run s
        = match ((files.write path text).run s).1 with
          | .ok () => (⟨"", said, exit⟩, ((files.write path text).run s).2)
          | .error e => (.failed said (e.writeMessage path), ((files.write path text).run s).2) := by
      rw [deliver, run_bind_eq]
      cases ((files.write path text).run s).1 <;> rfl
    rw [hwrite]
    cases hresult : ((files.write path text).run s).1 with
    | ok u => exact .inl ⟨fun path' hpath => Option.some.inj hpath ▸ hresult, rfl, rfl⟩
    | error e => exact .inr ⟨⟨path, rfl, e, hresult⟩, rfl, h.write_keeps path text s e hresult⟩

/-- **Compiling a file succeeds with its module delivered, or fails and changes nothing.** -/
theorem run_compile :
    let r := (runCompile files input output options format verbosity).run s
    (∃ source lua, Compiles files s input output options source lua ∧ r.1.exit = .success ∧
        r.2 = delivered files output lua s) ∨
      ((∀ source lua, ¬ Compiles files s input output options source lua) ∧ r.1.exit = .failure ∧
        r.2 = s) := by
  intro r
  have hrun : r = _ := run_read_bind h s input _
  cases hread : ((files.read input).run s).1 with
  | error e =>
    rw [hread] at hrun
    exact .inr ⟨not_compiles_of_unread hread, by rw [hrun]; rfl, by rw [hrun]; rfl⟩
  | ok source =>
    rw [hread] at hrun
    simp only [accepted_compile] at hrun
    cases houtput : (Gamebook.compile source input options).output with
    | none =>
      simp only [houtput] at hrun
      exact .inr ⟨not_compiles_of_ungenerated hread houtput, by rw [hrun]; rfl, by rw [hrun]; rfl⟩
    | some lua =>
      simp only [houtput] at hrun
      rcases run_deliver h s output lua _ _ with
        ⟨hwritten, hexit, hstate⟩ | ⟨⟨path, hpath, e, herror⟩, hexit, hstate⟩
      · refine .inl ⟨source, lua, ⟨hread, houtput, hwritten⟩, ?_, ?_⟩
        · rw [hrun]
          exact hexit
        · rw [hrun]
          exact hstate
      · refine .inr ⟨not_compiles_of_unwritten hread houtput hpath herror, ?_, ?_⟩
        · rw [hrun]
          exact hexit
        · rw [hrun]
          exact hstate

/-- Checking changes nothing, and succeeds just when the input can be read and no error is reported. -/
theorem run_check :
    let r := (runCheck files input format verbosity).run s
    r.2 = s ∧ (r.1.exit.code = 0 ↔ ∃ source, ((files.read input).run s).1 = .ok source ∧
      Diagnostic.hasErrors (analyze source input true).diagnostics = false) := by
  intro r
  have hrun : r = _ := run_read_bind h s input _
  cases hread : ((files.read input).run s).1 with
  | error e =>
    rw [hread] at hrun
    rw [hrun]
    refine ⟨rfl, iff_of_false Nat.one_ne_zero ?_⟩
    rintro ⟨source, hsource, -⟩
    cases hsource
  | ok source =>
    rw [hread] at hrun
    have hends : r.2 = s ∧
        r.1.exit = Exit.ofBool (!Diagnostic.hasErrors (analyze source input true).diagnostics) := by
      rw [hrun]
      cases format <;> exact ⟨rfl, rfl⟩
    refine ⟨hends.1, ?_⟩
    rw [hends.2]
    cases herrors : Diagnostic.hasErrors (analyze source input true).diagnostics with
    | false => exact iff_of_true rfl ⟨source, rfl, herrors⟩
    | true =>
      refine iff_of_false (by decide) ?_
      rintro ⟨source', hsource, hnone⟩
      rw [← Except.ok.inj hsource, herrors] at hnone
      cases hnone

/-- Formatting that only checks or fails changes nothing. -/
theorem run_format (checking : Bool) :
    let r := (runFormat files input output checking).run s
    (checking = true → r.2 = s) ∧ (r.1.exit.code ≠ 0 → r.2 = s) := by
  intro r
  have hrun : r = _ := run_read_bind h s input _
  cases hread : ((files.read input).run s).1 with
  | error e =>
    rw [hread] at hrun
    rw [hrun]
    exact ⟨fun _ => rfl, fun _ => rfl⟩
  | ok source =>
    rw [hread] at hrun
    simp only at hrun
    cases hstory : Story.ofSource source with
    | error e =>
      simp only [hstory] at hrun
      rw [hrun]
      exact ⟨fun _ => rfl, fun _ => rfl⟩
    | ok story =>
      simp only [hstory] at hrun
      cases checking with
      | true =>
        have hstate : r.2 = s := by
          rw [hrun]
          simp only [if_true]
          split <;> rfl
        exact ⟨fun _ => hstate, fun _ => hstate⟩
      | false =>
        refine ⟨nofun, fun hcode => ?_⟩
        rw [hrun] at hcode ⊢
        rcases run_deliver h s output story.render "" .success with ⟨-, hexit, -⟩ | ⟨-, -, hstate⟩
        · exact absurd (congrArg Exit.code hexit) hcode
        · exact hstate

/-- **The first build of a watched file writes its module if it can be compiled, and nothing else.** -/
theorem journal_watch (target : String) (polling : Option Nat) (optimize : Bool) :
    let journal := ((runWatch files.journaled input target polling optimize verbosity).run (s, [])).2.2
    (∃ source lua, Compiles files s input (some target) ⟨optimize, false, true⟩ source lua ∧
        journal = [(target, lua)]) ∨
      ((∀ source lua, ¬ Compiles files s input (some target) ⟨optimize, false, true⟩ source lua) ∧
        journal = []) := by
  intro journal
  -- Looking for the directory of the input leaves the journal as it is.
  have hbuild : journal = ((rebuild files.journaled input target optimize verbosity).run (s, [])).2.2 := by
    show ((runWatch files.journaled input target polling optimize verbosity).run (s, [])).2.2 = _
    rw [runWatch, run_bind_eq, run_bind_eq]
    split <;> rfl
  have hread : (files.journaled.read input).run (s, []) = (((files.read input).run s).1, s, []) := by
    show (_, ((files.read input).run s).2, []) = _
    rw [h.read_keeps]
  rw [rebuild, run_bind_eq, hread] at hbuild
  cases hsource : ((files.read input).run s).1 with
  | error e =>
    rw [hsource] at hbuild
    exact .inr ⟨not_compiles_of_unread hsource, hbuild⟩
  | ok source =>
    rw [hsource] at hbuild
    cases houtput : (Gamebook.compile source input ⟨optimize, false, true⟩).output with
    | none =>
      simp only [houtput] at hbuild
      exact .inr ⟨not_compiles_of_ungenerated hsource houtput, hbuild⟩
    | some lua =>
      have hsucceeded : (Gamebook.compile source input ⟨optimize, false, true⟩).succeeded = true := by
        have haccepted := accepted_compile source input ⟨optimize, false, true⟩
        rw [houtput, Bool.false_and, Bool.or_false] at haccepted
        exact haccepted
      simp only [houtput, hsucceeded] at hbuild
      rw [run_bind_eq] at hbuild
      cases hwrite : ((files.write target lua).run s).1 with
      | ok u =>
        refine .inl ⟨source, lua, ⟨hsource, houtput, fun path hpath => ?_⟩, ?_⟩
        · rw [← Option.some.inj hpath, hwrite]
        · rw [hbuild, files.run_journaled_write, hwrite]
          rfl
      | error e =>
        refine .inr ⟨not_compiles_of_unwritten hsource houtput rfl hwrite, ?_⟩
        rw [hbuild, files.run_journaled_write, hwrite]
        rfl

end

/-- What the commands on an input do to the files of a state agrees with how they end. -/
structure EffectsMatch (files : FileAccess (StateM σ)) (model : FileModel σ κ) (s : σ) (input : String) :
    Prop where
  /-- Compiling that fails changes nothing. -/
  compile_fails : ∀ output options format verbosity,
    let r := (run files (.compile input output options format verbosity)).run s
    r.1.exit.code ≠ 0 → r.2 = s
  /-- Compiling that succeeds changes the output file only, to the module of the input. -/
  compile_succeeds : ∀ output options format verbosity,
    let r := (run files (.compile input output options format verbosity)).run s
    r.1.exit.code = 0 → ∃ source lua, model.Holds s input source ∧
      (Gamebook.compile source input options).output = some lua ∧
      match output with
      | none => r.2 = s
      | some path => model.Sets path lua s r.2
  /-- Checking changes nothing. -/
  check_keeps : ∀ format verbosity, ((run files (.check input format verbosity)).run s).2 = s
  /-- Formatting that only checks changes nothing. -/
  format_check_keeps : ∀ output, ((run files (.format input output true)).run s).2 = s
  /-- Formatting that fails changes nothing. -/
  format_fails : ∀ output checking,
    let r := (run files (.format input output checking)).run s
    r.1.exit.code ≠ 0 → r.2 = s
  /-- Checking succeeds just when compiling without force does, if its module can be written. -/
  check_iff_compile : ∀ output options format verbosity format' verbosity', options.force = false →
    (∀ source lua path, ((files.read input).run s).1 = .ok source →
      (Gamebook.compile source input options).output = some lua → path ∈ output →
        ((files.write path lua).run s).1 = .ok ()) →
    (((run files (.check input format verbosity)).run s).1.exit.code = 0 ↔
      ((run files (.compile input output options format' verbosity')).run s).1.exit.code = 0)
  /-- The first build of a watched file writes its output, and nothing else, just when compiling to that
  output succeeds, and it writes the same module. -/
  watch_iff_compile : ∀ output polling optimize suggest format verbosity verbosity',
    let c := (run files (.compile input (some output) ⟨optimize, false, suggest⟩ format verbosity)).run s
    let journal := ((run files.journaled (.watch input output polling optimize verbosity')).run (s, [])).2.2
    (c.1.exit.code = 0 → ∃ source lua, model.Holds s input source ∧
      (Gamebook.compile source input ⟨optimize, false, suggest⟩).output = some lua ∧
      journal = [(output, lua)]) ∧
    (c.1.exit.code ≠ 0 → journal = [])

section

variable {files : FileAccess (StateM σ)} {model : FileModel σ κ}

/-- Compiling ends with status zero just when everything on the way went well. -/
theorem exit_compile_iff (h : files.Lawful model) (s : σ) (input : String) (output : Option String)
    (options : CompileOptions) (format : ReportFormat) (verbosity : Verbosity) :
    ((run files (.compile input output options format verbosity)).run s).1.exit.code = 0 ↔
      ∃ source lua, Compiles files s input output options source lua := by
  rcases run_compile h s input output options format verbosity with
    ⟨source, lua, hc, hexit, -⟩ | ⟨hnone, hexit, -⟩
  · exact iff_of_true (congrArg Exit.code hexit) ⟨source, lua, hc⟩
  · refine iff_of_false ?_ fun ⟨source, lua, hc⟩ => hnone source lua hc
    intro hcode
    have hfailed : Exit.failure.code = 0 := (congrArg Exit.code hexit).symm.trans hcode
    cases hfailed

/-- **The effects of the commands match their exit statuses,** over every file system and every state. -/
theorem effects_match (h : files.Lawful model) (s : σ) (input : String) :
    EffectsMatch files model s input where
  compile_fails output options format verbosity := by
    intro r hcode
    rcases run_compile h s input output options format verbosity with ⟨_, _, _, hexit, -⟩ | ⟨-, -, hstate⟩
    · exact absurd (congrArg Exit.code hexit) hcode
    · exact hstate
  compile_succeeds output options format verbosity := by
    intro r hcode
    rcases run_compile h s input output options format verbosity with
      ⟨source, lua, hc, -, hstate⟩ | ⟨hnone, -, -⟩
    · refine ⟨source, lua, h.read_holds input s source hc.read, hc.generated, ?_⟩
      cases output with
      | none => exact hstate
      | some path =>
        have hsets := h.write_sets path lua s (hc.written path rfl)
        exact hstate ▸ hsets
    · obtain ⟨source, lua, hc⟩ := (exit_compile_iff h s input output options format verbosity).mp hcode
      exact absurd hc (hnone source lua)
  check_keeps format verbosity := (run_check h s input format verbosity).1
  format_check_keeps output := (run_format h s input output true).1 rfl
  format_fails output checking := (run_format h s input output checking).2
  check_iff_compile output options format verbosity format' verbosity' hforce hwritten := by
    rw [exit_compile_iff h]
    refine (run_check h s input format verbosity).2.trans ?_
    constructor
    · rintro ⟨source, hread, hnone⟩
      obtain ⟨lua, hlua⟩ := (exists_output_iff hforce).mpr hnone
      exact ⟨source, lua, hread, hlua, fun path hpath => hwritten source lua path hread hlua hpath⟩
    · rintro ⟨source, lua, hc⟩
      exact ⟨source, hc.read, (exists_output_iff hforce).mp ⟨lua, hc.generated⟩⟩
  watch_iff_compile output polling optimize suggest format verbosity verbosity' := by
    intro c journal
    have hexit := exit_compile_iff h s input (some output) ⟨optimize, false, suggest⟩ format verbosity
    rcases journal_watch h s input verbosity' output polling optimize with
      ⟨source, lua, hc, hjournal⟩ | ⟨hnone, hjournal⟩
    · have hc' := hc.of_suggest suggest
      refine ⟨fun _ => ⟨source, lua, h.read_holds input s source hc.read, hc'.generated, hjournal⟩, ?_⟩
      exact fun hcode => absurd (hexit.mpr ⟨source, lua, hc'⟩) hcode
    · refine ⟨fun hcode => ?_, fun _ => hjournal⟩
      obtain ⟨source, lua, hc⟩ := hexit.mp hcode
      exact absurd (hc.of_suggest true) (hnone source lua)

/-- A disk with a story and an old module: compiling the story replaces the module and nothing else. -/
theorem effects_match_disk :
    let source := ":: Start\n-> Start\n"
    let d : Disk := ⟨[(["a"], .text source), (["b"], .text "old")]⟩
    let r := (run Disk.access (.compile "a" (some "b") ⟨true, false, true⟩ .text .normal)).run d
    Disk.access.Lawful Disk.model ∧ r.1.exit.code = 0 ∧
      ∃ lua, (Gamebook.compile source "a" ⟨true, false, true⟩).output = some lua ∧
        r.2.get? ["b"] = some (.text lua) ∧ ∀ path, path ≠ ["b"] → r.2.get? path = d.get? path := by
  intro source d r
  have hsplit : "a".splitOn "/" = ["a"] ∧ "b".splitOn "/" = ["b"] := by
    constructor
    all_goals
      rw [String.splitOn, if_neg (by decide), String.splitOnAux, if_neg (by decide +kernel),
        if_neg (by decide +kernel), String.splitOnAux, if_pos (by decide +kernel)]
      decide +kernel
  have hrelative : "a".startsWith "/" = false ∧ "b".startsWith "/" = false := by decide +kernel
  have hfile : Disk.namesDirectory "a" = false ∧ Disk.namesDirectory "b" = false := by decide +kernel
  have hinput : d.find "a" = .ok (.file ["a"] (.text source)) := by
    rw [Disk.find, hsplit.1, hrelative.1]
    rfl
  have houtput : d.find "b" = .ok (.file ["b"] (.text "old")) := by
    rw [Disk.find, hsplit.2, hrelative.2]
    rfl
  have hread : d.read "a" = .ok source := by
    rw [Disk.read, hinput, hfile.1]
    rfl
  have hwrite : ∀ text, d.write "b" text = .ok (d.put ["b"] (.text text)) := by
    intro text
    rw [Disk.write, houtput, hfile.2]
    rfl
  have hlua : (Gamebook.compile source "a" ⟨true, false, true⟩).output.isSome = true := by decide +kernel
  obtain ⟨lua, hlua⟩ := Option.isSome_iff_exists.mp hlua
  have hcode : r.1.exit.code = 0 := by
    refine (exit_compile_iff Disk.lawful_access d "a" (some "b") _ .text .normal).mpr ⟨source, lua, ?_⟩
    refine ⟨hread, hlua, fun path hpath => ?_⟩
    rw [← Option.some.inj hpath, Disk.run_write, hwrite]
  refine ⟨Disk.lawful_access, hcode, ?_⟩
  obtain ⟨source', lua', ⟨k, hk, hheld⟩, hlua', k', hk', hset, hother⟩ :=
    (effects_match Disk.lawful_access d "a").compile_succeeds (some "b") _ .text .normal hcode
  simp only [Disk.model, hinput, Option.some.injEq] at hk
  simp only [Disk.model, houtput, Option.some.injEq] at hk'
  subst hk hk'
  cases hheld
  exact ⟨lua', hlua', hset, hother⟩

end

end Command

end Gamebook
