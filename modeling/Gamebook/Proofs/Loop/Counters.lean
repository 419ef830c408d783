/-
# Gamebook.Proofs.Loop.Counters — one count of conditionals in both ways of reading

Two readers count the conditionals around the place of reading. In loops, the counter is raised for the branches of a
conditional and lowered behind them (`Trail.conditional?`). Line by line, a line that opens a conditional raises it, and
a closing marker or the end of the passage lowers it (`Counting`). Each decides by its own counter what is nested too
deep.

They count alike. Inside a passage, reading lines can take over wherever a loop stands, with the counter that the loop
has there, and comes to the same (`Trail.conditional?_counted`, `Trail.overBlock_counted`). Between passages, the
counters are the same at every passage marker and at the end of input (`Story.counters_agree`).
-/
import Gamebook.Proofs.Counters
import Gamebook.Proofs.Loop.Story

namespace Gamebook

open Cursor (kindAt)
open Loop (leave)

namespace Trail

/-! ## Inside a passage -/

/-- The lines ahead are read from here on, with the statements and the open conditionals so far. -/
def counting (nodes : Array Node) (t : Trail) (frames : List Frame) : Counting :=
  ⟨⟨nodes, frames, none, t.incidents⟩, t.blocks, 0⟩

/-- What reading the lines ahead with counters comes to, and the counters behind the passage. -/
def tally (ending : Position) (c : Counting) (rest : List Token) : List Node × Array Incident × Counters :=
  let c := (linesAt ending rest).foldl Counting.line c
  (c.assembly.body, c.assembly.incidents, Counting.leave c.counters c.assembly.frames)

section

variable {ending : Position} {room : Nat} {nested : Bool} {t : Trail} {frames : List Frame}

theorem tally_level (a : Assembly) (rest : List Token) :
    tally ending (Counting.level a) rest = ((outcome ending a rest).1, (outcome ending a rest).2, ⟨0, 0⟩) := by
  rw [tally, Counting.level_foldl_line, Counting.leave_level]
  rfl

theorem Fits.counting (h : Fits room nested t.blocks frames) (nodes : Array Node) :
    counting nodes t frames = Counting.level ⟨nodes, frames, none, t.incidents⟩ := by
  rw [Trail.counting, ← h.counted]
  rfl

/-- **A conditional is counted out.** Reading it whole and reading its lines come to the same. -/
theorem conditional?_counted (hbrace : kindAt t.rest = .opening .brace) (hends : EndsAt ending t.rest) :
    ∃ node t', conditional? ending room t = some (node, t') ∧ t'.blocks = t.blocks ∧
      ∀ nested nodes frames, Fits room nested t.blocks frames →
        tally ending (counting nodes t frames) t.rest = tally ending (counting (add nodes node) t' frames) t'.rest := by
  obtain ⟨⟨node, t'⟩, hread, hmoves⟩ := conditional?_reads ending room t hbrace
  have hblocks : t'.blocks = t.blocks := (hmoves false #[]).blocks
  refine ⟨node, t', hread, hblocks, fun nested nodes frames hfits => ?_⟩
  have hfits' : Fits room nested t'.blocks frames := hblocks.symm ▸ hfits
  rw [hfits.counting, hfits'.counting, tally_level, tally_level, (hmoves nested nodes).reads frames hfits hends]

/-- **A block is counted out.** It ends with the counter that it began with. Reading its lines leaves all conditionals
with the passage, or goes on with what the marker behind the block does. -/
theorem overBlock_counted (hfits : Fits room nested t.blocks frames) (hends : EndsAt ending t.rest)
    (nodes : Array Node) :
    ∃ body ended t', Loop.run (overBlock ending (conditional? ending room) nested) t.left (nodes, t)
        = some (body, ended, t') ∧ t'.blocks = t.blocks ∧
      (ended = .passage → tally ending (counting nodes t frames) t.rest
        = ((Assembly.closeAll body frames).toList, t'.incidents, ⟨0, 0⟩)) ∧
      ∀ m pos, ended = .marker m pos → tally ending (counting nodes t frames) t.rest
        = tally ending ((counting body t' frames).mark m pos) t'.rest := by
  obtain ⟨⟨body, ended, t'⟩, hrun, hblock⟩ :=
    (overBlock_achieves (conditional?_reads ending room) nested).exists_run (s := (nodes, t)) (Nat.le_refl t.left)
  have hfits' : Fits room nested t'.blocks frames := hblock.blocks.symm ▸ hfits
  refine ⟨body, ended, t', hrun, hblock.blocks, fun hpassage => ?_, fun m pos hmarker => ?_⟩
  · rw [hfits.counting, tally_level, (hblock.atEnd hpassage).2 frames hfits hends]
  · obtain ⟨-, -, hreads⟩ := hblock.atMarker m pos hmarker
    rw [hfits.counting, hfits'.counting, Counting.level_mark, tally_level, tally_level, hreads frames hfits hends]

end

/-! ## Between passages -/

/-- Whether a passage marker or the end of input is next, behind empty lines. -/
def stops (t : Trail) : Bool := !isContent (kindAt (dropKinds (· = .newline) t.rest))

/-- The counter each time that a passage marker or the end of input is next. -/
def stopBlocks (states : List (Story × Trail)) : List Nat :=
  (states.filter fun s => s.2.stops).map fun s => s.2.blocks

section

variable {ending : Position} {story : Story} {t : Trail} (states : List (Story × Trail))

theorem stopBlocks_cons (h : t.stops = true) : stopBlocks ((story, t) :: states) = t.blocks :: stopBlocks states := by
  simp [stopBlocks, h]

theorem stopBlocks_cons_of_not (h : t.stops = false) : stopBlocks ((story, t) :: states) = stopBlocks states := by
  simp [stopBlocks, h]

theorem stopBlocks_end {r : Reading} (hend : kindAt (dropKinds (· = .newline) t.rest) = .endOfInput)
    (hleave : overStory ending (story, t) = leave r) (budget : Nat) :
    stopBlocks ((overStory ending).states budget (story, t))
      = List.replicate ((tailAt ending t.rest).sections.length + 1) t.blocks := by
  have hstops : t.stops = true := by
    rw [stops, hend]
    rfl
  rw [Loop.states_of_leave hleave, stopBlocks_cons [] hstops, (passes_dropBreaks t.rest).sections, tailAt_of_end hend]
  rfl

end

/-- From any state the loop over a story comes to every passage marker ahead and to the end of input, each time with
the counter that it started with. -/
theorem stopBlocks_states (ending : Position) {budget : Nat} (story : Story) (t : Trail) (hbudget : t.left ≤ budget) :
    stopBlocks ((overStory ending).states budget (story, t))
      = List.replicate ((tailAt ending t.rest).sections.length + 1) t.blocks := by
  induction budget generalizing story t with
  | zero =>
    have hpasses := passes_dropBreaks t.rest
    rcases overStory_steps ending story t with ⟨hend, hleave⟩ | ⟨-, s', -, hmoves⟩
    · exact stopBlocks_end hend hleave 0
    · have hleft : s'.2.left < t.left := Nat.lt_of_lt_of_le hmoves.shorter hpasses.length_le
      omega
  | succ budget ih =>
    have hpasses := passes_dropBreaks t.rest
    rcases overStory_steps ending story t with ⟨hend, hleave⟩ | ⟨hend, ⟨story', t'⟩, hagain, hmoves⟩
    · exact stopBlocks_end hend hleave (budget + 1)
    have hleft : t'.left < t.left := Nat.lt_of_lt_of_le hmoves.shorter hpasses.length_le
    have hblocks : t'.blocks = t.blocks := hmoves.blocks
    have hrest := ih story' t' (by omega)
    rw [hblocks] at hrest
    rw [Loop.states_of_again hagain, hpasses.sections, hmoves.sections]
    -- A section lies ahead of `t` and not of `t'` exactly when its marker is next.
    by_cases hmarker : kindAt (dropKinds (· = .newline) t.rest) = .passageMarker
    · have hstops : t.stops = true := by
        rw [stops, hmarker]
        rfl
      rw [stopBlocks_cons _ hstops, if_pos hmarker, hrest]
      rfl
    · have hstops : t.stops = false := by simp [stops, isContent, hmarker, hend]
      rw [stopBlocks_cons_of_not _ hstops, if_neg hmarker, hrest, Nat.add_zero]

end Trail

namespace Story

/-- **Both ways of reading have one count of conditionals between passages.** The loop over a story comes to every
passage marker and to the end of input, and has there the counter that reading the sections line by line has. -/
theorem counters_agree (tokens : List Token) :
    let words := tokens.filter fun t => !t.kind.isTrivia
    let progress := Progress.ofOutline (Outline.ofTokens tokens)
    let states := (Trail.overStory (Outline.ending words)).states words.length (Trail.start words)
    Trail.stopBlocks states = (progress.atMarkers ++ [progress.counters]).map Counters.blocks := by
  intro words progress states
  have hprogress : progress = ⟨_, _, (Outline.ofTokens tokens).sections.map fun _ => ⟨0, 0⟩, 0, 0⟩ :=
    Progress.ofOutline_eq (Outline.ofTokens tokens)
  have hstates : Trail.stopBlocks states = List.replicate ((Outline.ofTokens tokens).sections.length + 1) 0 :=
    Trail.stopBlocks_states (Outline.ending words) _ (Trail.start words).2 (Nat.le_refl words.length)
  rw [hstates, hprogress, List.map_append, List.map_map, List.replicate_succ', ← List.map_const']
  rfl

end Story

end Gamebook
