/-
# Gamebook.Proofs.Loop.Block — reading the body of a passage in loops

The body of a passage is put together line by line, with a frame for each open conditional. This module reads it as a
block of statements instead, in which a conditional is read by reading the blocks of its branches. A loop goes over the
statements of a block (`Trail.overBlock`), and a loop goes over the blocks of a second branch, which stray dividing
markers cut up (`Trail.overBranch`).

A counter tells the conditionals around a place. It belongs to the reader as a whole: it is raised before the branches
of a conditional are read and lowered behind them, and it alone decides whether a conditional is nested too deep.

Any tokens may lie ahead. A statement may fail at its first token, but going on after the error passes it, and a block
that ends at a marker has passed the marker. So the tokens ahead are budget enough for both loops, at any depth, and a
block comes to what the lines come to, with the counter where it was (`Trail.overBlock_achieves`,
`Trail.overBranch_achieves`).
-/
import Gamebook.Proofs.Loop.Trail

namespace Gamebook

open Cursor (kindAt past pastBreak advance Inner Stops Finishes)
open Loop (again leave)

namespace Trail

/-! ## Loops -/

/-- How a block ends: with the passage, or at a marker. -/
inductive BlockEnd where
  | passage
  | marker (marker : Marker) (pos : Position)

/-- Appends a statement, if there is one. -/
def add (nodes : Array Node) : Option Node → Array Node
  | none => nodes
  | some n => nodes.push n

section

variable (ending : Position)

/-- Reads a line of a block, when conditionals are read by `conditional?`. Markers end a block inside a conditional and
are statements of their own outside of all. -/
def blockLine (conditional? : Trail → Option (Option Node × Trail)) (nested : Bool) (nodes : Array Node) (t : Trail) :
    Option ((Array Node × Trail) ⊕ (Array Node × BlockEnd × Trail)) :=
  match kindAt t.rest with
  | .passageMarker | .endOfInput => leave (nodes, .passage, t)
  | .marker m => do
    let pos := (LineEnd.ahead ending t.rest).pos
    let (_, t) ← t.attempt? do advance; Cursor.expectEnd ending
    if nested then leave (nodes, .marker m pos, t) else again (nodes.push (.stray m pos), t)
  | .opening .brace => do
    let (node, t) ← conditional? t
    again (add nodes node, t)
  | _ => do
    let (node, t) ← t.attempt? (Cursor.statement ending)
    again (add nodes node, t)

/-- One time around the statements of a block. -/
def overBlock (conditional? : Trail → Option (Option Node × Trail)) (nested : Bool) :
    Loop (Array Node × Trail) (Array Node × BlockEnd × Trail) := fun (nodes, t) => do
  blockLine ending conditional? nested nodes (← t.skipBreaks?)

/-- One time around the blocks of a second branch. A dividing marker does not end it. -/
def overBranch (conditional? : Trail → Option (Option Node × Trail)) :
    Loop (Array Node × Trail) (Array Node × Option Position × Trail) := fun (nodes, t) => do
  let (nodes, ended, t) ← Loop.run (overBlock ending conditional? true) t.left (nodes, t)
  match ended with
  | .passage => leave (nodes, none, t)
  | .marker .close pos => leave (nodes, some pos, t)
  | .marker .otherwise pos => again (nodes.push (.stray .otherwise pos), t)

/-- Reads the branches of a conditional. -/
def branches? (conditional? : Trail → Option (Option Node × Trail)) (guard : Expr) (pos : Position) (t : Trail) :
    Option (Node × Trail) := do
  let (body, ended, t) ← Loop.run (overBlock ending conditional? true) t.left (#[], t)
  match ended with
  | .passage => return (.conditional guard body.toList none pos none, t)
  | .marker .close close => return (.conditional guard body.toList none pos (some close), t)
  | .marker .otherwise _ => do
    let (second, close, t) ← Loop.run (overBranch ending conditional?) t.left (#[], t)
    return (.conditional guard body.toList (some second.toList) pos close, t)

/-- Notes a conditional that is nested too deep and passes over it. -/
def tooDeep? (t : Trail) : Option (Option Node × Trail) := do
  let pos := (LineEnd.ahead ending t.rest).pos
  let rest ← Loop.run overSkipped t.left ⟨t.rest, 0, true⟩
  return (none, { t with rest := rest, incidents := t.incidents.push ⟨⟨.nestingTooDeep, pos⟩, .structural⟩ })

/-- Reads a conditional from its opening brace on. The recursion goes as deep as the counter lets it, and `fuel` only
has to be as much as that. -/
def conditional? : (fuel : Nat) → Trail → Option (Option Node × Trail)
  | 0, t => tooDeep? ending t
  | fuel + 1, t =>
    if maxNesting ≤ t.blocks then tooDeep? ending t
    else do
      let pos := (LineEnd.ahead ending t.rest).pos
      let (guard, t) ← t.attempt? do advance; Cursor.condition ending
      let t := { t with blocks := t.blocks + 1 }
      let (node, t) ← branches? ending (conditional? fuel) (guard.getD (.literal (.bool false))) pos t
      return (some node, { t with blocks := t.blocks - 1 })

end

/-! ## Lines of a block

A line is read from the tokens ahead as an assembly reads it, with the same incident if it cannot be read.
-/

section

variable (ending : Position) {line rest : List Token} {u : Token} (hline : Inner (u :: line)) (hrest : Stops rest)
  (incidents : Array Incident) (blocks : Nat)

include hline hrest

theorem exists_attempt_marker {m : Marker} (hu : u.kind = .marker m) :
    ∃ x incidents', attempt? (do advance; Cursor.expectEnd ending) ⟨u :: line ++ rest, incidents, blocks⟩
        = some (x, ⟨pastBreak rest, incidents', blocks⟩) ∧
      ∀ nodes frames, (⟨nodes, frames, none, incidents⟩ : Assembly).line ⟨u :: line, LineEnd.ahead ending rest⟩
        = (⟨nodes, frames, none, incidents'⟩ : Assembly).mark m u.pos := by
  have hfinishes : Finishes rest (u :: line) (do advance; Cursor.expectEnd ending) _ :=
    (Cursor.finishes_expectEnd hrest hline.tail).cons hline.head
  refine ⟨_, _, attempt?_eq hfinishes hline hrest incidents blocks, fun nodes frames => ?_⟩
  simp only [Assembly.line]
  rw [Assembly.readLine_marker hu, Assembly.markerLine]
  cases (LineEnd.ahead ending rest).expectEnd line <;> rfl

theorem exists_attempt_condition (hu : u.kind = .opening .brace) :
    ∃ guard incidents', attempt? (do advance; Cursor.condition ending) ⟨u :: line ++ rest, incidents, blocks⟩
        = some (guard, ⟨pastBreak rest, incidents', blocks⟩) ∧
      ∀ nodes frames, frames.length < maxNesting →
        (⟨nodes, frames, none, incidents⟩ : Assembly).line ⟨u :: line, LineEnd.ahead ending rest⟩
          = ⟨#[], ⟨guard.getD (.literal (.bool false)), u.pos, nodes, none⟩ :: frames, none, incidents'⟩ := by
  have hfinishes : Finishes rest (u :: line) (do advance; Cursor.condition ending) _ :=
    (Cursor.finishes_condition hrest hline.tail).cons hline.head
  refine ⟨_, _, attempt?_eq hfinishes hline hrest incidents blocks, fun nodes frames hdepth => ?_⟩
  simp only [Assembly.line]
  rw [Assembly.readLine_condition hu hdepth, Assembly.conditionLine]
  cases Node.readCondition (LineEnd.ahead ending rest) line <;> rfl

theorem exists_attempt_statement (hmarker : ∀ m, u.kind ≠ .marker m) (hbrace : u.kind ≠ .opening .brace) :
    ∃ node incidents', attempt? (Cursor.statement ending) ⟨u :: line ++ rest, incidents, blocks⟩
        = some (node, ⟨pastBreak rest, incidents', blocks⟩) ∧
      ∀ nodes frames, (⟨nodes, frames, none, incidents⟩ : Assembly).line ⟨u :: line, LineEnd.ahead ending rest⟩
        = ⟨add nodes node, frames, none, incidents'⟩ := by
  have hfinishes : Finishes rest (u :: line) (Cursor.statement ending) _ := Cursor.finishes_statement hrest hline
  refine ⟨_, _, attempt?_eq hfinishes hline hrest incidents blocks, fun nodes frames => ?_⟩
  simp only [Assembly.line]
  rw [Assembly.readLine_statement hmarker hbrace, Assembly.statementLine]
  cases Node.read (LineEnd.ahead ending rest) u line <;> rfl

end

/-! ## Blocks -/

/-- The conditionals around a block are as many as the counter says, and there is room for `room` more inside it. -/
structure Fits (room : Nat) (nested : Bool) (blocks : Nat) (frames : List Frame) : Prop where
  counted : frames.length = blocks
  leaves : blocks + room = maxNesting
  inside : nested = !frames.isEmpty

/-- From `s` reading has come to `s'` in the same block: an assembly that has the statements of either comes to the
same. -/
structure Keeps (ending : Position) (room : Nat) (nested : Bool) (s s' : Array Node × Trail) : Prop where
  passes : Passes s.2.rest s'.2.rest
  blocks : s'.2.blocks = s.2.blocks
  reads : ∀ frames, Fits room nested s.2.blocks frames → EndsAt ending s.2.rest →
    outcome ending ⟨s.1, frames, none, s.2.incidents⟩ s.2.rest
      = outcome ending ⟨s'.1, frames, none, s'.2.incidents⟩ s'.2.rest

/-- Reading has passed a token. -/
structure Moves (ending : Position) (room : Nat) (nested : Bool) (s s' : Array Node × Trail) : Prop
    extends Keeps ending room nested s s' where
  shorter : s'.2.left < s.2.left

/-- What reading a block from `s` comes to. -/
structure BlockReads (ending : Position) (room : Nat) (nested : Bool) (s : Array Node × Trail)
    (r : Array Node × BlockEnd × Trail) : Prop where
  passes : Passes s.2.rest r.2.2.rest
  blocks : r.2.2.blocks = s.2.blocks
  /-- Without an end by a marker the passage ends, and all conditionals with it. -/
  atEnd : r.2.1 = .passage → AtEnd r.2.2.rest ∧
    ∀ frames, Fits room nested s.2.blocks frames → EndsAt ending s.2.rest →
      outcome ending ⟨s.1, frames, none, s.2.incidents⟩ s.2.rest
        = ((Assembly.closeAll r.1 frames).toList, r.2.2.incidents)
  /-- A marker is passed, and does what it does to the conditional. -/
  atMarker : ∀ m pos, r.2.1 = .marker m pos → nested = true ∧ r.2.2.left < s.2.left ∧
    ∀ frames, Fits room nested s.2.blocks frames → EndsAt ending s.2.rest →
      outcome ending ⟨s.1, frames, none, s.2.incidents⟩ s.2.rest
        = outcome ending ((⟨r.1, frames, none, r.2.2.incidents⟩ : Assembly).mark m pos) r.2.2.rest

/-- A conditional is read in one go, from any brace. -/
def ReadsConditionals (ending : Position) (room : Nat) (conditional? : Trail → Option (Option Node × Trail)) : Prop :=
  ∀ t, kindAt t.rest = .opening .brace → ∃ r, conditional? t = some r ∧
    ∀ nested nodes, Moves ending room nested (nodes, t) (add nodes r.1, r.2)

section

variable {ending : Position} {room : Nat} {nested : Bool}

theorem BlockReads.of_keeps {s s' : Array Node × Trail} {r : Array Node × BlockEnd × Trail}
    (hr : BlockReads ending room nested s' r) (h : Keeps ending room nested s s') :
    BlockReads ending room nested s r where
  passes := h.passes.trans hr.passes
  blocks := hr.blocks.trans h.blocks
  atEnd hpassage := by
    obtain ⟨hend, hreads⟩ := hr.atEnd hpassage
    rw [h.blocks] at hreads
    exact ⟨hend, fun frames hfits hends =>
      (h.reads frames hfits hends).trans (hreads frames hfits (h.passes.endsAt hends))⟩
  atMarker m pos hmarker := by
    obtain ⟨hnested, hleft, hreads⟩ := hr.atMarker m pos hmarker
    rw [h.blocks] at hreads
    exact ⟨hnested, Nat.lt_of_lt_of_le hleft h.passes.length_le, fun frames hfits hends =>
      (h.reads frames hfits hends).trans (hreads frames hfits (h.passes.endsAt hends))⟩

/-- The next line of a block leads to what the block comes to. -/
def BlockLeads (ending : Position) (room : Nat) (nested : Bool) (conditional? : Trail → Option (Option Node × Trail))
    (nodes : Array Node) (t : Trail) : Prop :=
  ∃ o, blockLine ending conditional? nested nodes t = some o ∧
    Loop.Leads ahead (BlockReads ending room nested) (nodes, t) o

section

variable {nodes : Array Node} {t : Trail} {conditional? : Trail → Option (Option Node × Trail)}

theorem Moves.leads {s' : Array Node × Trail} (h : Moves ending room nested (nodes, t) s')
    (hline : blockLine ending conditional? nested nodes t = again s') :
    BlockLeads ending room nested conditional? nodes t :=
  ⟨.inl s', hline, h.shorter, fun _ hr => hr.of_keeps h.toKeeps⟩

theorem blockLeads_atEnd (h : AtEnd t.rest) : BlockLeads ending room nested conditional? nodes t := by
  refine ⟨.inr (nodes, .passage, t), ?_, Passes.refl t.rest, rfl, fun _ => ⟨h, ?_⟩, ?_⟩
  · rw [blockLine]
    rcases h with hk | hk
    all_goals
      rw [hk]
      rfl
  · intro frames _ _
    exact h.outcome _
  · rintro _ _ ⟨⟩

section

variable {u : Token} {line rest : List Token} {incidents : Array Incident} {blocks : Nat} (hline : Inner (u :: line))
  (hrest : Stops rest)

theorem length_pastBreak_lt (u : Token) (line rest : List Token) :
    (pastBreak rest).length < (u :: line ++ rest).length := by
  have h := (passes_pastBreak rest).length_le
  rw [List.cons_append, List.length_cons, List.length_append]
  omega

include hline hrest

theorem moves_line {nodes' : Array Node} {incidents' : Array Incident}
    (h : ∀ frames, Fits room nested blocks frames →
      (⟨nodes, frames, none, incidents⟩ : Assembly).line ⟨u :: line, LineEnd.ahead ending rest⟩
        = ⟨nodes', frames, none, incidents'⟩) :
    Moves ending room nested (nodes, ⟨u :: line ++ rest, incidents, blocks⟩)
      (nodes', ⟨pastBreak rest, incidents', blocks⟩) where
  passes := passes_line hline rest
  blocks := rfl
  shorter := length_pastBreak_lt u line rest
  reads frames hfits hends := by
    rw [outcome_line hline hrest ((passes_inner hline rest).endsAt hends), h frames hfits]

theorem blockLeads_marker {m : Marker} (hu : u.kind = .marker m) :
    BlockLeads ending room nested conditional? nodes ⟨u :: line ++ rest, incidents, blocks⟩ := by
  obtain ⟨x, incidents', hattempt, hmark⟩ := exists_attempt_marker ending hline hrest incidents blocks hu
  have hbody : blockLine ending conditional? nested nodes ⟨u :: line ++ rest, incidents, blocks⟩
      = if nested then leave (nodes, .marker m u.pos, ⟨pastBreak rest, incidents', blocks⟩)
        else again (nodes.push (.stray m u.pos), ⟨pastBreak rest, incidents', blocks⟩) := by
    rw [blockLine, hattempt]
    simp only [List.cons_append, kindAt, hu]
    rfl
  cases nested with
  | true =>
    refine ⟨_, hbody, passes_line hline rest, rfl, ?_, ?_⟩
    · rintro ⟨⟩
    · rintro _ _ ⟨⟩
      refine ⟨rfl, length_pastBreak_lt u line rest, fun frames _ hends => ?_⟩
      rw [outcome_line hline hrest ((passes_inner hline rest).endsAt hends), hmark]
  | false =>
    have hmoves : Moves ending room false (nodes, ⟨u :: line ++ rest, incidents, blocks⟩)
        (nodes.push (.stray m u.pos), ⟨pastBreak rest, incidents', blocks⟩) := by
      refine moves_line hline hrest ?_
      rintro (_ | ⟨f, fs⟩) hfits
      · exact hmark nodes []
      · cases hfits.inside
    exact hmoves.leads hbody

theorem blockLeads_statement (hmarker : ∀ m, u.kind ≠ .marker m) (hbrace : u.kind ≠ .opening .brace) :
    BlockLeads ending room nested conditional? nodes ⟨u :: line ++ rest, incidents, blocks⟩ := by
  obtain ⟨node, incidents', hattempt, hread⟩ :=
    exists_attempt_statement ending hline hrest incidents blocks hmarker hbrace
  have hmoves : Moves ending room nested (nodes, ⟨u :: line ++ rest, incidents, blocks⟩)
      (add nodes node, ⟨pastBreak rest, incidents', blocks⟩) :=
    moves_line hline hrest fun frames _ => hread nodes frames
  refine hmoves.leads ?_
  have hinner := hline.head
  rw [blockLine, hattempt]
  simp only [List.cons_append, kindAt]
  split
  · next hk => simp [hk, TokenKind.isInner] at hinner
  · next hk => simp [hk, TokenKind.isInner] at hinner
  · next m hk => exact absurd hk (hmarker m)
  · next hk => exact absurd hk hbrace
  · rfl

end

theorem blockLeads (hconditional : ReadsConditionals ending room conditional?) (hbreak : kindAt t.rest ≠ .newline) :
    BlockLeads ending room nested conditional? nodes t := by
  by_cases hend : AtEnd t.rest
  · exact blockLeads_atEnd hend
  by_cases hbrace : kindAt t.rest = .opening .brace
  · obtain ⟨r, hr, hmoves⟩ := hconditional t hbrace
    refine (hmoves nested nodes).leads ?_
    rw [blockLine, hbrace, hr]
    rfl
  obtain ⟨rest, incidents, blocks⟩ := t
  obtain ⟨u, line, rest, rfl, hline, hrest⟩ := exists_line_of_not_atEnd hbreak hend
  by_cases hmarker : ∃ m, u.kind = .marker m
  · obtain ⟨m, hm⟩ := hmarker
    exact blockLeads_marker hline hrest hm
  · exact blockLeads_statement hline hrest (not_exists.1 hmarker) hbrace

theorem keeps_dropBreaks (nodes : Array Node) (t : Trail) :
    Keeps ending room nested (nodes, t) (nodes, { t with rest := dropKinds (· = .newline) t.rest }) where
  passes := passes_dropBreaks t.rest
  blocks := rfl
  reads _ _ _ := (outcome_dropBreaks ending _ t.rest).symm

/-- **Reading a block.** -/
theorem overBlock_achieves (hconditional : ReadsConditionals ending room conditional?) (nested : Bool) :
    (overBlock ending conditional? nested).Achieves ahead (BlockReads ending room nested) := by
  rintro ⟨nodes, t⟩
  have hkeeps : Keeps ending room nested (nodes, t) _ := keeps_dropBreaks nodes t
  obtain ⟨o, ho, hleads⟩ : BlockLeads ending room nested conditional? nodes
      { t with rest := dropKinds (· = .newline) t.rest } := blockLeads hconditional (kindAt_dropBreaks t.rest)
  refine ⟨o, ?_, hleads.of_le hkeeps.passes.length_le fun r hr => hr.of_keeps hkeeps⟩
  rw [overBlock, skipBreaks?_eq]
  exact ho

end

/-! ## Conditionals -/

/-- What reading a second branch from `s` comes to: the conditional is closed or, without a place, left open. -/
structure BranchReads (ending : Position) (room : Nat) (s : Array Node × Trail)
    (r : Array Node × Option Position × Trail) : Prop where
  passes : Passes s.2.rest r.2.2.rest
  blocks : r.2.2.blocks = s.2.blocks
  reads : ∀ f first frames, f.first = some first → Fits room true s.2.blocks (f :: frames) → EndsAt ending s.2.rest →
    outcome ending ⟨s.1, f :: frames, none, s.2.incidents⟩ s.2.rest
      = outcome ending ⟨f.before.push (f.toNode r.1 r.2.1), frames, none, r.2.2.incidents⟩ r.2.2.rest

section

variable {conditional? : Trail → Option (Option Node × Trail)}

/-- When a passage ends, its innermost conditional ends without a place. -/
theorem BlockReads.outcome_atEnd {s : Array Node × Trail} {nodes : Array Node} {t : Trail}
    (h : BlockReads ending room nested s (nodes, .passage, t)) {f : Frame} {frames : List Frame}
    (hfits : Fits room nested s.2.blocks (f :: frames)) (hends : EndsAt ending s.2.rest) :
    outcome ending ⟨s.1, f :: frames, none, s.2.incidents⟩ s.2.rest
      = outcome ending ⟨f.before.push (f.toNode nodes none), frames, none, t.incidents⟩ t.rest := by
  obtain ⟨hend, hreads⟩ := h.atEnd rfl
  rw [hreads _ hfits hends, hend.outcome]
  rfl

/-- **Reading a second branch.** -/
theorem overBranch_achieves (hconditional : ReadsConditionals ending room conditional?) :
    (overBranch ending conditional?).Achieves ahead (BranchReads ending room) := by
  rintro ⟨nodes, t⟩
  obtain ⟨⟨nodes', ended, t'⟩, hrun, hblock⟩ :=
    (overBlock_achieves hconditional true).exists_run (s := (nodes, t)) (Nat.le_refl t.left)
  cases ended with
  | passage =>
    refine Loop.leads_of_leave (nodes', none, t') ?_
      ⟨hblock.passes, hblock.blocks, fun f first frames _ hfits hends => ?_⟩
    · rw [overBranch, hrun]
      rfl
    · exact hblock.outcome_atEnd hfits hends
  | marker m pos =>
    obtain ⟨-, hleft, hreads⟩ := hblock.atMarker m pos rfl
    cases m with
    | close =>
      refine Loop.leads_of_leave (nodes', some pos, t') ?_
        ⟨hblock.passes, hblock.blocks, fun f first frames _ hfits hends => ?_⟩
      · rw [overBranch, hrun]
        rfl
      · exact hreads _ hfits hends
    | otherwise =>
      refine Loop.leads_of_again (nodes'.push (.stray .otherwise pos), t') ?_ hleft fun r hr => ?_
      · rw [overBranch, hrun]
        rfl
      · have hagain := hr.reads
        rw [hblock.blocks] at hagain
        refine ⟨hblock.passes.trans hr.passes, hr.blocks.trans hblock.blocks,
          fun f first frames hfirst hfits hends => ?_⟩
        rw [hreads _ hfits hends, ← hagain f first frames hfirst hfits (hblock.passes.endsAt hends)]
        simp only [Assembly.mark, hfirst]
        rfl

theorem branches?_reads (hconditional : ReadsConditionals ending room conditional?) (guard : Expr) (pos : Position)
    (t : Trail) :
    ∃ node t', branches? ending conditional? guard pos t = some (node, t') ∧ Passes t.rest t'.rest ∧
      t'.blocks = t.blocks ∧
      ∀ before frames, Fits room true t.blocks (⟨guard, pos, before, none⟩ :: frames) → EndsAt ending t.rest →
        outcome ending ⟨#[], ⟨guard, pos, before, none⟩ :: frames, none, t.incidents⟩ t.rest
          = outcome ending ⟨before.push node, frames, none, t'.incidents⟩ t'.rest := by
  obtain ⟨⟨body, ended, t'⟩, hrun, hblock⟩ :=
    (overBlock_achieves hconditional true).exists_run (s := (#[], t)) (Nat.le_refl t.left)
  cases ended with
  | passage =>
    refine ⟨.conditional guard body.toList none pos none, t', ?_, hblock.passes, hblock.blocks,
      fun before frames hfits hends => ?_⟩
    · rw [branches?, hrun]
      rfl
    · exact hblock.outcome_atEnd hfits hends
  | marker m close =>
    obtain ⟨-, -, hreads⟩ := hblock.atMarker m close rfl
    cases m with
    | close =>
      refine ⟨.conditional guard body.toList none pos (some close), t', ?_, hblock.passes, hblock.blocks, ?_⟩
      · rw [branches?, hrun]
        rfl
      · intro before frames hfits hends
        exact hreads _ hfits hends
    | otherwise =>
      obtain ⟨⟨second, close', t''⟩, hrun', hbranch⟩ :=
        (overBranch_achieves hconditional).exists_run (s := (#[], t')) (Nat.le_refl t'.left)
      refine ⟨.conditional guard body.toList (some second.toList) pos close', t'', ?_,
        hblock.passes.trans hbranch.passes, hbranch.blocks.trans hblock.blocks, fun before frames hfits hends => ?_⟩
      · rw [branches?, hrun]
        simp only [Option.bind_eq_bind, Option.bind_some, hrun']
        rfl
      · have hsecond := hbranch.reads
        rw [hblock.blocks] at hsecond
        rw [hreads _ hfits hends]
        exact hsecond ⟨guard, pos, before, some body⟩ body frames rfl ⟨hfits.counted, hfits.leaves, rfl⟩
          (hblock.passes.endsAt hends)

end

/-- A conditional that is nested too deep is noted and skipped. -/
theorem outcome_tooDeep {u : Token} (hu : u.kind = .opening .brace) (rest : List Token) {a : Assembly}
    (hdepth : maxNesting ≤ a.frames.length) (ha : a.skipping = none) :
    outcome ending a (u :: rest) = skipOutcome ending (a.note (.tooDeep u)) ⟨u :: rest, 0, true⟩ := by
  have hinner : u.kind.isInner = true := by rw [hu]; rfl
  simp only [outcome, skipOutcome, linesAt, tailAt_inner hinner, List.foldl_cons, Assembly.line, ha, skipOn]
  rw [Assembly.readLine_tooDeep hu hdepth]
  obtain ⟨nodes, frames, skipping, incidents⟩ := a
  obtain rfl : skipping = none := ha
  rfl

theorem tooDeep?_moves (ending : Position) {t : Trail} (hbrace : kindAt t.rest = .opening .brace) :
    ∃ r, tooDeep? ending t = some r ∧ ∀ room nested nodes,
      (∀ frames, Fits room nested t.blocks frames → maxNesting ≤ frames.length) →
        Moves ending room nested (nodes, t) (add nodes r.1, r.2) := by
  obtain ⟨ahead, incidents, blocks⟩ := t
  obtain ⟨u, rest, rfl, hu⟩ := exists_cons hbrace (by simp)
  obtain ⟨r, hrun, hskip⟩ :=
    overSkipped_achieves.exists_run (s := ⟨u :: rest, 0, true⟩) (Nat.le_refl (u :: rest).length)
  refine ⟨(none, ⟨r, incidents.push (.tooDeep u), blocks⟩), ?_,
    fun room nested nodes hdeep => ⟨⟨hskip.passes, rfl, ?_⟩, ?_⟩⟩
  · rw [tooDeep?, left, hrun]
    rfl
  · intro frames hfits _
    rw [outcome_tooDeep hu rest (hdeep frames hfits) rfl, hskip.reads]
    rfl
  · refine hskip.shorter ?_
    rw [kindAt, hu]
    rfl

/-- A conditional that the counter lets in is read with what is inside it. The counter is raised there, so the room goes
down by one. -/
theorem conditional?_moves {room : Nat} (hinside : ReadsConditionals ending room (conditional? ending room)) {t : Trail}
    (hbrace : kindAt t.rest = .opening .brace) (hblocks : ¬maxNesting ≤ t.blocks) :
    ∃ r, conditional? ending (room + 1) t = some r ∧
      ∀ nested nodes, Moves ending (room + 1) nested (nodes, t) (add nodes r.1, r.2) := by
  obtain ⟨ahead, incidents, blocks⟩ := t
  have hkind : kindAt ahead = .opening .brace := hbrace
  have hbreak : kindAt ahead ≠ .newline := by simp [hkind]
  have hend : ¬AtEnd ahead := by simp [AtEnd, hkind]
  obtain ⟨u, line, rest, rfl, hline, hrest⟩ := exists_line_of_not_atEnd hbreak hend
  have hu : u.kind = .opening .brace := hbrace
  have hpos : (LineEnd.ahead ending (u :: line ++ rest)).pos = u.pos := rfl
  obtain ⟨guard, incidents', hattempt, hread⟩ := exists_attempt_condition ending hline hrest incidents blocks hu
  obtain ⟨node, t', hbranches, hpasses, hafter, hreads⟩ :=
    branches?_reads hinside (guard.getD (.literal (.bool false))) u.pos ⟨pastBreak rest, incidents', blocks + 1⟩
  refine ⟨(some node, { t' with blocks := t'.blocks - 1 }), ?_,
    fun nested nodes => ⟨⟨(passes_line hline rest).trans hpasses, congrArg (· - 1) hafter, ?_⟩, ?_⟩⟩
  · rw [conditional?, if_neg hblocks, hattempt]
    simp only [Option.bind_eq_bind, Option.bind_some, hpos, hbranches]
    rfl
  · intro frames hfits hends
    have hlength : frames.length = blocks := hfits.counted
    have hroom : blocks + (room + 1) = maxNesting := hfits.leaves
    have hfits' : Fits room true (blocks + 1) (⟨guard.getD (.literal (.bool false)), u.pos, nodes, none⟩ :: frames) :=
      ⟨congrArg (· + 1) hlength, by omega, rfl⟩
    rw [outcome_line hline hrest ((passes_inner hline rest).endsAt hends), hread _ _ (by omega)]
    exact hreads nodes frames hfits' ((passes_line hline rest).endsAt hends)
  · exact Nat.lt_of_le_of_lt hpasses.length_le (length_pastBreak_lt u line rest)

/-- **Reading a conditional.** -/
theorem conditional?_reads (ending : Position) (room : Nat) :
    ReadsConditionals ending room (conditional? ending room) := by
  induction room with
  | zero =>
    intro t hbrace
    obtain ⟨r, hr, hmoves⟩ := tooDeep?_moves ending hbrace
    refine ⟨r, hr, fun nested nodes => hmoves 0 nested nodes fun frames hfits => ?_⟩
    exact Nat.le_of_eq (hfits.leaves.symm.trans hfits.counted.symm)
  | succ room ih =>
    intro t hbrace
    by_cases hblocks : maxNesting ≤ t.blocks
    · obtain ⟨r, hr, hmoves⟩ := tooDeep?_moves ending hbrace
      refine ⟨r, (if_pos hblocks).trans hr, fun nested nodes => hmoves (room + 1) nested nodes fun frames hfits => ?_⟩
      exact hfits.counted ▸ hblocks
    · exact conditional?_moves ih hbrace hblocks

end

end Trail

end Gamebook
