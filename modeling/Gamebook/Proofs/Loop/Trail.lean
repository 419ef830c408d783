/-
# Gamebook.Proofs.Loop.Trail — a place among tokens, and loops that go on from it

Where a reader stands is given by the tokens ahead, which may be any, the incidents so far and a counter of the
conditionals around the place (`Trail`). From there it goes on in loops: over empty lines (`Trail.overKinds`), over the
rest of a line that cannot be read (`Trail.overLine`), and over a conditional that is nested too deep
(`Trail.overSkipped`). Each of them passes a token each time around or leaves, and none passes a passage marker or the
end of input.

The same tokens can be laid out in lines, from which an assembly makes the body of a passage. What an assembly comes to
from here on (`Trail.outcome`) ties the two together. Reading a line from the tokens ahead moves on to a place from
which a changed assembly comes to the same, and so does skipping.
-/
import Gamebook.Proofs.Layout
import Gamebook.Proofs.Loop
import Gamebook.Proofs.Loop.Statement
import Gamebook.Proofs.Reading.Line

namespace Gamebook

open Cursor (kindAt past pastBreak advance Inner Stops Finishes)
open Loop (again leave)

/-- The place of a reader: the tokens ahead, the incidents so far and the counter of conditionals around it. -/
structure Trail where
  rest : List Token
  incidents : Array Incident
  blocks : Nat

namespace Trail

/-- How many tokens lie ahead. -/
def left (t : Trail) : Nat := t.rest.length

/-- How many tokens lie ahead when something has been read already. -/
def ahead {σ : Type} (s : σ × Trail) : Nat := s.2.left

/-! ## Loops -/

/-- One time around the tokens that are passed over to the next line, and whether one of them has been invalid. -/
def overLine : Loop (List Token × Bool) (List Token × Bool) := fun (rest, invalid) =>
  match kindAt rest with
  | .passageMarker | .endOfInput => leave (rest, invalid)
  | .newline => leave (past rest, invalid)
  | kind => again (past rest, invalid || kind.isInvalid)

/-- Goes on with the next line after an error on a line that began at `start`. -/
def recover? (start : List Token) (e : SyntaxError) (t : Trail) : Option Trail := do
  let earlier := (start.take (start.length - t.left)).any fun u => u.kind.isInvalid
  let (rest, later) ← Loop.run overLine t.left (t.rest, false)
  let incident := ⟨e, if earlier || later then .suppressed else .reported⟩
  return { t with rest := rest, incidents := t.incidents.push incident }

/-- Reads what is left of a line that began at `start`. After an error there is no result, and reading goes on with the
next line. -/
def finish? {α : Type} (start : List Token) (c : Cursor α) (t : Trail) : Option (Option α × Trail) :=
  match c.run.run t.rest with
  | (.ok a, rest) => some (some a, { t with rest := rest })
  | (.error e, rest) => do return (none, ← recover? start e { t with rest := rest })

/-- Reads a line. -/
def attempt? {α : Type} (c : Cursor α) (t : Trail) : Option (Option α × Trail) := finish? t.rest c t

/-- A conditional that is being skipped: the tokens ahead, how many braces wait for their closing marker, and whether
a line starts here. -/
structure Skipped where
  rest : List Token
  waiting : Nat
  atStart : Bool

/-- One time around the tokens of a conditional that is skipped. -/
def overSkipped : Loop Skipped (List Token) := fun s =>
  match kindAt s.rest with
  | .passageMarker | .endOfInput => leave s.rest
  | .opening .brace => again ⟨past s.rest, if s.atStart then s.waiting + 1 else s.waiting, false⟩
  | .marker .close =>
    if s.waiting - 1 = 0 then leave (pastBreak (past s.rest)) else again ⟨past s.rest, s.waiting - 1, false⟩
  | kind => again ⟨past s.rest, s.waiting, kind = .newline⟩

/-- One time around the tokens of some kinds. -/
def overKinds (kinds : TokenKind → Bool) : Loop (List Token) (List Token) := fun rest =>
  if kinds (kindAt rest) then again (past rest) else leave rest

/-- Goes to the next line that is not empty. -/
def skipBreaks? (t : Trail) : Option Trail := do
  let rest ← Loop.run (overKinds (· = .newline)) t.left t.rest
  return { t with rest := rest }

/-! ## The lines ahead -/

/-- The layout of the tokens ahead. -/
def tailAt (ending : Position) (rest : List Token) : Outline.Tail :=
  Outline.layout ending (rest.takeWhile fun t => !Outline.isEnd t)

/-- The lines ahead, up to the next passage marker. -/
def linesAt (ending : Position) (rest : List Token) : List Line :=
  (tailAt ending rest).line :: (tailAt ending rest).more

/-- The first end of input ahead, if there is one, stands at `ending`. -/
def EndsAt (ending : Position) (rest : List Token) : Prop := ∀ t, rest.find? Outline.isEnd = some t → t.pos = ending

/-- The second place lies in the same passage as the first and not before it. -/
def Passes (rest rest' : List Token) : Prop :=
  ∃ passed, rest = passed ++ rest' ∧ ∀ t ∈ passed, t.kind ≠ .passageMarker ∧ t.kind ≠ .endOfInput

section

variable {ending : Position} {line rest rest' : List Token}

theorem exists_cons {kind : TokenKind} (h : kindAt rest = kind) (hkind : kind ≠ .endOfInput) :
    ∃ t ts, rest = t :: ts ∧ t.kind = kind := by
  cases rest with
  | nil => exact absurd h.symm hkind
  | cons t ts => exact ⟨t, ts, rfl, h⟩

theorem pastBreak_newline {t : Token} (h : t.kind = .newline) (rest : List Token) : pastBreak (t :: rest) = rest := by
  have hk : kindAt (t :: rest) = .newline := h
  rw [pastBreak, if_pos hk, past, if_neg (by simp [h])]

theorem pastBreak_of_ne (h : kindAt rest ≠ .newline) : pastBreak rest = rest := if_neg h

theorem Passes.refl (rest : List Token) : Passes rest rest := ⟨[], rfl, by simp⟩

theorem Passes.trans {rest'' : List Token} (h : Passes rest rest') (h' : Passes rest' rest'') : Passes rest rest'' := by
  obtain ⟨passed, rfl, hpassed⟩ := h
  obtain ⟨passed', rfl, hpassed'⟩ := h'
  refine ⟨passed ++ passed', (List.append_assoc ..).symm, fun t ht => ?_⟩
  rcases List.mem_append.1 ht with ht | ht
  · exact hpassed t ht
  · exact hpassed' t ht

theorem Passes.length_le (h : Passes rest rest') : rest'.length ≤ rest.length := by
  obtain ⟨passed, rfl, -⟩ := h
  rw [List.length_append]
  exact Nat.le_add_left ..

theorem Passes.endsAt (h : Passes rest rest') (hends : EndsAt ending rest) : EndsAt ending rest' := by
  obtain ⟨passed, rfl, hpassed⟩ := h
  intro t ht
  refine hends t ?_
  have hnone : passed.find? Outline.isEnd = none := by
    rw [List.find?_eq_none]
    intro u hu
    simpa [Outline.isEnd] using (hpassed u hu).2
  rw [List.find?_append, hnone, Option.none_or]
  exact ht

theorem tailAt_cons {t : Token} (h : t.kind ≠ .endOfInput) (rest : List Token) :
    tailAt ending (t :: rest) = (tailAt ending rest).push t := by
  rw [tailAt, List.takeWhile_cons_of_pos (by simpa [Outline.isEnd] using h), Outline.layout_cons]
  rfl

theorem tailAt_of_end (h : kindAt rest = .endOfInput) : tailAt ending rest = .atEnd ending := by
  cases rest with
  | nil => rfl
  | cons t ts =>
    have ht : t.kind = .endOfInput := h
    rw [tailAt, List.takeWhile_cons_of_neg (by simp [Outline.isEnd, ht])]
    rfl

/-- Sections begin at passage markers. -/
theorem Passes.sections (h : Passes rest rest') : (tailAt ending rest).sections = (tailAt ending rest').sections := by
  obtain ⟨passed, rfl, hpassed⟩ := h
  induction passed with
  | nil => rfl
  | cons t ts ih =>
    obtain ⟨hmarker, hend⟩ := hpassed t List.mem_cons_self
    rw [List.cons_append, tailAt_cons hend, ← ih fun u hu => hpassed u (List.mem_cons_of_mem t hu)]
    by_cases hbreak : t.kind = .newline
    · rw [Outline.Tail.push_newline _ hbreak]
    · rw [Outline.Tail.push_word _ hbreak hmarker]

theorem tailAt_inner {t : Token} (h : t.kind.isInner = true) (rest : List Token) :
    tailAt ending (t :: rest)
      = ⟨⟨t :: (tailAt ending rest).line.tokens, (tailAt ending rest).line.stop⟩, (tailAt ending rest).more,
          (tailAt ending rest).sections⟩ := by
  have ht : ∀ kind, kind.isInner = false → t.kind ≠ kind := by
    rintro kind hkind rfl
    exact Bool.false_ne_true (hkind.symm.trans h)
  rw [tailAt_cons (ht _ rfl), Outline.Tail.push_word _ (ht _ rfl) (ht _ rfl)]

theorem tailAt_append (hline : Inner line) (rest : List Token) :
    tailAt ending (line ++ rest)
      = ⟨⟨line ++ (tailAt ending rest).line.tokens, (tailAt ending rest).line.stop⟩, (tailAt ending rest).more,
          (tailAt ending rest).sections⟩ := by
  induction line with
  | nil => rfl
  | cons t ts ih =>
    rw [List.cons_append, tailAt_inner hline.head, ih hline.tail]
    rfl

theorem tailAt_line (h : Stops rest) (hends : EndsAt ending rest) :
    (tailAt ending rest).line = ⟨[], LineEnd.ahead ending rest⟩ := by
  rcases h.kindAt with hk | hk | hk
  · obtain ⟨t, ts, rfl, ht⟩ := exists_cons hk (by simp)
    rw [tailAt_cons (by simp [ht]), Outline.Tail.push_newline _ ht]
    simp [LineEnd.ahead, ht]
  · obtain ⟨t, ts, rfl, ht⟩ := exists_cons hk (by simp)
    rw [tailAt_cons (by simp [ht]), Outline.Tail.push_marker _ ht]
    simp [LineEnd.ahead, ht]
  · rw [tailAt_of_end hk]
    cases rest with
    | nil => rfl
    | cons t ts =>
      have ht : t.kind = .endOfInput := hk
      have hpos : t.pos = ending := hends t (by simp [Outline.isEnd, ht])
      simp [LineEnd.ahead, ht, hpos, Outline.Tail.atEnd]

theorem linesAt_newline {t : Token} (h : t.kind = .newline) (rest : List Token) :
    linesAt ending (t :: rest) = ⟨[], ⟨t.pos, none⟩⟩ :: linesAt ending rest := by
  rw [linesAt, tailAt_cons (by simp [h]), Outline.Tail.push_newline _ h]
  rfl

theorem passes_pastBreak (rest : List Token) : Passes rest (pastBreak rest) := by
  by_cases h : kindAt rest = .newline
  · obtain ⟨t, ts, rfl, ht⟩ := exists_cons h (by simp)
    rw [pastBreak_newline ht]
    exact ⟨[t], rfl, by simp [ht]⟩
  · rw [pastBreak_of_ne h]
    exact Passes.refl rest

theorem passes_inner (hline : Inner line) (rest : List Token) : Passes (line ++ rest) rest := by
  refine ⟨line, rfl, fun t ht => ⟨?_, ?_⟩⟩
  all_goals
    intro hk
    have hinner := hline t ht
    rw [hk] at hinner
    cases hinner

theorem passes_line (hline : Inner line) (rest : List Token) : Passes (line ++ rest) (pastBreak rest) :=
  (passes_inner hline rest).trans (passes_pastBreak rest)

/-- What is ahead is the rest of a line and what follows it. -/
theorem exists_line (rest : List Token) : ∃ line rest', rest = line ++ rest' ∧ Inner line ∧ Stops rest' := by
  induction rest with
  | nil => exact ⟨[], [], rfl, List.forall_mem_nil _, rfl⟩
  | cons t ts ih =>
    by_cases ht : t.kind.isInner = true
    · obtain ⟨line, rest', rfl, hline, hstops⟩ := ih
      exact ⟨t :: line, rest', rfl, List.forall_mem_cons.2 ⟨ht, hline⟩, hstops⟩
    · exact ⟨[], t :: ts, rfl, List.forall_mem_nil _, by simpa [Stops, kindAt] using ht⟩

/-- Going over the lines behind the end of this one is going over the lines ahead there. -/
theorem foldl_more {α : Type} {f : α → Line → α} (hf : ∀ a l, l.holds = false → f a l = a) (hrest : Stops rest)
    (hends : EndsAt ending rest) (a : α) :
    (tailAt ending rest).more.foldl f a = (linesAt ending (pastBreak rest)).foldl f a := by
  by_cases h : kindAt rest = .newline
  · obtain ⟨t, ts, rfl, ht⟩ := exists_cons h (by simp)
    rw [pastBreak_newline ht, tailAt_cons (by simp [ht]), Outline.Tail.push_newline _ ht]
    rfl
  · rw [pastBreak_of_ne h, linesAt, tailAt_line hrest hends, List.foldl_cons, hf a _ rfl]

/-- Going over the lines ahead begins with the rest of this line and goes on with the lines ahead behind it. -/
theorem foldl_linesAt {α : Type} {f : α → Line → α} (hf : ∀ a l, l.holds = false → f a l = a) (hline : Inner line)
    (hrest : Stops rest) (hends : EndsAt ending rest) (a : α) :
    (linesAt ending (line ++ rest)).foldl f a
      = (linesAt ending (pastBreak rest)).foldl f (f a ⟨line, LineEnd.ahead ending rest⟩) := by
  rw [linesAt, tailAt_append hline, tailAt_line hrest hends, List.append_nil, List.foldl_cons,
    foldl_more hf hrest hends]

end

/-! ## Tokens of some kinds -/

/-- The tokens ahead behind those of some kinds. -/
def dropKinds (kinds : TokenKind → Bool) (rest : List Token) : List Token := rest.dropWhile fun t => kinds t.kind

theorem dropKinds_cons (kinds : TokenKind → Bool) (t : Token) (rest : List Token) :
    dropKinds kinds (t :: rest) = if kinds t.kind then dropKinds kinds rest else t :: rest := List.dropWhile_cons

section

variable {kinds : TokenKind → Bool} (hend : kinds .endOfInput = false)

include hend

theorem overKinds_achieves : (overKinds kinds).Achieves List.length fun rest r => r = dropKinds kinds rest := by
  intro rest
  cases rest with
  | nil => exact Loop.leads_of_leave [] (if_neg (by simp [kindAt, hend])) rfl
  | cons t ts =>
    have hcons := dropKinds_cons kinds t ts
    by_cases ht : kinds t.kind = true
    · have hpast : past (t :: ts) = ts := if_neg fun h => by simp [h, hend] at ht
      rw [if_pos ht] at hcons
      refine Loop.leads_of_again ts ?_ (Nat.lt_succ_self _) fun r hr => hr.trans hcons.symm
      rw [overKinds, kindAt, if_pos ht, hpast]
    · rw [if_neg ht] at hcons
      exact Loop.leads_of_leave (t :: ts) (if_neg ht) hcons.symm

theorem run_overKinds (rest : List Token) :
    Loop.run (overKinds kinds) rest.length rest = some (dropKinds kinds rest) := by
  obtain ⟨r, hr, rfl⟩ := (overKinds_achieves hend).exists_run (Nat.le_refl rest.length)
  exact hr

theorem kindAt_dropKinds (rest : List Token) : kinds (kindAt (dropKinds kinds rest)) = false := by
  induction rest with
  | nil => exact hend
  | cons t ts ih =>
    rw [dropKinds_cons]
    split
    · exact ih
    · next ht => exact eq_false_of_ne_true ht

theorem passes_dropKinds (hmarker : kinds .passageMarker = false) (rest : List Token) :
    Passes rest (dropKinds kinds rest) := by
  refine ⟨rest.takeWhile fun t => kinds t.kind, List.takeWhile_append_dropWhile.symm, fun t ht => ?_⟩
  have hkind := List.mem_takeWhile_imp ht
  constructor
  all_goals
    intro h
    simp [h, hend, hmarker] at hkind

end

theorem skipBreaks?_eq (t : Trail) :
    t.skipBreaks? = some { t with rest := dropKinds (· = .newline) t.rest } := by
  rw [skipBreaks?, left, run_overKinds rfl]
  rfl

theorem passes_dropBreaks (rest : List Token) : Passes rest (dropKinds (· = .newline) rest) :=
  passes_dropKinds rfl rfl rest

theorem kindAt_dropBreaks (rest : List Token) : kindAt (dropKinds (· = .newline) rest) ≠ .newline :=
  of_decide_eq_false (@kindAt_dropKinds (· = .newline) rfl rest)

theorem foldl_dropBreaks {α : Type} {f : α → Line → α} (hf : ∀ a l, l.holds = false → f a l = a)
    (ending : Position) (rest : List Token) (a : α) :
    (linesAt ending (dropKinds (· = .newline) rest)).foldl f a = (linesAt ending rest).foldl f a := by
  induction rest with
  | nil => rfl
  | cons t ts ih =>
    rw [dropKinds_cons]
    split
    · next ht => rw [linesAt_newline (by simpa using ht), List.foldl_cons, hf a _ rfl, ih]
    · rfl

/-! ## Going on after an error -/

section

variable {line rest : List Token}

theorem overLine_stops (h : Stops rest) (invalid : Bool) :
    overLine (rest, invalid) = leave (pastBreak rest, invalid) := by
  rw [overLine, pastBreak]
  rcases h.kindAt with hk | hk | hk
  all_goals
    rw [hk]
    rfl

theorem overLine_inner {t : Token} (h : t.kind.isInner = true) (rest : List Token) (invalid : Bool) :
    overLine (t :: rest, invalid) = again (rest, invalid || t.kind.isInvalid) := by
  rw [overLine]
  dsimp only [kindAt]
  split
  · next hk => simp [hk, TokenKind.isInner] at h
  · next hk => simp [hk, TokenKind.isInner] at h
  · next hk => simp [hk, TokenKind.isInner] at h
  · rw [Cursor.past_cons_inner h]

/-- Where a line that is passed over leads. -/
def Synchronizes (s r : List Token × Bool) : Prop :=
  ∀ line rest, Inner line → Stops rest → s.1 = line ++ rest →
    r = (pastBreak rest, s.2 || line.any fun u => u.kind.isInvalid)

theorem overLine_achieves : overLine.Achieves (fun s => s.1.length) Synchronizes := by
  rintro ⟨ahead, invalid⟩
  obtain ⟨line, rest, rfl, hline, hrest⟩ := exists_line ahead
  cases line with
  | nil =>
    refine Loop.leads_of_leave _ (overLine_stops hrest invalid) ?_
    intro line' rest' hline' hrest' h
    cases line' with
    | nil =>
      obtain rfl : rest = rest' := h
      simp
    | cons u us =>
      obtain rfl : rest = u :: (us ++ rest') := h
      exact absurd hline'.head (by simpa [Stops, kindAt] using hrest)
  | cons t ts =>
    refine Loop.leads_of_again _ (overLine_inner hline.head _ invalid) (Nat.lt_succ_self _) ?_
    intro r hr line' rest' hline' hrest' h
    cases line' with
    | nil =>
      obtain rfl : t :: (ts ++ rest) = rest' := h
      exact absurd hline.head (by simpa [Stops, kindAt] using hrest')
    | cons u us =>
      obtain ⟨rfl, htail⟩ := List.cons.inj h
      rw [hr us rest' hline'.tail hrest' htail, List.any_cons, Bool.or_assoc]

theorem recover?_eq (hline : Inner line) (hrest : Stops rest) (front : List Token) (e : SyntaxError)
    (incidents : Array Incident) (blocks : Nat) :
    recover? (front ++ line ++ rest) e ⟨line ++ rest, incidents, blocks⟩
      = some ⟨pastBreak rest, incidents.push (.ofLine (front ++ line) e), blocks⟩ := by
  obtain ⟨r, hr, hgood⟩ :=
    overLine_achieves.exists_run (s := (line ++ rest, false)) (Nat.le_refl (line ++ rest).length)
  have hfront : (front ++ line ++ rest).take ((front ++ line ++ rest).length - (line ++ rest).length) = front := by
    rw [List.append_assoc, List.length_append, Nat.add_sub_cancel, List.take_left]
  rw [recover?]
  simp only [left, hfront, hr, hgood line rest hline hrest rfl, Option.bind_eq_bind, Option.bind_some, Bool.false_or]
  rw [Incident.ofLine, List.any_append]
  rfl

/-- The incidents after a line has been read or not. -/
def noted {α : Type} (incidents : Array Incident) (line : List Token) : Except SyntaxError α → Array Incident
  | .ok _ => incidents
  | .error e => incidents.push (.ofLine line e)

/-- Reading what is left of a line gives what it gives, and goes on with the next line in any case. -/
theorem finish?_eq {α : Type} {c : Cursor α} {x : Except SyntaxError α} (h : Finishes rest line c x)
    (hline : Inner line) (hrest : Stops rest) (front : List Token) (incidents : Array Incident) (blocks : Nat) :
    finish? (front ++ line ++ rest) c ⟨line ++ rest, incidents, blocks⟩
      = some (x.toOption, ⟨pastBreak rest, noted incidents (front ++ line) x, blocks⟩) := by
  cases x with
  | ok a =>
    have hrun : c.run.run (line ++ rest) = (.ok a, pastBreak rest) := h
    rw [finish?, hrun]
    rfl
  | error e =>
    obtain ⟨left, ⟨passed, rfl⟩, hrun⟩ := h
    have hrecover :=
      recover?_eq (hline.of_suffix (List.suffix_append passed left)) hrest (front ++ passed) e incidents blocks
    rw [List.append_assoc front passed left] at hrecover
    simp only [finish?, hrun, hrecover]
    rfl

theorem attempt?_eq {α : Type} {c : Cursor α} {x : Except SyntaxError α} (h : Finishes rest line c x)
    (hline : Inner line) (hrest : Stops rest) (incidents : Array Incident) (blocks : Nat) :
    attempt? c ⟨line ++ rest, incidents, blocks⟩
      = some (x.toOption, ⟨pastBreak rest, noted incidents line x, blocks⟩) :=
  finish?_eq h hline hrest [] incidents blocks

end

/-! ## What comes of an assembly -/

/-- The body of a passage and the incidents, when an assembly has `rest` ahead. -/
def outcome (ending : Position) (a : Assembly) (rest : List Token) : List Node × Array Incident :=
  let b := (linesAt ending rest).foldl Assembly.line a
  (b.body, b.incidents)

/-- The passage ends here. -/
def AtEnd (rest : List Token) : Prop := kindAt rest = .passageMarker ∨ kindAt rest = .endOfInput

section

variable {ending : Position} {a : Assembly} {line rest : List Token}

theorem outcome_line (hline : Inner line) (hrest : Stops rest) (hends : EndsAt ending rest) (a : Assembly) :
    outcome ending a (line ++ rest) = outcome ending (a.line ⟨line, LineEnd.ahead ending rest⟩) (pastBreak rest) := by
  rw [outcome, outcome, foldl_linesAt (fun b _ => Assembly.line_of_not_holds b) hline hrest hends]

theorem outcome_newline {t : Token} (h : t.kind = .newline) (a : Assembly) (rest : List Token) :
    outcome ending a (t :: rest) = outcome ending a rest := by
  rw [outcome, linesAt_newline h, List.foldl_cons, Assembly.line_of_not_holds a rfl, outcome]

theorem outcome_pastBreak (a : Assembly) (rest : List Token) :
    outcome ending a (pastBreak rest) = outcome ending a rest := by
  by_cases h : kindAt rest = .newline
  · obtain ⟨t, ts, rfl, ht⟩ := exists_cons h (by simp)
    rw [pastBreak_newline ht, outcome_newline ht]
  · rw [pastBreak_of_ne h]

theorem outcome_dropBreaks (ending : Position) (a : Assembly) (rest : List Token) :
    outcome ending a (dropKinds (· = .newline) rest) = outcome ending a rest := by
  rw [outcome, foldl_dropBreaks fun b _ => Assembly.line_of_not_holds b, outcome]

/-- A line starts here that is not empty, unless the passage ends. -/
theorem exists_line_of_not_atEnd (hbreak : kindAt rest ≠ .newline) (hend : ¬AtEnd rest) :
    ∃ t line rest', rest = t :: line ++ rest' ∧ Inner (t :: line) ∧ Stops rest' := by
  obtain ⟨line, rest', rfl, hline, hrest⟩ := exists_line rest
  cases line with
  | nil =>
    rcases hrest.kindAt with hk | hk
    · exact absurd hk hbreak
    · exact absurd hk hend
  | cons t ts => exact ⟨t, ts, rest', rfl, hline, hrest⟩

theorem AtEnd.linesAt (h : AtEnd rest) (ending : Position) : ∃ stop, linesAt ending rest = [⟨[], stop⟩] := by
  rcases h with hk | hk
  · obtain ⟨t, ts, rfl, ht⟩ := exists_cons hk (by simp)
    refine ⟨⟨t.pos, some t.describe⟩, ?_⟩
    rw [Trail.linesAt, tailAt_cons (by simp [ht]), Outline.Tail.push_marker _ ht]
  · refine ⟨⟨ending, none⟩, ?_⟩
    rw [Trail.linesAt, tailAt_of_end hk]
    rfl

theorem AtEnd.outcome (h : AtEnd rest) (a : Assembly) : outcome ending a rest = (a.body, a.incidents) := by
  obtain ⟨stop, hstop⟩ := h.linesAt ending
  rw [Trail.outcome, hstop, List.foldl_cons, List.foldl_nil, Assembly.line_of_not_holds a rfl]

end

/-! ## Skipping -/

/-- Goes on with skipping on a line that has been skipped up to here. -/
def skipOn (a : Assembly) (waiting : Nat) (atStart : Bool) (l : Line) : Assembly :=
  match Assembly.skip waiting atStart l.tokens with
  | .inl waiting => { a with skipping := some waiting }
  | .inr rest => Assembly.readLine { a with skipping := none } l.stop rest

/-- What comes of an assembly in the middle of skipping. -/
def skipOutcome (ending : Position) (a : Assembly) (s : Skipped) : List Node × Array Incident :=
  let tail := tailAt ending s.rest
  let b := tail.more.foldl Assembly.line (skipOn a s.waiting s.atStart tail.line)
  (b.body, b.incidents)

/-- Skipping comes to the place where an assembly reads on. -/
structure SkipReads (s : Skipped) (r : List Token) : Prop where
  passes : Passes s.rest r
  shorter : (kindAt s.rest).isInner = true → r.length < s.rest.length
  reads : ∀ ending a, skipOutcome ending a s = outcome ending { a with skipping := none } r

section

variable {ending : Position}

theorem skipOutcome_newline {t : Token} (h : t.kind = .newline) (a : Assembly) (rest : List Token) (waiting : Nat)
    (atStart : Bool) :
    skipOutcome ending a ⟨t :: rest, waiting, atStart⟩ = skipOutcome ending a ⟨rest, waiting, true⟩ := by
  simp only [skipOutcome]
  rw [tailAt_cons (by simp [h]), Outline.Tail.push_newline _ h]
  rfl

theorem skipOutcome_atEnd {rest : List Token} (h : AtEnd rest) (a : Assembly) (waiting : Nat) (atStart : Bool) :
    skipOutcome ending a ⟨rest, waiting, atStart⟩ = (a.body, a.incidents) := by
  obtain ⟨stop, hstop⟩ := h.linesAt ending
  obtain ⟨hline, hmore⟩ := List.cons.inj hstop
  simp only [skipOutcome]
  rw [hline, hmore]
  rfl

theorem skipOutcome_inner {t : Token} {waiting waiting' : Nat} {atStart : Bool} (h : t.kind.isInner = true)
    (hskip : ∀ ts, Assembly.skip waiting atStart (t :: ts) = Assembly.skip waiting' false ts) (a : Assembly)
    (rest : List Token) :
    skipOutcome ending a ⟨t :: rest, waiting, atStart⟩ = skipOutcome ending a ⟨rest, waiting', false⟩ := by
  simp only [skipOutcome, tailAt_inner h, skipOn, hskip]

theorem skipOutcome_close {t : Token} {waiting : Nat} (h : t.kind = .marker .close) (hwaiting : waiting ≤ 1)
    (atStart : Bool) (a : Assembly) (rest : List Token) :
    skipOutcome ending a ⟨t :: rest, waiting, atStart⟩ = outcome ending { a with skipping := none } rest := by
  have hinner : t.kind.isInner = true := by rw [h]; rfl
  simp only [skipOutcome, tailAt_inner hinner, skipOn, Assembly.skip, h, if_pos hwaiting]
  rfl

end

theorem SkipReads.cons {t : Token} {rest r : List Token} {waiting waiting' : Nat} {atStart atStart' : Bool}
    (hr : SkipReads ⟨rest, waiting', atStart'⟩ r) (ht : t.kind ≠ .passageMarker ∧ t.kind ≠ .endOfInput)
    (h : ∀ ending a, skipOutcome ending a ⟨t :: rest, waiting, atStart⟩
      = skipOutcome ending a ⟨rest, waiting', atStart'⟩) : SkipReads ⟨t :: rest, waiting, atStart⟩ r where
  passes := Passes.trans ⟨[t], rfl, by simpa using ht⟩ hr.passes
  shorter _ := Nat.lt_succ_of_le hr.passes.length_le
  reads ending a := (h ending a).trans (hr.reads ending a)

section

variable {t : Token} {rest : List Token} {waiting : Nat} {atStart : Bool}

theorem overSkipped_atEnd (h : AtEnd rest) : overSkipped ⟨rest, waiting, atStart⟩ = leave rest := by
  rw [overSkipped]
  rcases h with hk | hk
  all_goals rw [hk]

theorem skipReads_atEnd (h : AtEnd rest) : SkipReads ⟨rest, waiting, atStart⟩ rest where
  passes := Passes.refl rest
  shorter hinner := by
    rcases h with hk | hk
    all_goals
      rw [hk] at hinner
      cases hinner
  reads ending a := by
    rw [skipOutcome_atEnd h, h.outcome]
    rfl

/-- A token of the line is skipped, unless it is the last closing marker. -/
theorem overSkipped_inner (h : t.kind.isInner = true) :
    (∃ waiting', overSkipped ⟨t :: rest, waiting, atStart⟩ = again ⟨rest, waiting', false⟩ ∧
      ∀ ts, Assembly.skip waiting atStart (t :: ts) = Assembly.skip waiting' false ts) ∨
    overSkipped ⟨t :: rest, waiting, atStart⟩ = leave (pastBreak rest) ∧ t.kind = .marker .close ∧ waiting ≤ 1 := by
  have hpast : past (t :: rest) = rest := Cursor.past_cons_inner h rest
  simp only [overSkipped, kindAt, hpast, Assembly.skip]
  cases hk : t.kind with
  | marker m =>
    cases m with
    | close =>
      by_cases hwaiting : waiting ≤ 1
      · exact .inr ⟨if_pos (by omega), rfl, hwaiting⟩
      · exact .inl ⟨waiting - 1, if_neg (by omega), fun ts => if_neg hwaiting⟩
    | otherwise => exact .inl ⟨waiting, rfl, fun ts => rfl⟩
  | opening b =>
    cases b with
    | brace => exact .inl ⟨if atStart then waiting + 1 else waiting, rfl, fun ts => rfl⟩
    | _ => exact .inl ⟨waiting, rfl, fun ts => rfl⟩
  | newline | passageMarker | endOfInput =>
    rw [hk] at h
    cases h
  | _ => exact .inl ⟨waiting, rfl, fun ts => rfl⟩

end

theorem overSkipped_achieves : overSkipped.Achieves (fun s => s.rest.length) SkipReads := by
  rintro ⟨rest, waiting, atStart⟩
  by_cases hend : AtEnd rest
  · exact Loop.leads_of_leave rest (overSkipped_atEnd hend) (skipReads_atEnd hend)
  cases rest with
  | nil => exact absurd (.inr rfl) hend
  | cons t ts =>
    have ht : t.kind ≠ .passageMarker ∧ t.kind ≠ .endOfInput := not_or.1 hend
    by_cases hbreak : t.kind = .newline
    · refine Loop.leads_of_again ⟨ts, waiting, true⟩ ?_ (Nat.lt_succ_self _) fun r hr => ?_
      · have hpast : past (t :: ts) = ts := if_neg ht.2
        simp only [overSkipped, kindAt, hpast, hbreak, decide_true]
      · exact hr.cons ht fun ending a => skipOutcome_newline hbreak a ts waiting atStart
    · have hinner : t.kind.isInner = true := by
        rw [TokenKind.isInner]
        exacts [hbreak, ht.1, ht.2]
      rcases overSkipped_inner hinner with ⟨waiting', hbody, hskip⟩ | ⟨hbody, hclose, hwaiting⟩
      · refine Loop.leads_of_again _ hbody (Nat.lt_succ_self _) fun r hr => ?_
        exact hr.cons ht fun ending a => skipOutcome_inner hinner hskip a ts
      · have hpasses : Passes ts (pastBreak ts) := passes_pastBreak ts
        refine Loop.leads_of_leave _ hbody ⟨Passes.trans ⟨[t], rfl, by simpa using ht⟩ hpasses, ?_, ?_⟩
        · exact fun _ => Nat.lt_succ_of_le hpasses.length_le
        · intro ending a
          rw [skipOutcome_close hclose hwaiting, outcome_pastBreak]

end Trail

end Gamebook
