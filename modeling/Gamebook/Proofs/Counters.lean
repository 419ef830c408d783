/-
# Gamebook.Proofs.Counters — reading with counters that nothing resets

Reading line by line needs no counters: the nesting of conditionals is the number of open frames, and an expression
starts with its whole budget on every line. This module reads a story with two counters instead, the conditionals and
the operands around the place of reading. They belong to the state of the whole reading. Each is raised on the
way in and lowered on the way out, whether what was read in between failed or not, the limits are decided by
them alone, and neither is ever set back (`Counted`, `Counting`, `Progress`).

Both ways of reading agree on every list of tokens, and at every passage marker and at the end of input both
counters are back at zero (`Progress.ofOutline_eq`). So no open conditional, no broken expression and no skipped
block takes anything from the room that the passages after it have (`Story.nesting_bounded`). A reader that goes
into each conditional in turn keeps the same count of conditionals (`Gamebook.Proofs.Loop.Counters`).
-/
import Gamebook.Proofs.Depth

namespace Gamebook

/-! ## Counting operands -/

/-- A reading with a counter of the unary operators and parentheses around the place of reading. Failing
keeps the counter. -/
abbrev Counted (α : Type) := ExceptT SyntaxError (StateM Nat) α

namespace Counted

variable {α β : Type}

/-- Reads what has no operands in it. -/
def plain (r : Except SyntaxError α) : Counted α := ExceptT.mk (pure r)

/-- Reads one level deeper, unless the counter has reached the limit. -/
def nested (stop : LineEnd) (ts : List Token) (c : Counted α) : Counted α := ExceptT.mk do
  if maxNesting ≤ (← get) then return stop.fail ts .nestingTooDeep
  modify (· + 1)
  let result ← c.run
  modify (· - 1)
  return result

/-- Goes on after `left`, as `Expr.climb` does. -/
def climb (stop : LineEnd) (atom : List Token → Counted (Expr × List Token)) :
    (steps least : Nat) → (left : Expr) → List Token → Counted (Expr × List Token)
  | steps + 1, least, left, t :: ts =>
    match Expr.operator? t with
    | none => return (left, t :: ts)
    | some op =>
      if op.rank < least then return (left, t :: ts)
      else do
        let (first, rest) ← atom ts
        let (right, rest) ← climb stop atom steps (op.rank + 1) first rest
        let e := Expr.binary op left right
        if maxNesting < e.depth then plain (stop.fail rest .nestingTooDeep)
        else climb stop atom steps least e rest
  | _, _, left, ts => return (left, ts)

/-- Reads operators over atoms, as `Expr.operation` does. -/
def operation (stop : LineEnd) (atom : List Token → Counted (Expr × List Token)) (least : Nat) (ts : List Token) :
    Counted (Expr × List Token) := do
  let (first, rest) ← atom ts
  climb stop atom rest.length least first rest

/-- Reads an atom. The recursion goes as deep as the counter lets it, and `fuel` only has to be more than
that. -/
def atom (stop : LineEnd) : (fuel : Nat) → List Token → Counted (Expr × List Token)
  | 0, ts => plain (stop.missing ts .expectedExpression)
  | _ + 1, [] => plain (stop.missing [] .expectedExpression)
  | fuel + 1, t :: ts =>
    match Expr.unaryAt? t with
    | some op => do
      let (e, rest) ← nested stop ts (atom stop fuel ts)
      return (.unary op e, rest)
    | none =>
      if t.kind = .dollar then do
        let (name, rest) ← plain (stop.expectName .expectedVariableName ts)
        return (.var name t.pos, rest)
      else if t.kind = .opening .round then
        nested stop ts do
          let (e, rest) ← operation stop (atom stop fuel) 0 ts
          let ((), rest) ← plain (stop.expect (.closing .round) .groupEnd rest)
          return (e, rest)
      else
        match t.value with
        | some v =>
          if Expr.isLiteral t then return (.literal v, ts)
          else plain (stop.missing (t :: ts) .expectedExpression)
        | none => plain (stop.missing (t :: ts) .expectedExpression)

/-- Reads an expression. -/
def expr (stop : LineEnd) (ts : List Token) : Counted (Expr × List Token) :=
  operation stop (atom stop (maxNesting + 1)) 0 ts

/-- Reads the guard of a choice, if there is one. -/
def guard (stop : LineEnd) : List Token → Counted (Option Expr × List Token)
  | t :: ts =>
    if t.kind = .opening .brace then do
      let (guard, rest) ← expr stop ts
      let ((), rest) ← plain (stop.expect (.closing .brace) .choiceGuardEnd rest)
      return (some guard, rest)
    else return (none, t :: ts)
  | [] => return (none, [])

/-- Reads a choice after its marker. -/
def choice (stop : LineEnd) (pos : Position) (ts : List Token) : Counted Choice := do
  let (guard, rest) ← guard stop ts
  let (text, rest) ← plain (Choice.readText stop rest)
  let (target, rest) ← plain (Choice.readTarget stop rest)
  plain (stop.expectEnd rest)
  return ⟨text, guard, target, pos⟩

/-- Reads an assignment after its `$`. -/
def assignment (stop : LineEnd) (pos : Position) (ts : List Token) : Counted Assignment := do
  let (name, rest) ← plain (stop.expectName .expectedVariableName ts)
  let (op, rest) ← plain (Assignment.readOp stop rest)
  let (value, rest) ← expr stop rest
  plain (stop.expectEnd rest)
  return ⟨name, op, value, pos⟩

/-- Reads the guard of a conditional after its opening brace. -/
def condition (stop : LineEnd) (ts : List Token) : Counted Expr := do
  let (guard, rest) ← expr stop ts
  let ((), rest) ← plain (stop.expect (.closing .brace) .conditionEnd rest)
  plain (stop.expectEnd rest)
  return guard

/-- Reads a statement that takes one line. Only choices and assignments have expressions in them. -/
def statement (stop : LineEnd) (t : Token) (ts : List Token) : Counted Node :=
  match t.kind with
  | .dollar => return .assignment (← assignment stop t.pos ts)
  | .choiceMarker => return .choice (← choice stop t.pos ts)
  | _ => plain (Node.read stop t ts)

/-! ## Operands are counted out -/

/-- With the counter at `n`, one reading gives what the other gives, and the counter is back at `n` then. -/
def Mirrors (n : Nat) (c : Counted α) (r : Except SyntaxError α) : Prop := c.run.run n = (r, n)

theorem mirrors_plain (n : Nat) (r : Except SyntaxError α) : Mirrors n (plain r) r := rfl

theorem mirrors_pure (n : Nat) (a : α) : Mirrors n (pure a) (pure a) := rfl

/-- The counter is back where it was between two readings, so they agree one after the other. -/
theorem Mirrors.bind {n : Nat} {c : Counted α} {r : Except SyntaxError α} {f : α → Counted β}
    {g : α → Except SyntaxError β} (h : Mirrors n c r) (hfg : ∀ a, Mirrors n (f a) (g a)) :
    Mirrors n (c >>= f) (r >>= g) := by
  unfold Mirrors at *
  rw [ExceptT.run_bind, StateT.run_bind, h]
  cases r with
  | error e => rfl
  | ok a => exact hfg a

/-- **One level deeper and back:** the counter is lowered whether the reading inside failed or not. -/
theorem Mirrors.nested {n : Nat} {c : Counted α} {r : Except SyntaxError α} (stop : LineEnd) (ts : List Token)
    (hn : n < maxNesting) (h : Mirrors (n + 1) c r) : Mirrors n (nested stop ts c) r := by
  unfold Mirrors at *
  show (if maxNesting ≤ n then _ else _ : StateM Nat (Except SyntaxError α)).run n = _
  rw [if_neg (Nat.not_le.mpr hn)]
  show ((c.run.run (n + 1)).1, (c.run.run (n + 1)).2 - 1) = _
  rw [h, Nat.add_sub_cancel]

theorem mirrors_nested_fail (stop : LineEnd) (ts : List Token) (c : Counted α) :
    Mirrors maxNesting (nested stop ts c) (stop.fail ts .nestingTooDeep) := rfl

theorem mirrors_climb {n : Nat} {atom : List Token → Counted (Expr × List Token)} {atom' : LineReader Expr}
    (h : ∀ ts, Mirrors n (atom ts) (atom' ts)) (stop : LineEnd) (steps least : Nat) (left : Expr)
    (ts : List Token) :
    Mirrors n (climb stop atom steps least left ts) (Expr.climb stop atom' steps least left ts) := by
  induction steps generalizing least left ts with
  | zero => exact mirrors_pure n _
  | succ steps ih =>
    cases ts with
    | nil => exact mirrors_pure n _
    | cons t ts =>
      rw [climb, Expr.climb]
      cases Expr.operator? t with
      | none => exact mirrors_pure n _
      | some op =>
        dsimp only
        split
        · exact mirrors_pure n _
        refine (h ts).bind ?_
        rintro ⟨first, more⟩
        refine (ih _ first more).bind ?_
        rintro ⟨right, rest⟩
        by_cases hdeep : maxNesting < (Expr.binary op left right).depth
        · simp only [if_pos hdeep]
          exact mirrors_plain n _
        · simp only [if_neg hdeep]
          exact ih least _ rest

theorem mirrors_operation {n : Nat} {atom : List Token → Counted (Expr × List Token)} {atom' : LineReader Expr}
    (h : ∀ ts, Mirrors n (atom ts) (atom' ts)) (stop : LineEnd) (least : Nat) (ts : List Token) :
    Mirrors n (operation stop atom least ts) (Expr.operation stop atom' least ts) := by
  refine (h ts).bind ?_
  rintro ⟨first, rest⟩
  exact mirrors_climb h stop _ least first rest

/-- The counter and the budget make up the limit, so one is at the limit when the other is used up. -/
theorem mirrors_atom (stop : LineEnd) {budget fuel n : Nat} (hbudget : budget + n = maxNesting)
    (hfuel : budget < fuel) (ts : List Token) : Mirrors n (atom stop fuel ts) (Expr.atom stop budget ts) := by
  induction fuel generalizing budget n ts with
  | zero => omega
  | succ fuel ih =>
    cases ts with
    | nil =>
      rw [atom, Expr.atom]
      exact mirrors_plain n _
    | cons t ts =>
      have hlimit : budget = 0 → n = maxNesting := by omega
      have hinner : ∀ inner, budget = inner + 1 →
          n < maxNesting ∧ ∀ ts, Mirrors (n + 1) (atom stop fuel ts) (Expr.atom stop inner ts) := by
        intro inner hinner
        exact ⟨by omega, fun ts => ih (by omega) (by omega) ts⟩
      rw [atom, Expr.atom.eq_def]
      dsimp only
      cases Expr.unaryAt? t with
      | some op =>
        cases budget with
        | zero =>
          obtain rfl := hlimit rfl
          exact (mirrors_nested_fail stop ts _).bind (r := stop.fail ts .nestingTooDeep)
            (g := fun p => pure (.unary op p.1, p.2)) fun _ => mirrors_pure _ _
        | succ inner =>
          obtain ⟨hlt, hatom⟩ := hinner inner rfl
          exact ((hatom ts).nested stop ts hlt).bind fun _ => mirrors_pure n _
      | none =>
        by_cases hdollar : t.kind = .dollar
        · simp only [if_pos hdollar]
          exact (mirrors_plain n _).bind fun _ => mirrors_pure n _
        simp only [if_neg hdollar]
        by_cases hround : t.kind = .opening .round
        · simp only [if_pos hround]
          cases budget with
          | zero =>
            obtain rfl := hlimit rfl
            exact mirrors_nested_fail stop ts _
          | succ inner =>
            obtain ⟨hlt, hatom⟩ := hinner inner rfl
            refine Mirrors.nested stop ts hlt ((mirrors_operation hatom stop 0 ts).bind ?_)
            rintro ⟨e, rest⟩
            exact (mirrors_plain _ _).bind fun _ => mirrors_pure _ _
        simp only [if_neg hround]
        cases t.value with
        | none => exact mirrors_plain n _
        | some v =>
          cases hliteral : Expr.isLiteral t
          · exact mirrors_plain n _
          · exact mirrors_pure n _

/-- **Reading an expression leaves the counter at zero** and gives what it gives without a counter. -/
theorem mirrors_expr (stop : LineEnd) (ts : List Token) : Mirrors 0 (expr stop ts) (Expr.read stop ts) :=
  mirrors_operation (fun ts => mirrors_atom stop (Nat.add_zero _) (Nat.lt_succ_self _) ts) stop 0 ts

theorem mirrors_guard (stop : LineEnd) (ts : List Token) :
    Mirrors 0 (guard stop ts) (Choice.readGuard stop ts) := by
  cases ts with
  | nil => exact mirrors_pure 0 _
  | cons t ts =>
    rw [guard, Choice.readGuard]
    split
    · refine (mirrors_expr stop ts).bind ?_
      rintro ⟨e, rest⟩
      exact (mirrors_plain 0 _).bind fun _ => mirrors_pure 0 _
    · exact mirrors_pure 0 _

theorem mirrors_choice (stop : LineEnd) (pos : Position) (ts : List Token) :
    Mirrors 0 (choice stop pos ts) (Choice.read stop pos ts) := by
  refine (mirrors_guard stop ts).bind ?_
  rintro ⟨guard, rest⟩
  refine (mirrors_plain 0 _).bind ?_
  rintro ⟨text, rest⟩
  refine (mirrors_plain 0 _).bind ?_
  rintro ⟨target, rest⟩
  exact (mirrors_plain 0 _).bind fun _ => mirrors_pure 0 _

theorem mirrors_assignment (stop : LineEnd) (pos : Position) (ts : List Token) :
    Mirrors 0 (assignment stop pos ts) (Assignment.read stop pos ts) := by
  refine (mirrors_plain 0 _).bind ?_
  rintro ⟨name, rest⟩
  refine (mirrors_plain 0 _).bind ?_
  rintro ⟨op, rest⟩
  refine (mirrors_expr stop rest).bind ?_
  rintro ⟨value, rest⟩
  exact (mirrors_plain 0 _).bind fun _ => mirrors_pure 0 _

theorem mirrors_condition (stop : LineEnd) (ts : List Token) :
    Mirrors 0 (condition stop ts) (Node.readCondition stop ts) := by
  refine (mirrors_expr stop ts).bind ?_
  rintro ⟨guard, rest⟩
  refine (mirrors_plain 0 _).bind ?_
  rintro ⟨⟨⟩, rest⟩
  exact (mirrors_plain 0 _).bind fun _ => mirrors_pure 0 _

theorem mirrors_statement (stop : LineEnd) (t : Token) (ts : List Token) :
    Mirrors 0 (statement stop t ts) (Node.read stop t ts) := by
  rw [statement]
  split
  · next hkind =>
    rw [Node.read, hkind]
    exact (mirrors_assignment stop t.pos ts).bind fun a => mirrors_pure 0 _
  · next hkind =>
    rw [Node.read, hkind]
    exact (mirrors_choice stop t.pos ts).bind fun c => mirrors_pure 0 _
  · exact mirrors_plain 0 _

end Counted

/-! ## Counting conditionals -/

/-- The conditionals and the operands around the place of reading. -/
structure Counters where
  blocks : Nat
  operands : Nat
  deriving DecidableEq

/-- The state of reading the body of a passage with counters. -/
structure Counting where
  assembly : Assembly
  counters : Counters

namespace Counting

/-- Opens a conditional and raises the counter. -/
def openBlock (c : Counting) (guard : Expr) (pos : Position) : Counting :=
  ⟨c.assembly.openBlock guard pos, { c.counters with blocks := c.counters.blocks + 1 }⟩

/-- What a marker does. Closing a conditional lowers the counter. -/
def mark (c : Counting) (marker : Marker) (pos : Position) : Counting :=
  if marker = .close ∧ !c.assembly.frames.isEmpty then
    ⟨c.assembly.mark marker pos, { c.counters with blocks := c.counters.blocks - 1 }⟩
  else ⟨c.assembly.mark marker pos, c.counters⟩

/-- Notes an incident. -/
def note (c : Counting) (i : Incident) : Counting := { c with assembly := c.assembly.note i }

/-- Reads the line that starts with the marker token `t`. -/
def markerLine (c : Counting) (stop : LineEnd) (marker : Marker) (t : Token) (ts : List Token) : Counting :=
  match stop.expectEnd ts with
  | .ok _ => c.mark marker t.pos
  | .error e => (c.note (.ofLine (t :: ts) e)).mark marker t.pos

/-- Reads the line that opens a conditional. The counter of operands goes on from where it was. -/
def conditionLine (c : Counting) (stop : LineEnd) (t : Token) (ts : List Token) : Counting :=
  let outcome := (Counted.condition stop ts).run.run c.counters.operands
  let c := { c with counters := { c.counters with operands := outcome.2 } }
  match outcome.1 with
  | .ok guard => c.openBlock guard t.pos
  | .error e => (c.note (.ofLine (t :: ts) e)).openBlock (.literal (.bool false)) t.pos

/-- Reads a line with any other statement. -/
def statementLine (c : Counting) (stop : LineEnd) (t : Token) (ts : List Token) : Counting :=
  let outcome := (Counted.statement stop t ts).run.run c.counters.operands
  let c := { c with counters := { c.counters with operands := outcome.2 } }
  match outcome.1 with
  | .ok n => { c with assembly := c.assembly.push n }
  | .error e => c.note (.ofLine (t :: ts) e)

/-- Reads a line while nothing is skipped. The counter decides whether a conditional is nested too deep. -/
def readLine (c : Counting) (stop : LineEnd) : List Token → Counting
  | [] => c
  | t :: ts =>
    match t.kind with
    | .marker marker => c.markerLine stop marker t ts
    | .opening .brace =>
      if maxNesting ≤ c.counters.blocks then
        match _h : Assembly.skip 0 true (t :: ts) with
        | .inl waiting => { c with assembly := { c.assembly.note (.tooDeep t) with skipping := some waiting } }
        | .inr rest => readLine (c.note (.tooDeep t)) stop rest
      else c.conditionLine stop t ts
    | _ => c.statementLine stop t ts
termination_by ts => ts.length
decreasing_by exact Assembly.length_lt_of_skip _h

/-- Reads the next line of the passage. -/
def line (c : Counting) (l : Line) : Counting :=
  match c.assembly.skipping with
  | none => c.readLine l.stop l.tokens
  | some waiting =>
    match Assembly.skip waiting true l.tokens with
    | .inl waiting => { c with assembly := { c.assembly with skipping := some waiting } }
    | .inr rest => readLine { c with assembly := { c.assembly with skipping := none } } l.stop rest

/-- The counters when the conditionals that are still open have been left, one after the other. -/
def leave (counters : Counters) : List Frame → Counters
  | [] => counters
  | _ :: fs => leave { counters with blocks := counters.blocks - 1 } fs

/-! ## Conditionals are counted out -/

/-- The state with the counters as they should be. -/
def level (a : Assembly) : Counting := ⟨a, a.frames.length, 0⟩

variable (a : Assembly) (stop : LineEnd) (t : Token) (ts : List Token)

/-- A closing marker leaves a conditional if there is one to leave, and no other marker does. -/
theorem level_mark (m : Marker) (pos : Position) : (level a).mark m pos = level (a.mark m pos) := by
  obtain ⟨nodes, frames, skipping, incidents⟩ := a
  cases frames with
  | nil => simp [level, mark, Assembly.mark, Assembly.push]
  | cons f fs =>
    cases m with
    | close => simp [level, mark, Assembly.mark, Assembly.closeBlock]
    | otherwise =>
      cases hfirst : f.first <;> simp [level, mark, Assembly.mark, Assembly.push, hfirst]

theorem level_markerLine (m : Marker) :
    (level a).markerLine stop m t ts = level (a.markerLine stop m t ts) := by
  unfold markerLine Assembly.markerLine
  cases stop.expectEnd ts with
  | ok => exact level_mark a m t.pos
  | error e => exact level_mark (a.note _) m t.pos

theorem level_conditionLine : (level a).conditionLine stop t ts = level (a.conditionLine stop t ts) := by
  have hread : (Counted.condition stop ts).run.run (level a).counters.operands = (Node.readCondition stop ts, 0) :=
    Counted.mirrors_condition stop ts
  unfold conditionLine Assembly.conditionLine
  rw [hread]
  cases Node.readCondition stop ts <;> rfl

theorem level_statementLine : (level a).statementLine stop t ts = level (a.statementLine stop t ts) := by
  have hread : (Counted.statement stop t ts).run.run (level a).counters.operands = (Node.read stop t ts, 0) :=
    Counted.mirrors_statement stop t ts
  unfold statementLine Assembly.statementLine
  rw [hread]
  cases Node.read stop t ts <;> rfl

theorem level_readLine : (level a).readLine stop ts = level (a.readLine stop ts) := by
  refine Assembly.readLine_induction (motive := fun a ts r => (level a).readLine stop ts = level r)
    ?nil ?marker ?condition ?statement ?skipped ?resumed a ts
  case nil =>
    intro a
    rw [readLine]
  case marker =>
    intro a t ts m hkind
    rw [readLine, hkind]
    exact level_markerLine a stop t ts m
  case condition =>
    intro a t ts hkind hdepth
    rw [readLine, hkind]
    exact (if_neg (Nat.not_le.mpr hdepth)).trans (level_conditionLine a stop t ts)
  case statement =>
    intro a t ts hmarker hbrace
    rw [readLine]
    split
    · next m hm => exact absurd hm (hmarker m)
    · next hb => exact absurd hb hbrace
    · exact level_statementLine a stop t ts
  case skipped =>
    intro a t ts waiting hkind hdepth hskip
    rw [readLine, hkind]
    refine (if_pos hdepth).trans ?_
    split
    · next waiting' hskip' =>
      rw [hskip] at hskip'
      cases hskip'
      rfl
    · next rest hskip' =>
      rw [hskip] at hskip'
      cases hskip'
  case resumed =>
    intro a t ts rest hkind hdepth hskip ih
    rw [readLine, hkind]
    refine (if_pos hdepth).trans ?_
    split
    · next waiting hskip' =>
      rw [hskip] at hskip'
      cases hskip'
    · next rest' hskip' =>
      rw [hskip] at hskip'
      cases hskip'
      exact ih

theorem level_line (l : Line) : (level a).line l = level (a.line l) := by
  obtain ⟨nodes, frames, skipping, incidents⟩ := a
  cases skipping with
  | none => exact level_readLine _ l.stop l.tokens
  | some waiting =>
    unfold line Assembly.line
    dsimp only [level]
    cases Assembly.skip waiting true l.tokens with
    | inl waiting => rfl
    | inr rest => exact level_readLine ⟨nodes, frames, none, incidents⟩ l.stop rest

theorem level_foldl_line (ls : List Line) : ls.foldl line (level a) = level (ls.foldl Assembly.line a) := by
  induction ls generalizing a with
  | nil => rfl
  | cons l ls ih => rw [List.foldl_cons, level_line, ih, List.foldl_cons]

/-- Leaving every open conditional brings the counter to zero. -/
theorem leave_level : leave (level a).counters (level a).assembly.frames = ⟨0, 0⟩ := by
  show leave ⟨a.frames.length, 0⟩ a.frames = ⟨0, 0⟩
  induction a.frames with
  | nil => rfl
  | cons f fs ih => exact ih

end Counting

/-! ## Passage after passage -/

/-- The state of reading a story with counters. -/
structure Progress where
  passages : List Passage
  incidents : List Incident
  /-- The counters at the passage markers so far. -/
  atMarkers : List Counters
  counters : Counters

namespace Progress

/-- Reads a section. Its body is a new one, and the counters go on from where they are. -/
def read (p : Progress) (s : Section) : Progress :=
  let header := Header.ofLine s.header
  let c := s.body.foldl Counting.line ⟨.empty, p.counters⟩
  { passages := p.passages ++ (header.name.map fun name => ⟨name, header.tags, c.assembly.body, s.pos⟩).toList
    incidents := p.incidents ++ (header.incidents ++ c.assembly.incidents.toList)
    atMarkers := p.atMarkers ++ [p.counters]
    counters := Counting.leave c.counters c.assembly.frames }

/-- Reads the sections of an outline. Both counters start at zero. -/
def ofOutline (o : Outline) : Progress :=
  o.sections.foldl read ⟨[], (Preamble.ofLines o.preamble).incidents.toList, [], 0, 0⟩

/-- A section that begins with the counters at zero ends with them at zero. -/
theorem read_level (s : Section) (passages : List Passage) (incidents : List Incident)
    (atMarkers : List Counters) :
    read ⟨passages, incidents, atMarkers, 0, 0⟩ s
      = ⟨passages ++ s.passage?.toList, incidents ++ s.incidents, atMarkers ++ [⟨0, 0⟩], 0, 0⟩ := by
  have hbody : s.body.foldl Counting.line ⟨.empty, 0, 0⟩ = Counting.level (Assembly.ofLines s.body) :=
    Counting.level_foldl_line .empty s.body
  unfold read
  dsimp only
  rw [hbody, Counting.leave_level]
  rfl

theorem foldl_read_level (ss : List Section) (passages : List Passage) (incidents : List Incident)
    (atMarkers : List Counters) :
    ss.foldl read ⟨passages, incidents, atMarkers, 0, 0⟩
      = ⟨passages ++ ss.filterMap Section.passage?, incidents ++ ss.flatMap Section.incidents,
          atMarkers ++ ss.map fun _ => ⟨0, 0⟩, 0, 0⟩ := by
  induction ss generalizing passages incidents atMarkers with
  | nil => simp
  | cons s ss ih =>
    rw [List.foldl_cons, read_level, ih, List.filterMap_cons, List.flatMap_cons, List.map_cons]
    cases s.passage? <;> simp

/-- **Both ways of reading agree, and the counters are at zero between passages.** -/
theorem ofOutline_eq (o : Outline) :
    ofOutline o = ⟨o.read.story.passages, o.read.incidents, o.sections.map fun _ => ⟨0, 0⟩, 0, 0⟩ :=
  foldl_read_level o.sections [] _ []

end Progress

/-- Every passage marker begins a section. -/
theorem Outline.length_sections (ending : Position) (ts : List Token) :
    (layout ending ts).sections.length = ts.countP fun t => t.kind = .passageMarker := by
  induction ts with
  | nil => rfl
  | cons t ts ih =>
    rw [layout_cons, Tail.push, List.countP_cons]
    split
    · next hkind => simp [ih, hkind]
    · next hkind => simp [ih, hkind]
    · next hkind => simpa [ih] using hkind

/-- **Nesting is bounded, and counted out passage by passage, whatever the tokens.** A conditional that is read
stands inside at most `maxNesting - 1` others, in whichever branches. Reading with counters of conditionals and
operands that go on from passage to passage gives the same passages and incidents, and both counters are zero
at every passage marker and at the end of input. -/
theorem Story.nesting_bounded (tokens : List Token) :
    let reading := Story.ofTokens tokens
    let progress := Progress.ofOutline (Outline.ofTokens tokens)
    let words := (tokens.filter fun t => !t.kind.isTrivia).takeWhile fun t => !Outline.isEnd t
    (∀ p ∈ reading.story.passages, ∀ depth, ∀ n ∈ Node.layer depth p.body, n.isConditional = true →
        depth ≤ maxNesting - 1) ∧
      progress.passages = reading.story.passages ∧ progress.incidents = reading.incidents ∧
      progress.atMarkers = List.replicate (words.countP fun t => t.kind = .passageMarker) ⟨0, 0⟩ ∧
      progress.counters = ⟨0, 0⟩ := by
  intro reading progress words
  have hprogress : progress = ⟨reading.story.passages, reading.incidents,
      (Outline.ofTokens tokens).sections.map fun _ => ⟨0, 0⟩, 0, 0⟩ := Progress.ofOutline_eq _
  have hmarkers : (Outline.ofTokens tokens).sections.length = words.countP fun t => t.kind = .passageMarker :=
    Outline.length_sections _ words
  refine ⟨fun p hp depth n hn hconditional => ?_, ?_, ?_, ?_, ?_⟩
  · have hheight := Story.heightAll_le_of_mem_passages tokens hp
    have hdepth := Node.lt_heightAll_of_mem_layer hn hconditional
    omega
  · rw [hprogress]
  · rw [hprogress]
  · rw [hprogress, ← hmarkers]
    exact List.map_const'
  · rw [hprogress]

/-- A conditional inside as many others as can be, in a passage that opens one with an unfinished group for its
guard, then 130 more, and closes none; the next passage finds both counters at zero. -/
theorem Story.nesting_bounded_stairs :
    let word := fun kind => (⟨kind, none, .start, "a"⟩ : Token)
    let stair := [word (.opening .brace), word .dollar, word .identifier, word (.closing .brace), word .newline]
    let group := [word (.opening .brace), word (.opening .round), word .newline]
    let header := [word .passageMarker, word .identifier, word .newline]
    let tokens := header ++ group ++ (List.replicate 130 stair).flatten ++ header ++ stair
    (∃ p ∈ (Story.ofTokens tokens).story.passages, ∃ n ∈ Node.layer 127 p.body,
        n.isConditional = true ∧ 127 ≤ maxNesting - 1) ∧
      (Progress.ofOutline (Outline.ofTokens tokens)).atMarkers = [⟨0, 0⟩, ⟨0, 0⟩] := by
  intro word stair group header tokens
  have hdeep : ∃ p ∈ (Story.ofTokens tokens).story.passages, ∃ n ∈ Node.layer 127 p.body,
      n.isConditional = true := by decide +kernel
  obtain ⟨p, hp, n, hn, hconditional⟩ := hdeep
  obtain ⟨hbound, -, -, hmarkers, -⟩ := Story.nesting_bounded tokens
  refine ⟨⟨p, hp, n, hn, hconditional, hbound p hp 127 n hn hconditional⟩, ?_⟩
  rw [hmarkers]
  decide +kernel

end Gamebook
