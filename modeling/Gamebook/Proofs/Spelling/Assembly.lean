/-
# Gamebook.Proofs.Spelling.Assembly — a body is read back from its lines

Each line of a written body is read as the statement it was written for, and the markers find the
conditionals they belong to. The lines of a block leave the assembly as it was, with the statements of
the block added; an open conditional at its end leaves its frame open instead, which the end of the
passage closes with the same result (`Settles`).
-/
import Gamebook.Story.Assembly
import Gamebook.Proofs.Spelling.Statement

namespace Gamebook

open Gamebook.Lexeme
open Gamebook.Text (trimEnd trim splitLines)

/-! ## Statements -/

theorem Node.read_script (code : String) (stop : LineEnd) :
    Node.read stop (.textual .script code.toList (scriptChars code)) [] = .ok (.script code .unplaced) := by
  show Except.ok (Node.script (String.ofList code.toList) .unplaced) = _
  rw [String.ofList_toList]

theorem Node.read_jump (target : String) (stop : LineEnd) :
    Node.read stop (.word .arrow ['-', '>']) [.word .identifier target.toList]
      = .ok (.divert target .unplaced) := by
  show Except.ok (Node.divert (String.ofList target.toList) .unplaced) = _
  rw [String.ofList_toList]

/-- A guard is followed by its closing brace, which no operator is. -/
theorem read_guard {e : Expr} (he : e.Fits) (stop : LineEnd) (rest : List Token) :
    Expr.read stop (e.spelling ++ .word (.closing .brace) ['}'] :: rest)
      = .ok (e.relocate .erase, .word (.closing .brace) ['}'] :: rest) :=
  Expr.read_spelling he stop (Expr.ends_cons (fun _ h => TokenKind.noConfusion h) rest)

theorem Node.readCondition_spelling {e : Expr} (he : e.Fits) (stop : LineEnd) :
    Node.readCondition stop (e.spelling ++ [.word (.closing .brace) ['}']])
      = .ok (e.relocate .erase) := by
  rw [Node.readCondition, read_guard he]
  rfl

theorem Choice.readGuard_spelling {guard : Option Expr} (h : ∀ g ∈ guard, g.Fits) (stop : LineEnd)
    (rest : List Token) :
    Choice.readGuard stop (guardPartSpelling guard ++ .word (.opening .square) ['['] :: rest)
      = .ok (guard.map (Expr.relocate .erase), .word (.opening .square) ['['] :: rest) := by
  cases guard with
  | none => rfl
  | some g =>
    have hread := read_guard (h g rfl) stop (.word (.opening .square) ['['] :: rest)
    have hwords : guardPartSpelling (some g) ++ .word (.opening .square) ['['] :: rest
        = .word (.opening .brace) ['{'] :: (g.spelling ++ .word (.closing .brace) ['}'] ::
          .word (.opening .square) ['['] :: rest) := by
      simp [guardPartSpelling, guardSpelling]
    have hkind : (Token.word (.opening .brace) ['{']).kind = .opening .brace := rfl
    rw [hwords, Choice.readGuard, if_pos hkind, hread]
    rfl

theorem Choice.readText_spelling (text : String) (stop : LineEnd) (rest : List Token) :
    Choice.readText stop (.word (.opening .square) ['['] :: (displaySpelling text ++
        .word (.closing .square) [']'] :: rest))
      = .ok (String.ofList (trim text.toList), rest) := by
  rw [displaySpelling]
  cases ht : trim text.toList with
  | nil => rfl
  | cons c cs => rfl

theorem Choice.readTarget_spelling (target : Option String) (stop : LineEnd) :
    Choice.readTarget stop (targetPartSpelling target) = .ok (target, []) := by
  cases target with
  | none => rfl
  | some t =>
    have hraw : (Token.word .identifier t.toList).raw = t := String.ofList_toList
    have hread : Choice.readTarget stop (targetPartSpelling (some t))
        = .ok (some (Token.word .identifier t.toList).raw, []) := rfl
    rw [hread, hraw]

/-- A choice is read back from its words. -/
theorem Choice.read_spelling {c : Choice} (h : ∀ g ∈ c.guard, g.Fits) (stop : LineEnd) :
    Node.read stop (.word .choiceMarker ['*']) (guardPartSpelling c.guard ++
        .word (.opening .square) ['['] :: (displaySpelling c.text ++
          .word (.closing .square) [']'] :: targetPartSpelling c.target))
      = .ok (.choice c.settle) := by
  have hread : ∀ ts, Node.read stop (.word .choiceMarker ['*']) ts
      = (Choice.read stop .unplaced ts).map .choice := by
    intro ts
    show (do return Node.choice (← Choice.read stop .unplaced ts)) = _
    cases Choice.read stop .unplaced ts <;> rfl
  rw [hread, Choice.read, Choice.readGuard_spelling h]
  simp only [bind, Except.bind, Choice.readText_spelling, Choice.readTarget_spelling]
  rfl

/-- An assignment is read back from its words. -/
theorem Assignment.read_spelling {a : Assignment} (h : a.value.Fits) (stop : LineEnd) :
    Node.read stop (.word .dollar ['$']) (.word .identifier a.name.toList ::
        .word (.assign a.op) a.op.symbol.toList :: a.value.spelling)
      = .ok (.assignment (a.relocate .erase)) := by
  have hvalue := Expr.read_spelling h stop (Expr.ends_nil 0)
  rw [List.append_nil] at hvalue
  have hname : String.ofList a.name.toList = a.name := String.ofList_toList
  have hread : Assignment.read stop .unplaced (.word .identifier a.name.toList ::
        .word (.assign a.op) a.op.symbol.toList :: a.value.spelling) = .ok (a.relocate .erase) := by
    simp only [Assignment.read, LineEnd.expectName, Assignment.readOp, Token.word, if_true, bind,
      Except.bind, hvalue, hname]
    rfl
  show (do return Node.assignment (← Assignment.read stop .unplaced _)) = _
  rw [hread]
  rfl

/-- A conditional without a closing marker is the last statement of its block. -/
theorem Node.last_of_shaped {guard : Expr} {body : List Node} {otherwise : Option (List Node)}
    {opening : Position} {role : BlockRole} {last : Bool}
    (h : (Node.conditional guard body otherwise opening none).shaped role last = true) : last = true := by
  cases otherwise with
  | none =>
    rw [Node.shaped, Bool.and_eq_true] at h
    exact h.1
  | some branch =>
    rw [Node.shaped, Bool.and_eq_true, Bool.and_eq_true] at h
    exact h.1.1

/-! ## Lines -/

namespace Assembly

/-- The words of a line, up to its break. -/
def lineOf (ws : List Token) : Line := ⟨ws, ⟨.unplaced, none⟩⟩

variable {a : Assembly}

/-- While nothing is skipped, a line is read. -/
theorem line_lineOf (hskip : a.skipping = none) (ws : List Token) :
    a.line (lineOf ws) = a.readLine ⟨.unplaced, none⟩ ws := by
  rw [line, hskip]
  rfl

/-- A line that is neither a marker nor opens a conditional adds its statement. -/
theorem line_statement (hskip : a.skipping = none) {t : Token} {ts : List Token} {n : Node}
    (hmarker : ∀ m, t.kind ≠ .marker m) (hbrace : t.kind ≠ .opening .brace)
    (hread : ∀ stop, Node.read stop t ts = .ok n) : a.line (lineOf (t :: ts)) = a.push n := by
  rw [line_lineOf hskip, readLine]
  split
  · next m hm => exact absurd hm (hmarker m)
  · next hb => exact absurd hb hbrace
  · rw [statementLine, hread]

/-- The line of a marker. -/
theorem line_marker (hskip : a.skipping = none) (m : Marker) :
    a.line (lineOf m.line) = a.mark m .unplaced := by
  rw [line_lineOf hskip, Marker.line, readLine]
  rfl

/-- The line that opens a conditional. -/
theorem line_guard (hskip : a.skipping = none) (hdepth : a.frames.length < maxNesting) {e : Expr}
    (he : e.Fits) : a.line (lineOf (guardSpelling e)) = a.openBlock (e.relocate .erase) .unplaced := by
  rw [line_lineOf hskip, guardSpelling, readLine]
  split
  · next h => cases h
  · rw [if_neg (Nat.not_le.mpr hdepth), conditionLine, Node.readCondition_spelling he]
    rfl
  · next h => exact absurd rfl h

/-! ## Blocks -/

/-- Appends statements to the innermost block. -/
def pushAll (a : Assembly) (ns : List Node) : Assembly := { a with nodes := a.nodes ++ ns }

theorem pushAll_nil (a : Assembly) : a.pushAll [] = a := by
  simp [pushAll]

theorem pushAll_singleton (a : Assembly) (n : Node) : a.pushAll [n] = a.push n := by
  simp [pushAll, push]

theorem pushAll_append (a : Assembly) (ns ms : List Node) :
    a.pushAll (ns ++ ms) = (a.pushAll ns).pushAll ms := by
  have hnodes : a.nodes ++ (ns ++ ms) = a.nodes ++ ns ++ ms := by
    apply Array.toList_inj.mp
    simp
  simp only [pushAll, hnodes]

/-- The lines of prose. -/
theorem lines_prose (hskip : a.skipping = none) (ls : List (List Char)) :
    ((ls.map fun line => [Token.textual .text (trimEnd line) (proseLine line)]).map lineOf).foldl line a
      = a.pushAll (ls.map fun line => .text (String.ofList (trimEnd line)) .unplaced) := by
  induction ls generalizing a with
  | nil => exact (pushAll_nil a).symm
  | cons l ls ih =>
    have hline : a.line (lineOf [Token.textual .text (trimEnd l) (proseLine l)])
        = a.push (.text (String.ofList (trimEnd l)) .unplaced) :=
      line_statement hskip (fun _ h => TokenKind.noConfusion h) (fun h => TokenKind.noConfusion h)
        fun _ => rfl
    rw [List.map_cons, List.map_cons, List.foldl_cons, hline, List.map_cons,
      ← pushAll_singleton, ih (a := a.pushAll _) hskip, ← pushAll_append, List.singleton_append]

/-- The lines of a statement that holds no body add it as it is read back. -/
theorem lines_leaf {Q : Expr → Prop} (hQ : ∀ e, Q e → e.Fits) (hskip : a.skipping = none) {n : Node}
    (hn : n.isConditional = false) (h : n.Writable Q)
    (hstray : ∀ m pos, n = .stray m pos → a.mark m .unplaced = a.push (.stray m .unplaced)) :
    (n.lines.map lineOf).foldl line a = a.pushAll n.settle := by
  have hone : ∀ {t : Token} {ts : List Token} {n : Node}, (∀ m, t.kind ≠ .marker m) →
      t.kind ≠ .opening .brace → (∀ stop, Node.read stop t ts = .ok n) →
      ([t :: ts].map lineOf).foldl line a = a.pushAll [n] := by
    intro t ts n hmarker hbrace hread
    rw [pushAll_singleton]
    exact line_statement hskip hmarker hbrace hread
  cases n with
  | conditional => cases hn
  | text content pos =>
    rw [Node.lines, Node.settle]
    exact lines_prose hskip _
  | choice c =>
    rw [Node.lines, Node.settle]
    exact hone (fun _ h => TokenKind.noConfusion h) (fun h => TokenKind.noConfusion h)
      fun stop => Choice.read_spelling (fun g hg => hQ g (h.1 g hg)) stop
  | assignment b =>
    rw [Node.lines, Node.settle]
    exact hone (fun _ h => TokenKind.noConfusion h) (fun h => TokenKind.noConfusion h)
      fun stop => Assignment.read_spelling (hQ _ h.2) stop
  | script code pos =>
    rw [Node.lines, Node.settle]
    exact hone (fun _ h => TokenKind.noConfusion h) (fun h => TokenKind.noConfusion h)
      (Node.read_script code)
  | divert target pos =>
    rw [Node.lines, Node.settle]
    exact hone (fun _ h => TokenKind.noConfusion h) (fun h => TokenKind.noConfusion h)
      (Node.read_jump target)
  | stray marker pos =>
    rw [Node.lines, Node.settle, pushAll_singleton, ← hstray marker pos rfl]
    exact line_marker hskip marker

/-- What the innermost of the open blocks is. -/
def innermost : List Frame → BlockRole
  | [] => .body
  | f :: _ => if f.first.isNone then .first else .second

/-- What the block is to which statements are added. -/
def role (a : Assembly) : BlockRole := innermost a.frames

/-- A marker that no conditional takes is a statement. -/
theorem mark_of_shaped {m : Marker} {pos : Position} {last : Bool}
    (h : (Node.stray m pos).shaped a.role last = true) (pos' : Position) :
    a.mark m pos' = a.push (.stray m pos') := by
  rw [role] at h
  cases hframes : a.frames with
  | nil => cases m <;> simp [mark, hframes]
  | cons f fs =>
    rw [hframes] at h
    cases m with
    | close => cases hfirst : f.first <;> simp [Node.shaped, innermost, hfirst] at h
    | otherwise =>
      cases hfirst : f.first with
      | none => simp [Node.shaped, innermost, hfirst] at h
      | some nodes => simp [mark, hframes, hfirst]

/-- Opens the second branch of a conditional whose first one holds `ns`. -/
def openSecond (a : Assembly) (guard : Expr) (ns : List Node) : Assembly :=
  { a with nodes := #[], frames := ⟨guard, .unplaced, a.nodes, some ns.toArray⟩ :: a.frames }

theorem mark_otherwise_first (guard : Expr) (ns : List Node) :
    ((a.openBlock guard .unplaced).pushAll ns).mark .otherwise .unplaced = a.openSecond guard ns := by
  simp [mark, openBlock, pushAll, openSecond]

theorem mark_close_first (guard : Expr) (ns : List Node) :
    ((a.openBlock guard .unplaced).pushAll ns).mark .close .unplaced
      = a.push (.conditional guard ns none .unplaced (some .unplaced)) := by
  simp [mark, openBlock, pushAll, closeBlock, push, Frame.toNode]

theorem mark_close_second (guard : Expr) (ns ms : List Node) :
    ((a.openSecond guard ns).pushAll ms).mark .close .unplaced
      = a.push (.conditional guard ns (some ms) .unplaced (some .unplaced)) := by
  simp [mark, openSecond, pushAll, closeBlock, push, Frame.toNode]

/-- From `a` to `a'` statements have been added, up to conditionals that are still open. -/
structure Settles (a a' : Assembly) (ns : List Node) : Prop where
  skipping : a'.skipping = none
  incidents : a'.incidents = a.incidents
  closed : closeAll a'.nodes a'.frames = closeAll (a.pushAll ns).nodes a.frames

/-- What is open at the end of the first branch is closed with the conditional. -/
theorem Settles.first {a' : Assembly} {guard : Expr} {ns : List Node}
    (h : Settles (a.openBlock guard .unplaced) a' ns) :
    Settles a a' [.conditional guard ns none .unplaced none] := by
  refine ⟨h.skipping, h.incidents, ?_⟩
  rw [h.closed, pushAll_singleton]
  simp [openBlock, pushAll, closeAll, push, Frame.toNode]

/-- What is open at the end of the second branch is closed with the conditional. -/
theorem Settles.second {a' : Assembly} {guard : Expr} {ns ms : List Node}
    (h : Settles (a.openSecond guard ns) a' ms) :
    Settles a a' [.conditional guard ns (some ms) .unplaced none] := by
  refine ⟨h.skipping, h.incidents, ?_⟩
  rw [h.closed, pushAll_singleton]
  simp [openSecond, pushAll, closeAll, push, Frame.toNode]

/-- The lines `ls` add the statements `ns`; if nothing may be left open they do nothing else. -/
structure Adds (a : Assembly) (last : Bool) (ls : List (List Token)) (ns : List Node) : Prop where
  settles : Settles a ((ls.map lineOf).foldl line a) ns
  exactly : last = false → (ls.map lineOf).foldl line a = a.pushAll ns

theorem adds_of_eq {last : Bool} {ls : List (List Token)} {ns : List Node} (hskip : a.skipping = none)
    (h : (ls.map lineOf).foldl line a = a.pushAll ns) : Adds a last ls ns :=
  ⟨by rw [h]; exact ⟨hskip, rfl, rfl⟩, fun _ => h⟩

theorem Adds.append {last : Bool} {ls ms : List (List Token)} {ns ks : List Node}
    (h : (ls.map lineOf).foldl line a = a.pushAll ns) (h' : Adds (a.pushAll ns) last ms ks) :
    Adds a last (ls ++ ms) (ns ++ ks) := by
  have hfold : ((ls ++ ms).map lineOf).foldl line a = (ms.map lineOf).foldl line (a.pushAll ns) := by
    rw [List.map_append, List.foldl_append, h]
  obtain ⟨⟨hskip, hincidents, hclosed⟩, hexact⟩ := h'
  constructor
  · rw [hfold]
    exact ⟨hskip, hincidents, by rw [hclosed, pushAll_append]; rfl⟩
  · intro hlast
    rw [hfold, hexact hlast, pushAll_append]

/-- A conditional without a second branch. -/
theorem adds_conditional_none (hskip : a.skipping = none) (hdepth : a.frames.length < maxNesting)
    {guard : Expr} (hguard : guard.Fits) {closing : Option Position} {ls : List (List Token)}
    {ns : List Node}
    (h : Adds (a.openBlock (guard.relocate .erase) .unplaced) closing.isNone ls ns) :
    Adds a closing.isNone
      (guardSpelling guard :: (ls ++ (closing.map fun _ => Marker.close.line).toList))
      [.conditional (guard.relocate .erase) ns none .unplaced (closing.map .erase)] := by
  have hopen := line_guard hskip hdepth hguard
  cases closing with
  | none =>
    refine ⟨?_, fun hlast => absurd hlast.symm Bool.false_ne_true⟩
    rw [Option.map_none, Option.toList_none, List.append_nil, List.map_cons, List.foldl_cons, hopen]
    exact h.settles.first
  | some pos =>
    refine adds_of_eq hskip ?_
    have hskip' : ((a.openBlock (guard.relocate .erase) .unplaced).pushAll ns).skipping = none := hskip
    rw [List.map_cons, List.foldl_cons, hopen, List.map_append, List.foldl_append, h.exactly rfl,
      pushAll_singleton]
    exact (line_marker hskip' .close).trans (mark_close_first _ ns)

/-- A conditional with two branches. -/
theorem adds_conditional_some (hskip : a.skipping = none) (hdepth : a.frames.length < maxNesting)
    {guard : Expr} (hguard : guard.Fits) {closing : Option Position} {ls ms : List (List Token)}
    {ns ks : List Node} (h : Adds (a.openBlock (guard.relocate .erase) .unplaced) false ls ns)
    (h' : Adds (a.openSecond (guard.relocate .erase) ns) closing.isNone ms ks) :
    Adds a closing.isNone
      (guardSpelling guard :: (ls ++ Marker.otherwise.line ::
        (ms ++ (closing.map fun _ => Marker.close.line).toList)))
      [.conditional (guard.relocate .erase) ns (some ks) .unplaced (closing.map .erase)] := by
  have hopen := line_guard hskip hdepth hguard
  have hskip' : ((a.openBlock (guard.relocate .erase) .unplaced).pushAll ns).skipping = none := hskip
  have hdivide : ((a.openBlock (guard.relocate .erase) .unplaced).pushAll ns).line
      (lineOf Marker.otherwise.line) = a.openSecond (guard.relocate .erase) ns :=
    (line_marker hskip' .otherwise).trans (mark_otherwise_first _ ns)
  have hfold : ∀ rest : List (List Token),
      ((guardSpelling guard :: (ls ++ Marker.otherwise.line :: rest)).map lineOf).foldl line a
        = (rest.map lineOf).foldl line (a.openSecond (guard.relocate .erase) ns) := by
    intro rest
    rw [List.map_cons, List.foldl_cons, hopen, List.map_append, List.foldl_append, h.exactly rfl,
      List.map_cons, List.foldl_cons, hdivide]
  cases closing with
  | none =>
    refine ⟨?_, fun hlast => absurd hlast.symm Bool.false_ne_true⟩
    rw [hfold, Option.map_none, Option.toList_none, List.append_nil]
    exact h'.settles.second
  | some pos =>
    refine adds_of_eq hskip ?_
    have hskip'' : ((a.openSecond (guard.relocate .erase) ns).pushAll ks).skipping = none := hskip
    rw [hfold, List.map_append, List.foldl_append, h'.exactly rfl, pushAll_singleton]
    exact (line_marker hskip'' .close).trans (mark_close_second _ ns ks)

/-- **A block is read back from its lines.** -/
theorem adds_linesAll {Q : Expr → Prop} (hQ : ∀ e, Q e → e.Fits) {ns : List Node} {last : Bool}
    (h : Node.Everywhere (Node.Writable Q) ns) (hshape : Node.shapedAll a.role last ns = true)
    (hskip : a.skipping = none) (hheight : a.frames.length + Node.heightAll ns ≤ maxNesting) :
    Adds a last (Node.linesAll ns) (Node.settleAll ns) := by
  induction ns using Node.body_induction generalizing a last with
  | nil => exact adds_of_eq hskip (pushAll_nil a).symm
  | leaf n ns hn ih =>
    obtain ⟨hhead, htail⟩ := Node.everywhere_cons.mp h
    rw [Node.everywhere_leaf hn] at hhead
    rw [Node.shapedAll, Bool.and_eq_true] at hshape
    rw [Node.heightAll] at hheight
    have hlines : (n.lines.map lineOf).foldl line a = a.pushAll n.settle := by
      refine lines_leaf hQ hskip hn hhead ?_
      rintro m pos rfl
      exact mark_of_shaped hshape.1 _
    rw [Node.linesAll, Node.settleAll]
    refine .append hlines (ih htail hshape.2 hskip ?_)
    show a.frames.length + _ ≤ _
    omega
  | conditional guard body otherwise opening closing ns ihBody ihBranch ih =>
    obtain ⟨hhead, htail⟩ := Node.everywhere_cons.mp h
    obtain ⟨hguard, hbody, hbranch⟩ := Node.everywhere_conditional.mp hhead
    rw [Node.shapedAll, Bool.and_eq_true] at hshape
    rw [Node.heightAll] at hheight
    -- Inside the conditional one more block is open, which the height accounts for.
    have hadds : Adds a closing.isNone (Node.conditional guard body otherwise opening closing).lines
        (Node.conditional guard body otherwise opening closing).settle := by
      cases otherwise with
      | none =>
        have hshape := hshape.1
        rw [Node.shaped, Bool.and_eq_true] at hshape
        rw [Node.height] at hheight
        rw [Node.lines, Node.settle]
        refine adds_conditional_none hskip (by omega) (hQ guard hguard) ?_
        refine ihBody hbody hshape.2 hskip ?_
        show a.frames.length + 1 + _ ≤ _
        omega
      | some branch =>
        have hshape := hshape.1
        rw [Node.shaped, Bool.and_eq_true, Bool.and_eq_true] at hshape
        rw [Node.height] at hheight
        rw [Node.lines, Node.settle]
        refine adds_conditional_some hskip (by omega) (hQ guard hguard) ?_ ?_
        · refine ihBody hbody hshape.1.2 hskip ?_
          show a.frames.length + 1 + _ ≤ _
          omega
        · refine ihBranch branch rfl (hbranch branch rfl) hshape.2 hskip ?_
          show a.frames.length + 1 + _ ≤ _
          omega
    rw [Node.linesAll, Node.settleAll]
    cases closing with
    | some pos =>
      refine .append (hadds.exactly rfl) (ih htail hshape.2 hskip ?_)
      show a.frames.length + _ ≤ _
      omega
    | none =>
      -- Without a closing marker nothing follows.
      have hlast := Node.last_of_shaped hshape.1
      rw [Bool.and_eq_true, List.isEmpty_iff] at hlast
      obtain ⟨rfl, rfl⟩ := hlast
      rw [Node.linesAll, Node.settleAll, List.append_nil, List.append_nil]
      exact hadds

/-- **The body of a passage is read back from its lines,** without an incident. -/
theorem ofLines_linesAll {Q : Expr → Prop} (hQ : ∀ e, Q e → e.Fits) {ns : List Node}
    (h : Node.Everywhere (Node.Writable Q) ns) (hshape : Node.shapedAll .body true ns = true)
    (hheight : Node.heightAll ns ≤ maxNesting) :
    (ofLines ((Node.linesAll ns).map lineOf)).body = Node.settleAll ns ∧
      (ofLines ((Node.linesAll ns).map lineOf)).incidents = #[] := by
  have hadds := adds_linesAll (a := .empty) hQ h hshape rfl (by
    show 0 + _ ≤ _
    omega)
  refine ⟨?_, hadds.settles.incidents⟩
  rw [body, ofLines, hadds.settles.closed]
  simp [pushAll, empty, closeAll]

end Assembly

end Gamebook
